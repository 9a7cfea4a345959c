import JsonTemplate.Value.Equality

namespace JsonTemplate

-- The data and the functions that expressions see. Functions that the context makes itself take
-- their identities from its supply.
structure Context where
  entries : Fields Value
  supply : Nat

namespace Context

-- A context whose own functions will differ from all with a smaller identity.
def empty (supply : Nat) : Context := ⟨[], supply⟩

-- Why a JSON value is no context: it is of another kind.
structure NotAnObject where
  found : String
deriving DecidableEq, Repr

def NotAnObject.message (error : NotAnObject) : String :=
  "context must be a JSON object, found " ++ error.found

def ofJson (supply : Nat) (json : Json) : Except NotAnObject Context :=
  match Value.ofJson json with
  | .object entries => .ok ⟨entries, supply⟩
  | other => .error ⟨other.kind⟩

def get? (context : Context) (key : String) : Option Value := context.entries.get? key

def contains (context : Context) (key : String) : Bool := context.entries.contains key

def size (context : Context) : Nat := context.entries.length

def isEmpty (context : Context) : Bool := context.entries.isEmpty

def insert (context : Context) (key : String) (value : Value) : Context :=
  { context with entries := context.entries.insert key value }

def erase (context : Context) (key : String) : Context :=
  { context with entries := context.entries.erase key }

-- Appends to the array under a key, if there is one, and gives its new length.
def push? (context : Context) (key : String) (value : Value) : Option (Context × Nat) :=
  match context.get? key with
  | some (.array items) => some (context.insert key (.array (items ++ [value])), items.length + 1)
  | _ => none

-- Contexts are equal if their entries are, in any order.
def equal (a b : Context) : Bool := Value.strictEq (.object a.entries) (.object b.entries)

-- Adds the builtins whose names are free, and counts them.
def installBuiltins (context : Context) : Context × Nat :=
  Builtin.all.foldl
    (fun (context, installed) builtin =>
      if context.contains builtin.name then (context, installed)
      else
        let function := Value.function (.builtin context.supply builtin)
        ({ context.insert builtin.name function with supply := context.supply + 1 }, installed + 1))
    (context, 0)

end Context

end JsonTemplate
