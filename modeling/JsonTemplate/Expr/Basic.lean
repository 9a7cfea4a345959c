import JsonTemplate.Number.Style

namespace JsonTemplate

-- A range of byte offsets, the end not included.
structure Span where
  start : Nat
  stop : Nat
deriving DecidableEq, Repr, Inhabited

inductive UnaryOp where
  | negate
  | plus
  | not
deriving DecidableEq, Repr

inductive BinaryOp where
  | add
  | sub
  | mul
  | div
  | rem
  | less
  | lessOrEqual
  | greater
  | greaterOrEqual
  -- Equality after coercion.
  | eq
  | notEq
  -- Equality without coercion.
  | strictEq
  | strictNotEq
  | and
  | or
deriving DecidableEq, Repr

def UnaryOp.text : UnaryOp → String
  | negate => "-"
  | plus => "+"
  | not => "!"

def BinaryOp.text : BinaryOp → String
  | add => "+"
  | sub => "-"
  | mul => "*"
  | div => "/"
  | rem => "%"
  | less => "<"
  | lessOrEqual => "<="
  | greater => ">"
  | greaterOrEqual => ">="
  | eq => "=="
  | notEq => "!="
  | strictEq => "==="
  | strictNotEq => "!=="
  | and => "&&"
  | or => "||"

-- The greater the level, the tighter the operator binds.
def BinaryOp.level : BinaryOp → Nat
  | or => 1
  | and => 2
  | eq | notEq | strictEq | strictNotEq => 3
  | less | lessOrEqual | greater | greaterOrEqual => 4
  | add | sub => 5
  | mul | div | rem => 6

-- An expression whose nodes carry a note each: its place in the source, or nothing.
inductive Expr (α : Type) where
  | null (note : α)
  | bool (note : α) (b : Bool)
  | number (note : α) (x : Float)
  | string (note : α) (s : String)
  | array (note : α) (items : List (Expr α))
  | object (note : α) (entries : List (String × Expr α))
  | name (note : α) (name : String)
  | member (note : α) (target : Expr α) (key : String)
  | index (note : α) (target : Expr α) (key : Expr α)
  | call (note : α) (callee : Expr α) (args : List (Expr α))
  | unary (note : α) (op : UnaryOp) (operand : Expr α)
  | binary (note : α) (op : BinaryOp) (lhs rhs : Expr α)
  | conditional (note : α) (test yes no : Expr α)
deriving Inhabited

namespace Expr

variable {α β : Type}

def note : Expr α → α
  | null a | bool a _ | number a _ | string a _ | array a _ | object a _ | name a _ | member a _ _
  | index a _ _ | call a _ _ | unary a _ _ | binary a _ _ _ | conditional a _ _ _ => a

mutual

def map (f : α → β) : Expr α → Expr β
  | null a => null (f a)
  | bool a b => bool (f a) b
  | number a x => number (f a) x
  | string a s => string (f a) s
  | array a items => array (f a) (mapItems f items)
  | object a entries => object (f a) (mapEntries f entries)
  | name a n => name (f a) n
  | member a target key => member (f a) (map f target) key
  | index a target key => index (f a) (map f target) (map f key)
  | call a callee args => call (f a) (map f callee) (mapItems f args)
  | unary a op operand => unary (f a) op (map f operand)
  | binary a op lhs rhs => binary (f a) op (map f lhs) (map f rhs)
  | conditional a test yes no => conditional (f a) (map f test) (map f yes) (map f no)

def mapItems (f : α → β) : List (Expr α) → List (Expr β)
  | [] => []
  | item :: items => map f item :: mapItems f items

def mapEntries (f : α → β) : List (String × Expr α) → List (String × Expr β)
  | [] => []
  | (key, value) :: entries => (key, map f value) :: mapEntries f entries

end

-- The expression without its notes.
def erase (e : Expr α) : Expr Unit := e.map fun _ => ()

-- A short text for messages: access paths are shown, composite expressions only named.
def describe : Expr α → String
  | name _ n => n
  | member _ target key => target.describe ++ "." ++ key
  | index _ target _ => target.describe ++ "[...]"
  | call _ callee _ => callee.describe ++ "(...)"
  | null _ => "null"
  | bool _ b => if b then "true" else "false"
  | number _ x => Number.Style.plainly.write x
  | string _ s => "'" ++ s ++ "'"
  | array .. => "array literal"
  | object .. => "object literal"
  | unary .. | binary .. | conditional .. => "expression"

end Expr

end JsonTemplate
