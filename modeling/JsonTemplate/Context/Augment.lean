import JsonTemplate.Context.Basic

namespace JsonTemplate

-- How accessors are named, and whether they replace other entries.
structure AccessorRule where
  namePrefix : String
  overwrite : Bool

namespace AccessorRule

-- Puts an accessor for the items of the array at a key into an object, unless its name is taken by
-- something that is to stay. An accessor that is there already is replaced. Every accessor that is
-- made takes the next identity of the supply.
def install (rule : AccessorRule) (fields : Fields Value) (key : String) (items : List Value)
    (supply : Nat) : Fields Value × Nat :=
  let name := rule.namePrefix ++ key
  let taken :=
    match fields.get? name with
    | some (.accessor ..) => false
    | some _ => !rule.overwrite
    | none => false
  if taken then (fields, supply) else (fields.insert name (.accessor supply name items), supply + 1)

-- Whether an accessor has taken the place of an entry that was none.
def isReplaced (fields : Fields Value) (key : String) : Bool := (fields.get? key).any Value.isAccessor

mutual

-- The arrays and objects within a value with the accessors for their arrays.
def augmentValue (rule : AccessorRule) : Value → Nat → Value × Nat
  | .array items, supply =>
      let (items, supply) := augmentItems rule items supply
      (.array items, supply)
  | .object entries, supply =>
      let (fields, supply) := augmentEntries rule entries entries supply
      (.object fields, supply)
  | value, supply => (value, supply)

def augmentItems (rule : AccessorRule) : List Value → Nat → List Value × Nat
  | [], supply => ([], supply)
  | item :: items, supply =>
      let (item, supply) := augmentValue rule item supply
      let (items, supply) := augmentItems rule items supply
      (item :: items, supply)

-- Goes through the entries that an object had at first and changes the object as it is by then. An
-- entry that an accessor has replaced meanwhile is left alone.
def augmentEntries (rule : AccessorRule) :
    List (String × Value) → Fields Value → Nat → Fields Value × Nat
  | [], fields, supply => (fields, supply)
  | (key, .array items) :: entries, fields, supply =>
      if isReplaced fields key then augmentEntries rule entries fields supply
      else
        let (items, supply) := augmentItems rule items supply
        let (fields, supply) := rule.install (fields.insert key (.array items)) key items supply
        augmentEntries rule entries fields supply
  | (key, .object inner) :: entries, fields, supply =>
      if isReplaced fields key then augmentEntries rule entries fields supply
      else
        let (inner, supply) := augmentEntries rule inner inner supply
        augmentEntries rule entries (fields.insert key (.object inner)) supply
  | _ :: entries, fields, supply => augmentEntries rule entries fields supply

end

end AccessorRule

-- Installs an accessor for every array under a key, at every level, and counts them.
def Context.augment (context : Context) (rule : AccessorRule) : Context × Nat :=
  let (entries, supply) := rule.augmentEntries context.entries context.entries context.supply
  (⟨entries, supply⟩, supply - context.supply)

end JsonTemplate
