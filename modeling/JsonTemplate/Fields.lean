namespace JsonTemplate

-- Entries of an object in the order in which their keys were first written. Readers and operations
-- of this module never write a key twice.
abbrev Fields (α : Type u) := List (String × α)

namespace Fields

variable {α : Type u} {β : Type v}

def keys (fields : Fields α) : List String := fields.map Prod.fst

def get? (fields : Fields α) (key : String) : Option α :=
  match fields with
  | [] => none
  | (k, v) :: rest => if k = key then some v else get? rest key

def contains (fields : Fields α) (key : String) : Bool := (fields.get? key).isSome

-- A known key keeps its place and takes the new value, a new key goes to the end.
def insert (fields : Fields α) (key : String) (value : α) : Fields α :=
  match fields with
  | [] => [(key, value)]
  | (k, v) :: rest => if k = key then (k, value) :: rest else (k, v) :: insert rest key value

-- The entries that stay keep their order.
def erase (fields : Fields α) (key : String) : Fields α :=
  fields.filter fun entry => entry.1 ≠ key

def ofList (entries : List (String × α)) : Fields α :=
  entries.foldl (fun fields entry => fields.insert entry.1 entry.2) []

def mapValues (f : α → β) (fields : Fields α) : Fields β :=
  fields.map fun entry => (entry.1, f entry.2)

@[simp] theorem get?_nil (key : String) : get? ([] : Fields α) key = none := rfl

theorem get?_cons (k : String) (v : α) (rest : Fields α) (key : String) :
    get? ((k, v) :: rest) key = if k = key then some v else get? rest key := rfl

theorem get?_eq_none_iff {fields : Fields α} {key : String} :
    fields.get? key = none ↔ key ∉ fields.keys := by
  induction fields with
  | nil => simp [keys]
  | cons entry rest ih =>
      obtain ⟨k, v⟩ := entry
      by_cases h : k = key
      · simp [get?_cons, h, keys]
      · simpa [get?_cons, h, Ne.symm h, keys] using ih

theorem get?_insert (fields : Fields α) (key other : String) (value : α) :
    (fields.insert key value).get? other = if key = other then some value else fields.get? other := by
  induction fields with
  | nil => simp [insert, get?]
  | cons entry rest ih =>
      obtain ⟨k, v⟩ := entry
      by_cases h : k = key
      · subst h; by_cases ho : k = other <;> simp [insert, get?, ho]
      · by_cases ho : k = other
        · subst ho; simp [insert, get?, h, Ne.symm h]
        · simp [insert, get?, h, ho, ih]

theorem get?_erase (fields : Fields α) (key other : String) :
    (fields.erase key).get? other = if key = other then none else fields.get? other := by
  induction fields with
  | nil => simp [erase]
  | cons entry rest ih =>
      obtain ⟨k, v⟩ := entry
      simp only [erase, ne_eq, decide_not] at ih ⊢
      by_cases h : k = key
      · subst h
        simp only [List.filter, decide_true, Bool.not_true, ih, get?_cons]
        split <;> rfl
      · simp only [List.filter, h, decide_false, Bool.not_false, get?_cons, ih]
        by_cases ho : k = other
        · subst ho; simp [Ne.symm h]
        · simp [ho]

theorem keys_insert (fields : Fields α) (key : String) (value : α) :
    (fields.insert key value).keys = if key ∈ fields.keys then fields.keys else fields.keys ++ [key] := by
  induction fields with
  | nil => simp [insert, keys]
  | cons entry rest ih =>
      obtain ⟨k, v⟩ := entry
      simp only [keys] at ih ⊢
      by_cases h : k = key
      · simp [insert, h]
      · by_cases hm : key ∈ List.map Prod.fst rest <;> simp [insert, h, Ne.symm h, ih, hm]

end Fields

end JsonTemplate
