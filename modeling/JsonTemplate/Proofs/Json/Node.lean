import JsonTemplate.Json.Basic

namespace JsonTemplate.Json

-- A node of a JSON value and the number of levels that it lies below the value's root.
inductive At : Json → Nat → Json → Prop
  | root {node : Json} : At node 0 node
  | entry {entries : List (String × Json)} {key : String} {child node : Json} {depth : Nat}
      (hmem : (key, child) ∈ entries) (hin : At child depth node) : At (.object entries) (depth + 1) node
  | item {items : List Json} {child node : Json} {depth : Nat}
      (hmem : child ∈ items) (hin : At child depth node) : At (.array items) (depth + 1) node

section

variable {P : List (String × Json) → Prop}

-- A property of all objects in a value, by the value's parts.
theorem forall_at_array_iff {items : List Json} :
    (∀ depth entries, (array items).At depth (.object entries) → P entries) ↔
      ∀ item ∈ items, ∀ depth entries, item.At depth (.object entries) → P entries := by
  constructor
  · intro h item hmem depth entries hin
    exact h (depth + 1) entries (.item hmem hin)
  · intro h depth entries hin
    cases hin with
    | item hmem hin => exact h _ hmem _ entries hin

theorem forall_at_object_iff {entries : List (String × Json)} :
    (∀ depth inner, (object entries).At depth (.object inner) → P inner) ↔
      P entries ∧ ∀ entry ∈ entries, ∀ depth inner, entry.2.At depth (.object inner) → P inner := by
  constructor
  · intro h
    exact ⟨h 0 entries .root, fun entry hmem depth inner hin => h (depth + 1) inner (.entry hmem hin)⟩
  · rintro ⟨hentries, h⟩ depth inner hin
    cases hin with
    | root => exact hentries
    | entry hmem hin => exact h _ hmem _ inner hin

theorem forall_at_of_flat {json : Json} (harray : ∀ items, json ≠ array items)
    (hobject : ∀ entries, json ≠ object entries) :
    ∀ depth entries, json.At depth (.object entries) → P entries := by
  intro depth entries hin
  cases hin with
  | root => exact absurd rfl (hobject _)
  | entry => exact absurd rfl (hobject _)
  | item => exact absurd rfl (harray _)

end

-- No object has two entries with the same key. Readers make no other values.
def WellFormed (json : Json) : Prop :=
  ∀ depth entries, json.At depth (.object entries) → (Fields.keys entries).Nodup

theorem WellFormed.item {items : List Json} {child : Json} (h : (array items).WellFormed)
    (hmem : child ∈ items) : child.WellFormed := by
  intro depth entries hin
  exact h (depth + 1) entries (.item hmem hin)

theorem WellFormed.entry {entries : List (String × Json)} {key : String} {child : Json}
    (h : (object entries).WellFormed) (hmem : (key, child) ∈ entries) : child.WellFormed := by
  intro depth inner hin
  exact h (depth + 1) inner (.entry hmem hin)

theorem WellFormed.keys_nodup {entries : List (String × Json)} (h : (object entries).WellFormed) :
    (Fields.keys entries).Nodup :=
  h 0 entries .root

theorem wellFormed_array_iff {items : List Json} :
    (array items).WellFormed ↔ ∀ child ∈ items, child.WellFormed :=
  forall_at_array_iff

theorem wellFormed_object_iff {entries : List (String × Json)} :
    (object entries).WellFormed ↔ (Fields.keys entries).Nodup ∧ ∀ entry ∈ entries, entry.2.WellFormed :=
  forall_at_object_iff

theorem wellFormed_of_flat {json : Json} (harray : ∀ items, json ≠ array items)
    (hobject : ∀ entries, json ≠ object entries) : json.WellFormed :=
  forall_at_of_flat harray hobject

end JsonTemplate.Json
