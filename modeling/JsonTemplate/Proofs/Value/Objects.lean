import JsonTemplate.Proofs.Json.Node
import JsonTemplate.Value.Conversion

namespace JsonTemplate

namespace Fields

variable {α : Type}

theorem get?_of_mem {fields : Fields α} (hnodup : fields.keys.Nodup) {key : String} {value : α}
    (hmem : (key, value) ∈ fields) : fields.get? key = some value := by
  induction fields with
  | nil => cases hmem
  | cons entry rest ih =>
      obtain ⟨k, v⟩ := entry
      obtain ⟨hk, hrest⟩ := List.nodup_cons.mp hnodup
      rw [get?_cons]
      rcases List.mem_cons.mp hmem with hhead | htail
      · cases hhead
        rw [if_pos rfl]
      · have hne : k ≠ key := by
          rintro rfl
          exact hk (List.mem_map.mpr ⟨_, htail, rfl⟩)
        rw [if_neg hne]
        exact ih hrest htail

theorem mem_of_get? {fields : Fields α} {key : String} {value : α}
    (h : fields.get? key = some value) : (key, value) ∈ fields := by
  induction fields with
  | nil => cases h
  | cons entry rest ih =>
      obtain ⟨k, v⟩ := entry
      rw [get?_cons] at h
      split at h
      · rename_i hk
        cases h
        rw [hk]
        exact List.mem_cons_self
      · exact List.mem_cons_of_mem _ (ih h)

theorem forall_insert {P : α → Prop} {fields : Fields α}
    (h : ∀ key value, fields.get? key = some value → P value) {value : α} (hvalue : P value) (key : String) :
    ∀ other found, (fields.insert key value).get? other = some found → P found := by
  intro other found hget
  rw [get?_insert] at hget
  split at hget
  · cases hget
    exact hvalue
  · exact h other found hget

theorem ne_of_not_mem_keys {entries : List (String × α)} {key other : String} {value : α}
    (h : other ∉ keys ((key, value) :: entries)) : key ≠ other := by
  rintro rfl
  exact h List.mem_cons_self

theorem keys_insert_nodup {fields : Fields α} (h : fields.keys.Nodup) (key : String) (value : α) :
    (fields.insert key value).keys.Nodup := by
  rw [keys_insert]
  split
  · exact h
  · rename_i hkey
    refine List.nodup_append.mpr ⟨h, by simp, ?_⟩
    rintro k hk other hother rfl
    exact hkey (List.mem_singleton.mp hother ▸ hk)

theorem keys_erase_nodup {fields : Fields α} (h : fields.keys.Nodup) (key : String) :
    (fields.erase key).keys.Nodup :=
  h.sublist (List.filter_sublist.map Prod.fst)

end Fields

namespace Value

-- An object that stands in a value, reached through entries and items. The items that an accessor
-- gives out do not stand there.
inductive Reaches : Value → Fields Value → Prop
  | here {fields : Fields Value} : Reaches (.object fields) fields
  | entry {fields object : Fields Value} {key : String} {value : Value}
      (hget : fields.get? key = some value) (hin : Reaches value object) : Reaches (.object fields) object
  | item {items : List Value} {object : Fields Value} {value : Value}
      (hmem : value ∈ items) (hin : Reaches value object) : Reaches (.array items) object

-- A property of all objects in a value.
def Every (P : Fields Value → Prop) (value : Value) : Prop := ∀ object, value.Reaches object → P object

-- The value has no items and no entries.
def IsFlat (value : Value) : Prop := (∀ items, value ≠ .array items) ∧ ∀ fields, value ≠ .object fields

variable {P Q : Fields Value → Prop}

theorem Every.mono {value : Value} (h : value.Every P) (hPQ : ∀ object, P object → Q object) :
    value.Every Q :=
  fun object hin => hPQ object (h object hin)

theorem IsFlat.every {value : Value} (h : value.IsFlat) : value.Every P := by
  intro object hin
  cases hin with
  | here | entry => exact absurd rfl (h.2 _)
  | item => exact absurd rfl (h.1 _)

theorem isFlat_of_isAccessor {value : Value} (h : value.isAccessor = true) : value.IsFlat := by
  constructor <;> rintro _ rfl <;> cases h

-- The entry holds neither an array nor an object, as the cases of a passage through entries say it.
theorem isFlat_of_entry {key : String} {value : Value} (harray : ∀ k items, (key, value) = (k, .array items) → False)
    (hobject : ∀ k fields, (key, value) = (k, .object fields) → False) : value.IsFlat :=
  ⟨fun items heq => harray key items (heq ▸ rfl), fun fields heq => hobject key fields (heq ▸ rfl)⟩

theorem every_array_iff {items : List Value} :
    (Value.array items).Every P ↔ ∀ value ∈ items, value.Every P := by
  constructor
  · intro h value hmem object hin
    exact h object (.item hmem hin)
  · intro h object hin
    cases hin with
    | item hmem hin => exact h _ hmem object hin

theorem every_object_iff {fields : Fields Value} :
    (Value.object fields).Every P ↔
      P fields ∧ ∀ key value, fields.get? key = some value → value.Every P := by
  constructor
  · intro h
    exact ⟨h fields .here, fun key value hget object hin => h object (.entry hget hin)⟩
  · rintro ⟨hfields, hvalues⟩ object hin
    cases hin with
    | here => exact hfields
    | entry hget hin => exact hvalues _ _ hget object hin

theorem every_object_of_forall_mem {fields : Fields Value} (hfields : P fields)
    (h : ∀ entry ∈ fields, entry.2.Every P) : (Value.object fields).Every P :=
  every_object_iff.mpr ⟨hfields, fun _ _ hget => h _ (Fields.mem_of_get? hget)⟩

theorem keys_entriesOfJson (entries : List (String × Json)) :
    Fields.keys (entriesOfJson entries) = Fields.keys entries := by
  induction entries with
  | nil => rfl
  | cons entry rest ih => exact congrArg (entry.1 :: ·) ih

theorem mem_itemsOfJson {items : List Json} {value : Value} (h : value ∈ itemsOfJson items) :
    ∃ json ∈ items, value = ofJson json := by
  induction items with
  | nil => cases h
  | cons item rest ih =>
      rcases List.mem_cons.mp h with rfl | htail
      · exact ⟨item, List.mem_cons_self, rfl⟩
      · obtain ⟨json, hmem, rfl⟩ := ih htail
        exact ⟨json, List.mem_cons_of_mem _ hmem, rfl⟩

theorem exists_of_get?_entriesOfJson {entries : List (String × Json)} {key : String} {value : Value}
    (h : Fields.get? (entriesOfJson entries) key = some value) :
    ∃ json, (key, json) ∈ entries ∧ value = ofJson json := by
  induction entries with
  | nil => cases h
  | cons entry rest ih =>
      obtain ⟨k, json⟩ := entry
      rw [entriesOfJson, Fields.get?_cons] at h
      split at h
      · rename_i hk
        cases h
        exact ⟨json, by rw [hk]; exact List.mem_cons_self, rfl⟩
      · obtain ⟨other, hmem, rfl⟩ := ih h
        exact ⟨other, List.mem_cons_of_mem _ hmem, rfl⟩

theorem isAccessor_ofJson (json : Json) : (ofJson json).isAccessor = false := by
  cases json <;> rfl

-- The objects in the value of a JSON text are the values of its objects.
theorem every_ofJson_of_at {json : Json}
    (h : ∀ depth entries, json.At depth (.object entries) → P (entriesOfJson entries)) : (ofJson json).Every P := by
  intro object hin
  generalize hvalue : ofJson json = value at hin
  induction hin generalizing json with
  | here =>
      cases json <;> cases hvalue
      exact h 0 _ .root
  | entry hget _ ih =>
      cases json <;> cases hvalue
      obtain ⟨child, hmem, hchild⟩ := exists_of_get?_entriesOfJson hget
      exact ih (fun depth entries hin => h (depth + 1) entries (.entry hmem hin)) hchild.symm
  | item hmem _ ih =>
      cases json <;> cases hvalue
      obtain ⟨child, hmem, hchild⟩ := mem_itemsOfJson hmem
      exact ih (fun depth entries hin => h (depth + 1) entries (.item hmem hin)) hchild.symm

theorem every_ofJson {json : Json} (hjson : json.WellFormed)
    (h : ∀ entries, (Fields.keys entries).Nodup → P (entriesOfJson entries)) : (ofJson json).Every P :=
  every_ofJson_of_at fun depth entries hin => h entries (hjson depth entries hin)

end Value

end JsonTemplate
