import JsonTemplate.Proofs.Evaluation.Results

namespace JsonTemplate

section Outcomes

variable {ε α β : Type} {x : Except ε α} {b : β}

theorem exists_of_map_eq_ok {f : α → β} (h : x.map f = .ok b) : ∃ a, x = .ok a ∧ f a = b := by
  cases x with
  | error cause => cases h
  | ok a => exact ⟨a, rfl, Except.ok.inj h⟩

theorem exists_of_bind_eq_ok {f : α → Except ε β} (h : x >>= f = .ok b) : ∃ a, x = .ok a ∧ f a = .ok b := by
  cases x with
  | error cause => cases h
  | ok a => exact ⟨a, rfl, h⟩

end Outcomes

namespace Value

-- No object in the value has two entries with the same key, also among the items that accessors give
-- out. Readers and operations make no other values.
inductive WellFormed : Value → Prop
  | scalar {value : Value} (hscalar : value.isScalar = true) : WellFormed value
  | function (f : HostFunction) : WellFormed (.function f)
  | array {items : List Value} (hitems : ∀ item ∈ items, WellFormed item) : WellFormed (.array items)
  | object {fields : Fields Value} (hkeys : fields.keys.Nodup)
      (hentries : ∀ entry ∈ fields, WellFormed entry.2) : WellFormed (.object fields)
  | accessor {identity : Nat} {name : String} {items : List Value}
      (hitems : ∀ item ∈ items, WellFormed item) : WellFormed (.accessor identity name items)

theorem wellFormed_array_iff {items : List Value} :
    (array items).WellFormed ↔ ∀ item ∈ items, item.WellFormed := by
  constructor
  · intro h
    cases h with
    | scalar hscalar => cases hscalar
    | array hitems => exact hitems
  · exact .array

theorem wellFormed_object_iff {fields : Fields Value} :
    (object fields).WellFormed ↔ fields.keys.Nodup ∧ ∀ entry ∈ fields, entry.2.WellFormed := by
  constructor
  · intro h
    cases h with
    | scalar hscalar => cases hscalar
    | object hkeys hentries => exact ⟨hkeys, hentries⟩
  · rintro ⟨hkeys, hentries⟩
    exact .object hkeys hentries

theorem inherited_wellFormed : Inherited WellFormed where
  scalar _ h := .scalar h
  array _ h := .array h
  item _ h := wellFormed_array_iff.mp h
  object _ hkeys h := .object hkeys h
  entry _ h := (wellFormed_object_iff.mp h).2
  given _ _ _ h := by
    cases h with
    | scalar hscalar => cases hscalar
    | accessor hitems => exact hitems

theorem exists_of_itemsToJson_cons {item : Value} {items : List Value} {converted : List Json}
    (h : itemsToJson (item :: items) = .ok converted) :
    ∃ json rest, item.toJson = .ok json ∧ itemsToJson items = .ok rest ∧ converted = json :: rest := by
  rw [itemsToJson] at h
  obtain ⟨json, hitem, h⟩ := exists_of_bind_eq_ok h
  obtain ⟨rest, hrest, h⟩ := exists_of_bind_eq_ok h
  exact ⟨json, rest, hitem, hrest, (Except.ok.inj h).symm⟩

-- An accessor among the entries is left out.
theorem entriesToJson_cons_cases {key : String} {value : Value} {entries : List (String × Value)}
    {converted : List (String × Json)} (h : entriesToJson ((key, value) :: entries) = .ok converted) :
    (value.isAccessor = true ∧ entriesToJson entries = .ok converted) ∨
      ∃ json rest, value.toJson = .ok json ∧ entriesToJson entries = .ok rest ∧
        converted = (key, json) :: rest := by
  by_cases haccessor : value.isAccessor = true
  · cases value <;> cases haccessor
    exact .inl ⟨rfl, h⟩
  · rw [entriesToJson] at h
    · obtain ⟨json, hvalue, h⟩ := exists_of_bind_eq_ok h
      obtain ⟨rest, hrest, h⟩ := exists_of_bind_eq_ok h
      exact .inr ⟨json, rest, hvalue, hrest, (Except.ok.inj h).symm⟩
    · rintro identity name items rfl
      exact haccessor rfl

-- An object keeps the order of its keys, and loses some of them at most.
theorem keys_entriesToJson {entries : List (String × Value)} {converted : List (String × Json)}
    (h : entriesToJson entries = .ok converted) :
    (Fields.keys converted).Sublist (Fields.keys entries) := by
  induction entries generalizing converted with
  | nil =>
      cases h
      exact List.nil_sublist _
  | cons entry entries ih =>
      obtain ⟨-, hrest⟩ | ⟨json, rest, -, hrest, rfl⟩ := entriesToJson_cons_cases h
      · exact (ih hrest).cons entry.1
      · exact (ih hrest).cons_cons entry.1

mutual

-- What is well-formed becomes well-formed JSON.
theorem wellFormed_toJson {value : Value} {json : Json} (hvalue : value.WellFormed)
    (h : value.toJson = .ok json) : json.WellFormed := by
  cases value with
  | null | bool | string =>
      cases h
      exact Json.wellFormed_of_flat (by simp) (by simp)
  | number x =>
      rw [toJson, numberToJson] at h
      split at h
      · split at h
        · cases h
          split <;> exact Json.wellFormed_of_flat (by simp) (by simp)
        · cases h
          exact Json.wellFormed_of_flat (by simp) (by simp)
      · cases h
  | array items =>
      rw [toJson] at h
      obtain ⟨converted, hitems, rfl⟩ := exists_of_map_eq_ok h
      exact Json.wellFormed_array_iff.mpr (wellFormed_itemsToJson (wellFormed_array_iff.mp hvalue) hitems)
  | object entries =>
      rw [toJson] at h
      obtain ⟨converted, hentries, rfl⟩ := exists_of_map_eq_ok h
      obtain ⟨hkeys, hparts⟩ := wellFormed_object_iff.mp hvalue
      exact Json.wellFormed_object_iff.mpr
        ⟨hkeys.sublist (keys_entriesToJson hentries), wellFormed_entriesToJson hparts hentries⟩
  | function | accessor => cases h

theorem wellFormed_itemsToJson {items : List Value} {converted : List Json}
    (hitems : ∀ item ∈ items, item.WellFormed) (h : itemsToJson items = .ok converted) :
    ∀ json ∈ converted, json.WellFormed := by
  cases items with
  | nil =>
      cases h
      exact List.forall_mem_nil _
  | cons item items =>
      obtain ⟨hitem, hitems⟩ := List.forall_mem_cons.mp hitems
      obtain ⟨json, rest, hjson, hrest, rfl⟩ := exists_of_itemsToJson_cons h
      exact List.forall_mem_cons.mpr ⟨wellFormed_toJson hitem hjson, wellFormed_itemsToJson hitems hrest⟩

theorem wellFormed_entriesToJson {entries : List (String × Value)} {converted : List (String × Json)}
    (hentries : ∀ entry ∈ entries, entry.2.WellFormed) (h : entriesToJson entries = .ok converted) :
    ∀ entry ∈ converted, entry.2.WellFormed := by
  cases entries with
  | nil =>
      cases h
      exact List.forall_mem_nil _
  | cons entry entries =>
      obtain ⟨key, value⟩ := entry
      obtain ⟨hvalue, hentries⟩ := List.forall_mem_cons.mp hentries
      obtain ⟨-, hrest⟩ | ⟨json, rest, hjson, hrest, rfl⟩ := entriesToJson_cons_cases h
      · exact wellFormed_entriesToJson hentries hrest
      · exact List.forall_mem_cons.mpr
          ⟨wellFormed_toJson hvalue hjson, wellFormed_entriesToJson hentries hrest⟩

end

end Value

end JsonTemplate
