import JsonTemplate.Proofs.Number.Integers
import JsonTemplate.Proofs.Value.Bare
import JsonTemplate.Proofs.Value.WellFormed

namespace JsonTemplate.Value

open Number

-- What stands in a value: the value itself, and what stands in its items and its entries. An accessor that
-- is an entry is passed over.
inductive Shows : Value → Value → Prop
  | itself (value : Value) : Shows value value
  | item {items : List Value} {item inner : Value} (hmem : item ∈ items) (hin : Shows item inner) :
      Shows (.array items) inner
  | entry {fields : Fields Value} {entry : String × Value} {inner : Value} (hmem : entry ∈ fields)
      (hplain : entry.2.isAccessor = false) (hin : Shows entry.2 inner) : Shows (.object fields) inner

-- The value is no function, and no number that is infinite or none.
def IsPlain : Value → Prop
  | number x => Binary64.parts x ≠ .nan ∧ ∀ negative, Binary64.parts x ≠ .infinite negative
  | function _ | accessor .. => False
  | _ => True

mutual

-- The same value, with numbers that are equal as numbers: a zero may have the other sign.
def Same : Value → Value → Prop
  | number x, number y => (x == y) = true
  | array items, array others => SameItems items others
  | object entries, object others => SameEntries entries others
  | value, other => value = other

-- As many items, each the same as its counterpart.
def SameItems : List Value → List Value → Prop
  | [], [] => True
  | item :: items, other :: others => Same item other ∧ SameItems items others
  | _, _ => False

-- The same keys in the same order.
def SameEntries : List (String × Value) → List (String × Value) → Prop
  | [], [] => True
  | (key, value) :: entries, (name, other) :: others => key = name ∧ Same value other ∧ SameEntries entries others
  | _, _ => False

end

section

variable {P : Value → Prop}

theorem forall_shows_array_iff {items : List Value} :
    (∀ inner, (array items).Shows inner → P inner) ↔
      P (array items) ∧ ∀ item ∈ items, ∀ inner, item.Shows inner → P inner := by
  constructor
  · intro h
    exact ⟨h _ (.itself _), fun item hmem inner hin => h inner (.item hmem hin)⟩
  · rintro ⟨hitself, hitems⟩ inner hin
    cases hin with
    | itself => exact hitself
    | item hmem hin => exact hitems _ hmem inner hin

theorem forall_shows_object_iff {fields : Fields Value} :
    (∀ inner, (object fields).Shows inner → P inner) ↔
      P (object fields) ∧
        ∀ entry ∈ fields, entry.2.isAccessor = false → ∀ inner, entry.2.Shows inner → P inner := by
  constructor
  · intro h
    exact ⟨h _ (.itself _), fun entry hmem hplain inner hin => h inner (.entry hmem hplain hin)⟩
  · rintro ⟨hitself, hentries⟩ inner hin
    cases hin with
    | itself => exact hitself
    | entry hmem hplain hin => exact hentries _ hmem hplain inner hin

theorem forall_shows_iff_of_isFlat {value : Value} (h : value.IsFlat) :
    (∀ inner, value.Shows inner → P inner) ↔ P value := by
  constructor
  · exact fun h => h value (.itself value)
  · intro hvalue inner hin
    cases hin with
    | itself => exact hvalue
    | item => exact absurd rfl (h.1 _)
    | entry => exact absurd rfl (h.2 _)

end

-- A number that has a JSON form comes back from it as an equal number.
theorem numberToJson_cases (x : Float) :
    (¬(number x).IsPlain ∧ ∃ cause, numberToJson x = .error cause) ∨
      (number x).IsPlain ∧ ∃ json, numberToJson x = .ok json ∧ (ofJson json).Same (number x) := by
  rw [numberToJson, IsPlain]
  cases hparts : Binary64.parts x with
  | nan => exact .inl ⟨fun h => h.1 rfl, _, rfl⟩
  | infinite negative => exact .inl ⟨fun h => h.2 negative rfl, _, rfl⟩
  | finite negative m q =>
      have hself : (x == x) = true := Float.beq_self_iff.mpr (Binary64.ne_nan_of_parts hparts)
      refine .inr ⟨⟨nofun, nofun⟩, ?_⟩
      cases hinteger : Binary64.integer? x with
      | none => exact ⟨_, rfl, hself⟩
      | some n =>
          by_cases hsafe : n.natAbs ≤ maxSafeInteger
          · exact ⟨.integer n, by simp only [if_pos hsafe], Binary64.ofInt_beq_of_integer? hinteger⟩
          · exact ⟨.double x, by simp only [if_neg hsafe], hself⟩

theorem exists_itemsToJson_cons_iff {item : Value} {items : List Value} :
    (∃ converted, itemsToJson (item :: items) = .ok converted) ↔
      (∃ json, item.toJson = .ok json) ∧ ∃ rest, itemsToJson items = .ok rest := by
  constructor
  · rintro ⟨converted, h⟩
    obtain ⟨json, rest, hitem, hrest, -⟩ := exists_of_itemsToJson_cons h
    exact ⟨⟨json, hitem⟩, rest, hrest⟩
  · rintro ⟨⟨json, hitem⟩, rest, hrest⟩
    refine ⟨json :: rest, ?_⟩
    rw [itemsToJson, hitem, hrest]
    rfl

theorem entriesToJson_cons_of_accessor {value : Value} (h : value.isAccessor = true) (key : String)
    (entries : List (String × Value)) : entriesToJson ((key, value) :: entries) = entriesToJson entries := by
  cases value <;> first | rfl | cases h

theorem entriesToJson_cons {value : Value} (h : value.isAccessor = false) (key : String)
    (entries : List (String × Value)) :
    entriesToJson ((key, value) :: entries) =
      value.toJson >>= fun json => entriesToJson entries >>= fun rest => .ok ((key, json) :: rest) := by
  cases value <;> first | rfl | cases h

theorem exists_entriesToJson_cons_iff {value : Value} (h : value.isAccessor = false) {key : String}
    {entries : List (String × Value)} :
    (∃ converted, entriesToJson ((key, value) :: entries) = .ok converted) ↔
      (∃ json, value.toJson = .ok json) ∧ ∃ rest, entriesToJson entries = .ok rest := by
  constructor
  · rintro ⟨converted, hconverted⟩
    obtain ⟨haccessor, -⟩ | ⟨json, rest, hvalue, hrest, -⟩ := entriesToJson_cons_cases hconverted
    · rw [h] at haccessor
      cases haccessor
    · exact ⟨⟨json, hvalue⟩, rest, hrest⟩
  · rintro ⟨⟨json, hvalue⟩, rest, hrest⟩
    refine ⟨(key, json) :: rest, ?_⟩
    rw [entriesToJson_cons h, hvalue, hrest]
    rfl

theorem exists_map_iff {ε α β : Type} {x : Except ε α} {f : α → β} :
    (∃ b, x.map f = .ok b) ↔ ∃ a, x = .ok a := by
  cases x with
  | error cause => exact ⟨nofun, nofun⟩
  | ok a => exact ⟨fun _ => ⟨a, rfl⟩, fun _ => ⟨f a, rfl⟩⟩

mutual

-- A value has a JSON form unless there is something in it that has none.
theorem exists_toJson_iff (value : Value) :
    (∃ json, value.toJson = .ok json) ↔ ∀ inner, value.Shows inner → inner.IsPlain := by
  cases value with
  | null | bool | string =>
      rw [forall_shows_iff_of_isFlat ⟨by simp, by simp⟩]
      exact iff_of_true ⟨_, rfl⟩ trivial
  | number x =>
      rw [forall_shows_iff_of_isFlat ⟨by simp, by simp⟩, toJson]
      rcases numberToJson_cases x with ⟨hplain, cause, hcause⟩ | ⟨hplain, json, hjson, -⟩
      · rw [hcause]
        exact iff_of_false nofun hplain
      · exact iff_of_true ⟨json, hjson⟩ hplain
  | array items =>
      rw [toJson, exists_map_iff, forall_shows_array_iff, exists_itemsToJson_iff items]
      exact (and_iff_right trivial).symm
  | object entries =>
      rw [toJson, exists_map_iff, forall_shows_object_iff, exists_entriesToJson_iff entries]
      exact (and_iff_right trivial).symm
  | function | accessor =>
      rw [forall_shows_iff_of_isFlat ⟨by simp, by simp⟩]
      exact iff_of_false nofun id

theorem exists_itemsToJson_iff (items : List Value) :
    (∃ converted, itemsToJson items = .ok converted) ↔
      ∀ item ∈ items, ∀ inner, item.Shows inner → inner.IsPlain := by
  cases items with
  | nil => exact iff_of_true ⟨[], rfl⟩ (List.forall_mem_nil _)
  | cons item items =>
      rw [exists_itemsToJson_cons_iff, exists_toJson_iff item, exists_itemsToJson_iff items, List.forall_mem_cons]

theorem exists_entriesToJson_iff (entries : List (String × Value)) :
    (∃ converted, entriesToJson entries = .ok converted) ↔
      ∀ entry ∈ entries, entry.2.isAccessor = false → ∀ inner, entry.2.Shows inner → inner.IsPlain := by
  cases entries with
  | nil => exact iff_of_true ⟨[], rfl⟩ (List.forall_mem_nil _)
  | cons entry entries =>
      obtain ⟨key, value⟩ := entry
      rw [List.forall_mem_cons, ← exists_entriesToJson_iff entries]
      cases hvalue : value.isAccessor with
      | true =>
          rw [entriesToJson_cons_of_accessor hvalue]
          exact (and_iff_right nofun).symm
      | false =>
          rw [exists_entriesToJson_cons_iff hvalue, exists_toJson_iff value]
          exact and_congr_left' ⟨fun h _ => h, fun h => h rfl⟩

end

mutual

-- Read back from its JSON form, a value is the same without its accessors.
theorem same_toJson {value : Value} {json : Json} (h : value.toJson = .ok json) :
    (ofJson json).Same value.bare := by
  cases value with
  | null | bool | string =>
      cases h
      rfl
  | number x =>
      rw [toJson] at h
      rcases numberToJson_cases x with ⟨-, cause, hcause⟩ | ⟨-, found, hfound, hsame⟩
      · rw [hcause] at h
        cases h
      · rw [hfound] at h
        cases h
        exact hsame
  | array items =>
      rw [toJson] at h
      obtain ⟨converted, hitems, rfl⟩ := exists_of_map_eq_ok h
      exact sameItems_toJson hitems
  | object entries =>
      rw [toJson] at h
      obtain ⟨converted, hentries, rfl⟩ := exists_of_map_eq_ok h
      exact sameEntries_toJson hentries
  | function | accessor => cases h

theorem sameItems_toJson {items : List Value} {converted : List Json} (h : itemsToJson items = .ok converted) :
    SameItems (itemsOfJson converted) (bareItems items) := by
  cases items with
  | nil =>
      cases h
      exact trivial
  | cons item items =>
      obtain ⟨json, rest, hitem, hrest, rfl⟩ := exists_of_itemsToJson_cons h
      exact ⟨same_toJson hitem, sameItems_toJson hrest⟩

theorem sameEntries_toJson {entries : List (String × Value)} {converted : List (String × Json)}
    (h : entriesToJson entries = .ok converted) : SameEntries (entriesOfJson converted) (bareEntries entries) := by
  cases entries with
  | nil =>
      cases h
      exact trivial
  | cons entry entries =>
      obtain ⟨key, value⟩ := entry
      cases hvalue : value.isAccessor with
      | true =>
          rw [entriesToJson_cons_of_accessor hvalue] at h
          rw [bareEntries_cons_of_accessor hvalue]
          exact sameEntries_toJson h
      | false =>
          obtain ⟨haccessor, -⟩ | ⟨json, rest, hjson, hrest, rfl⟩ := entriesToJson_cons_cases h
          · rw [hvalue] at haccessor
            cases haccessor
          · rw [bareEntries_cons hvalue]
            exact ⟨rfl, same_toJson hjson, sameEntries_toJson hrest⟩

end

mutual

-- Accessors do not show in the JSON form.
theorem toJson_bare (value : Value) : value.bare.toJson = value.toJson := by
  cases value with
  | array items => rw [bare, toJson, toJson, itemsToJson_bareItems items]
  | object entries => rw [bare, toJson, toJson, entriesToJson_bareEntries entries]
  | _ => rfl

theorem itemsToJson_bareItems (items : List Value) : itemsToJson (bareItems items) = itemsToJson items := by
  cases items with
  | nil => rfl
  | cons item items =>
      rw [bareItems, itemsToJson, itemsToJson, toJson_bare item, itemsToJson_bareItems items]

theorem entriesToJson_bareEntries (entries : List (String × Value)) :
    entriesToJson (bareEntries entries) = entriesToJson entries := by
  cases entries with
  | nil => rfl
  | cons entry entries =>
      obtain ⟨key, value⟩ := entry
      have ih := entriesToJson_bareEntries entries
      cases hplain : value.isAccessor with
      | true => rw [bareEntries_cons_of_accessor hplain, entriesToJson_cons_of_accessor hplain, ih]
      | false =>
          have hbare : value.bare.isAccessor = false := (isAccessor_bare value).trans hplain
          rw [bareEntries_cons hplain, entriesToJson_cons hplain, entriesToJson_cons hbare, toJson_bare value, ih]

end

-- A value has a JSON form exactly if there is neither NaN nor an infinity in it, and no function but accessors
-- that are entries of objects. The form is exact: read back it is the value without these accessors.
theorem toJson_exact (value : Value) :
    ((∃ json, value.toJson = .ok json) ↔ ∀ inner, value.Shows inner → inner.IsPlain) ∧
      ∀ json, value.toJson = .ok json → (ofJson json).Same value.bare :=
  ⟨exists_toJson_iff value, fun _ h => same_toJson h⟩

end JsonTemplate.Value
