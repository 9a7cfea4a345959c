import JsonTemplate.Proofs.Value.Bare

namespace JsonTemplate

-- The name begins with the prefix of generated names.
def Reserved (namePrefix name : String) : Prop := ∃ key, name = namePrefix ++ key

theorem reserved_iff {namePrefix name : String} :
    Reserved namePrefix name ↔ namePrefix.toList <+: name.toList := by
  constructor
  · rintro ⟨key, rfl⟩
    rw [String.toList_append]
    exact List.prefix_append _ _
  · rintro ⟨key, hkey⟩
    refine ⟨String.ofList key, String.toList_injective ?_⟩
    rw [String.toList_append, String.toList_ofList, hkey]

instance (namePrefix name : String) : Decidable (Reserved namePrefix name) :=
  decidable_of_iff _ reserved_iff.symm

namespace Value

-- The functions in the value are accessors that stand in objects, under reserved names.
inductive Neat (namePrefix : String) : Value → Prop
  | scalar {value : Value} (hscalar : value.isScalar = true) : Neat namePrefix value
  | array {items : List Value} (hitems : ∀ item ∈ items, Neat namePrefix item) : Neat namePrefix (.array items)
  | object {fields : Fields Value} (hkeys : fields.keys.Nodup)
      (hnames : ∀ entry ∈ fields, entry.2.isAccessor = true → Reserved namePrefix entry.1)
      (hentries : ∀ entry ∈ fields, entry.2.isAccessor = false → Neat namePrefix entry.2) :
      Neat namePrefix (.object fields)

variable {namePrefix : String}

theorem Neat.isAccessor {value : Value} (h : value.Neat namePrefix) : value.isAccessor = false := by
  cases h with
  | scalar hscalar => exact isAccessor_of_isScalar hscalar
  | array | object => rfl

theorem neat_array_iff {items : List Value} :
    (array items).Neat namePrefix ↔ ∀ item ∈ items, item.Neat namePrefix := by
  constructor
  · intro h
    cases h with
    | scalar hscalar => cases hscalar
    | array hitems => exact hitems
  · exact .array

theorem Neat.every_nodup {value : Value} (h : value.Neat namePrefix) :
    value.Every fun object => object.keys.Nodup := by
  induction h with
  | scalar hscalar =>
      refine IsFlat.every ⟨?_, ?_⟩ <;> rintro _ rfl <;> cases hscalar
  | array _ ih => exact every_array_iff.mpr ih
  | object hkeys _ _ ih =>
      refine every_object_iff.mpr ⟨hkeys, fun key value hget => ?_⟩
      cases hvalue : value.isAccessor with
      | true => exact (isFlat_of_isAccessor hvalue).every
      | false => exact ih _ (Fields.mem_of_get? hget) hvalue

-- What is neat has neat parts under names that are not reserved, and they are there without accessors.
theorem Neat.get? {fields : Fields Value} (h : (Value.object fields).Neat namePrefix) {key : String}
    (hkey : ¬Reserved namePrefix key) :
    Fields.get? (bareEntries fields) key = (fields.get? key).map bare ∧
      ∀ value, fields.get? key = some value → value.Neat namePrefix := by
  cases h with
  | scalar hscalar => cases hscalar
  | object hkeys hnames hentries =>
      rw [get?_bareEntries hkeys]
      cases hget : fields.get? key with
      | none => exact ⟨rfl, nofun⟩
      | some value =>
          have hmem := Fields.mem_of_get? hget
          have hvalue : value.isAccessor = false :=
            Bool.eq_false_iff.mpr fun haccessor => hkey (hnames _ hmem haccessor)
          refine ⟨bareSlot?_some hvalue, fun found hfound => ?_⟩
          cases hfound
          exact hentries _ hmem hvalue

theorem Neat.itemAt {items : List Value} (h : (Value.array items).Neat namePrefix) (position : Nat) :
    (itemAt items position).Neat namePrefix := by
  rw [Value.itemAt]
  cases hget : items[position]? with
  | none => exact .scalar rfl
  | some item => exact neat_array_iff.mp h item (List.mem_of_getElem? hget)

theorem Neat.optionalItem {items : List Value} (h : (Value.array items).Neat namePrefix) (position? : Option Nat) :
    ((position?.map (Value.itemAt items)).getD null).Neat namePrefix := by
  cases position? with
  | none => exact .scalar rfl
  | some position => exact h.itemAt position

theorem Neat.member {target : Value} (h : target.Neat namePrefix) {key : String}
    (hkey : ¬Reserved namePrefix key) :
    target.bare.member key = (target.member key).map bare ∧
      ∀ value, target.member key = .ok value → value.Neat namePrefix := by
  have hneat : ∀ value, target.member key = .ok value → value.Neat namePrefix := by
    intro value hvalue
    cases target with
    | object fields =>
        cases hvalue
        cases hget : Fields.get? fields key with
        | none => exact .scalar rfl
        | some found => exact (h.get? hkey).2 found hget
    | array items =>
        rw [Value.member] at hvalue
        split at hvalue <;> cases hvalue
        · exact .scalar rfl
        · exact h.optionalItem _
    | string s =>
        cases hvalue
        split <;> exact .scalar rfl
    | null => cases hvalue
    | bool | number | function | accessor =>
        cases hvalue
        exact .scalar rfl
  exact ⟨member_bare h.every_nodup key fun value hvalue => (hneat value hvalue).isAccessor, hneat⟩

-- Numbers are keys of objects by their text.
theorem Neat.element {target : Value} (h : target.Neat namePrefix) (x : Float)
    (hkey : ∀ fields, target = .object fields → ¬Reserved namePrefix (number x).text) :
    target.bare.element (number x) = (target.element (number x)).map bare ∧
      ∀ value, target.element (number x) = .ok value → value.Neat namePrefix := by
  have hneat : ∀ value, target.element (number x) = .ok value → value.Neat namePrefix := by
    intro value hvalue
    cases target with
    | object fields => exact (h.member (hkey fields rfl)).2 value hvalue
    | array items =>
        cases hvalue
        exact h.optionalItem _
    | string s =>
        cases hvalue
        cases (Number.Binary64.natural? x).bind fun position => s.toList[position]? <;> exact .scalar rfl
    | null => cases hvalue
    | bool | number | function | accessor =>
        cases hvalue
        exact .scalar rfl
  exact ⟨element_bare h.every_nodup fun value hvalue => (hneat value hvalue).isAccessor, hneat⟩

end Value

end JsonTemplate
