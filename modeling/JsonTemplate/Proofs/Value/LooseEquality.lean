import Mathlib
import JsonTemplate.Proofs.Value.Equality

namespace JsonTemplate.Value

theorem float_beq_comm (x y : Float) : (x == y) = (y == x) := by
  rw [Bool.eq_iff_iff, Float.beq_iff_ne_nan_and_eq, Float.beq_iff_ne_nan_and_eq]
  constructor
  · rintro ⟨hx, hy, heq | hzero | hzero⟩
    · exact ⟨hy, hx, .inl heq.symm⟩
    · exact ⟨hy, hx, .inr (.inr hzero.symm)⟩
    · exact ⟨hy, hx, .inr (.inl hzero.symm)⟩
  · rintro ⟨hy, hx, heq | hzero | hzero⟩
    · exact ⟨hx, hy, .inl heq.symm⟩
    · exact ⟨hx, hy, .inr (.inr hzero.symm)⟩
    · exact ⟨hx, hy, .inr (.inl hzero.symm)⟩

-- Values that are equal without coercion are of one kind.
theorem kind_eq_of_strictEq {left right : Value} (h : strictEq left right = true) : left.kind = right.kind := by
  cases left <;> cases right <;> first | rfl | cases h

-- The order of the entries does not count for the equality of objects, so both of them are looked through
-- alike.
theorem strictEq_comm {left right : Value} (hleft : left.Every fun object => object.keys.Nodup)
    (hright : right.Every fun object => object.keys.Nodup) : strictEq left right = strictEq right left := by
  induction left using byParts generalizing right with
  | scalar left h =>
      cases left <;> cases h <;> cases right <;>
        first | rfl | exact float_beq_comm _ _ | exact Bool.beq_comm
  | function f =>
      cases right with
      | function g => exact BEq.comm
      | _ => rfl
  | accessor identity name items _ =>
      cases right with
      | accessor => exact BEq.comm
      | _ => rfl
  | array items ih =>
      cases right with
      | array others =>
          have hitems := every_array_iff.mp hleft
          have hothers := every_array_iff.mp hright
          rw [Bool.eq_iff_iff, strictEq_array_iff, strictEq_array_iff, ← List.zip_swap items others,
            List.forall_mem_map]
          refine and_congr eq_comm (forall₂_congr fun pair hmem => ?_)
          obtain ⟨hitem, hother⟩ := List.of_mem_zip hmem
          exact Bool.eq_iff_iff.mp (ih pair.1 hitem (hitems _ hitem) (hothers _ hother))
      | _ => rfl
  | object fields ih =>
      cases right with
      | object others =>
          obtain ⟨hkeys, hfields⟩ := every_object_iff.mp hleft
          obtain ⟨hkeys', hothers⟩ := every_object_iff.mp hright
          rw [Bool.eq_iff_iff, strictEq_object_iff hkeys hkeys', strictEq_object_iff hkeys' hkeys]
          refine forall_congr' fun key => ?_
          cases hvalue : fields.get? key with
          | none => cases Fields.get? others key <;> simp
          | some value =>
              cases hother : Fields.get? others key with
              | none => simp
              | some other =>
                  rw [Option.rel_some_some, Option.rel_some_some,
                    ih _ (Fields.mem_of_get? hvalue) (hfields key value hvalue) (hothers key other hother)]
      | _ => rfl

def isNullOrBool : Value → Bool
  | null | bool _ => true
  | _ => false

def isNumberOrText : Value → Bool
  | number _ | string _ => true
  | _ => false

def isCollection : Value → Bool
  | array _ | object _ => true
  | _ => false

-- How a comparison with coercion comes to its result. It compares two values as they are, or it replaces
-- one of them by what it counts as and starts again. The number says how often that is done.
inductive Compares : Nat → Value → Value → Bool → Prop
  | nulls : Compares 0 null null true
  | nullLeft {right : Value} (hright : right ≠ null) : Compares 0 null right false
  | nullRight {left : Value} (hleft : left ≠ null) : Compares 0 left null false
  | numbers (x y : Float) : Compares 0 (number x) (number y) (x == y)
  | texts (s t : String) : Compares 0 (string s) (string t) (s == t)
  | bools (a b : Bool) : Compares 0 (bool a) (bool b) (a == b)
  | numberText (x : Float) (t : String) : Compares 0 (number x) (string t) (x == numberOfText t)
  | textNumber (s : String) (y : Float) : Compares 0 (string s) (number y) (numberOfText s == y)
  | boolLeft {count : Nat} {a : Bool} {right : Value} {result : Bool} (hright : right.isNullOrBool = false)
      (h : Compares count (number (bool a).toNumber) right result) : Compares (count + 1) (bool a) right result
  | boolRight {count : Nat} {left : Value} {b : Bool} {result : Bool} (hleft : left.isNullOrBool = false)
      (h : Compares count left (number (bool b).toNumber) result) : Compares (count + 1) left (bool b) result
  | collectionLeft {count : Nat} {left right : Value} {result : Bool} (hleft : left.isCollection = true)
      (hright : right.isNumberOrText = true) (h : Compares count (string left.text) right result) :
      Compares (count + 1) left right result
  | collectionRight {count : Nat} {left right : Value} {result : Bool} (hleft : left.isNumberOrText = true)
      (hright : right.isCollection = true) (h : Compares count left (string right.text) result) :
      Compares (count + 1) left right result
  | collections {left right : Value} (hleft : left.isCollection = true) (hright : right.isCollection = true) :
      Compares 0 left right (strictEq left right)
  | functionLeft {left right : Value} (hleft : left.kind = "function") (hright : right.isNullOrBool = false) :
      Compares 0 left right (strictEq left right)
  | functionRight {left right : Value} (hleft : left.isNullOrBool = false) (hright : right.kind = "function") :
      Compares 0 left right (strictEq left right)

variable {count : Nat} {left right : Value} {result : Bool}

theorem Compares.symm (h : Compares count left right result)
    (hleft : left.Every fun object => object.keys.Nodup) (hright : right.Every fun object => object.keys.Nodup) :
    Compares count right left result := by
  have hnumber (x : Float) : (number x).Every fun object => object.keys.Nodup := IsFlat.every ⟨nofun, nofun⟩
  have htext (s : String) : (string s).Every fun object => object.keys.Nodup := IsFlat.every ⟨nofun, nofun⟩
  induction h with
  | nulls => exact .nulls
  | nullLeft hother => exact .nullRight hother
  | nullRight hother => exact .nullLeft hother
  | numbers x y => exact float_beq_comm x y ▸ .numbers y x
  | texts s t => exact (BEq.comm : (s == t) = (t == s)) ▸ .texts t s
  | bools a b => exact (BEq.comm : (a == b) = (b == a)) ▸ .bools b a
  | numberText x t => exact float_beq_comm x (numberOfText t) ▸ .textNumber t x
  | textNumber s y => exact float_beq_comm (numberOfText s) y ▸ .numberText y s
  | boolLeft hother _ ih => exact .boolRight hother (ih (hnumber _) hright)
  | boolRight hother _ ih => exact .boolLeft hother (ih hleft (hnumber _))
  | collectionLeft hcollection hother _ ih => exact .collectionRight hother hcollection (ih (htext _) hright)
  | collectionRight hother hcollection _ ih => exact .collectionLeft hcollection hother (ih hleft (htext _))
  | collections hfirst hsecond => exact strictEq_comm hleft hright ▸ .collections hsecond hfirst
  | functionLeft hfunction hother => exact strictEq_comm hleft hright ▸ .functionRight hother hfunction
  | functionRight hother hfunction => exact strictEq_comm hleft hright ▸ .functionLeft hfunction hother

-- Nothing is coerced between values of one kind.
theorem Compares.eq_strictEq (h : Compares count left right result) (hkind : left.kind = right.kind) :
    result = strictEq left right := by
  cases h with
  | nulls | numbers | texts | bools | collections | functionLeft | functionRight => rfl
  | nullLeft hright =>
      cases right with
      | null => exact absurd rfl hright
      | _ => rfl
  | nullRight hleft =>
      cases left with
      | null => exact absurd rfl hleft
      | _ => rfl
  | numberText | textNumber => simp [kind] at hkind
  | boolLeft hright => cases right <;> cases hright <;> simp [kind] at hkind
  | boolRight hleft => cases left <;> cases hleft <;> simp [kind] at hkind
  | collectionLeft hleft hright | collectionRight hleft hright =>
      cases left <;> cases hleft <;> cases right <;> cases hright <;> simp [kind] at hkind

theorem Compares.eq_looseEq (h : Compares count left right result) : result = looseEq left right := by
  induction h with
  | nulls | numbers | texts | numberText | textNumber => rfl
  | bools a b => cases a <;> cases b <;> decide
  | @nullLeft right hright =>
      cases right with
      | null => exact absurd rfl hright
      | _ => rfl
  | @nullRight left hleft =>
      cases left with
      | null => exact absurd rfl hleft
      | _ => rfl
  | @boolLeft _ a right _ hright _ ih =>
      rw [ih]
      cases right <;> cases hright <;> rfl
  | @boolRight _ left b _ hleft _ ih =>
      rw [ih]
      cases left <;> cases hleft <;> rfl
  | @collectionLeft _ left right _ hleft hright _ ih | @collectionRight _ left right _ hleft hright _ ih =>
      rw [ih]
      cases left <;> cases hleft <;> cases right <;> cases hright <;> rfl
  | @collections left right hleft hright => cases left <;> cases hleft <;> cases right <;> cases hright <;> rfl
  | @functionLeft left right hleft hright =>
      cases left with
      | function | accessor => cases right <;> cases hright <;> rfl
      | _ => simp [kind] at hleft
  | @functionRight left right hleft hright =>
      cases right with
      | function | accessor => cases left <;> cases hleft <;> rfl
      | _ => simp [kind] at hright

theorem numberOrText_or_collection_or_function {value : Value} (h : value.isNullOrBool = false) :
    value.isNumberOrText = true ∨ value.isCollection = true ∨ value.kind = "function" := by
  cases value with
  | null | bool => cases h
  | number | string => exact .inl rfl
  | array | object => exact .inr (.inl rfl)
  | function | accessor => exact .inr (.inr rfl)

theorem exists_compares_of_numberOrText (hleft : left.isNumberOrText = true) (hright : right.isNumberOrText = true) :
    ∃ result, Compares 0 left right result := by
  cases left <;> cases hleft <;> cases right <;> cases hright
  · exact ⟨_, .numbers _ _⟩
  · exact ⟨_, .numberText _ _⟩
  · exact ⟨_, .textNumber _ _⟩
  · exact ⟨_, .texts _ _⟩

-- The text of a collection is compared as it is.
theorem exists_compares_of_coerced (hleft : left.isNullOrBool = false) (hright : right.isNullOrBool = false) :
    ∃ count ≤ 1, ∃ result, Compares count left right result := by
  rcases numberOrText_or_collection_or_function hleft with hleft' | hleft' | hleft'
  · rcases numberOrText_or_collection_or_function hright with hright' | hright' | hright'
    · obtain ⟨result, h⟩ := exists_compares_of_numberOrText hleft' hright'
      exact ⟨0, Nat.zero_le 1, result, h⟩
    · have htext : (string right.text).isNumberOrText = true := rfl
      obtain ⟨result, h⟩ := exists_compares_of_numberOrText hleft' htext
      exact ⟨1, Nat.le_refl 1, result, .collectionRight hleft' hright' h⟩
    · exact ⟨0, Nat.zero_le 1, _, .functionRight hleft hright'⟩
  · rcases numberOrText_or_collection_or_function hright with hright' | hright' | hright'
    · have htext : (string left.text).isNumberOrText = true := rfl
      obtain ⟨result, h⟩ := exists_compares_of_numberOrText htext hright'
      exact ⟨1, Nat.le_refl 1, result, .collectionLeft hleft' hright' h⟩
    · exact ⟨0, Nat.zero_le 1, _, .collections hleft' hright'⟩
    · exact ⟨0, Nat.zero_le 1, _, .functionRight hleft hright'⟩
  · exact ⟨0, Nat.zero_le 1, _, .functionLeft hleft' hright⟩

theorem null_or_bool_or_coerced (value : Value) :
    value = null ∨ (∃ b, value = bool b) ∨ value.isNullOrBool = false := by
  cases value with
  | null => exact .inl rfl
  | bool b => exact .inr (.inl ⟨b, rfl⟩)
  | _ => exact .inr (.inr rfl)

-- A truth value first counts as a number.
theorem exists_compares (left right : Value) : ∃ count ≤ 2, ∃ result, Compares count left right result := by
  rcases null_or_bool_or_coerced left with rfl | ⟨a, rfl⟩ | hleft
  · by_cases hright : right = null
    · subst hright
      exact ⟨0, Nat.zero_le 2, true, .nulls⟩
    · exact ⟨0, Nat.zero_le 2, false, .nullLeft hright⟩
  · rcases null_or_bool_or_coerced right with rfl | ⟨b, rfl⟩ | hright
    · exact ⟨0, Nat.zero_le 2, false, .nullRight nofun⟩
    · exact ⟨0, Nat.zero_le 2, a == b, .bools a b⟩
    · have hnumber : (number (bool a).toNumber).isNullOrBool = false := rfl
      obtain ⟨count, hcount, result, h⟩ := exists_compares_of_coerced hnumber hright
      exact ⟨count + 1, Nat.succ_le_succ hcount, result, .boolLeft hright h⟩
  · rcases null_or_bool_or_coerced right with rfl | ⟨b, rfl⟩ | hright
    · have hnull : left ≠ null := by
        rintro rfl
        cases hleft
      exact ⟨0, Nat.zero_le 2, false, .nullRight hnull⟩
    · have hnumber : (number (bool b).toNumber).isNullOrBool = false := rfl
      obtain ⟨count, hcount, result, h⟩ := exists_compares_of_coerced hleft hnumber
      exact ⟨count + 1, Nat.succ_le_succ hcount, result, .boolRight hleft h⟩
    · obtain ⟨count, hcount, result, h⟩ := exists_compares_of_coerced hleft hright
      exact ⟨count, Nat.le_succ_of_le hcount, result, h⟩

-- Equality with coercion comes to a result after two coercions at most. It does not depend on the order of
-- the two values, holds of all that are equal without coercion, and coerces nothing between values of one kind.
theorem looseEq_extends_strictEq (left right : Value) (hleft : left.Every fun object => object.keys.Nodup)
    (hright : right.Every fun object => object.keys.Nodup) :
    (∃ count ≤ 2, Compares count left right (looseEq left right)) ∧
      (∀ count result, Compares count left right result → result = looseEq left right) ∧
      looseEq left right = looseEq right left ∧
      (strictEq left right = true → looseEq left right = true) ∧
      (left.kind = right.kind → looseEq left right = strictEq left right) := by
  obtain ⟨count, hcount, result, h⟩ := exists_compares left right
  obtain rfl := h.eq_looseEq
  have hsymm : looseEq left right = looseEq right left := (h.symm hleft hright).eq_looseEq
  refine ⟨⟨count, hcount, h⟩, fun _ _ h => h.eq_looseEq, hsymm, fun hstrict => ?_, h.eq_strictEq⟩
  rw [h.eq_strictEq (kind_eq_of_strictEq hstrict), hstrict]

-- The entries are in another order, and one zero is negative.
theorem looseEq_of_reordered :
    let left := object [("a", array [null, bool true]), ("b", number (Number.Binary64.zero false))]
    let right := object [("b", number (Number.Binary64.zero true)), ("a", array [null, bool true])]
    (left.Every fun object => object.keys.Nodup) ∧ (right.Every fun object => object.keys.Nodup) ∧
      strictEq left right = true ∧ looseEq left right = true ∧ looseEq right left = true := by
  intro left right
  have hzero (negative : Bool) :
      (number (Number.Binary64.zero negative)).Every fun object => object.keys.Nodup :=
    (isFlat_of_isScalar rfl).every
  have hitems : (array [null, bool true]).Every fun object => object.keys.Nodup := by
    refine every_array_iff.mpr (List.forall_mem_cons.mpr ⟨?_, List.forall_mem_singleton.mpr ?_⟩) <;>
      exact (isFlat_of_isScalar rfl).every
  have hleft : left.Every fun object => object.keys.Nodup :=
    every_object_of_forall_mem (by decide) (by simp [hitems, hzero])
  have hright : right.Every fun object => object.keys.Nodup :=
    every_object_of_forall_mem (by decide) (by simp [hitems, hzero])
  have hstrict : strictEq left right = true := by decide
  obtain ⟨-, -, hsymm, hextends, -⟩ := looseEq_extends_strictEq left right hleft hright
  exact ⟨hleft, hright, hstrict, hextends hstrict, hsymm.symm.trans (hextends hstrict)⟩

end JsonTemplate.Value
