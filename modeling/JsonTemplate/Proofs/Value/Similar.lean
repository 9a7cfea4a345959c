import JsonTemplate.Proofs.Value.Parts
import Mathlib.Data.List.Forall2
import Mathlib.Data.List.Zip
import Mathlib.Data.Option.Defs

namespace JsonTemplate.Value

-- The same value, but for the order of the entries of its objects and the identities of its accessors.
inductive Similar : Value → Value → Prop
  | plain {value : Value} (hflat : value.IsFlat) (hplain : value.isAccessor = false) : Similar value value
  | array {items others : List Value} (h : List.Forall₂ Similar items others) :
      Similar (.array items) (.array others)
  | object {f g : Fields Value} (h : ∀ key, Option.Rel Similar (f.get? key) (g.get? key)) :
      Similar (.object f) (.object g)
  | accessor {identity other : Nat} {name : String} {items others : List Value}
      (h : List.Forall₂ Similar items others) : Similar (.accessor identity name items) (.accessor other name others)

variable {f g : Fields Value} {items others : List Value}

theorem Similar.refl (value : Value) : value.Similar value := by
  induction value using byParts with
  | scalar value hscalar => exact .plain (isFlat_of_isScalar hscalar) (isAccessor_of_isScalar hscalar)
  | function f => exact .plain ⟨nofun, nofun⟩ rfl
  | array items ih => exact .array (List.forall₂_same.mpr ih)
  | object fields ih =>
      refine .object fun key => ?_
      cases hget : fields.get? key with
      | none => exact .none
      | some value => exact .some (ih _ (Fields.mem_of_get? hget))
  | accessor identity name items ih => exact .accessor (List.forall₂_same.mpr ih)

theorem forall₂_of_similar (h : (Value.array items).Similar (.array others)) : List.Forall₂ Similar items others := by
  cases h with
  | plain hflat => exact absurd rfl (hflat.1 items)
  | array h => exact h

theorem rel_get?_of_similar (h : (Value.object f).Similar (.object g)) (key : String) :
    Option.Rel Similar (f.get? key) (g.get? key) := by
  cases h with
  | plain hflat => exact absurd rfl (hflat.2 f)
  | object h => exact h key

theorem Similar.isAccessor_eq {value other : Value} (h : value.Similar other) :
    value.isAccessor = other.isAccessor := by
  cases h <;> rfl

theorem Similar.exists_array_iff {value other : Value} (h : value.Similar other) :
    (∃ items, value = .array items) ↔ ∃ items, other = .array items := by
  cases h <;> simp

theorem Similar.isFlat {value other : Value} (h : value.Similar other) (hflat : value.IsFlat) : other.IsFlat := by
  cases h with
  | plain => exact hflat
  | array => exact absurd rfl (hflat.1 _)
  | object => exact absurd rfl (hflat.2 _)
  | accessor => exact ⟨nofun, nofun⟩

theorem Similar.exists_object {other : Value} (h : (Value.object f).Similar other) : ∃ g, other = .object g := by
  cases h with
  | plain hflat => exact absurd rfl (hflat.2 f)
  | object => exact ⟨_, rfl⟩

-- Objects with the same keys are similar if the values under them are.
theorem similar_of_forall_mem (hkeys : f.keys.Perm g.keys)
    (h : ∀ entry ∈ f, ∀ other ∈ g, entry.1 = other.1 → entry.2.Similar other.2) :
    (object f).Similar (object g) := by
  refine .object fun key => ?_
  have hnone : f.get? key = none ↔ g.get? key = none := by
    rw [Fields.get?_eq_none_iff, Fields.get?_eq_none_iff, hkeys.mem_iff]
  cases hvalue : f.get? key with
  | none =>
      rw [hnone.mp hvalue]
      exact .none
  | some value =>
      cases hother : g.get? key with
      | none =>
          rw [hnone.mpr hother] at hvalue
          cases hvalue
      | some other => exact .some (h _ (Fields.mem_of_get? hvalue) _ (Fields.mem_of_get? hother) rfl)

-- In particular the entries of an object may change their order.
theorem similar_of_perm (hkeys : f.keys.Nodup) (h : f.Perm g) : (object f).Similar (object g) := by
  refine similar_of_forall_mem (h.map Prod.fst) fun entry hmem other hother hkey => ?_
  have hsame := (Fields.get?_of_mem hkeys hmem).symm.trans (hkey ▸ Fields.get?_of_mem hkeys (h.mem_iff.mpr hother))
  rw [Option.some.inj hsame]
  exact .refl _

-- Two objects that stand at the same place of two values.
inductive ReachesBoth : Value → Value → Fields Value → Fields Value → Prop
  | here {f g : Fields Value} : ReachesBoth (.object f) (.object g) f g
  | entry {f g f' g' : Fields Value} {key : String} {value other : Value} (hf : f.get? key = some value)
      (hg : g.get? key = some other) (hin : ReachesBoth value other f' g') :
      ReachesBoth (.object f) (.object g) f' g'
  | item {items others : List Value} {f g : Fields Value} {value other : Value}
      (hmem : (value, other) ∈ items.zip others) (hin : ReachesBoth value other f g) :
      ReachesBoth (.array items) (.array others) f g

-- A relation between all objects of two values that stand at the same place.
def EveryTwo (R : Fields Value → Fields Value → Prop) (value other : Value) : Prop :=
  ∀ f g, value.ReachesBoth other f g → R f g

variable {R : Fields Value → Fields Value → Prop}

theorem IsFlat.everyTwo {value : Value} (h : value.IsFlat) (other : Value) : value.EveryTwo R other := by
  intro f g hin
  cases hin with
  | here | entry => exact absurd rfl (h.2 _)
  | item => exact absurd rfl (h.1 _)

theorem everyTwo_array_iff :
    (array items).EveryTwo R (array others) ↔ ∀ pair ∈ items.zip others, pair.1.EveryTwo R pair.2 := by
  constructor
  · intro h pair hmem f g hin
    exact h f g (.item hmem hin)
  · intro h f g hin
    cases hin with
    | item hmem hin => exact h _ hmem f g hin

theorem everyTwo_object_iff :
    (object f).EveryTwo R (object g) ↔
      R f g ∧ ∀ key value other, f.get? key = some value → g.get? key = some other → value.EveryTwo R other := by
  constructor
  · intro h
    exact ⟨h f g .here, fun key value other hf hg f' g' hin => h f' g' (.entry hf hg hin)⟩
  · rintro ⟨hobjects, hvalues⟩ f' g' hin
    cases hin with
    | here => exact hobjects
    | entry hf hg hin => exact hvalues _ _ _ hf hg f' g' hin

theorem everyTwo_object_of_forall_mem (hobjects : R f g)
    (h : ∀ entry ∈ f, ∀ other ∈ g, entry.1 = other.1 → entry.2.EveryTwo R other.2) :
    (object f).EveryTwo R (object g) :=
  everyTwo_object_iff.mpr ⟨hobjects, fun _ _ _ hvalue hother =>
    h _ (Fields.mem_of_get? hvalue) _ (Fields.mem_of_get? hother) rfl⟩

end JsonTemplate.Value
