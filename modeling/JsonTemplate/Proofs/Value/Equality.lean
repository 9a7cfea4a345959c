import JsonTemplate.Proofs.Value.Bare
import Mathlib.Data.List.Perm.Subperm

namespace JsonTemplate.Value

variable {items others : List Value} {f g : Fields Value}

theorem strictEq_array_iff : strictEq (array items) (array others) = true ↔
    items.length = others.length ∧ ∀ pair ∈ items.zip others, strictEq pair.1 pair.2 = true := by
  rw [strictEq]
  induction items generalizing others with
  | nil => cases others <;> simp [itemsEq]
  | cons item items ih =>
      cases others with
      | nil => simp [itemsEq]
      | cons other others =>
          rw [itemsEq, Bool.and_eq_true, ih, List.zip_cons_cons, List.forall_mem_cons, List.length_cons,
            List.length_cons, Nat.succ_inj]
          exact and_left_comm

theorem entriesEq_iff {entries : List (String × Value)} : entriesEq entries g = true ↔
    ∀ entry ∈ entries, ∃ other, g.get? entry.1 = some other ∧ strictEq entry.2 other = true := by
  induction entries with
  | nil => simp [entriesEq]
  | cons entry entries ih =>
      obtain ⟨key, value⟩ := entry
      rw [entriesEq, Bool.and_eq_true, ih, List.forall_mem_cons]
      cases g.get? key <;> simp

-- Objects are equal if they have the same keys, with equal values under them.
theorem strictEq_object_iff (hf : f.keys.Nodup) (hg : g.keys.Nodup) :
    strictEq (object f) (object g) = true ↔
      ∀ key, Option.Rel (fun v w => strictEq v w = true) (f.get? key) (g.get? key) := by
  rw [strictEq, Bool.and_eq_true, beq_iff_eq, entriesEq_iff]
  constructor
  · rintro ⟨hlength, hentries⟩ key
    have hsubset : f.keys ⊆ g.keys := by
      intro key hkey
      obtain ⟨entry, hmem, rfl⟩ := List.mem_map.mp hkey
      obtain ⟨other, hget, -⟩ := hentries entry hmem
      exact List.mem_map.mpr ⟨_, Fields.mem_of_get? hget, rfl⟩
    have hperm : f.keys.Perm g.keys :=
      (hf.subperm hsubset).perm_of_length_le (by simp [Fields.keys, hlength])
    cases hkey : f.get? key with
    | none =>
        have hnone : g.get? key = none := by
          rw [Fields.get?_eq_none_iff, ← hperm.mem_iff]
          exact Fields.get?_eq_none_iff.mp hkey
        rw [hnone]
        exact .none
    | some value =>
        obtain ⟨other, hget, heq⟩ := hentries _ (Fields.mem_of_get? hkey)
        rw [hget]
        exact .some heq
  · intro hrel
    have hkeys (key : String) : key ∈ f.keys ↔ key ∈ g.keys := by
      have hkey := hrel key
      rw [← Decidable.not_iff_not, ← Fields.get?_eq_none_iff, ← Fields.get?_eq_none_iff]
      generalize f.get? key = left at hkey
      generalize g.get? key = right at hkey
      cases hkey <;> simp
    refine ⟨?_, fun entry hmem => ?_⟩
    · have hperm := (List.perm_ext_iff_of_nodup hf hg).mpr hkeys
      simpa [Fields.keys] using hperm.length_eq
    · have hentry := hrel entry.1
      rw [Fields.get?_of_mem hf hmem] at hentry
      generalize g.get? entry.1 = right at hentry
      cases hentry with
      | some heq => exact ⟨_, rfl, heq⟩

-- The identity of an accessor that an object has under a key.
def identity? : Option Value → Option Nat
  | some (accessor identity _ _) => some identity
  | _ => none

-- Somewhere in two values, at the same place, stand objects of which one has an accessor that the other
-- has not.
inductive Clash : Value → Value → Prop
  | key {f g : Fields Value} {key : String} (hne : identity? (f.get? key) ≠ identity? (g.get? key)) :
      Clash (.object f) (.object g)
  | entry {f g : Fields Value} {key : String} {value other : Value} (hf : f.get? key = some value)
      (hg : g.get? key = some other) (hclash : Clash value other) : Clash (.object f) (.object g)
  | item {items others : List Value} {pair : Value × Value} (hmem : pair ∈ items.zip others)
      (hclash : Clash pair.1 pair.2) : Clash (.array items) (.array others)

theorem Clash.ne {value other : Value} (h : Clash value other) : value ≠ other := by
  induction h with
  | key hne =>
      intro heq
      cases heq
      exact hne rfl
  | entry hf hg _ ih =>
      intro heq
      cases heq
      rw [hf] at hg
      exact ih (Option.some.inj hg)
  | item hmem _ ih =>
      intro heq
      cases heq
      obtain ⟨position, hposition⟩ := List.mem_iff_getElem?.mp hmem
      obtain ⟨hvalue, hother⟩ := List.getElem?_zip_eq_some.mp hposition
      exact ih (Option.some.inj (hvalue.symm.trans hother))

theorem not_clash_object_iff : ¬Clash (object f) (object g) ↔
    ∀ key, identity? (f.get? key) = identity? (g.get? key) ∧
      ∀ value other, f.get? key = some value → g.get? key = some other → ¬Clash value other := by
  constructor
  · intro h key
    exact ⟨Decidable.byContradiction fun hne => h (.key hne),
      fun value other hf hg hclash => h (.entry hf hg hclash)⟩
  · intro h hclash
    cases hclash with
    | key hne => exact hne (h _).1
    | entry hf hg hclash => exact (h _).2 _ _ hf hg hclash

theorem not_clash_array_iff : ¬Clash (array items) (array others) ↔
    ∀ pair ∈ items.zip others, ¬Clash pair.1 pair.2 := by
  constructor
  · exact fun h pair hmem hclash => h (.item hmem hclash)
  · intro h hclash
    cases hclash with
    | item hmem hclash => exact h _ hmem hclash

theorem identity?_some {value : Value} (h : value.isAccessor = false) : identity? (some value) = none := by
  cases value <;> first | rfl | cases h

theorem strictEq_accessor_iff (identity : Nat) (name : String) (items : List Value) (other : Value) :
    strictEq (accessor identity name items) other = true ↔ identity? (some other) = some identity := by
  cases other with
  | accessor other _ _ =>
      rw [strictEq, beq_iff_eq, identity?, Option.some.injEq]
      exact eq_comm
  | _ => simp [strictEq, identity?]

theorem strictEq_of_isAccessor {value other : Value} (hvalue : value.isAccessor = false)
    (hother : other.isAccessor = true) : strictEq value other = false := by
  cases other <;> cases hother
  cases value <;> first | rfl | cases hvalue

-- Two entries under one key are equal if they are so without accessors, and are the same accessor if one
-- of them is an accessor.
theorem rel_bareSlot?_iff {left right : Option Value}
    (ih : ∀ value other, left = some value → right = some other → value.isAccessor = false →
      (strictEq value other = true ↔ strictEq value.bare other.bare = true ∧ ¬Clash value other)) :
    Option.Rel (fun v w => strictEq v w = true) left right ↔
      Option.Rel (fun v w => strictEq v w = true) (bareSlot? left) (bareSlot? right) ∧
        identity? left = identity? right ∧
        ∀ value other, left = some value → right = some other → ¬Clash value other := by
  cases left with
  | none =>
      cases right with
      | none => simp [identity?]
      | some other =>
          cases hother : other.isAccessor with
          | true =>
              cases other <;> cases hother
              simp [identity?]
          | false => simp [bareSlot?_some hother]
  | some value =>
      cases hvalue : value.isAccessor with
      | true =>
          cases value <;> cases hvalue
          cases right with
          | none => simp [identity?]
          | some other =>
              rw [Option.rel_some_some, strictEq_accessor_iff]
              constructor
              · intro hother
                cases other <;> cases hother
                exact ⟨.none, rfl, fun _ _ hvalue _ hclash => by cases hvalue; cases hclash⟩
              · rintro ⟨-, hidentity, -⟩
                exact hidentity.symm
      | false =>
          cases right with
          | none => simp [bareSlot?_some hvalue]
          | some other =>
              cases hother : other.isAccessor with
              | true =>
                  rw [Option.rel_some_some, strictEq_of_isAccessor hvalue hother, bareSlot?_some hvalue,
                    bareSlot?_some_of_accessor hother]
                  simp
              | false =>
                  rw [Option.rel_some_some, ih value other rfl rfl hvalue, bareSlot?_some hvalue,
                    bareSlot?_some hother, Option.rel_some_some, identity?_some hvalue, identity?_some hother]
                  simp

theorem strictEq_iff_of_eq {left right : Value} (hclash : ¬Clash left right)
    (hbare : strictEq left.bare right.bare = strictEq left right) :
    strictEq left right = true ↔ strictEq left.bare right.bare = true ∧ ¬Clash left right := by
  rw [hbare]
  exact (and_iff_left hclash).symm

-- Equality sees accessors, and nothing else of what makes values differ from their bare forms.
theorem strictEq_iff_bare {left right : Value} (hleft : left.Every fun object => object.keys.Nodup)
    (hright : right.Every fun object => object.keys.Nodup) :
    strictEq left right = true ↔ strictEq left.bare right.bare = true ∧ ¬Clash left right := by
  induction left using byParts generalizing right with
  | scalar left h =>
      refine strictEq_iff_of_eq (fun hclash => by cases hclash <;> cases h) ?_
      rw [bare_of_isScalar h]
      cases left <;> first | (cases right <;> rfl) | cases h
  | function f => exact strictEq_iff_of_eq (fun hclash => by cases hclash) (by cases right <;> rfl)
  | accessor identity name items _ =>
      exact strictEq_iff_of_eq (fun hclash => by cases hclash) (by cases right <;> rfl)
  | array items ih =>
      cases right with
      | array others =>
          have hitems := every_array_iff.mp hleft
          have hothers := every_array_iff.mp hright
          rw [bare, bare, bareItems_eq_map, bareItems_eq_map, strictEq_array_iff, strictEq_array_iff,
            not_clash_array_iff, List.length_map, List.length_map, List.zip_map, List.forall_mem_map, and_assoc,
            ← forall₂_and]
          refine and_congr_right fun _ => forall₂_congr fun pair hmem => ?_
          obtain ⟨hitem, hother⟩ := List.of_mem_zip hmem
          exact ih pair.1 hitem (hitems _ hitem) (hothers _ hother)
      | _ => exact strictEq_iff_of_eq (fun hclash => by cases hclash) rfl
  | object fields ih =>
      cases right with
      | object others =>
          obtain ⟨hkeys, hfields⟩ := every_object_iff.mp hleft
          obtain ⟨hkeys', hothers⟩ := every_object_iff.mp hright
          rw [bare, bare, strictEq_object_iff hkeys hkeys',
            strictEq_object_iff (hkeys.sublist (keys_bareEntries fields))
              (hkeys'.sublist (keys_bareEntries others)), not_clash_object_iff, ← forall_and]
          refine forall_congr' fun key => ?_
          rw [get?_bareEntries hkeys, get?_bareEntries hkeys']
          refine rel_bareSlot?_iff fun value other hvalue hother _ => ?_
          exact ih _ (Fields.mem_of_get? hvalue) (hfields key value hvalue) (hothers key other hother)
      | _ => exact strictEq_iff_of_eq (fun hclash => by cases hclash) rfl

theorem looseEq_eq_strictEq {left right : Value} (hleft : left.isScalar = false)
    (hright : right.isScalar = false) : looseEq left right = strictEq left right := by
  cases left <;> cases hleft <;> cases right <;> cases hright <;> rfl

-- A scalar is compared with the text or the number of the other value, which accessors do not change.
theorem looseEq_bare_of_scalar {left right : Value} (h : left.isScalar = true ∨ right.isScalar = true) :
    looseEq left.bare right.bare = looseEq left right := by
  have htext (items : List Value) : (array (bareItems items)).text = (array items).text :=
    text_bare (array items)
  have htext' (entries : List (String × Value)) : (object (bareEntries entries)).text = (object entries).text :=
    rfl
  rcases h with h | h
  · cases left <;> cases h <;> cases right <;> simp only [bare, looseEq, withoutBool, comparand, htext, htext']
  · cases right <;> cases h <;> cases left <;> simp only [bare, looseEq, withoutBool, comparand, htext, htext']

theorem looseEq_bare {left right : Value}
    (h : strictEq left.bare right.bare = strictEq left right) :
    looseEq left.bare right.bare = looseEq left right := by
  by_cases hscalar : left.isScalar = true ∨ right.isScalar = true
  · exact looseEq_bare_of_scalar hscalar
  · obtain ⟨hleft, hright⟩ := not_or.mp hscalar
    rw [Bool.not_eq_true] at hleft hright
    rw [looseEq_eq_strictEq (by rwa [isScalar_bare]) (by rwa [isScalar_bare]), h,
      looseEq_eq_strictEq hleft hright]

end JsonTemplate.Value

namespace JsonTemplate

-- The operators that compare for equality.
def BinaryOp.isEquality : BinaryOp → Bool
  | eq | notEq | strictEq | strictNotEq => true
  | _ => false

namespace Value

-- Operators do not see accessors, but for comparisons of values with different ones.
theorem applyBinary_bare {op : BinaryOp} {left right : Value}
    (hleft : left.Every fun object => object.keys.Nodup) (hright : right.Every fun object => object.keys.Nodup)
    (hclash : op.isEquality = true → strictEq left.bare right.bare = true → ¬Clash left right) :
    applyBinary op left.bare right.bare = (applyBinary op left right).bare := by
  have hstrict (hop : op.isEquality = true) : strictEq left.bare right.bare = strictEq left right := by
    rw [Bool.eq_iff_iff, strictEq_iff_bare hleft hright]
    exact ⟨fun heq => ⟨heq, hclash hop heq⟩, And.left⟩
  cases op with
  | add => exact add_bare left right
  | sub | mul | div | rem => simp only [applyBinary, toNumber_bare, bare]
  | less | lessOrEqual | greater | greaterOrEqual => simp only [applyBinary, order_bare, bare]
  | eq | notEq => simp only [applyBinary, looseEq_bare (hstrict rfl), bare]
  | strictEq | strictNotEq => simp only [applyBinary, hstrict rfl, bare]
  | and | or =>
      simp only [applyBinary, isTruthy_bare]
      split <;> rfl

end Value

end JsonTemplate
