import JsonTemplate.Context.Augment
import JsonTemplate.Proofs.Value.Objects

namespace JsonTemplate.AccessorRule

theorem isReplaced_iff {fields : Fields Value} {key : String} :
    isReplaced fields key = true ↔ ∃ value, fields.get? key = some value ∧ value.isAccessor = true := by
  simp [isReplaced, Option.any_eq_true]

theorem isReplaced_insert (fields : Fields Value) (key other : String) (value : Value) :
    isReplaced (fields.insert key value) other =
      if key = other then value.isAccessor else isReplaced fields other := by
  unfold isReplaced
  rw [Fields.get?_insert]
  split <;> rfl

-- Accessors stand under their own names. The array that an accessor was made for stands beside it,
-- unless another accessor has replaced it or it was withdrawn.
structure Tidy (rule : AccessorRule) (withdrawn : String → Prop) (fields : Fields Value) : Prop where
  nodup : fields.keys.Nodup
  named : ∀ {name own : String} {identity : Nat} {items : List Value},
    fields.get? name = some (.accessor identity own items) →
      own = name ∧ ∃ key, name = rule.namePrefix ++ key
  beside : ∀ {key : String}, isReplaced fields (rule.namePrefix ++ key) = true →
    (∃ items, fields.get? key = some (.array items)) ∨
      (rule.overwrite = true ∧ isReplaced fields key = true) ∨ withdrawn key

-- The accessor of an array may take its name: it is free, an older accessor's, or that of an entry that is not
-- to stay.
def MayTake (rule : AccessorRule) (fields : Fields Value) (key : String) : Prop :=
  rule.overwrite = true ∨ ∀ value, fields.get? (rule.namePrefix ++ key) = some value → value.isAccessor = true

-- An array has an accessor for its items, unless the accessor's name is taken by an entry that stays.
def Serves (rule : AccessorRule) (fields : Fields Value) (key : String) : Prop :=
  ∀ items, fields.get? key = some (.array items) →
    (∃ identity, fields.get? (rule.namePrefix ++ key) =
      some (.accessor identity (rule.namePrefix ++ key) items)) ∨
    (rule.overwrite = false ∧
      ∃ value, fields.get? (rule.namePrefix ++ key) = some value ∧ value.isAccessor = false)

structure Fresh (rule : AccessorRule) (withdrawn : String → Prop) (fields : Fields Value) : Prop extends
    Tidy rule withdrawn fields where
  serves : ∀ key, rule.Serves fields key

-- Objects below the top are changed as a whole only.
def nothing : String → Prop := fun _ => False

variable {rule : AccessorRule} {withdrawn : String → Prop}

-- An array or an object takes the place of a value of its own kind.
theorem Tidy.insert {fields : Fields Value} {key : String} {old new : Value}
    (h : rule.Tidy withdrawn fields) (hold : fields.get? key = some old)
    (hplain : isReplaced fields key = false) (hnew : new.isAccessor = false)
    (harray : ∀ items, old = .array items → ∃ others, new = .array others) :
    rule.Tidy withdrawn (fields.insert key new) where
  nodup := Fields.keys_insert_nodup h.nodup key new
  named hget := by
    rw [Fields.get?_insert] at hget
    split at hget
    · cases hget
      cases hnew
    · exact h.named hget
  beside {other} hother := by
    rw [isReplaced_insert] at hother
    split at hother
    · rw [hnew] at hother
      cases hother
    · rw [Fields.get?_insert, isReplaced_insert]
      by_cases he : key = other
      · subst he
        rw [if_pos rfl, if_pos rfl]
        rcases h.beside hother with ⟨items, hget⟩ | ⟨-, hreplaced⟩ | hwithdrawn
        · rw [hold] at hget
          obtain ⟨others, rfl⟩ := harray items (Option.some.inj hget)
          exact .inl ⟨others, rfl⟩
        · rw [hplain] at hreplaced
          cases hreplaced
        · exact .inr (.inr hwithdrawn)
      · rw [if_neg he, if_neg he]
        exact h.beside hother

theorem Serves.insert {fields : Fields Value} {key other : String} {new : Value}
    (h : rule.Serves fields other) (hne : key ≠ other) (hplain : isReplaced fields key = false)
    (hnew : new.isAccessor = false) : rule.Serves (fields.insert key new) other := by
  intro items hget
  rw [Fields.get?_insert, if_neg hne] at hget
  rw [Fields.get?_insert]
  by_cases he : key = rule.namePrefix ++ other
  · rw [if_pos he]
    rcases h items hget with ⟨identity, hname⟩ | ⟨hkeep, -⟩
    · rw [← he] at hname
      rw [isReplaced, hname] at hplain
      cases hplain
    · exact .inr ⟨hkeep, new, rfl, hnew⟩
  · rw [if_neg he]
    exact h items hget

theorem length_lt_of_name (hpre : rule.namePrefix ≠ "") (key : String) :
    key.length < (rule.namePrefix ++ key).length := by
  have hpos : rule.namePrefix.length ≠ 0 := mt String.length_eq_zero_iff.mp hpre
  rw [String.length_append]
  omega

theorem name_ne (hpre : rule.namePrefix ≠ "") (key : String) : rule.namePrefix ++ key ≠ key :=
  fun h => Nat.ne_of_gt (length_lt_of_name hpre key) (congrArg String.length h)

theorem Tidy.insert_accessor (hpre : rule.namePrefix ≠ "") {fields : Fields Value} {key : String}
    {items : List Value} (h : rule.Tidy withdrawn fields) (hget : fields.get? key = some (.array items))
    (hfree : rule.MayTake fields key) (identity : Nat) :
    rule.Tidy withdrawn (fields.insert (rule.namePrefix ++ key)
      (.accessor identity (rule.namePrefix ++ key) items)) where
  nodup := Fields.keys_insert_nodup h.nodup _ _
  named {name _ _ _} hname := by
    rw [Fields.get?_insert] at hname
    split at hname
    · rename_i he
      cases hname
      exact ⟨he, key, he.symm⟩
    · exact h.named hname
  beside {other} hother := by
    rw [isReplaced_insert] at hother
    rw [Fields.get?_insert, isReplaced_insert]
    by_cases he : rule.namePrefix ++ key = rule.namePrefix ++ other
    · obtain rfl := (String.append_right_inj _).mp he
      rw [if_neg (name_ne hpre key)]
      exact .inl ⟨items, hget⟩
    · rw [if_neg he] at hother
      by_cases hname : rule.namePrefix ++ key = other
      · rw [if_pos hname, if_pos hname]
        rcases h.beside hother with ⟨others, harray⟩ | ⟨hoverwrite, -⟩ | hwithdrawn
        · rcases hfree with hoverwrite | hfree
          · exact .inr (.inl ⟨hoverwrite, rfl⟩)
          · rw [hname] at hfree
            cases hfree _ harray
        · exact .inr (.inl ⟨hoverwrite, rfl⟩)
        · exact .inr (.inr hwithdrawn)
      · rw [if_neg hname, if_neg hname]
        exact h.beside hother

theorem Serves.insert_accessor {fields : Fields Value} {key other : String}
    (h : rule.Serves fields other) (hne : key ≠ other) (identity : Nat) (items : List Value) :
    rule.Serves (fields.insert (rule.namePrefix ++ key)
      (.accessor identity (rule.namePrefix ++ key) items)) other := by
  intro others hget
  rw [Fields.get?_insert] at hget
  split at hget
  · cases hget
  · rw [Fields.get?_insert, if_neg fun he => hne ((String.append_right_inj _).mp he)]
    exact h others hget

end JsonTemplate.AccessorRule
