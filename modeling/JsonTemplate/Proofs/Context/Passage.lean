import JsonTemplate.Proofs.Context.Accessors

namespace JsonTemplate.AccessorRule

variable {rule : AccessorRule}

theorem install_cases (rule : AccessorRule) (fields : Fields Value) (key : String) (items : List Value)
    (supply : Nat) :
    ((rule.overwrite = false ∧
        ∃ value, fields.get? (rule.namePrefix ++ key) = some value ∧ value.isAccessor = false) ∧
      (rule.install fields key items supply).1 = fields) ∨
    (rule.MayTake fields key ∧
      (rule.install fields key items supply).1 = fields.insert (rule.namePrefix ++ key)
        (.accessor supply (rule.namePrefix ++ key) items)) := by
  unfold install MayTake
  cases hget : fields.get? (rule.namePrefix ++ key) with
  | none => exact .inr ⟨.inr (by simp), by simp [hget]⟩
  | some value =>
      cases hoverwrite : rule.overwrite with
      | true => exact .inr ⟨.inl rfl, by cases value <;> simp [hget]⟩
      | false =>
          cases value with
          | accessor => exact .inr ⟨.inr (by simp [Value.isAccessor]), by simp [hget]⟩
          | _ => exact .inl ⟨⟨rfl, _, rfl, rfl⟩, by simp [hget]⟩

theorem augmentValue_of_flat {value : Value} (hflat : value.IsFlat) (supply : Nat) :
    rule.augmentValue value supply = (value, supply) := by
  cases value with
  | array items => exact absurd rfl (hflat.1 items)
  | object entries => exact absurd rfl (hflat.2 entries)
  | _ => rfl

theorem augmentEntries_of_flat {value : Value} (hflat : value.IsFlat) (key : String)
    (entries : List (String × Value)) (fields : Fields Value) (supply : Nat) :
    rule.augmentEntries ((key, value) :: entries) fields supply =
      rule.augmentEntries entries fields supply := by
  cases value with
  | array items => exact absurd rfl (hflat.1 items)
  | object entries => exact absurd rfl (hflat.2 entries)
  | _ => rfl

-- What augmentation makes of a value, whatever identities the accessors in it take.
def Augments (rule : AccessorRule) (old new : Value) : Prop := ∃ supply, new = (rule.augmentValue old supply).1

theorem augments_of_flat {value : Value} (hflat : value.IsFlat) : rule.Augments value value :=
  ⟨0, by rw [augmentValue_of_flat hflat]⟩

theorem Augments.eq_of_isFlat {old new : Value} (h : rule.Augments old new) (hflat : old.IsFlat) : new = old := by
  obtain ⟨supply, rfl⟩ := h
  rw [augmentValue_of_flat hflat]

theorem augments_of_getElem?_augmentItems {items : List Value} {supply position : Nat} {new : Value}
    (h : (rule.augmentItems items supply).1[position]? = some new) :
    ∃ old, items[position]? = some old ∧ rule.Augments old new := by
  induction items generalizing supply position with
  | nil => cases h
  | cons item items ih =>
      cases position with
      | zero =>
          cases h
          exact ⟨item, rfl, supply, rfl⟩
      | succ position => exact ih h

theorem Augments.array {items : List Value} {new : Value} (h : rule.Augments (.array items) new) :
    ∃ supply, new = .array (rule.augmentItems items supply).1 := by
  obtain ⟨supply, rfl⟩ := h
  exact ⟨supply, rfl⟩

theorem Augments.object {fields : Fields Value} {new : Value} (h : rule.Augments (.object fields) new) :
    ∃ supply, new = .object (rule.augmentEntries fields fields supply).1 := by
  obtain ⟨supply, rfl⟩ := h
  exact ⟨supply, rfl⟩

-- Only an array becomes an array, and only an object an object.
theorem Augments.of_array {old : Value} {items : List Value} (h : rule.Augments old (.array items)) :
    ∃ oldItems, old = .array oldItems := by
  obtain ⟨supply, h⟩ := h
  cases old <;> cases h
  exact ⟨_, rfl⟩

theorem Augments.of_object {old : Value} {fields : Fields Value} (h : rule.Augments old (.object fields)) :
    ∃ oldFields, old = .object oldFields := by
  obtain ⟨supply, h⟩ := h
  cases old <;> cases h
  exact ⟨_, rfl⟩

-- The passage through the entries of an object keeps what each of its steps keeps. An entry is left
-- alone when it has no parts or an accessor has taken its place. Else its value gives way to what
-- augmentation makes of it, and an array gets its accessor.
theorem augmentEntries_induction {motive : List (String × Value) → Fields Value → Prop}
    (skip : ∀ {key value entries fields}, motive ((key, value) :: entries) fields →
      value.IsFlat ∨ isReplaced fields key = true → motive entries fields)
    (object : ∀ {key inner entries fields new}, motive ((key, .object inner) :: entries) fields →
      isReplaced fields key = false → rule.Augments (.object inner) (.object new) →
      motive entries (fields.insert key (.object new)))
    (array : ∀ {key items entries fields newItems} (supply : Nat),
      motive ((key, .array items) :: entries) fields → isReplaced fields key = false →
      rule.Augments (.array items) (.array newItems) →
      motive entries (rule.install (fields.insert key (.array newItems)) key newItems supply).1)
    {entries : List (String × Value)} {fields : Fields Value} (h : motive entries fields) (supply : Nat) :
    motive [] (rule.augmentEntries entries fields supply).1 := by
  induction entries generalizing fields supply with
  | nil => exact h
  | cons entry entries ih =>
      obtain ⟨key, value⟩ := entry
      cases value with
      | array items =>
          rw [augmentEntries]
          split
          · rename_i hreplaced
            exact ih (skip h (.inr hreplaced)) supply
          · rename_i hplain
            exact ih (array _ h (Bool.eq_false_iff.mpr hplain) ⟨supply, rfl⟩) _
      | object inner =>
          rw [augmentEntries]
          split
          · rename_i hreplaced
            exact ih (skip h (.inr hreplaced)) supply
          · rename_i hplain
            exact ih (object h (Bool.eq_false_iff.mpr hplain) ⟨supply, rfl⟩) _
      | _ => exact ih (skip h (.inl (by constructor <;> nofun))) supply

-- An object on the passage through the entries that it had at the start. Those still to come are as
-- they were, or replaced by an accessor.
structure Passage (rule : AccessorRule) (start : Fields Value) (entries : List (String × Value))
    (fields : Fields Value) : Prop where
  distinct : (Fields.keys entries).Nodup
  source : ∀ {key : String} {value : Value}, (key, value) ∈ entries → start.get? key = some value
  pending : ∀ {key : String} {value : Value}, (key, value) ∈ entries →
    isReplaced fields key = false → fields.get? key = some value
  serves : ∀ {key : String}, key ∉ Fields.keys entries → rule.Serves fields key
  grown : ∀ {key : String} {value : Value}, key ∉ Fields.keys entries → fields.get? key = some value →
    value.isAccessor = false → ∃ old, start.get? key = some old ∧ rule.Augments old value

variable {start fields : Fields Value} {entries : List (String × Value)} {key : String}

theorem passage_self (hnodup : start.keys.Nodup) : rule.Passage start start start where
  distinct := hnodup
  source hmem := Fields.get?_of_mem hnodup hmem
  pending hmem _ := Fields.get?_of_mem hnodup hmem
  serves hkey _ hget := by rw [Fields.get?_eq_none_iff.mpr hkey] at hget; cases hget
  grown hkey hget := by rw [Fields.get?_eq_none_iff.mpr hkey] at hget; cases hget

-- The first entry is passed. Of the others some may give way to accessors, and arrays stay served.
theorem Passage.advance {old : Value} {fields' : Fields Value}
    (h : rule.Passage start ((key, old) :: entries) fields)
    (hothers : ∀ other, key ≠ other →
      fields'.get? other = fields.get? other ∨ isReplaced fields' other = true)
    (hserved : ∀ other, key ≠ other → rule.Serves fields other → rule.Serves fields' other)
    (hserves : rule.Serves fields' key)
    (hgrown : ∀ value, fields'.get? key = some value → value.isAccessor = false → rule.Augments old value) :
    rule.Passage start entries fields' where
  distinct := (List.nodup_cons.mp h.distinct).2
  source hmem := h.source (List.mem_cons_of_mem _ hmem)
  pending {other value} hmem hplain := by
    have hne : key ≠ other := by
      rintro rfl
      exact (List.nodup_cons.mp h.distinct).1 (List.mem_map.mpr ⟨_, hmem, rfl⟩)
    rcases hothers other hne with hsame | hreplaced
    · rw [isReplaced, hsame] at hplain
      rw [hsame]
      exact h.pending (List.mem_cons_of_mem _ hmem) hplain
    · rw [hreplaced] at hplain
      cases hplain
  serves {other} hother := by
    by_cases he : key = other
    · exact he ▸ hserves
    · exact hserved other he (h.serves (by simpa [Fields.keys, Ne.symm he] using hother))
  grown {other value} hother hget hplain := by
    by_cases he : key = other
    · subst he
      exact ⟨old, h.source List.mem_cons_self, hgrown value hget hplain⟩
    · rcases hothers other he with hsame | hreplaced
      · rw [hsame] at hget
        exact h.grown (by simpa [Fields.keys, Ne.symm he] using hother) hget hplain
      · rw [isReplaced, hget, Option.any_some, hplain] at hreplaced
        cases hreplaced

theorem Passage.skip {value : Value} (h : rule.Passage start ((key, value) :: entries) fields)
    (hskip : value.IsFlat ∨ isReplaced fields key = true) : rule.Passage start entries fields := by
  -- Either way no array stands at the key.
  have hfound {found : Value} (hget : fields.get? key = some found) :
      found.IsFlat ∧ (found.isAccessor = false → found = value) := by
    cases hreplaced : isReplaced fields key with
    | true =>
        rw [isReplaced, hget, Option.any_some] at hreplaced
        exact ⟨Value.isFlat_of_isAccessor hreplaced, fun hplain => by rw [hplain] at hreplaced; cases hreplaced⟩
    | false =>
        have hflat : value.IsFlat := hskip.resolve_right (by simp [hreplaced])
        rw [h.pending List.mem_cons_self hreplaced] at hget
        cases hget
        exact ⟨hflat, fun _ => rfl⟩
  refine h.advance (fun _ _ => .inl rfl) (fun _ _ => id) ?_ ?_
  · intro items hget
    exact absurd rfl ((hfound hget).1.1 items)
  · intro found hget hplain
    obtain ⟨hflat, hsame⟩ := hfound hget
    obtain rfl := hsame hplain
    exact augments_of_flat hflat

theorem Passage.object {inner new : Fields Value}
    (h : rule.Passage start ((key, .object inner) :: entries) fields) (hplain : isReplaced fields key = false)
    (hnew : rule.Augments (.object inner) (.object new)) :
    rule.Passage start entries (fields.insert key (.object new)) := by
  refine h.advance ?_ (fun other hne hother => hother.insert hne hplain rfl) ?_ ?_
  · intro other hne
    exact .inl (by rw [Fields.get?_insert, if_neg hne])
  · intro items hget
    rw [Fields.get?_insert, if_pos rfl] at hget
    cases hget
  · intro value hget _
    rw [Fields.get?_insert, if_pos rfl] at hget
    cases hget
    exact hnew

theorem Passage.array {items newItems : List Value} (supply : Nat)
    (h : rule.Passage start ((key, .array items) :: entries) fields) (hplain : isReplaced fields key = false)
    (hnew : rule.Augments (.array items) (.array newItems)) :
    rule.Passage start entries
      (rule.install (fields.insert key (.array newItems)) key newItems supply).1 := by
  have hother {other : String} (hne : key ≠ other) :
      (fields.insert key (.array newItems)).get? other = fields.get? other := by
    rw [Fields.get?_insert, if_neg hne]
  have hself : (fields.insert key (.array newItems)).get? key = some (.array newItems) := by
    rw [Fields.get?_insert, if_pos rfl]
  rcases rule.install_cases (fields.insert key (.array newItems)) key newItems supply with
    ⟨hkept, hinstall⟩ | ⟨-, hinstall⟩
  · rw [hinstall]
    refine h.advance (fun other hne => .inl (hother hne)) (fun other hne h => h.insert hne hplain rfl) ?_ ?_
    · exact fun _ _ => .inr hkept
    · intro value hget _
      rw [hself] at hget
      cases hget
      exact hnew
  · rw [hinstall]
    refine h.advance ?_ (fun other hne h => (h.insert hne hplain rfl).insert_accessor hne supply newItems) ?_ ?_
    · intro other hne
      rw [isReplaced_insert, Fields.get?_insert]
      split
      · exact .inr rfl
      · exact .inl (hother hne)
    · -- Without a prefix the accessor takes the place of its own array.
      intro others hget
      rw [Fields.get?_insert] at hget
      split at hget
      · cases hget
      · rw [hself] at hget
        cases hget
        exact .inl ⟨supply, by rw [Fields.get?_insert, if_pos rfl]⟩
    · intro value hget hvalue
      rw [Fields.get?_insert] at hget
      split at hget
      · cases hget
        cases hvalue
      · rw [hself] at hget
        cases hget
        exact hnew

-- An augmented object: its arrays are served, and its other entries have grown out of entries that
-- were there.
theorem passage_augmentEntries (hnodup : start.keys.Nodup) (supply : Nat) :
    rule.Passage start [] (rule.augmentEntries start start supply).1 :=
  augmentEntries_induction (motive := rule.Passage start) Passage.skip Passage.object Passage.array
    (passage_self hnodup) supply

end JsonTemplate.AccessorRule
