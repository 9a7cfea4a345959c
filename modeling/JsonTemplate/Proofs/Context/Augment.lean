import JsonTemplate.Proofs.Context.Passage

namespace JsonTemplate.AccessorRule

-- An object while its entries are gone through. Those still to come are as they were at first, or
-- replaced by an accessor.
structure Underway (rule : AccessorRule) (withdrawn : String → Prop) (entries : List (String × Value))
    (fields : Fields Value) : Prop extends Tidy rule withdrawn fields where
  distinct : (Fields.keys entries).Nodup
  tidy : ∀ {key : String} {value : Value}, (key, value) ∈ entries → value.Every (rule.Tidy nothing)
  pending : ∀ {key : String} {value : Value}, (key, value) ∈ entries →
    isReplaced fields key = false → fields.get? key = some value
  serves : ∀ {key : String}, key ∉ Fields.keys entries → rule.Serves fields key
  fresh : ∀ {key : String} {value : Value}, key ∉ Fields.keys entries →
    fields.get? key = some value → value.Every (rule.Fresh nothing)

variable {rule : AccessorRule} {withdrawn : String → Prop}

theorem underway_self {fields : Fields Value} (h : rule.Tidy withdrawn fields)
    (hvalues : ∀ key value, fields.get? key = some value → value.Every (rule.Tidy nothing)) :
    rule.Underway withdrawn fields fields where
  toTidy := h
  distinct := h.nodup
  tidy hmem := hvalues _ _ (Fields.get?_of_mem h.nodup hmem)
  pending hmem _ := Fields.get?_of_mem h.nodup hmem
  serves hkey _ hget := by rw [Fields.get?_eq_none_iff.mpr hkey] at hget; cases hget
  fresh hkey hget := by rw [Fields.get?_eq_none_iff.mpr hkey] at hget; cases hget

theorem Underway.done {fields : Fields Value} (h : rule.Underway withdrawn [] fields) :
    rule.Fresh withdrawn fields ∧
      ∀ key value, fields.get? key = some value → value.Every (rule.Fresh nothing) :=
  ⟨{ h.toTidy with serves := fun _ => h.serves (by simp [Fields.keys]) },
    fun _ _ hget => h.fresh (by simp [Fields.keys]) hget⟩

-- An entry is done when its value is fresh and, being an array, has its accessor.
theorem Underway.finish {entries : List (String × Value)} {fields : Fields Value} {key : String}
    {value : Value} (h : rule.Underway withdrawn ((key, value) :: entries) fields)
    (hserves : rule.Serves fields key)
    (hfresh : ∀ found, fields.get? key = some found → found.Every (rule.Fresh nothing)) :
    rule.Underway withdrawn entries fields where
  toTidy := h.toTidy
  distinct := (List.nodup_cons.mp h.distinct).2
  tidy hmem := h.tidy (List.mem_cons_of_mem _ hmem)
  pending hmem := h.pending (List.mem_cons_of_mem _ hmem)
  serves {other} hother := by
    by_cases he : other = key
    · exact he ▸ hserves
    · exact h.serves (by simpa [Fields.keys, he] using hother)
  fresh {other found} hother hget := by
    by_cases he : other = key
    · exact hfresh found (he ▸ hget)
    · exact h.fresh (by simpa [Fields.keys, he] using hother) hget

theorem Underway.skip {entries : List (String × Value)} {fields : Fields Value} {key : String}
    {value : Value} (h : rule.Underway withdrawn ((key, value) :: entries) fields)
    (hflat : ∀ found, fields.get? key = some found → found.IsFlat) :
    rule.Underway withdrawn entries fields := by
  refine h.finish ?_ fun found hget => (hflat found hget).every
  intro items hget
  exact absurd rfl ((hflat _ hget).1 items)

-- The value of an entry gives way to a fresh one of the same kind.
theorem Underway.replace {entries : List (String × Value)} {fields : Fields Value} {key : String}
    {old new : Value} (h : rule.Underway withdrawn ((key, old) :: entries) fields)
    (hplain : isReplaced fields key = false) (hnew : new.isAccessor = false)
    (harray : ∀ items, old = .array items → ∃ others, new = .array others)
    (hfresh : new.Every (rule.Fresh nothing)) :
    rule.Underway withdrawn ((key, new) :: entries) (fields.insert key new) where
  toTidy := h.toTidy.insert (h.pending List.mem_cons_self hplain) hplain hnew harray
  distinct := h.distinct
  tidy {_ _} hmem := by
    rcases List.mem_cons.mp hmem with hhead | htail
    · cases hhead
      exact hfresh.mono fun _ hobject => hobject.toTidy
    · exact h.tidy (List.mem_cons_of_mem _ htail)
  pending {other _} hmem hother := by
    rw [isReplaced_insert] at hother
    rw [Fields.get?_insert]
    rcases List.mem_cons.mp hmem with hhead | htail
    · cases hhead
      rw [if_pos rfl]
    · have hne : key ≠ other := by
        rintro rfl
        exact (List.nodup_cons.mp h.distinct).1 (List.mem_map.mpr ⟨_, htail, rfl⟩)
      rw [if_neg hne] at hother ⊢
      exact h.pending (List.mem_cons_of_mem _ htail) hother
  serves {other} hother := by
    exact (h.serves hother).insert (Fields.ne_of_not_mem_keys hother) hplain hnew
  fresh {other _} hother hget := by
    rw [Fields.get?_insert, if_neg (Fields.ne_of_not_mem_keys hother)] at hget
    exact h.fresh hother hget

theorem Underway.insert_accessor (hpre : rule.namePrefix ≠ "") {entries : List (String × Value)}
    {fields : Fields Value} {key : String} {items : List Value}
    (h : rule.Underway withdrawn entries fields) (hget : fields.get? key = some (.array items))
    (hfree : rule.MayTake fields key) (identity : Nat) :
    rule.Underway withdrawn entries (fields.insert (rule.namePrefix ++ key)
      (.accessor identity (rule.namePrefix ++ key) items)) where
  toTidy := h.toTidy.insert_accessor hpre hget hfree identity
  distinct := h.distinct
  tidy := h.tidy
  pending {other _} hmem hother := by
    rw [isReplaced_insert] at hother
    rw [Fields.get?_insert]
    split at hother
    · cases hother
    · rename_i hne
      rw [if_neg hne]
      exact h.pending hmem hother
  serves {other} hother := by
    by_cases he : key = other
    · subst he
      intro others hothers
      rw [Fields.get?_insert, if_neg (name_ne hpre key), hget] at hothers
      cases hothers
      exact .inl ⟨identity, by rw [Fields.get?_insert, if_pos rfl]⟩
    · exact (h.serves hother).insert_accessor he identity items
  fresh {other _} hother hget := by
    rw [Fields.get?_insert] at hget
    split at hget
    · cases hget
      exact (Value.isFlat_of_isAccessor rfl).every
    · exact h.fresh hother hget

-- An array's entry is done: its items are fresh, and the accessor is made for these items.
theorem Underway.install (hpre : rule.namePrefix ≠ "") {entries : List (String × Value)}
    {fields : Fields Value} {key : String} {items : List Value}
    (h : rule.Underway withdrawn ((key, .array items) :: entries) fields)
    (hget : fields.get? key = some (.array items))
    (hfresh : (Value.array items).Every (rule.Fresh nothing)) (supply : Nat) :
    rule.Underway withdrawn entries (rule.install fields key items supply).1 := by
  rcases rule.install_cases fields key items supply with
    ⟨⟨hkeep, value, hname, hvalue⟩, hinstall⟩ | ⟨hfree, hinstall⟩
  · rw [hinstall]
    refine h.finish ?_ ?_
    · exact fun _ _ => .inr ⟨hkeep, value, hname, hvalue⟩
    · intro found hfound
      rw [hget] at hfound
      cases hfound
      exact hfresh
  · rw [hinstall]
    have hkey : (fields.insert (rule.namePrefix ++ key)
        (.accessor supply (rule.namePrefix ++ key) items)).get? key = some (.array items) := by
      rw [Fields.get?_insert, if_neg (name_ne hpre key), hget]
    refine (h.insert_accessor hpre hget hfree supply).finish ?_ ?_
    · intro others hothers
      rw [hkey] at hothers
      cases hothers
      exact .inl ⟨supply, by rw [Fields.get?_insert, if_pos rfl]⟩
    · intro found hfound
      rw [hkey] at hfound
      cases hfound
      exact hfresh

-- The first entry is left alone: an accessor has taken its place, or it holds no array and no object.
theorem Underway.skip_replaced {entries : List (String × Value)} {fields : Fields Value} {key : String}
    {value : Value} (h : rule.Underway withdrawn ((key, value) :: entries) fields)
    (hreplaced : isReplaced fields key = true) : rule.Underway withdrawn entries fields := by
  refine h.skip fun found hget => ?_
  obtain ⟨accessor, haccessor, hkind⟩ := isReplaced_iff.mp hreplaced
  rw [haccessor] at hget
  cases hget
  exact Value.isFlat_of_isAccessor hkind

theorem Underway.skip_flat {entries : List (String × Value)} {fields : Fields Value} {key : String}
    {value : Value} (h : rule.Underway withdrawn ((key, value) :: entries) fields)
    (hflat : value.IsFlat) : rule.Underway withdrawn entries fields := by
  cases hreplaced : isReplaced fields key with
  | true => exact h.skip_replaced hreplaced
  | false =>
      refine h.skip fun found hget => ?_
      rw [h.pending List.mem_cons_self hreplaced] at hget
      cases hget
      exact hflat

-- By the recursion of the three functions: going through an object keeps the invariant, and values
-- that were tidy become fresh.
theorem augmentEntries_underway (hpre : rule.namePrefix ≠ "") (entries : List (String × Value))
    (fields : Fields Value) (supply : Nat) (h : rule.Underway withdrawn entries fields) :
    rule.Underway withdrawn [] (rule.augmentEntries entries fields supply).1 := by
  refine augmentEntries.induct rule
    (fun value supply =>
      value.Every (rule.Tidy nothing) → (rule.augmentValue value supply).1.Every (rule.Fresh nothing))
    (fun entries fields supply => ∀ {withdrawn}, rule.Underway withdrawn entries fields →
      rule.Underway withdrawn [] (rule.augmentEntries entries fields supply).1)
    (fun items supply => (∀ value ∈ items, value.Every (rule.Tidy nothing)) →
      ∀ value ∈ (rule.augmentItems items supply).1, value.Every (rule.Fresh nothing))
    ?array ?object ?flat ?noItems ?items ?done ?replacedArray ?entryArray ?replacedObject ?entryObject
    ?entryFlat entries fields supply h
  case array =>
    intro items supply _ _ hcall ih h
    rw [augmentValue]
    exact Value.every_array_iff.mpr (ih (Value.every_array_iff.mp h))
  case object =>
    intro entries supply _ _ hcall ih h
    obtain ⟨htidy, hvalues⟩ := Value.every_object_iff.mp h
    rw [augmentValue]
    exact Value.every_object_iff.mpr (ih (underway_self htidy hvalues)).done
  case flat =>
    intro value supply harray hobject _
    have hflat : value.IsFlat := ⟨harray, hobject⟩
    rw [augmentValue_of_flat hflat]
    exact hflat.every
  case noItems =>
    intro _ _ value hmem
    cases hmem
  case items =>
    intro item items supply _ _ hitem _ _ _ ihItem ihItems h
    have hhead := ihItem (h item List.mem_cons_self)
    have htail := ihItems fun value hmem => h value (List.mem_cons_of_mem _ hmem)
    rw [hitem] at hhead
    rw [augmentItems, hitem]
    exact List.forall_mem_cons.mpr ⟨hhead, htail⟩
  case done =>
    intro _ _ _ h
    exact h
  case replacedArray =>
    intro key items entries fields supply hreplaced ih _ h
    rw [augmentEntries, if_pos hreplaced]
    exact ih (h.skip_replaced hreplaced)
  case entryArray =>
    intro key items entries fields supply hplain newItems next hitems newFields _ hinstall ihItems ih _ h
    have hnewItems := ihItems (Value.every_array_iff.mp (h.tidy List.mem_cons_self))
    rw [hitems] at hnewItems
    have hfresh := Value.every_array_iff.mpr hnewItems
    have hreplace := h.replace (Bool.eq_false_iff.mpr hplain) rfl (fun _ _ => ⟨_, rfl⟩) hfresh
    have hget := (Fields.get?_insert fields key key (.array newItems)).trans (if_pos rfl)
    have hnext := hreplace.install hpre hget hfresh next
    rw [hinstall] at hnext
    rw [augmentEntries, if_neg hplain]
    simp only [hitems, hinstall]
    exact ih hnext
  case replacedObject =>
    intro key inner entries fields supply hreplaced ih _ h
    rw [augmentEntries, if_pos hreplaced]
    exact ih (h.skip_replaced hreplaced)
  case entryObject =>
    intro key inner entries fields supply hplain newInner _ hinner ihInner ih _ h
    obtain ⟨htidy, hvalues⟩ := Value.every_object_iff.mp (h.tidy List.mem_cons_self)
    have hnewInner := (ihInner (underway_self htidy hvalues)).done
    rw [hinner] at hnewInner
    have hfresh := Value.every_object_iff.mpr hnewInner
    have hreplace := h.replace (Bool.eq_false_iff.mpr hplain) rfl (fun _ he => by cases he) hfresh
    have hget := (Fields.get?_insert fields key key (.object newInner)).trans (if_pos rfl)
    rw [augmentEntries, if_neg hplain, hinner]
    refine ih (hreplace.finish ?_ ?_)
    · intro others hothers
      rw [hget] at hothers
      cases hothers
    · intro found hfound
      rw [hget] at hfound
      cases hfound
      exact hfresh
  case entryFlat =>
    intro entry entries fields supply harray hobject ih _ h
    obtain ⟨key, value⟩ := entry
    have hflat := Value.isFlat_of_entry harray hobject
    rw [augmentEntries_of_flat hflat]
    exact ih (h.skip_flat hflat)

end JsonTemplate.AccessorRule
