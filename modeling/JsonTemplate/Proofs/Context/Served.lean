import JsonTemplate.Proofs.Context.Frame

namespace JsonTemplate

open Value

namespace AccessorRule

mutual

-- How many accessors augmentation that overwrites nothing installs in a value: one for every array under a key
-- whose accessor's name is free or an accessor's.
def served (namePrefix : String) : Value → Nat
  | .array items => servedItems namePrefix items
  | .object entries => servedEntries namePrefix entries entries
  | _ => 0

def servedItems (namePrefix : String) : List Value → Nat
  | [] => 0
  | item :: items => served namePrefix item + servedItems namePrefix items

def servedEntries (namePrefix : String) (object : Fields Value) : List (String × Value) → Nat
  | [] => 0
  | (key, .array items) :: entries =>
      servedItems namePrefix items + (if (object.get? (namePrefix ++ key)).all isAccessor then 1 else 0) +
        servedEntries namePrefix object entries
  | (_, .object inner) :: entries =>
      servedEntries namePrefix inner inner + servedEntries namePrefix object entries
  | _ :: entries => servedEntries namePrefix object entries

end

section

variable {namePrefix : String}

theorem servedEntries_cons_of_isFlat {value : Value} (hflat : value.IsFlat) (key : String) (object : Fields Value)
    (entries : List (String × Value)) :
    servedEntries namePrefix object ((key, value) :: entries) = servedEntries namePrefix object entries := by
  cases value with
  | array items => exact absurd rfl (hflat.1 items)
  | object inner => exact absurd rfl (hflat.2 inner)
  | _ => rfl

theorem servedEntries_of_all_accessors {entries : List (String × Value)}
    (h : ∀ entry ∈ entries, entry.2.isAccessor = true) (object : Fields Value) :
    servedEntries namePrefix object entries = 0 := by
  induction entries with
  | nil => rfl
  | cons entry entries ih =>
      obtain ⟨hentry, hentries⟩ := List.forall_mem_cons.mp h
      rw [← ih hentries]
      exact servedEntries_cons_of_isFlat (isFlat_of_isAccessor hentry) _ _ _

-- A key is free or an accessor's as it was before.
theorem all_isAccessor_get?_eq {object other : Fields Value} (h : EntriesKeptBy object other) (key : String) :
    (other.get? key).all isAccessor = (object.get? key).all isAccessor := by
  have hget := h.get? key
  cases hvalue : object.get? key with
  | none =>
      rw [hvalue] at hget
      rw [Option.all_none]
      cases hother : other.get? key with
      | none => rfl
      | some found => exact hget found hother
  | some value =>
      rw [hvalue] at hget
      obtain ⟨found, hfound, ⟨haccessor, hgiven⟩ | hkept⟩ := hget
      · rw [hfound, Option.all_some, Option.all_some, haccessor, hgiven]
      · rw [hfound, Option.all_some, Option.all_some, hkept.isAccessor_eq]

mutual

-- Accessors that are there already change nothing about which arrays get one.
theorem served_eq_of_keptBy {value other : Value} (h : value.KeptBy other) :
    served namePrefix other = served namePrefix value := by
  cases value with
  | array items =>
      cases other with
      | array others => exact servedItems_eq_of_keptBy h
      | _ => cases h
  | object entries =>
      cases other with
      | object others => exact servedEntries_eq_of_keptBy h h
      | _ => cases h
  | _ =>
      cases h
      rfl
termination_by structural value

theorem servedItems_eq_of_keptBy {items others : List Value} (h : ItemsKeptBy items others) :
    servedItems namePrefix others = servedItems namePrefix items := by
  cases items with
  | nil =>
      cases others with
      | nil => rfl
      | cons => cases h
  | cons item items =>
      cases others with
      | nil => cases h
      | cons other others =>
          rw [servedItems, servedItems, served_eq_of_keptBy h.1, servedItems_eq_of_keptBy h.2]
termination_by structural items

theorem servedEntries_eq_of_keptBy {object changed : Fields Value} (hobject : EntriesKeptBy object changed)
    {entries others : List (String × Value)} (h : EntriesKeptBy entries others) :
    servedEntries namePrefix changed others = servedEntries namePrefix object entries := by
  cases entries with
  | nil => exact servedEntries_of_all_accessors h changed
  | cons entry entries =>
      cases others with
      | nil => cases h
      | cons first others =>
          obtain ⟨key, value⟩ := entry
          obtain ⟨name, other⟩ := first
          obtain ⟨rfl, ⟨haccessor, hgiven⟩ | hkept, hrest⟩ := h
          · rw [servedEntries_cons_of_isFlat (isFlat_of_isAccessor haccessor),
              servedEntries_cons_of_isFlat (isFlat_of_isAccessor hgiven)]
            exact servedEntries_eq_of_keptBy hobject hrest
          · have ih := servedEntries_eq_of_keptBy hobject hrest
            cases value with
            | array items =>
                cases other with
                | array others =>
                    rw [servedEntries, servedEntries, servedItems_eq_of_keptBy hkept,
                      all_isAccessor_get?_eq hobject, ih]
                | _ => cases hkept
            | object inner =>
                cases other with
                | object changed =>
                    rw [servedEntries, servedEntries, servedEntries_eq_of_keptBy hkept hkept, ih]
                | _ => cases hkept
            | _ =>
                cases hkept
                exact ih
termination_by structural entries

end

end

variable {rule : AccessorRule}

theorem supply_install (hkeep : rule.overwrite = false) (fields : Fields Value) (key : String)
    (items : List Value) (supply : Nat) :
    (rule.install fields key items supply).2 =
      supply + if (fields.get? (rule.namePrefix ++ key)).all isAccessor then 1 else 0 := by
  unfold install
  cases hget : fields.get? (rule.namePrefix ++ key) with
  | none => simp [hget]
  | some value => cases value <;> simp [hget, hkeep, isAccessor]

theorem served_of_isFlat {value : Value} (hflat : value.IsFlat) : served rule.namePrefix value = 0 := by
  cases value with
  | array items => exact absurd rfl (hflat.1 items)
  | object entries => exact absurd rfl (hflat.2 entries)
  | _ => rfl

-- No accessor takes the place of another entry.
theorem not_isReplaced {start fields : Fields Value} {key : String} {value : Value}
    {entries : List (String × Value)} (hnodup : start.keys.Nodup) (hsource : (key, value) :: entries ⊆ start)
    (hkept : EntriesKeptBy start fields) (hplain : value.isAccessor = false) : ¬isReplaced fields key = true := by
  intro hreplaced
  have hget := hkept.get? key
  rw [Fields.get?_of_mem hnodup (List.cons_subset.mp hsource).1] at hget
  obtain ⟨other, hother, hcases⟩ := hget
  rw [isReplaced, hother, Option.any_some] at hreplaced
  rcases hcases with ⟨haccessor, -⟩ | hsame
  · rw [hplain] at haccessor
    cases haccessor
  · rw [hsame.isAccessor_eq, hplain] at hreplaced
    cases hreplaced

-- By the recursion of the three functions: the supply goes up by one for every accessor.
theorem supply_augmentValue (hkeep : rule.overwrite = false) (value : Value) (supply : Nat)
    (hkeys : value.Every fun object => object.keys.Nodup) :
    (rule.augmentValue value supply).2 = supply + served rule.namePrefix value := by
  refine augmentValue.induct rule
    (fun value supply => (value.Every fun object => object.keys.Nodup) →
      (rule.augmentValue value supply).2 = supply + served rule.namePrefix value)
    (fun entries fields supply => ∀ start : Fields Value, start.keys.Nodup → entries ⊆ start →
      EntriesKeptBy start fields → (∀ entry ∈ start, entry.2.Every fun object => object.keys.Nodup) →
      (rule.augmentEntries entries fields supply).2 = supply + servedEntries rule.namePrefix start entries)
    (fun items supply => (∀ item ∈ items, item.Every fun object => object.keys.Nodup) →
      (rule.augmentItems items supply).2 = supply + servedItems rule.namePrefix items)
    ?array ?object ?flat ?noItems ?items ?done ?replacedArray ?entryArray ?replacedObject ?entryObject
    ?entryFlat value supply hkeys
  case array =>
    intro items supply _ _ hcall ih h
    rw [augmentValue]
    exact ih (every_array_iff.mp h)
  case object =>
    intro entries supply _ _ hcall ih h
    obtain ⟨hnodup, hvalues⟩ := every_object_iff.mp h
    rw [augmentValue]
    exact ih entries hnodup (List.Subset.refl _) (entriesKeptBy_refl _) fun entry hmem =>
      hvalues _ _ (Fields.get?_of_mem hnodup hmem)
  case flat =>
    intro value supply harray hobject _
    rw [augmentValue_of_flat ⟨harray, hobject⟩, served_of_isFlat ⟨harray, hobject⟩, Nat.add_zero]
  case noItems =>
    intro _ _
    rfl
  case items =>
    intro item items supply newItem next hitem _ _ _ ihItem ihItems h
    obtain ⟨hhead, htail⟩ := List.forall_mem_cons.mp h
    have hnext : next = supply + served rule.namePrefix item := by
      rw [← ihItem hhead, hitem]
    rw [augmentItems, servedItems]
    simp only [hitem]
    rw [ihItems htail, hnext, Nat.add_assoc]
  case done =>
    intro _ _ _ _ _ _ _
    rfl
  case replacedArray =>
    intro key items entries fields supply hreplaced _ start hnodup hsource hkept _
    exact absurd hreplaced (not_isReplaced hnodup hsource hkept rfl)
  case entryArray =>
    intro key items entries fields supply hplain newItems next hitems newFields last hinstall ihItems ih start
      hnodup hsource hkept hvalues
    obtain ⟨hmem, hrest⟩ := List.cons_subset.mp hsource
    have hitemKeys := every_array_iff.mp (hvalues _ hmem)
    have hnext : next = supply + servedItems rule.namePrefix items := by
      rw [← ihItems hitemKeys, hitems]
    have hnew : rule.Augments (.array items) (.array newItems) := ⟨supply, by rw [augmentValue, hitems]⟩
    have hinsert := hkept.insert (Fields.get?_of_mem hnodup hmem) (keptBy_of_augments hkeep (hvalues _ hmem) hnew)
    have hlast := supply_install hkeep (fields.insert key (.array newItems)) key newItems next
    rw [hinstall, all_isAccessor_get?_eq hinsert] at hlast
    have hfields := entriesKeptBy_install hkeep hinsert key newItems next
    rw [hinstall] at hfields
    rw [augmentEntries, if_neg hplain]
    simp only [hitems, hinstall]
    rw [ih start hnodup hrest hfields hvalues, servedEntries]
    change last = _ at hlast
    omega
  case replacedObject =>
    intro key inner entries fields supply hreplaced _ start hnodup hsource hkept _
    exact absurd hreplaced (not_isReplaced hnodup hsource hkept rfl)
  case entryObject =>
    intro key inner entries fields supply hplain newInner next hinner ihInner ih start hnodup hsource hkept
      hvalues
    obtain ⟨hmem, hrest⟩ := List.cons_subset.mp hsource
    obtain ⟨hinnerNodup, hinnerValues⟩ := every_object_iff.mp (hvalues _ hmem)
    have hnext : next = supply + servedEntries rule.namePrefix inner inner := by
      rw [← ihInner inner hinnerNodup (List.Subset.refl _) (entriesKeptBy_refl _) fun entry hmem =>
        hinnerValues _ _ (Fields.get?_of_mem hinnerNodup hmem), hinner]
    have hnew : rule.Augments (.object inner) (.object newInner) := ⟨supply, by rw [augmentValue, hinner]⟩
    have hinsert := hkept.insert (Fields.get?_of_mem hnodup hmem) (keptBy_of_augments hkeep (hvalues _ hmem) hnew)
    rw [augmentEntries, if_neg hplain]
    simp only [hinner]
    rw [ih start hnodup hrest hinsert hvalues, servedEntries, hnext, Nat.add_assoc]
  case entryFlat =>
    intro entry entries fields supply harray hobject ih start hnodup hsource hkept hvalues
    obtain ⟨key, value⟩ := entry
    have hflat := Value.isFlat_of_entry harray hobject
    rw [augmentEntries_of_flat hflat, servedEntries_cons_of_isFlat hflat]
    exact ih start hnodup (List.cons_subset.mp hsource).2 hkept hvalues

end AccessorRule

-- Without overwriting, augmentation counts the arrays under keys whose accessors' names are free.
theorem Context.augment_count (namePrefix : String) (context : Context)
    (hkeys : (Value.object context.entries).Every fun object => object.keys.Nodup) :
    (context.augment ⟨namePrefix, false⟩).2 = AccessorRule.served namePrefix (.object context.entries) := by
  let rule : AccessorRule := ⟨namePrefix, false⟩
  have hsupply : (rule.augmentEntries context.entries context.entries context.supply).2 =
      context.supply + AccessorRule.served namePrefix (.object context.entries) :=
    AccessorRule.supply_augmentValue rfl (.object context.entries) context.supply hkeys
  change (rule.augmentEntries context.entries context.entries context.supply).2 - context.supply = _
  rw [hsupply, Nat.add_sub_cancel_left]

end JsonTemplate
