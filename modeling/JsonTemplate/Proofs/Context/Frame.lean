import JsonTemplate.Proofs.Context.Agreement
import JsonTemplate.Proofs.Value.JsonForm

namespace JsonTemplate

namespace Value

mutual

-- What stands in a value still stands in another one. Only the accessors of objects may have given way to
-- others, each under its own key, and more of them may have come behind the entries.
def KeptBy : Value → Value → Prop
  | array items, array others => ItemsKeptBy items others
  | object entries, object others => EntriesKeptBy entries others
  | value, other => value = other

def ItemsKeptBy : List Value → List Value → Prop
  | [], [] => True
  | item :: items, other :: others => KeptBy item other ∧ ItemsKeptBy items others
  | _, _ => False

def EntriesKeptBy : List (String × Value) → List (String × Value) → Prop
  | [], others => ∀ entry ∈ others, entry.2.isAccessor = true
  | (key, value) :: entries, (name, other) :: others =>
      key = name ∧ (value.isAccessor = true ∧ other.isAccessor = true ∨ KeptBy value other) ∧
        EntriesKeptBy entries others
  | _ :: _, [] => False

end

theorem keptBy_of_isFlat {value : Value} (h : value.IsFlat) : value.KeptBy value := by
  cases value with
  | array items => exact absurd rfl (h.1 items)
  | object entries => exact absurd rfl (h.2 entries)
  | _ => rfl

mutual

theorem KeptBy.refl (value : Value) : value.KeptBy value := by
  cases value with
  | array items => exact itemsKeptBy_refl items
  | object entries => exact entriesKeptBy_refl entries
  | _ => rfl

theorem itemsKeptBy_refl (items : List Value) : ItemsKeptBy items items := by
  cases items with
  | nil => trivial
  | cons item items => exact ⟨KeptBy.refl item, itemsKeptBy_refl items⟩

theorem entriesKeptBy_refl (entries : List (String × Value)) : EntriesKeptBy entries entries := by
  cases entries with
  | nil => exact List.forall_mem_nil _
  | cons entry entries =>
      obtain ⟨key, value⟩ := entry
      exact ⟨rfl, .inr (KeptBy.refl value), entriesKeptBy_refl entries⟩

end

theorem KeptBy.isAccessor_eq {value other : Value} (h : value.KeptBy other) :
    other.isAccessor = value.isAccessor := by
  cases value with
  | array | object => cases other <;> first | rfl | cases h
  | _ => cases h; rfl

section

variable {entries others : List (String × Value)}

theorem all_accessors_insert {name : String} {accessor : Value} (haccessor : accessor.isAccessor = true)
    (h : ∀ entry ∈ others, entry.2.isAccessor = true) :
    ∀ entry ∈ Fields.insert others name accessor, entry.2.isAccessor = true := by
  intro entry hmem
  rcases Fields.mem_insert hmem with rfl | hmem
  · exact haccessor
  · exact h entry hmem

-- The value under a key of the old object gives way to one that keeps it.
theorem EntriesKeptBy.insert (h : EntriesKeptBy entries others) {key : String} {old new : Value}
    (hget : Fields.get? entries key = some old) (hkept : old.KeptBy new) :
    EntriesKeptBy entries (Fields.insert others key new) := by
  induction entries generalizing others with
  | nil => cases hget
  | cons entry entries ih =>
      obtain ⟨k, value⟩ := entry
      cases others with
      | nil => cases h
      | cons first others =>
          obtain ⟨name, other⟩ := first
          obtain ⟨rfl, hvalue, hrest⟩ := h
          rw [Fields.get?_cons] at hget
          rw [Fields.insert]
          split at hget
          · rename_i hkey
            cases hget
            rw [if_pos hkey]
            exact ⟨rfl, .inr hkept, hrest⟩
          · rename_i hkey
            rw [if_neg hkey]
            exact ⟨rfl, hvalue, ih hrest hget⟩

-- An accessor takes a key that is free or that of another accessor.
theorem EntriesKeptBy.insert_accessor (h : EntriesKeptBy entries others) {name : String} {accessor : Value}
    (haccessor : accessor.isAccessor = true)
    (hfree : ∀ value, Fields.get? others name = some value → value.isAccessor = true) :
    EntriesKeptBy entries (Fields.insert others name accessor) := by
  induction entries generalizing others with
  | nil => exact all_accessors_insert haccessor h
  | cons entry entries ih =>
      obtain ⟨k, value⟩ := entry
      cases others with
      | nil => cases h
      | cons first others =>
          obtain ⟨key, other⟩ := first
          obtain ⟨rfl, hvalue, hrest⟩ := h
          rw [Fields.insert]
          by_cases hkey : k = name
          · have hother : other.isAccessor = true := hfree other (if_pos hkey)
            have hplace : value.isAccessor = true := by
              rcases hvalue with ⟨hplace, -⟩ | hkept
              · exact hplace
              · rw [← hkept.isAccessor_eq, hother]
            rw [if_pos hkey]
            exact ⟨rfl, .inl ⟨hplace, haccessor⟩, hrest⟩
          · rw [if_neg hkey]
            exact ⟨rfl, hvalue, ih hrest fun found hget => hfree found ((if_neg hkey).trans hget)⟩

-- What is found under a key, before and after.
theorem EntriesKeptBy.get? (h : EntriesKeptBy entries others) (key : String) :
    match Fields.get? entries key with
    | some value => ∃ other, Fields.get? others key = some other ∧
        (value.isAccessor = true ∧ other.isAccessor = true ∨ value.KeptBy other)
    | none => ∀ other, Fields.get? others key = some other → other.isAccessor = true := by
  induction entries generalizing others with
  | nil => exact fun other hget => h _ (Fields.mem_of_get? hget)
  | cons entry entries ih =>
      obtain ⟨k, value⟩ := entry
      cases others with
      | nil => cases h
      | cons first others =>
          obtain ⟨name, other⟩ := first
          obtain ⟨rfl, hvalue, hrest⟩ := h
          rw [Fields.get?_cons, Fields.get?_cons]
          by_cases hkey : k = key
          · rw [if_pos hkey, if_pos hkey]
            exact ⟨other, rfl, hvalue⟩
          · rw [if_neg hkey, if_neg hkey]
            exact ih hrest

end

theorem bareEntries_of_all_accessors {entries : List (String × Value)}
    (h : ∀ entry ∈ entries, entry.2.isAccessor = true) : bareEntries entries = [] := by
  induction entries with
  | nil => rfl
  | cons entry entries ih =>
      obtain ⟨hentry, hentries⟩ := List.forall_mem_cons.mp h
      rw [← ih hentries]
      exact bareEntries_cons_of_accessor hentry _ _

mutual

-- Without accessors the two values are one.
theorem KeptBy.bare_eq {value other : Value} (h : value.KeptBy other) : other.bare = value.bare := by
  cases value with
  | array items =>
      cases other with
      | array others => exact congrArg array (bareItems_eq_of_keptBy h)
      | _ => cases h
  | object entries =>
      cases other with
      | object others => exact congrArg object (bareEntries_eq_of_keptBy h)
      | _ => cases h
  | _ =>
      cases h
      rfl

theorem bareItems_eq_of_keptBy {items others : List Value} (h : ItemsKeptBy items others) :
    bareItems others = bareItems items := by
  cases items with
  | nil =>
      cases others with
      | nil => rfl
      | cons => cases h
  | cons item items =>
      cases others with
      | nil => cases h
      | cons other others => exact congrArg₂ List.cons (KeptBy.bare_eq h.1) (bareItems_eq_of_keptBy h.2)

theorem bareEntries_eq_of_keptBy {entries others : List (String × Value)} (h : EntriesKeptBy entries others) :
    bareEntries others = bareEntries entries := by
  cases entries with
  | nil => exact bareEntries_of_all_accessors h
  | cons entry entries =>
      cases others with
      | nil => cases h
      | cons first others =>
          obtain ⟨key, value⟩ := entry
          obtain ⟨name, other⟩ := first
          obtain ⟨rfl, hvalue, hrest⟩ := h
          have ih := bareEntries_eq_of_keptBy hrest
          cases hplain : value.isAccessor with
          | true =>
              have hother : other.isAccessor = true := by
                rcases hvalue with ⟨-, hother⟩ | hkept
                · exact hother
                · rw [hkept.isAccessor_eq, hplain]
              rw [bareEntries_cons_of_accessor hplain, bareEntries_cons_of_accessor hother, ih]
          | false =>
              have hkept : value.KeptBy other := hvalue.resolve_left fun h => by simp [hplain] at h
              rw [bareEntries_cons hplain, bareEntries_cons (hkept.isAccessor_eq.trans hplain),
                KeptBy.bare_eq hkept, ih]

end

theorem KeptBy.toJson_eq {value other : Value} (h : value.KeptBy other) : other.toJson = value.toJson := by
  rw [← toJson_bare other, h.bare_eq, toJson_bare]

theorem ItemsKeptBy.getElem? {items others : List Value} (h : ItemsKeptBy items others) {position : Nat}
    {item : Value} (hget : items[position]? = some item) :
    ∃ other, others[position]? = some other ∧ item.KeptBy other := by
  induction items generalizing others position with
  | nil => cases hget
  | cons first items ih =>
      cases others with
      | nil => cases h
      | cons other others =>
          cases position with
          | zero =>
              cases hget
              exact ⟨other, rfl, h.1⟩
          | succ position => exact ih h.2 hget

-- What stands at a place stands there still, unless it is an accessor that gave way to another one.
theorem KeptBy.at? {place : List Position} {old new value : Value} (h : old.KeptBy new)
    (hvalue : old.at? place = some value) :
    ∃ other, new.at? place = some other ∧
      (value.isAccessor = true ∧ other.isAccessor = true ∨ value.KeptBy other) := by
  induction place generalizing old new with
  | nil =>
      cases hvalue
      exact ⟨new, rfl, .inr h⟩
  | cons position place ih =>
      cases position with
      | key key =>
          cases old with
          | object fields =>
              cases new with
              | object others =>
                  obtain ⟨child, hchild, hvalue⟩ := Option.bind_eq_some_iff.mp hvalue
                  have hget := EntriesKeptBy.get? h key
                  rw [hchild] at hget
                  obtain ⟨other, hother, ⟨haccessor, hgiven⟩ | hkept⟩ := hget
                  · -- Only the empty place leads into an accessor.
                    cases child with
                    | accessor =>
                        rcases place with _ | ⟨_ | _, _⟩ <;> cases hvalue
                        exact ⟨other, Option.bind_eq_some_iff.mpr ⟨other, hother, rfl⟩, .inl ⟨rfl, hgiven⟩⟩
                    | _ => cases haccessor
                  · obtain ⟨found, hfound, hrest⟩ := ih hkept hvalue
                    exact ⟨found, Option.bind_eq_some_iff.mpr ⟨other, hother, hfound⟩, hrest⟩
              | _ => cases h
          | _ => cases hvalue
      | item position =>
          cases old with
          | array items =>
              cases new with
              | array others =>
                  obtain ⟨child, hchild, hvalue⟩ := Option.bind_eq_some_iff.mp hvalue
                  obtain ⟨other, hother, hkept⟩ := ItemsKeptBy.getElem? h hchild
                  obtain ⟨found, hfound, hrest⟩ := ih hkept hvalue
                  exact ⟨found, Option.bind_eq_some_iff.mpr ⟨other, hother, hfound⟩, hrest⟩
              | _ => cases h
          | _ => cases hvalue

end Value

namespace AccessorRule

open Value

variable {rule : AccessorRule}

theorem itemsKeptBy_augmentItems {items : List Value}
    (h : ∀ item ∈ items, ∀ new, rule.Augments item new → item.KeptBy new) (supply : Nat) :
    ItemsKeptBy items (rule.augmentItems items supply).1 := by
  induction items generalizing supply with
  | nil => trivial
  | cons item items ih =>
      obtain ⟨hitem, hitems⟩ := List.forall_mem_cons.mp h
      exact ⟨hitem _ ⟨supply, rfl⟩, ih hitems _⟩

theorem entriesKeptBy_install (hkeep : rule.overwrite = false) {entries fields : Fields Value}
    (h : EntriesKeptBy entries fields) (key : String) (items : List Value) (supply : Nat) :
    EntriesKeptBy entries (rule.install fields key items supply).1 := by
  rcases rule.install_cases fields key items supply with ⟨-, hinstall⟩ | ⟨hfree, hinstall⟩
  · rw [hinstall]
    exact h
  · rw [hinstall]
    exact h.insert_accessor rfl (hfree.resolve_left (by simp [hkeep]))

-- On the passage through an object, every entry that is passed keeps what was in it.
theorem entriesKeptBy_augmentEntries (hkeep : rule.overwrite = false) {start : Fields Value}
    (hnodup : start.keys.Nodup) (h : ∀ entry ∈ start, ∀ new, rule.Augments entry.2 new → entry.2.KeptBy new)
    (supply : Nat) : EntriesKeptBy start (rule.augmentEntries start start supply).1 := by
  refine (augmentEntries_induction (motive := fun entries fields =>
    entries ⊆ start ∧ EntriesKeptBy start fields) ?skip ?object ?array
    ⟨List.Subset.refl _, entriesKeptBy_refl _⟩ supply).2
  case skip =>
    rintro key value entries fields ⟨hsource, hkept⟩ -
    exact ⟨(List.cons_subset.mp hsource).2, hkept⟩
  case object =>
    rintro key inner entries fields new ⟨hsource, hkept⟩ - hnew
    obtain ⟨hmem, hrest⟩ := List.cons_subset.mp hsource
    exact ⟨hrest, hkept.insert (Fields.get?_of_mem hnodup hmem) (h _ hmem _ hnew)⟩
  case array =>
    rintro key items entries fields newItems supply ⟨hsource, hkept⟩ - hnew
    obtain ⟨hmem, hrest⟩ := List.cons_subset.mp hsource
    have hinsert := hkept.insert (Fields.get?_of_mem hnodup hmem) (h _ hmem _ hnew)
    exact ⟨hrest, entriesKeptBy_install hkeep hinsert key newItems supply⟩

-- By the parts of the value: augmentation that overwrites nothing keeps all of it.
theorem keptBy_of_augments (hkeep : rule.overwrite = false) {old new : Value}
    (hkeys : old.Every fun object => object.keys.Nodup) (h : rule.Augments old new) : old.KeptBy new := by
  induction old using Value.byParts generalizing new with
  | scalar value hscalar =>
      have hflat := isFlat_of_isScalar hscalar
      rw [h.eq_of_isFlat hflat]
      exact keptBy_of_isFlat hflat
  | function | accessor =>
      rw [h.eq_of_isFlat ⟨nofun, nofun⟩]
      rfl
  | array items ih =>
      obtain ⟨supply, rfl⟩ := h.array
      have hitems := Value.every_array_iff.mp hkeys
      exact itemsKeptBy_augmentItems (fun item hmem new hnew => ih item hmem (hitems item hmem) hnew) supply
  | object fields ih =>
      obtain ⟨supply, rfl⟩ := h.object
      obtain ⟨hnodup, hvalues⟩ := Value.every_object_iff.mp hkeys
      refine entriesKeptBy_augmentEntries hkeep hnodup (fun entry hmem new hnew => ?_) supply
      exact ih entry hmem (hvalues _ _ (Fields.get?_of_mem hnodup hmem)) hnew

end AccessorRule

-- Augmentation that overwrites nothing touches nothing but accessors. All other entries and all items stay
-- where and what they were, new accessors come behind the keys of their object, and what had a JSON form has
-- the same one.
theorem Context.augment_keeps_entries (namePrefix : String) (context : Context)
    (hkeys : (Value.object context.entries).Every fun object => object.keys.Nodup) :
    let after := (context.augment ⟨namePrefix, false⟩).1.entries
    (Value.object context.entries).KeptBy (.object after) ∧
      Value.bareEntries after = Value.bareEntries context.entries ∧
      ∀ place value json, (Value.object context.entries).at? place = some value → value.toJson = .ok json →
        ∃ other, (Value.object after).at? place = some other ∧ other.toJson = .ok json := by
  intro after
  have hkept : (Value.object context.entries).KeptBy (.object after) :=
    AccessorRule.keptBy_of_augments rfl hkeys ⟨context.supply, rfl⟩
  refine ⟨hkept, Value.bareEntries_eq_of_keptBy hkept, fun place value json hvalue hjson => ?_⟩
  obtain ⟨other, hother, ⟨haccessor, -⟩ | hsame⟩ := hkept.at? hvalue
  · cases value with
    | accessor => cases hjson
    | _ => cases haccessor
  · exact ⟨other, hother, hsame.toJson_eq.trans hjson⟩

-- A text has the name of one accessor, and an older accessor that of another.
def guarded : Context :=
  ⟨[("a", .array [.object [("b", .array [.null])]]), ("$a", .string "x"), ("$c", .accessor 7 "$c" []),
    ("c", .array [.array []])], 8⟩

theorem guarded_keeps_entries :
    let after := (guarded.augment ⟨"$", false⟩).1.entries
    ((Value.object guarded.entries).Every fun object => object.keys.Nodup) ∧
      Fields.keys after = ["a", "$a", "$c", "c"] ∧
      (Value.object guarded.entries).KeptBy (.object after) ∧
      ∃ other, (Value.object after).at? [.key "a"] = some other ∧
        other.toJson = .ok (.array [.object [("b", .array [.null])]]) := by
  intro after
  have hkeys : (Value.object guarded.entries).Every fun object => object.keys.Nodup := by
    have hnull : Value.null.Every fun object => object.keys.Nodup := Value.IsFlat.every ⟨nofun, nofun⟩
    have htext : (Value.string "x").Every fun object => object.keys.Nodup := Value.IsFlat.every ⟨nofun, nofun⟩
    have holder : (Value.accessor 7 "$c" []).Every fun object => object.keys.Nodup :=
      Value.IsFlat.every ⟨nofun, nofun⟩
    have hitem : (Value.object [("b", .array [.null])]).Every fun object => object.keys.Nodup :=
      Value.every_object_of_forall_mem (by decide) (by simp [Value.every_array_iff, hnull])
    exact Value.every_object_of_forall_mem (by decide)
      (by simp [guarded, Value.every_array_iff, htext, holder, hitem])
  obtain ⟨hkept, -, hjson⟩ := Context.augment_keeps_entries "$" guarded hkeys
  exact ⟨hkeys, rfl, hkept, hjson _ _ _ rfl rfl⟩

end JsonTemplate
