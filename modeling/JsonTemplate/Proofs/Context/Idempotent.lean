import JsonTemplate.Proofs.Context.Served

namespace JsonTemplate

namespace Value

mutual

-- The value with accessors that have no identity of their own, also among the items that they give out.
def anonymous : Value → Value
  | array items => array (anonymousItems items)
  | object entries => object (anonymousEntries entries)
  | accessor _ name items => accessor 0 name (anonymousItems items)
  | value => value

def anonymousItems : List Value → List Value
  | [] => []
  | item :: items => anonymous item :: anonymousItems items

def anonymousEntries : List (String × Value) → List (String × Value)
  | [] => []
  | (key, value) :: entries => (key, anonymous value) :: anonymousEntries entries

end

theorem anonymousItems_eq_map (items : List Value) : anonymousItems items = items.map anonymous := by
  induction items with
  | nil => rfl
  | cons item items ih => rw [anonymousItems, List.map_cons, ih]

theorem anonymousEntries_eq_mapValues (entries : List (String × Value)) :
    anonymousEntries entries = Fields.mapValues anonymous entries := by
  induction entries with
  | nil => rfl
  | cons entry entries ih => rw [anonymousEntries, Fields.mapValues_cons, ih]

@[simp] theorem isAccessor_anonymous (value : Value) : value.anonymous.isAccessor = value.isAccessor := by
  cases value <;> rfl

theorem get?_anonymousEntries (fields : Fields Value) (key : String) :
    Fields.get? (anonymousEntries fields) key = (fields.get? key).map anonymous := by
  rw [anonymousEntries_eq_mapValues, Fields.get?_mapValues]

-- A value gives way to one that is the same up to identities.
theorem anonymousEntries_insert {fields : Fields Value} {key : String} {old new : Value}
    (hget : fields.get? key = some old) (h : new.anonymous = old.anonymous) :
    anonymousEntries (fields.insert key new) = anonymousEntries fields := by
  have hsame : Fields.get? (anonymousEntries fields) key = some new.anonymous := by
    rw [get?_anonymousEntries, hget, h]
    rfl
  rw [anonymousEntries_eq_mapValues, ← Fields.insert_mapValues, ← anonymousEntries_eq_mapValues]
  exact Fields.insert_of_get? hsame

theorem itemAt_anonymousItems (items : List Value) (position : Nat) :
    itemAt (anonymousItems items) position = (itemAt items position).anonymous := by
  rw [itemAt, itemAt, anonymousItems_eq_map, List.getElem?_map]
  cases items[position]? <;> rfl

-- An accessor without identity gives out what it gave out, without identities.
theorem access_anonymousItems (name : String) (items args : List Value) :
    access name (anonymousItems items) args = (access name items args).map anonymous := by
  unfold access
  split
  · rfl
  · split
    · rw [itemAt_anonymousItems]
      rfl
    · rfl
  · split
    · rw [itemAt_anonymousItems]
      rfl
    · rfl
  · rfl

theorem at?_anonymous (place : List Position) (value : Value) :
    value.anonymous.at? place = (value.at? place).map anonymous := by
  induction place generalizing value with
  | nil => rfl
  | cons position place ih =>
      cases position with
      | key key =>
          cases value with
          | object fields =>
              rw [anonymous, at?, at?, get?_anonymousEntries, Option.bind_map, Option.map_bind]
              exact Option.bind_congr fun child _ => ih child
          | _ => rfl
      | item position =>
          cases value with
          | array items =>
              rw [anonymous, at?, at?, anonymousItems_eq_map, List.getElem?_map, Option.bind_map, Option.map_bind]
              exact Option.bind_congr fun child _ => ih child
          | _ => rfl

end Value

open Value

namespace AccessorRule

variable {rule : AccessorRule}

-- An object that augmentation has been through: its arrays have their accessors.
structure Settled (rule : AccessorRule) (fields : Fields Value) : Prop where
  nodup : fields.keys.Nodup
  serves : ∀ key, rule.Serves fields key

theorem keys_install_nodup {fields : Fields Value} (h : fields.keys.Nodup) (key : String) (items : List Value)
    (supply : Nat) : (rule.install fields key items supply).1.keys.Nodup := by
  rcases rule.install_cases fields key items supply with ⟨-, hinstall⟩ | ⟨-, hinstall⟩
  · rwa [hinstall]
  · rw [hinstall]
    exact Fields.keys_insert_nodup h _ _

theorem keys_augmentEntries_nodup {entries : List (String × Value)} {fields : Fields Value}
    (h : fields.keys.Nodup) (supply : Nat) : (rule.augmentEntries entries fields supply).1.keys.Nodup := by
  refine augmentEntries_induction (motive := fun _ fields => fields.keys.Nodup) ?skip ?object ?array h supply
  case skip => exact fun h _ => h
  case object => exact fun h _ _ => Fields.keys_insert_nodup h _ _
  case array => exact fun supply h _ _ => keys_install_nodup (Fields.keys_insert_nodup h _ _) _ _ supply

-- By the parts of the value that is augmented: all objects in the outcome are settled.
theorem every_settled_of_augments {old new : Value} (hkeys : old.Every fun object => object.keys.Nodup)
    (h : rule.Augments old new) : new.Every rule.Settled := by
  induction old using Value.byParts generalizing new with
  | scalar value hscalar =>
      have hflat := isFlat_of_isScalar hscalar
      rw [h.eq_of_isFlat hflat]
      exact hflat.every
  | function | accessor =>
      rw [h.eq_of_isFlat ⟨nofun, nofun⟩]
      exact IsFlat.every ⟨nofun, nofun⟩
  | array items ih =>
      obtain ⟨supply, rfl⟩ := h.array
      refine every_array_iff.mpr fun item hmem => ?_
      obtain ⟨position, hposition⟩ := List.mem_iff_getElem?.mp hmem
      obtain ⟨source, hsource, hgrown⟩ := augments_of_getElem?_augmentItems hposition
      have hmem := List.mem_of_getElem? hsource
      exact ih source hmem (every_array_iff.mp hkeys source hmem) hgrown
  | object fields ih =>
      obtain ⟨supply, rfl⟩ := h.object
      obtain ⟨hnodup, hvalues⟩ := every_object_iff.mp hkeys
      have hpassage := rule.passage_augmentEntries hnodup supply
      have hsettled : rule.Settled (rule.augmentEntries fields fields supply).1 :=
        ⟨keys_augmentEntries_nodup hnodup supply, fun key => hpassage.serves (by simp [Fields.keys])⟩
      refine every_object_iff.mpr ⟨hsettled, fun key value hget => ?_⟩
      cases hvalue : value.isAccessor with
      | true => exact (isFlat_of_isAccessor hvalue).every
      | false =>
          obtain ⟨source, hsource, hgrown⟩ := hpassage.grown (by simp [Fields.keys]) hget hvalue
          exact ih _ (Fields.mem_of_get? hsource) (hvalues key source hsource) hgrown

section

variable {start fields : Fields Value}

-- What was found under a key of an object is still there, up to identities.
theorem exists_of_anonymous_eq (h : anonymousEntries fields = anonymousEntries start) {key : String}
    {value : Value} (hget : start.get? key = some value) :
    ∃ other, fields.get? key = some other ∧ other.anonymous = value.anonymous := by
  have hkey : (fields.get? key).map anonymous = some value.anonymous := by
    rw [← get?_anonymousEntries, h, get?_anonymousEntries, hget]
    rfl
  exact Option.map_eq_some_iff.mp hkey

-- The accessor of a settled array gives way to one for the same items.
theorem anonymousEntries_install (hsettled : rule.Settled start)
    (h : anonymousEntries fields = anonymousEntries start) {key : String} {items newItems : List Value}
    (hget : start.get? key = some (.array items)) (hitems : anonymousItems newItems = anonymousItems items)
    (supply : Nat) : anonymousEntries (rule.install fields key newItems supply).1 = anonymousEntries start := by
  rcases rule.install_cases fields key newItems supply with ⟨-, hinstall⟩ | ⟨hfree, hinstall⟩
  · rw [hinstall, h]
  · rw [hinstall]
    rcases hsettled.serves key items hget with ⟨identity, haccessor⟩ | ⟨hkeep, value, hvalue, hplain⟩
    · obtain ⟨other, hother, hsame⟩ := exists_of_anonymous_eq h haccessor
      refine (anonymousEntries_insert hother ?_).trans h
      rw [hsame, anonymous, anonymous, hitems]
    · obtain ⟨other, hother, hsame⟩ := exists_of_anonymous_eq h hvalue
      have haccessor := hfree.resolve_left (by simp [hkeep]) other hother
      rw [← isAccessor_anonymous, hsame, isAccessor_anonymous, hplain] at haccessor
      cases haccessor

theorem anonymousEntries_augmentEntries (hsettled : rule.Settled start)
    (h : ∀ entry ∈ start, ∀ new, rule.Augments entry.2 new → new.anonymous = entry.2.anonymous) (supply : Nat) :
    anonymousEntries (rule.augmentEntries start start supply).1 = anonymousEntries start := by
  refine (augmentEntries_induction (motive := fun entries fields =>
    entries ⊆ start ∧ anonymousEntries fields = anonymousEntries start) ?skip ?object ?array
    ⟨List.Subset.refl _, rfl⟩ supply).2
  case skip =>
    rintro key value entries fields ⟨hsource, hsame⟩ -
    exact ⟨(List.cons_subset.mp hsource).2, hsame⟩
  case object =>
    rintro key inner entries fields new ⟨hsource, hsame⟩ - hnew
    obtain ⟨hmem, hrest⟩ := List.cons_subset.mp hsource
    obtain ⟨other, hother, hvalue⟩ := exists_of_anonymous_eq hsame (Fields.get?_of_mem hsettled.nodup hmem)
    exact ⟨hrest, (anonymousEntries_insert hother ((h _ hmem _ hnew).trans hvalue.symm)).trans hsame⟩
  case array =>
    rintro key items entries fields newItems supply ⟨hsource, hsame⟩ - hnew
    obtain ⟨hmem, hrest⟩ := List.cons_subset.mp hsource
    have hget := Fields.get?_of_mem hsettled.nodup hmem
    obtain ⟨other, hother, hvalue⟩ := exists_of_anonymous_eq hsame hget
    have hitems := h _ hmem _ hnew
    have hinsert := (anonymousEntries_insert hother (hitems.trans hvalue.symm)).trans hsame
    exact ⟨hrest, anonymousEntries_install hsettled hinsert hget (Value.array.inj hitems) supply⟩

end

theorem anonymousItems_augmentItems {items : List Value}
    (h : ∀ item ∈ items, ∀ new, rule.Augments item new → new.anonymous = item.anonymous) (supply : Nat) :
    anonymousItems (rule.augmentItems items supply).1 = anonymousItems items := by
  induction items generalizing supply with
  | nil => rfl
  | cons item items ih =>
      obtain ⟨hitem, hitems⟩ := List.forall_mem_cons.mp h
      exact congrArg₂ List.cons (hitem _ ⟨supply, rfl⟩) (ih hitems _)

-- By the parts of the value: augmentation of settled objects changes nothing but identities.
theorem anonymous_of_augments {old new : Value} (hsettled : old.Every rule.Settled) (h : rule.Augments old new) :
    new.anonymous = old.anonymous := by
  induction old using Value.byParts generalizing new with
  | scalar value hscalar => rw [h.eq_of_isFlat (isFlat_of_isScalar hscalar)]
  | function | accessor => rw [h.eq_of_isFlat ⟨nofun, nofun⟩]
  | array items ih =>
      obtain ⟨supply, rfl⟩ := h.array
      have hitems := every_array_iff.mp hsettled
      exact congrArg Value.array
        (anonymousItems_augmentItems (fun item hmem new hnew => ih item hmem (hitems item hmem) hnew) supply)
  | object fields ih =>
      obtain ⟨supply, rfl⟩ := h.object
      obtain ⟨hfields, hvalues⟩ := every_object_iff.mp hsettled
      refine congrArg Value.object (anonymousEntries_augmentEntries hfields (fun entry hmem new hnew => ?_) supply)
      exact ih entry hmem (hvalues _ _ (Fields.get?_of_mem hfields.nodup hmem)) hnew

end AccessorRule

-- Augmenting a second time changes nothing but the identities of accessors: what stands at any place is the
-- same, and accessors give out the same for all arguments. Without overwriting, the second time counts as many
-- accessors as the first one.
theorem Context.augment_idempotent (rule : AccessorRule) (context : Context)
    (hkeys : (Value.object context.entries).Every fun object => object.keys.Nodup) :
    let once := context.augment rule
    let twice := once.1.augment rule
    (Value.object twice.1.entries).anonymous = (Value.object once.1.entries).anonymous ∧
      (∀ place identity name items,
        (Value.object once.1.entries).at? place = some (.accessor identity name items) →
        ∃ newIdentity newItems,
          (Value.object twice.1.entries).at? place = some (.accessor newIdentity name newItems) ∧
            ∀ args, (access name newItems args).map anonymous = (access name items args).map anonymous) ∧
      (rule.overwrite = false → twice.2 = once.2) := by
  intro once twice
  have hfirst : rule.Augments (.object context.entries) (.object once.1.entries) := ⟨context.supply, rfl⟩
  have hsecond : rule.Augments (.object once.1.entries) (.object twice.1.entries) := ⟨once.1.supply, rfl⟩
  have hsettled := AccessorRule.every_settled_of_augments hkeys hfirst
  have hsame := AccessorRule.anonymous_of_augments hsettled hsecond
  refine ⟨hsame, fun place identity name items hplace => ?_, fun hkeep => ?_⟩
  · have hat : ((Value.object twice.1.entries).at? place).map anonymous =
        some (.accessor 0 name (anonymousItems items)) := by
      rw [← at?_anonymous, hsame, at?_anonymous, hplace]
      rfl
    obtain ⟨found, hfound, hanonymous⟩ := Option.map_eq_some_iff.mp hat
    cases found with
    | accessor newIdentity newName newItems =>
        rw [anonymous] at hanonymous
        obtain ⟨-, rfl, hitems⟩ := Value.accessor.inj hanonymous
        refine ⟨newIdentity, newItems, hfound, fun args => ?_⟩
        rw [← access_anonymousItems, hitems, access_anonymousItems]
    | _ => cases hanonymous
  · obtain ⟨namePrefix, overwrite⟩ := rule
    subst hkeep
    have hkept := AccessorRule.keptBy_of_augments rfl hkeys hfirst
    rw [Context.augment_count namePrefix context hkeys,
      Context.augment_count namePrefix once.1 (hsettled.mono fun _ h => h.nodup)]
    exact AccessorRule.served_eq_of_keptBy hkept

-- An array whose accessor takes the key of another array, if it may.
def layered : Context :=
  ⟨[("$a", .array [.null]), ("a", .array [.object [("b", .array [.null])]])], 0⟩

theorem layered_augmented_twice :
    let rule : AccessorRule := ⟨"$", false⟩
    let once := layered.augment rule
    let twice := once.1.augment rule
    ((Value.object layered.entries).Every fun object => object.keys.Nodup) ∧
      (Value.object once.1.entries).at? [.key "$$a"] = some (.accessor 0 "$$a" [.null]) ∧
      (∃ newIdentity newItems,
        (Value.object twice.1.entries).at? [.key "$$a"] = some (.accessor newIdentity "$$a" newItems) ∧
          ∀ args, (access "$$a" newItems args).map anonymous = (access "$$a" [.null] args).map anonymous) ∧
      once.2 = 2 ∧ twice.2 = once.2 := by
  intro rule once twice
  have hnull : Value.null.Every fun object => object.keys.Nodup := Value.IsFlat.every ⟨nofun, nofun⟩
  have hitem : (Value.object [("b", .array [.null])]).Every fun object => object.keys.Nodup :=
    Value.every_object_of_forall_mem (by decide) (by simp [Value.every_array_iff, hnull])
  have hkeys : (Value.object layered.entries).Every fun object => object.keys.Nodup :=
    Value.every_object_of_forall_mem (by decide) (by simp [layered, Value.every_array_iff, hnull, hitem])
  obtain ⟨-, haccessors, hcount⟩ := Context.augment_idempotent rule layered hkeys
  exact ⟨hkeys, rfl, haccessors _ 0 "$$a" [.null] rfl, rfl, hcount rfl⟩

-- With overwriting, the first augmentation also counts the accessor of an array that it replaces then.
example :
    let first := Context.augment ⟨[("$a", .array []), ("a", .array [])], 0⟩ ⟨"$", true⟩
    first.2 = 2 ∧ (first.1.augment ⟨"$", true⟩).2 = 1 :=
  ⟨rfl, rfl⟩

end JsonTemplate
