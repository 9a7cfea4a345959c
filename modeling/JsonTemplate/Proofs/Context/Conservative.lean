import JsonTemplate.Proofs.Context.Augment
import JsonTemplate.Proofs.Value.Bare

namespace JsonTemplate.AccessorRule

-- Accessors take no place of an entry that is none: they may not, or there is none in their place.
structure Spares (rule : AccessorRule) (fields : Fields Value) : Prop where
  nodup : fields.keys.Nodup
  free : rule.overwrite = true → ∀ key value, fields.get? (rule.namePrefix ++ key) = some value →
    value.isAccessor = true

-- An object while its entries are gone through, as far as its other entries are concerned.
structure Pending (rule : AccessorRule) (entries : List (String × Value)) (fields : Fields Value) : Prop
    extends Spares rule fields where
  distinct : (Fields.keys entries).Nodup
  inner : ∀ {key : String} {value : Value}, (key, value) ∈ entries → value.Every rule.Spares
  pending : ∀ {key : String} {value : Value}, (key, value) ∈ entries →
    isReplaced fields key = false → fields.get? key = some value

variable {rule : AccessorRule}

theorem pending_self {fields : Fields Value} (h : rule.Spares fields)
    (hvalues : ∀ key value, fields.get? key = some value → value.Every rule.Spares) :
    rule.Pending fields fields where
  toSpares := h
  distinct := h.nodup
  inner hmem := hvalues _ _ (Fields.get?_of_mem h.nodup hmem)
  pending hmem _ := Fields.get?_of_mem h.nodup hmem

theorem Pending.tail {entry : String × Value} {entries : List (String × Value)} {fields : Fields Value}
    (h : rule.Pending (entry :: entries) fields) : rule.Pending entries fields where
  toSpares := h.toSpares
  distinct := (List.nodup_cons.mp h.distinct).2
  inner hmem := h.inner (List.mem_cons_of_mem _ hmem)
  pending hmem := h.pending (List.mem_cons_of_mem _ hmem)

-- The value of the first entry gives way to another one.
theorem Pending.replace {entries : List (String × Value)} {fields : Fields Value} {key : String}
    {old new : Value} (h : rule.Pending ((key, old) :: entries) fields)
    (hplain : isReplaced fields key = false) : rule.Pending entries (fields.insert key new) where
  nodup := Fields.keys_insert_nodup h.nodup key new
  free hoverwrite other value hget := by
    rw [Fields.get?_insert] at hget
    split at hget
    · rename_i hkey
      have hold := h.pending List.mem_cons_self hplain
      have haccessor := h.free hoverwrite other old (hkey ▸ hold)
      rw [isReplaced, hold, Option.any_some, haccessor] at hplain
      cases hplain
    · exact h.free hoverwrite other value hget
  distinct := (List.nodup_cons.mp h.distinct).2
  inner hmem := h.inner (List.mem_cons_of_mem _ hmem)
  pending {other value} hmem hother := by
    have hne : key ≠ other := by
      rintro rfl
      exact (List.nodup_cons.mp h.distinct).1 (List.mem_map.mpr ⟨_, hmem, rfl⟩)
    rw [isReplaced_insert, if_neg hne] at hother
    rw [Fields.get?_insert, if_neg hne]
    exact h.pending (List.mem_cons_of_mem _ hmem) hother

theorem Pending.insert_accessor {entries : List (String × Value)} {fields : Fields Value} {name : String}
    {value : Value} (h : rule.Pending entries fields) (hvalue : value.isAccessor = true) :
    rule.Pending entries (fields.insert name value) where
  nodup := Fields.keys_insert_nodup h.nodup name value
  free hoverwrite other found hget := by
    rw [Fields.get?_insert] at hget
    split at hget
    · cases hget
      exact hvalue
    · exact h.free hoverwrite other found hget
  distinct := h.distinct
  inner := h.inner
  pending {other found} hmem hother := by
    rw [isReplaced_insert] at hother
    rw [Fields.get?_insert]
    split at hother
    · rw [hvalue] at hother
      cases hother
    · rename_i hne
      rw [if_neg hne]
      exact h.pending hmem hother

-- An accessor comes into the object or does not. Its other entries stay.
theorem Pending.install {entries : List (String × Value)} {fields : Fields Value}
    (h : rule.Pending entries fields) (key : String) (items : List Value) (supply : Nat) :
    rule.Pending entries (rule.install fields key items supply).1 ∧
      Value.bareEntries (rule.install fields key items supply).1 = Value.bareEntries fields := by
  rcases rule.install_cases fields key items supply with ⟨-, hinstall⟩ | ⟨hfree, hinstall⟩
  · rw [hinstall]
    exact ⟨h, rfl⟩
  · have haccessors : ∀ value, fields.get? (rule.namePrefix ++ key) = some value → value.isAccessor = true :=
      hfree.elim (fun hoverwrite value => h.free hoverwrite key value) id
    rw [hinstall]
    exact ⟨h.insert_accessor rfl, Value.bareEntries_insert_accessor rfl haccessors⟩

-- By the recursion of the three functions: augmentation changes nothing but accessors.
theorem bareEntries_augmentEntries (entries : List (String × Value)) (fields : Fields Value) (supply : Nat)
    (h : rule.Pending entries fields) :
    Value.bareEntries (rule.augmentEntries entries fields supply).1 = Value.bareEntries fields := by
  refine augmentEntries.induct rule
    (fun value supply => value.Every rule.Spares → (rule.augmentValue value supply).1.bare = value.bare)
    (fun entries fields supply => rule.Pending entries fields →
      Value.bareEntries (rule.augmentEntries entries fields supply).1 = Value.bareEntries fields)
    (fun items supply => (∀ value ∈ items, value.Every rule.Spares) →
      Value.bareItems (rule.augmentItems items supply).1 = Value.bareItems items)
    ?array ?object ?flat ?noItems ?items ?done ?replacedArray ?entryArray ?replacedObject ?entryObject
    ?entryFlat entries fields supply h
  case array =>
    intro items supply _ _ hcall ih h
    rw [augmentValue]
    exact congrArg Value.array (ih (Value.every_array_iff.mp h))
  case object =>
    intro entries supply _ _ hcall ih h
    obtain ⟨hspares, hvalues⟩ := Value.every_object_iff.mp h
    rw [augmentValue]
    exact congrArg Value.object (ih (pending_self hspares hvalues))
  case flat =>
    intro value supply harray hobject _
    rw [augmentValue_of_flat ⟨harray, hobject⟩]
  case noItems =>
    intro _ _
    rfl
  case items =>
    intro item items supply _ _ hitem _ _ _ ihItem ihItems h
    have hhead := ihItem (h item List.mem_cons_self)
    have htail := ihItems fun value hmem => h value (List.mem_cons_of_mem _ hmem)
    rw [hitem] at hhead
    rw [augmentItems, hitem]
    exact congrArg₂ List.cons hhead htail
  case done =>
    intro _ _ _
    rfl
  case replacedArray =>
    intro key items entries fields supply hreplaced ih h
    rw [augmentEntries, if_pos hreplaced]
    exact ih h.tail
  case entryArray =>
    intro key items entries fields supply hplain newItems next hitems newFields _ hinstall ihItems ih h
    have hbare := ihItems (Value.every_array_iff.mp (h.inner List.mem_cons_self))
    rw [hitems] at hbare
    have hget := h.pending List.mem_cons_self (Bool.eq_false_iff.mpr hplain)
    have hreplace : rule.Pending entries (fields.insert key (.array newItems)) :=
      h.replace (Bool.eq_false_iff.mpr hplain)
    obtain ⟨hnext, hsame⟩ := hreplace.install key newItems next
    rw [hinstall] at hnext hsame
    rw [augmentEntries, if_neg hplain]
    simp only [hitems, hinstall]
    rw [ih hnext, hsame]
    exact Value.bareEntries_insert hget rfl (congrArg Value.array hbare)
  case replacedObject =>
    intro key inner entries fields supply hreplaced ih h
    rw [augmentEntries, if_pos hreplaced]
    exact ih h.tail
  case entryObject =>
    intro key inner entries fields supply hplain newInner _ hinner ihInner ih h
    obtain ⟨hspares, hvalues⟩ := Value.every_object_iff.mp (h.inner List.mem_cons_self)
    have hbare := ihInner (pending_self hspares hvalues)
    rw [hinner] at hbare
    have hget := h.pending List.mem_cons_self (Bool.eq_false_iff.mpr hplain)
    rw [augmentEntries, if_neg hplain, hinner]
    exact (ih (h.replace (Bool.eq_false_iff.mpr hplain))).trans
      (Value.bareEntries_insert hget rfl (congrArg Value.object hbare))
  case entryFlat =>
    intro entry entries fields supply harray hobject ih h
    obtain ⟨key, value⟩ := entry
    have hflat := Value.isFlat_of_entry harray hobject
    rw [augmentEntries_of_flat hflat]
    exact ih h.tail

end JsonTemplate.AccessorRule
