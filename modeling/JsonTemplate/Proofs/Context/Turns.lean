import JsonTemplate.Proofs.Context.Passage
import Mathlib.Data.List.Basic
import Mathlib.Data.Option.Defs

namespace JsonTemplate

namespace Fields

variable {α : Type}

-- One key of an object stands before another one.
def Precedes (fields : Fields α) (key other : String) : Prop := fields.keys.idxOf key < fields.keys.idxOf other

instance (fields : Fields α) (key other : String) : Decidable (fields.Precedes key other) :=
  inferInstanceAs (Decidable (_ < _))

theorem precedes_iff_mem {passed entries : List (String × α)} {key : String} {value : α}
    (hkey : key ∉ keys passed) (other : String) :
    Precedes (passed ++ (key, value) :: entries) other key ↔ other ∈ keys passed := by
  have hkeys : keys (passed ++ (key, value) :: entries) = keys passed ++ key :: keys entries := List.map_append
  rw [Precedes, hkeys, List.idxOf_append_of_notMem hkey, List.idxOf_cons_self, Nat.add_zero]
  by_cases hother : other ∈ keys passed
  · rw [List.idxOf_append_of_mem hother, List.idxOf_lt_length_iff]
  · rw [List.idxOf_append_of_notMem hother]
    exact iff_of_false (by omega) hother

end Fields

namespace AccessorRule

variable {rule : AccessorRule} {start fields : Fields Value} {entries : List (String × Value)} {key name : String}

-- The array under a key is still there when the passage through the entries comes to it: no array has had its
-- turn before whose accessor takes the key.
def HasTurn (rule : AccessorRule) (start : Fields Value) (key : String) : Prop :=
  (∃ items, start.get? key = some (.array items)) ∧
    (rule.overwrite = true → ∀ other, key = rule.namePrefix ++ other → ∀ _ : other.length < key.length,
      start.Precedes other key → ¬rule.HasTurn start other)
termination_by key.length

theorem HasTurn.exists_array (h : rule.HasTurn start key) : ∃ items, start.get? key = some (.array items) := by
  rw [HasTurn] at h
  exact h.1

theorem hasTurn_iff (hpre : rule.namePrefix ≠ "") :
    rule.HasTurn start key ↔ (∃ items, start.get? key = some (.array items)) ∧
      (rule.overwrite = true → ∀ other, key = rule.namePrefix ++ other →
        start.Precedes other key → ¬rule.HasTurn start other) := by
  rw [HasTurn]
  refine and_congr_right fun _ => imp_congr_right fun _ => forall₂_congr fun other hname => ?_
  exact forall_prop_of_true (hname ▸ length_lt_of_name hpre other)

-- The array under the key has had its turn, and its accessor has taken its name.
structure Given (rule : AccessorRule) (start : Fields Value) (entries : List (String × Value)) (key : String) :
    Prop where
  passed : key ∉ Fields.keys entries
  turn : rule.HasTurn start key
  free : rule.MayTake start key

def Taken (rule : AccessorRule) (start : Fields Value) (entries : List (String × Value)) (name : String) : Prop :=
  ∃ key, name = rule.namePrefix ++ key ∧ rule.Given start entries key

-- The accessor of the array that stood under the key gives out what augmentation made of its items.
def Stored (rule : AccessorRule) (start fields : Fields Value) (key : String) : Prop :=
  ∃ identity items new, start.get? key = some (.array items) ∧ rule.Augments (.array items) (.array new) ∧
    fields.get? (rule.namePrefix ++ key) = some (.accessor identity (rule.namePrefix ++ key) new)

-- An object on the passage through its entries, where some are still to come. The arrays that have had their
-- turn decide what stands under a key.
structure Stage (rule : AccessorRule) (start : Fields Value) (entries : List (String × Value))
    (fields : Fields Value) : Prop where
  split : ∃ passed, start = passed ++ entries
  stored : ∀ {key : String}, rule.Given start entries key → rule.Stored start fields key
  pending : ∀ {name : String} {value : Value}, (name, value) ∈ entries → ¬rule.Taken start entries name →
    fields.get? name = some value
  grown : ∀ {name : String}, name ∉ Fields.keys entries → ¬rule.Taken start entries name →
    Option.Rel rule.Augments (start.get? name) (fields.get? name)

theorem taken_name_iff : rule.Taken start entries (rule.namePrefix ++ key) ↔ rule.Given start entries key := by
  constructor
  · rintro ⟨other, hname, hgiven⟩
    exact (String.append_right_inj _).mp hname ▸ hgiven
  · exact fun hgiven => ⟨key, rfl, hgiven⟩

theorem stage_self (hnodup : start.keys.Nodup) : rule.Stage start start start where
  split := ⟨[], rfl⟩
  stored hgiven := by
    obtain ⟨items, hget⟩ := hgiven.turn.exists_array
    exact absurd (List.mem_map_of_mem (f := Prod.fst) (Fields.mem_of_get? hget)) hgiven.passed
  pending hmem _ := Fields.get?_of_mem hnodup hmem
  grown hname _ := by
    rw [Fields.get?_eq_none_iff.mpr hname]
    exact .none

section

variable {value : Value} (h : rule.Stage start ((key, value) :: entries) fields)

include h

-- An accessor stands under the next key if the key has been taken, or was an accessor's at the start.
theorem Stage.isReplaced_iff :
    isReplaced fields key = true ↔ rule.Taken start ((key, value) :: entries) key ∨ value.isAccessor = true := by
  by_cases htaken : rule.Taken start ((key, value) :: entries) key
  · obtain ⟨other, rfl, hgiven⟩ := id htaken
    obtain ⟨identity, items, new, -, -, hget⟩ := h.stored hgiven
    exact iff_of_true (by rw [isReplaced, hget]; rfl) (.inl htaken)
  · rw [isReplaced, h.pending List.mem_cons_self htaken, Option.any_some, or_iff_right htaken]

variable (hnodup : start.keys.Nodup)

include hnodup

theorem Stage.get?_start : start.get? key = some value := by
  obtain ⟨passed, rfl⟩ := h.split
  exact Fields.get?_of_mem hnodup (List.mem_append_right _ List.mem_cons_self)

theorem Stage.not_mem_keys : key ∉ Fields.keys entries := by
  obtain ⟨passed, rfl⟩ := h.split
  rw [Fields.keys, List.map_append, List.nodup_append] at hnodup
  exact (List.nodup_cons.mp hnodup.2.1).1

-- The keys before the next one are those that have been passed.
theorem Stage.precedes_iff {other : String} :
    start.Precedes other key ↔ other ∈ start.keys ∧ other ∉ Fields.keys ((key, value) :: entries) := by
  obtain ⟨passed, rfl⟩ := h.split
  have hkeys : Fields.keys (passed ++ (key, value) :: entries) =
      Fields.keys passed ++ Fields.keys ((key, value) :: entries) := List.map_append
  rw [hkeys, List.nodup_append] at hnodup
  have hdisjoint {other : String} (hpassed : other ∈ Fields.keys passed) :
      other ∉ Fields.keys ((key, value) :: entries) := fun hmem => hnodup.2.2 other hpassed other hmem rfl
  rw [Fields.precedes_iff_mem fun hmem => hdisjoint hmem List.mem_cons_self, hkeys, List.mem_append]
  constructor
  · exact fun hmem => ⟨.inl hmem, hdisjoint hmem⟩
  · exact fun hother => hother.1.resolve_right hother.2

end

-- The next array has its turn just if no accessor has taken its place.
theorem Stage.hasTurn_iff (hpre : rule.namePrefix ≠ "") (hnodup : start.keys.Nodup) {items : List Value}
    (h : rule.Stage start ((key, .array items) :: entries) fields) :
    rule.HasTurn start key ↔ isReplaced fields key = false := by
  have hget := h.get?_start hnodup
  rw [AccessorRule.hasTurn_iff hpre, and_iff_right ⟨items, hget⟩, ← Bool.not_eq_true, h.isReplaced_iff]
  constructor
  · rintro hturn (⟨other, rfl, hgiven⟩ | haccessor)
    · have hoverwrite : rule.overwrite = true := hgiven.free.resolve_right fun hfree => by cases hfree _ hget
      obtain ⟨others, hother⟩ := hgiven.turn.exists_array
      have hmem : other ∈ start.keys := List.mem_map_of_mem (f := Prod.fst) (Fields.mem_of_get? hother)
      exact hturn hoverwrite other rfl ((h.precedes_iff hnodup).mpr ⟨hmem, hgiven.passed⟩) hgiven.turn
    · cases haccessor
  · rintro hplain hoverwrite other rfl hprecedes hturn
    exact hplain (.inl ⟨other, rfl, ((h.precedes_iff hnodup).mp hprecedes).2, hturn, .inl hoverwrite⟩)

theorem given_cons_iff (hkey : key ∉ Fields.keys entries) (value : Value) {other : String} :
    rule.Given start entries other ↔
      rule.Given start ((key, value) :: entries) other ∨ other = key ∧ rule.Given start entries key := by
  constructor
  · intro hgiven
    by_cases he : other = key
    · exact .inr ⟨he, he ▸ hgiven⟩
    · exact .inl ⟨by simpa [Fields.keys, he] using hgiven.passed, hgiven.turn, hgiven.free⟩
  · rintro (hgiven | ⟨rfl, hgiven⟩)
    · exact ⟨fun hmem => hgiven.passed (List.mem_cons_of_mem _ hmem), hgiven.turn, hgiven.free⟩
    · exact hgiven

theorem Augments.isAccessor_eq {old new : Value} (h : rule.Augments old new) : new.isAccessor = old.isAccessor := by
  cases old with
  | array items =>
      obtain ⟨supply, rfl⟩ := h.array
      rfl
  | object fields =>
      obtain ⟨supply, rfl⟩ := h.object
      rfl
  | _ => rw [h.eq_of_isFlat ⟨nofun, nofun⟩]

-- What kept the accessor of the next array from its name at the start does so still, and nothing else does.
theorem Stage.mayTake_iff {value : Value} (hnodup : start.keys.Nodup)
    (h : rule.Stage start ((key, value) :: entries) fields) : rule.MayTake fields key ↔ rule.MayTake start key := by
  have hfree : ¬rule.Taken start ((key, value) :: entries) (rule.namePrefix ++ key) := fun htaken =>
    (taken_name_iff.mp htaken).passed List.mem_cons_self
  have hrel : Option.Rel (fun old new => new.isAccessor = old.isAccessor) (start.get? (rule.namePrefix ++ key))
      (fields.get? (rule.namePrefix ++ key)) := by
    by_cases hmem : rule.namePrefix ++ key ∈ Fields.keys ((key, value) :: entries)
    · obtain ⟨⟨name, found⟩, hentry, rfl⟩ := List.mem_map.mp hmem
      obtain ⟨passed, hsplit⟩ := h.split
      have hstart : (rule.namePrefix ++ key, found) ∈ start := hsplit ▸ List.mem_append_right _ hentry
      rw [Fields.get?_of_mem hnodup hstart, h.pending hentry hfree]
      exact .some rfl
    · have hgrown := h.grown hmem hfree
      generalize start.get? _ = old, fields.get? _ = new at hgrown
      cases hgrown with
      | none => exact .none
      | some hnew => exact .some hnew.isAccessor_eq
  rw [MayTake, MayTake]
  refine or_congr_right ?_
  generalize start.get? _ = old, fields.get? _ = new at hrel
  cases hrel with
  | none => simp
  | some hsame => simp [hsame]

-- The next entry is passed. Only its own key and that of its accessor may change.
theorem Stage.advance {value : Value} {fields' : Fields Value} (hnodup : start.keys.Nodup)
    (h : rule.Stage start ((key, value) :: entries) fields)
    (hothers : ∀ name, key ≠ name → (rule.Given start entries key → name ≠ rule.namePrefix ++ key) →
      fields'.get? name = fields.get? name)
    (htaken : rule.Taken start ((key, value) :: entries) key → fields'.get? key = fields.get? key)
    (hstored : rule.Given start entries key → rule.Stored start fields' key)
    (hgrown : ¬rule.Taken start ((key, value) :: entries) key →
      Option.Rel rule.Augments (some value) (fields'.get? key)) :
    rule.Stage start entries fields' := by
  have hkey := h.not_mem_keys hnodup
  have hgiven {other : String} : rule.Given start entries other ↔ _ := given_cons_iff hkey value
  have hbefore {name : String} (hname : ¬rule.Taken start entries name) :
      ¬rule.Taken start ((key, value) :: entries) name ∧
        (rule.Given start entries key → name ≠ rule.namePrefix ++ key) := by
    refine ⟨?_, ?_⟩
    · rintro ⟨other, rfl, hother⟩
      exact hname ⟨other, rfl, hgiven.mpr (.inl hother)⟩
    · rintro hown rfl
      exact hname ⟨key, rfl, hown⟩
  refine ⟨?_, ?_, ?_, ?_⟩
  · obtain ⟨passed, hsplit⟩ := h.split
    exact ⟨passed ++ [(key, value)], by rw [hsplit, List.append_assoc, List.singleton_append]⟩
  · intro other hother
    rcases hgiven.mp hother with hold | ⟨rfl, hown⟩
    · obtain ⟨identity, items, new, hitems, hnew, hget⟩ := h.stored hold
      refine ⟨identity, items, new, hitems, hnew, ?_⟩
      rw [← hget]
      by_cases he : key = rule.namePrefix ++ other
      · exact he ▸ htaken ⟨other, he, hold⟩
      · refine hothers _ he fun hown hname => ?_
        exact hold.passed ((String.append_right_inj _).mp hname ▸ List.mem_cons_self)
    · exact hstored hown
  · intro name found hmem hname
    obtain ⟨hold, hother⟩ := hbefore hname
    have hne : key ≠ name := by
      rintro rfl
      exact hkey (List.mem_map_of_mem (f := Prod.fst) hmem)
    rw [hothers name hne hother]
    exact h.pending (List.mem_cons_of_mem _ hmem) hold
  · intro name hmem hname
    obtain ⟨hold, hother⟩ := hbefore hname
    by_cases he : key = name
    · subst he
      rw [h.get?_start hnodup]
      exact hgrown hold
    · rw [hothers name he hother]
      exact h.grown (by simpa [Fields.keys, Ne.symm he] using hmem) hold

section

variable (hnodup : start.keys.Nodup)

include hnodup

-- No array stands under the key any more, or none did.
theorem Stage.skip {value : Value} (hpre : rule.namePrefix ≠ "")
    (h : rule.Stage start ((key, value) :: entries) fields)
    (hskip : value.IsFlat ∨ isReplaced fields key = true) : rule.Stage start entries fields := by
  have hturn : ¬rule.HasTurn start key := by
    intro hturn
    obtain ⟨items, hget⟩ := hturn.exists_array
    obtain rfl : value = .array items := Option.some.inj ((h.get?_start hnodup).symm.trans hget)
    rw [h.hasTurn_iff hpre hnodup] at hturn
    rcases hskip with hflat | hreplaced
    · exact hflat.1 items rfl
    · rw [hturn] at hreplaced
      cases hreplaced
  refine h.advance hnodup (fun _ _ _ => rfl) (fun _ => rfl) (fun hgiven => absurd hgiven.turn hturn) fun htaken => ?_
  have hflat : value.IsFlat := hskip.elim id fun hreplaced =>
    Value.isFlat_of_isAccessor ((h.isReplaced_iff.mp hreplaced).resolve_left htaken)
  rw [h.pending List.mem_cons_self htaken]
  exact .some (augments_of_flat hflat)

theorem Stage.object {inner new : Fields Value} (h : rule.Stage start ((key, .object inner) :: entries) fields)
    (hplain : isReplaced fields key = false) (hnew : rule.Augments (.object inner) (.object new)) :
    rule.Stage start entries (fields.insert key (.object new)) := by
  have hturn : ¬rule.HasTurn start key := by
    intro hturn
    obtain ⟨items, hget⟩ := hturn.exists_array
    rw [h.get?_start hnodup] at hget
    cases hget
  have hfree : ¬rule.Taken start ((key, .object inner) :: entries) key := fun htaken => by
    rw [h.isReplaced_iff.mpr (.inl htaken)] at hplain
    cases hplain
  refine h.advance hnodup ?_ (fun htaken => absurd htaken hfree) (fun hgiven => absurd hgiven.turn hturn) fun _ => ?_
  · intro name hne _
    rw [Fields.get?_insert, if_neg hne]
  · rw [Fields.get?_insert, if_pos rfl]
    exact .some hnew

variable (hpre : rule.namePrefix ≠ "")

include hpre

theorem Stage.array {items newItems : List Value} (supply : Nat)
    (h : rule.Stage start ((key, .array items) :: entries) fields) (hplain : isReplaced fields key = false)
    (hnew : rule.Augments (.array items) (.array newItems)) :
    rule.Stage start entries (rule.install (fields.insert key (.array newItems)) key newItems supply).1 := by
  have hturn := (h.hasTurn_iff hpre hnodup).mpr hplain
  have htaken : ¬rule.Taken start ((key, .array items) :: entries) key := fun htaken => by
    rw [h.isReplaced_iff.mpr (.inl htaken)] at hplain
    cases hplain
  have hname := name_ne hpre key
  have hother {name : String} (hne : key ≠ name) :
      (fields.insert key (.array newItems)).get? name = fields.get? name := by
    rw [Fields.get?_insert, if_neg hne]
  have hself : (fields.insert key (.array newItems)).get? key = some (.array newItems) := by
    rw [Fields.get?_insert, if_pos rfl]
  have hfree : rule.MayTake (fields.insert key (.array newItems)) key ↔ rule.MayTake start key := by
    rw [MayTake, hother (Ne.symm hname)]
    exact h.mayTake_iff hnodup
  rcases rule.install_cases (fields.insert key (.array newItems)) key newItems supply with
    ⟨⟨hkeep, found, hfound, hstays⟩, hinstall⟩ | ⟨hmay, hinstall⟩
  · have hgiven : ¬rule.Given start entries key := fun hgiven => by
      have haccessor := (hfree.mpr hgiven.free).resolve_left (by simp [hkeep]) found hfound
      rw [haccessor] at hstays
      cases hstays
    rw [hinstall]
    refine h.advance hnodup (fun name hne _ => hother hne) (absurd · htaken) (absurd · hgiven) fun _ => ?_
    rw [hself]
    exact .some hnew
  · have hgiven : rule.Given start entries key := ⟨h.not_mem_keys hnodup, hturn, hfree.mp hmay⟩
    rw [hinstall]
    refine h.advance hnodup ?_ (absurd · htaken) (fun _ => ?_) fun _ => ?_
    · intro name hne hfree
      rw [Fields.get?_insert, if_neg (Ne.symm (hfree hgiven)), hother hne]
    · exact ⟨supply, items, newItems, h.get?_start hnodup, hnew, by rw [Fields.get?_insert, if_pos rfl]⟩
    · rw [Fields.get?_insert, if_neg hname, hself]
      exact .some hnew

-- What an augmented object holds under each key: the accessor of an array that had its turn, or what has grown
-- out of the entry that was there.
theorem stage_augmentEntries (supply : Nat) :
    rule.Stage start [] (rule.augmentEntries start start supply).1 :=
  augmentEntries_induction (motive := rule.Stage start) (fun h => h.skip hnodup hpre) (fun h => h.object hnodup)
    (fun supply h => h.array hnodup hpre supply) (stage_self hnodup) supply

end

end AccessorRule

end JsonTemplate
