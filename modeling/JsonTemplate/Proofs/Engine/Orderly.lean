import JsonTemplate.Proofs.Context.Augment
import JsonTemplate.Proofs.Engine.Run

namespace JsonTemplate

namespace AccessorRule

variable {rule : AccessorRule} {withdrawn withdrawn' : String → Prop}

-- The entry of one key changes, and with it what is known to be withdrawn.
theorem Tidy.change {fields new : Fields Value} {key : String} (h : rule.Tidy withdrawn fields)
    (hnodup : new.keys.Nodup)
    (hsame : ∀ other, key ≠ other → new.get? other = fields.get? other)
    (hplain : isReplaced new key = false)
    (hkey : (∃ items, new.get? key = some (.array items)) ∨ withdrawn' key)
    (hwithdrawn : ∀ other, key ≠ other → withdrawn other → withdrawn' other) :
    rule.Tidy withdrawn' new where
  nodup := hnodup
  named {name own identity items} hget := by
    by_cases he : key = name
    · subst he
      rw [isReplaced, hget] at hplain
      cases hplain
    · rw [hsame name he] at hget
      exact h.named hget
  beside {other} hother := by
    have hname : key ≠ rule.namePrefix ++ other := by
      rintro rfl
      rw [hplain] at hother
      cases hother
    rw [isReplaced, hsame _ hname] at hother
    by_cases he : key = other
    · subst he
      rcases hkey with harray | hkey
      · exact .inl harray
      · exact .inr (.inr hkey)
    · rw [isReplaced, hsame other he]
      rcases h.beside hother with harray | hoverwrite | hother
      · exact .inl harray
      · exact .inr (.inl hoverwrite)
      · exact .inr (.inr (hwithdrawn other he hother))

-- Where there is no accessor, nothing is out of place.
theorem tidy_entriesOfJson {entries : List (String × Json)} (h : (Fields.keys entries).Nodup) :
    rule.Tidy withdrawn (Value.entriesOfJson entries) := by
  have hplain : ∀ key value, Fields.get? (Value.entriesOfJson entries) key = some value →
      value.isAccessor = false := by
    intro key value hget
    obtain ⟨json, -, rfl⟩ := Value.exists_of_get?_entriesOfJson hget
    exact Value.isAccessor_ofJson json
  refine ⟨by rwa [Value.keys_entriesOfJson], fun hget => ?_, fun hreplaced => ?_⟩
  · cases hplain _ _ hget
  · obtain ⟨value, hget, hkind⟩ := isReplaced_iff.mp hreplaced
    rw [hplain _ value hget] at hkind
    cases hkind

theorem every_tidy_ofJson {json : Json} (h : json.WellFormed) :
    (Value.ofJson json).Every (rule.Tidy withdrawn) :=
  Value.every_ofJson h fun _ hnodup => tidy_entriesOfJson hnodup

-- A push leaves an array an array and an object an object, and all objects on its way are tidy again.
theorem every_tidy_appendAt? {item : Value} (hitem : item.Every (rule.Tidy nothing)) {place : List Position}
    {value new : Value} (h : value.Every (rule.Tidy nothing))
    (hnew : Value.appendAt? item place value = some new) :
    new.Every (rule.Tidy nothing) ∧ value.isAccessor = false ∧ new.isAccessor = false ∧
      ∀ items, value = .array items → ∃ others, new = .array others := by
  induction place generalizing value new with
  | nil =>
      cases value with
      | array items =>
          rw [Value.every_array_iff] at h
          cases hnew
          refine ⟨Value.every_array_iff.mpr ?_, rfl, rfl, fun _ _ => ⟨_, rfl⟩⟩
          intro value hmem
          rcases List.mem_append.mp hmem with hmem | hmem
          · exact h value hmem
          · exact List.mem_singleton.mp hmem ▸ hitem
      | _ => cases hnew
  | cons position place ih =>
      cases position with
      | key key =>
          cases value with
          | object fields =>
              obtain ⟨htidy, hvalues⟩ := Value.every_object_iff.mp h
              obtain ⟨child, hget, hchild⟩ := Option.bind_eq_some_iff.mp hnew
              obtain ⟨newChild, hnewChild, hdone⟩ := Option.bind_eq_some_iff.mp hchild
              cases hdone
              obtain ⟨hevery, hplain, hnewPlain, harray⟩ := ih (hvalues key child hget) hnewChild
              refine ⟨Value.every_object_iff.mpr ⟨?_, ?_⟩, rfl, rfl, nofun⟩
              · refine htidy.insert hget ?_ hnewPlain harray
                rw [isReplaced, hget]
                exact hplain
              · exact Fields.forall_insert hvalues hevery key
          | _ => cases hnew
      | item index =>
          cases value with
          | array items =>
              rw [Value.every_array_iff] at h
              obtain ⟨child, hget, hchild⟩ := Option.bind_eq_some_iff.mp hnew
              obtain ⟨newChild, hnewChild, hdone⟩ := Option.bind_eq_some_iff.mp hchild
              cases hdone
              have hevery := (ih (h child (List.mem_of_getElem? hget)) hnewChild).1
              refine ⟨Value.every_array_iff.mpr ?_, rfl, rfl, fun _ _ => ⟨_, rfl⟩⟩
              intro value hmem
              rcases List.mem_or_eq_of_mem_set hmem with hmem | rfl
              · exact h value hmem
              · exact hevery
          | _ => cases hnew

end AccessorRule

namespace Context

open AccessorRule (nothing)

-- All objects of a context are tidy. Only from the context itself can the owner of an engine have
-- taken arrays away.
structure Orderly (rule : AccessorRule) (withdrawn : String → Prop) (context : Context) : Prop where
  tidy : rule.Tidy withdrawn context.entries
  values : ∀ key value, context.entries.get? key = some value → value.Every (rule.Tidy nothing)

variable {rule : AccessorRule} {withdrawn : String → Prop}

theorem orderly_ofJson {json : Json} (hjson : json.WellFormed) {supply : Nat} {context : Context}
    (h : ofJson supply json = .ok context) (withdrawn : String → Prop) : context.Orderly rule withdrawn := by
  cases json with
  | object entries =>
      cases h
      have hnodup := hjson.keys_nodup
      refine ⟨AccessorRule.tidy_entriesOfJson hnodup, ?_⟩
      exact (Value.every_object_iff.mp (AccessorRule.every_tidy_ofJson hjson)).2
  | _ => cases h

theorem entries_insert (context : Context) (key : String) (value : Value) :
    (context.insert key value).entries = context.entries.insert key value := rfl

theorem entries_erase (context : Context) (key : String) :
    (context.erase key).entries = context.entries.erase key := rfl

theorem Orderly.augment (hpre : rule.namePrefix ≠ "") {context : Context}
    (h : context.Orderly rule withdrawn) : rule.Fresh withdrawn (context.augment rule).1.entries ∧
      ∀ key value, (context.augment rule).1.entries.get? key = some value →
        value.Every (rule.Fresh nothing) :=
  (AccessorRule.augmentEntries_underway hpre context.entries context.entries context.supply
    (AccessorRule.underway_self h.tidy h.values)).done

theorem Orderly.insert {context : Context} (h : context.Orderly rule withdrawn) {key : String}
    {value : Value} {withdrawn' : String → Prop} (hvalue : value.Every (rule.Tidy nothing))
    (hplain : value.isAccessor = false)
    (hkey : (∃ items, value = .array items) ∨ withdrawn' key)
    (hwithdrawn : ∀ other, key ≠ other → withdrawn other → withdrawn' other) :
    (context.insert key value).Orderly rule withdrawn' := by
  have hself : (context.entries.insert key value).get? key = some value := by
    rw [Fields.get?_insert, if_pos rfl]
  refine ⟨h.tidy.change (Fields.keys_insert_nodup h.tidy.nodup key value) ?_ ?_ ?_ hwithdrawn, ?_⟩
  · intro other hne
    rw [entries_insert, Fields.get?_insert, if_neg hne]
  · rw [entries_insert, AccessorRule.isReplaced_insert, if_pos rfl, hplain]
  · rcases hkey with ⟨items, rfl⟩ | hkey
    · exact .inl ⟨items, hself⟩
    · exact .inr hkey
  · exact Fields.forall_insert h.values hvalue key

theorem Orderly.erase {context : Context} (h : context.Orderly rule withdrawn) {key : String}
    {withdrawn' : String → Prop} (hkey : withdrawn' key)
    (hwithdrawn : ∀ other, key ≠ other → withdrawn other → withdrawn' other) :
    (context.erase key).Orderly rule withdrawn' := by
  refine ⟨h.tidy.change (Fields.keys_erase_nodup h.tidy.nodup key) ?_ ?_ (.inr hkey) hwithdrawn, ?_⟩
  · intro other hne
    rw [entries_erase, Fields.get?_erase, if_neg hne]
  · rw [entries_erase, AccessorRule.isReplaced, Fields.get?_erase, if_pos rfl]
    rfl
  · intro other found hget
    rw [entries_erase, Fields.get?_erase] at hget
    split at hget
    · cases hget
    · exact h.values other found hget

theorem Orderly.mono {context : Context} (h : context.Orderly rule withdrawn)
    {withdrawn' : String → Prop} (hwithdrawn : ∀ key, withdrawn key → withdrawn' key) :
    context.Orderly rule withdrawn' := by
  refine ⟨{ h.tidy with beside := fun hreplaced => ?_ }, h.values⟩
  rcases h.tidy.beside hreplaced with harray | hoverwrite | hkey
  · exact .inl harray
  · exact .inr (.inl hoverwrite)
  · exact .inr (.inr (hwithdrawn _ hkey))

theorem Orderly.push {context : Context} (h : context.Orderly rule withdrawn) {key : String}
    {old new item : Value} {place : List Position} (hitem : item.Every (rule.Tidy nothing))
    (hget : context.entries.get? key = some old) (hnew : item.appendAt? place old = some new) :
    (context.insert key new).Orderly rule withdrawn := by
  obtain ⟨hevery, hplain, hnewPlain, harray⟩ :=
    AccessorRule.every_tidy_appendAt? hitem (h.values key old hget) hnew
  refine ⟨h.tidy.insert hget ?_ hnewPlain harray, ?_⟩
  · rw [AccessorRule.isReplaced, hget]
    exact hplain
  · exact Fields.forall_insert h.values hevery key

-- What one action keeps.
theorem Orderly.after (hpre : rule.namePrefix ≠ "") {context : Context} {actions : List Action}
    (h : context.Orderly rule (Action.Withdrawn actions)) {action : Action} (haction : action.WellFormed) :
    (context.after rule action).Orderly rule (Action.Withdrawn (actions ++ [action])) := by
  have hkeep (hsettles : ∀ key, ¬action.Settles key) : ∀ key, Action.Withdrawn actions key →
      Action.Withdrawn (actions ++ [action]) key :=
    fun key hkey => (Action.withdrawn_concat actions action key).mpr (.inr ⟨hkey, hsettles key⟩)
  cases action with
  | insert key json =>
      refine h.insert (AccessorRule.every_tidy_ofJson haction) (Value.isAccessor_ofJson json) ?_ ?_
      · by_cases harray : ∃ items, json = .array items
        · obtain ⟨items, rfl⟩ := harray
          exact .inl ⟨_, rfl⟩
        · refine .inr ((Action.withdrawn_concat _ _ _).mpr (.inl (.inr ⟨json, rfl, ?_⟩)))
          intro items hitems
          exact harray ⟨items, hitems⟩
      · intro other hne hother
        refine (Action.withdrawn_concat _ _ _).mpr (.inr ⟨hother, ?_⟩)
        rintro (⟨items, he⟩ | ⟨entries, he⟩)
        · cases he
          exact hne rfl
        · cases he
  | remove key =>
      refine h.erase ((Action.withdrawn_concat _ _ _).mpr (.inl (.inl rfl))) ?_
      intro other _ hother
      exact hkeep (by simp [Action.Settles]) other hother
  | push key place json =>
      have hsame := h.mono (hkeep (by simp [Action.Settles]))
      unfold Context.after
      cases hpush : (context.get? key).bind (Value.appendAt? (.ofJson json) place) with
      | none => simpa only [hpush] using hsame
      | some value =>
          obtain ⟨old, hget, hnew⟩ := Option.bind_eq_some_iff.mp hpush
          simpa only [hpush] using hsame.push (AccessorRule.every_tidy_ofJson haction) hget hnew
  | setContext json =>
      unfold Context.after
      cases hcontext : ofJson context.supply json with
      | ok new => simpa only [hcontext] using orderly_ofJson haction hcontext _
      | error _ =>
          have hsettles : ∀ key, ¬(Action.setContext json).Settles key := by
            rintro key (⟨_, he⟩ | ⟨entries, he⟩)
            · cases he
            · cases he
              cases hcontext
          simpa only [hcontext] using h.mono (hkeep hsettles)
  | setTemplate _ => exact h.mono (hkeep (by simp [Action.Settles]))
  | render | renderAtomic =>
      obtain ⟨hfresh, hvalues⟩ := h.augment hpre
      have hnext : (context.augment rule).1.Orderly rule (Action.Withdrawn actions) := by
        refine ⟨hfresh.toTidy, fun key value hget => ?_⟩
        exact (hvalues key value hget).mono fun _ hobject => hobject.toTidy
      exact hnext.mono (hkeep (by simp [Action.Settles]))

theorem Orderly.run (hpre : rule.namePrefix ≠ "") {context : Context} {before : List Action}
    (h : context.Orderly rule (Action.Withdrawn before)) (actions : List Action)
    (hactions : ∀ action ∈ actions, action.WellFormed) :
    (actions.foldl (Context.after rule) context).Orderly rule (Action.Withdrawn (before ++ actions)) := by
  induction actions generalizing context before with
  | nil =>
      rw [List.append_nil]
      exact h
  | cons action rest ih =>
      have hnext := h.after hpre (hactions action List.mem_cons_self)
      have hrest := ih hnext fun later hmem => hactions later (List.mem_cons_of_mem _ hmem)
      rw [List.append_assoc] at hrest
      exact hrest

end Context

end JsonTemplate
