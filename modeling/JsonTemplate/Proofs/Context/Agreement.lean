import JsonTemplate.Proofs.Context.Passage
import JsonTemplate.Proofs.Engine.Run
import JsonTemplate.Proofs.Evaluation.Results
import JsonTemplate.Proofs.Template.Steps
import JsonTemplate.Proofs.Value.Positions

namespace JsonTemplate

variable {σ α : Type}

namespace Value

-- What stands at a place in a value.
def at? : List Position → Value → Option Value
  | [], value => some value
  | .key key :: place, .object fields => (Fields.get? fields key).bind (at? place)
  | .item position :: place, .array items => items[position]?.bind (at? place)
  | _ :: _, _ => none

theorem at?_append (place rest : List Position) (value : Value) :
    value.at? (place ++ rest) = (value.at? place).bind (at? rest) := by
  induction place generalizing value with
  | nil => rfl
  | cons position place ih =>
      rw [List.cons_append]
      cases position with
      | key key =>
          cases value with
          | object fields =>
              rw [at?, at?, Option.bind_assoc]
              exact Option.bind_congr fun child _ => ih child
          | _ => rfl
      | item position =>
          cases value with
          | array items =>
              rw [at?, at?, Option.bind_assoc]
              exact Option.bind_congr fun child _ => ih child
          | _ => rfl

-- Nothing stands within an accessor.
theorem isAccessor_of_at? {place : List Position} {value found : Value} (h : value.at? place = some found)
    (hplain : found.isAccessor = false) : value.isAccessor = false := by
  cases value with
  | accessor =>
      rcases place with _ | ⟨_ | _, _⟩ <;> cases h
      cases hplain
  | _ => rfl

theorem at?_itemAt {value : Value} {place : List Position} {items : List Value} (position : Nat)
    (hplace : value.at? place = some (.array items)) :
    value.at? (place ++ [.item position]) = some (itemAt items position) ∨
      itemAt items position = .null := by
  rw [at?_append, hplace, itemAt]
  cases hget : items[position]? with
  | none => exact .inr rfl
  | some item =>
      refine .inl ?_
      change items[position]?.bind (at? []) = _
      rw [hget]
      rfl

theorem at?_entry {value child : Value} {place : List Position} {fields : Fields Value} {key : String}
    (hplace : value.at? place = some (.object fields)) (hget : fields.get? key = some child) :
    value.at? (place ++ [.key key]) = some child := by
  rw [at?_append, hplace]
  change (Fields.get? fields key).bind (at? []) = _
  rw [hget]
  rfl

-- The value is an accessor that gives out these items, and null past their end.
def Supplies (value : Value) (items : List Value) : Prop :=
  ∃ identity name given, value = accessor identity name given ∧
    ∀ arg position, arg.position? = some position → access name given [arg] = .ok (itemAt items position)

theorem supplies_accessor (identity : Nat) (name : String) (items : List Value) :
    (accessor identity name items).Supplies items :=
  ⟨identity, name, items, rfl, fun _ _ h => access_of_position? h name items⟩

end Value

namespace AccessorRule

variable {rule : AccessorRule}

-- An array of an augmented object: its accessor gives out its items, or the accessor's name is that of
-- an entry which was there before and is to stay.
def Agrees (rule : AccessorRule) (before after : Fields Value) (key : String) (items : List Value) : Prop :=
  (∃ accessor, after.get? (rule.namePrefix ++ key) = some accessor ∧ accessor.Supplies items) ∨
    (rule.overwrite = false ∧ ∃ old new, before.get? (rule.namePrefix ++ key) = some old ∧
      after.get? (rule.namePrefix ++ key) = some new ∧ new.isAccessor = false ∧ rule.Augments old new)

theorem agrees_augmentEntries {before : Fields Value} (hnodup : before.keys.Nodup) (supply : Nat) {key : String}
    {items : List Value}
    (hget : (rule.augmentEntries before before supply).1.get? key = some (.array items)) :
    rule.Agrees before (rule.augmentEntries before before supply).1 key items := by
  have hpassage := rule.passage_augmentEntries hnodup supply
  rcases hpassage.serves (by simp [Fields.keys]) items hget with
    ⟨identity, hname⟩ | ⟨hoverwrite, new, hnew, hplain⟩
  · exact .inl ⟨_, hname, Value.supplies_accessor _ _ _⟩
  · obtain ⟨old, hold, hgrown⟩ := hpassage.grown (by simp [Fields.keys]) hnew hplain
    exact .inr ⟨hoverwrite, old, new, hold, hnew, hplain, hgrown⟩

-- What stands at a place in an augmented value has grown out of what stood there. Accessors may have
-- come to places where nothing stood, and may have replaced other values.
theorem Augments.at? {place : List Position} {old new found : Value}
    (hkeys : old.Every fun object => object.keys.Nodup) (h : rule.Augments old new)
    (hfound : new.at? place = some found) (hplain : found.isAccessor = false) :
    ∃ source, old.at? place = some source ∧ source.Every (fun object => object.keys.Nodup) ∧
      rule.Augments source found := by
  induction place generalizing old new with
  | nil =>
      cases hfound
      exact ⟨old, rfl, hkeys, h⟩
  | cons position place ih =>
      cases position with
      | key key =>
          cases new with
          | object fields =>
              obtain ⟨before, rfl⟩ := h.of_object
              obtain ⟨supply, hfields⟩ := h.object
              cases hfields
              obtain ⟨child, hchild, hfound⟩ := Option.bind_eq_some_iff.mp hfound
              have hchildPlain := Value.isAccessor_of_at? hfound hplain
              obtain ⟨hnodup, hvalues⟩ := Value.every_object_iff.mp hkeys
              obtain ⟨source, hsource, hgrown⟩ :=
                (passage_augmentEntries hnodup supply).grown (by simp [Fields.keys]) hchild hchildPlain
              obtain ⟨inner, hinner, hrest⟩ := ih (hvalues key source hsource) hgrown hfound
              exact ⟨inner, Option.bind_eq_some_iff.mpr ⟨source, hsource, hinner⟩, hrest⟩
          | _ => cases hfound
      | item position =>
          cases new with
          | array items =>
              obtain ⟨before, rfl⟩ := h.of_array
              obtain ⟨supply, hitems⟩ := h.array
              cases hitems
              obtain ⟨child, hchild, hfound⟩ := Option.bind_eq_some_iff.mp hfound
              obtain ⟨source, hsource, hgrown⟩ := augments_of_getElem?_augmentItems hchild
              have hkeysSource := Value.every_array_iff.mp hkeys source (List.mem_of_getElem? hsource)
              obtain ⟨inner, hinner, hrest⟩ := ih hkeysSource hgrown hfound
              exact ⟨inner, Option.bind_eq_some_iff.mpr ⟨source, hsource, hinner⟩, hrest⟩
          | _ => cases hfound

end AccessorRule

namespace Expr

-- Expressions that are evaluated have no more than the allowed depth.
theorem depth_le_of_evalAt {host : Host σ} {scope : Fields Value} {depth : Nat} {e : Expr α} {value : Value}
    {s s' : σ} (h : (e.evalAt host scope depth).run.run s = (.ok value, s')) : depth ≤ maxNesting := by
  rw [evalAt.eq_def] at h
  split at h
  · cases h
  · rename_i hdepth
    exact Nat.not_lt.mp hdepth

section

variable {host : Host σ} {scope : Fields Value} {depth : Nat} {s s₁ s₂ : σ}

theorem evalAt_name_of_get? (a : α) {n : String} {value : Value} (hdepth : depth ≤ maxNesting)
    (hget : scope.get? n = some value) :
    ((name a n).evalAt host scope depth).run.run s = (.ok value, s) := by
  rw [evalAt, if_neg (Nat.not_lt.mpr hdepth), hget]
  rfl

theorem evalAt_member_of_get? (a : α) {target : Expr α} {fields : Fields Value} {key : String} {value : Value}
    (htarget : (target.evalAt host scope (depth + 1)).run.run s = (.ok (.object fields), s₁))
    (hget : fields.get? key = some value) :
    ((member a target key).evalAt host scope depth).run.run s = (.ok value, s₁) := by
  have hdepth := depth_le_of_evalAt htarget
  rw [evalAt, if_neg (by omega), Eval.run_bind_of_ok htarget]
  change (Except.ok ((fields.get? key).getD .null), s₁) = _
  rw [hget]
  rfl

variable {e : Expr α} {arg : Value} {position : Nat}

theorem evalAt_index_of_position? (a : α) {target : Expr α} {items : List Value}
    (htarget : (target.evalAt host scope (depth + 1)).run.run s = (.ok (.array items), s₁))
    (harg : (e.evalAt host scope (depth + 1)).run.run s₁ = (.ok arg, s₂))
    (hposition : arg.position? = some position) :
    ((index a target e).evalAt host scope depth).run.run s = (.ok (Value.itemAt items position), s₂) := by
  have hdepth := depth_le_of_evalAt htarget
  rw [evalAt, if_neg (by omega), Eval.run_bind_of_ok htarget, Eval.run_bind_of_ok harg]
  exact congrArg (·, s₂) (Value.element_of_position? hposition items)

theorem evalAt_call_of_position? (a : α) {callee : Expr α} {identity : Nat} {name : String}
    {items : List Value}
    (hcallee : (callee.evalAt host scope (depth + 1)).run.run s = (.ok (.accessor identity name items), s₁))
    (harg : (e.evalAt host scope (depth + 1)).run.run s₁ = (.ok arg, s₂))
    (hposition : arg.position? = some position) :
    ((call a callee [e]).evalAt host scope depth).run.run s = (.ok (Value.itemAt items position), s₂) := by
  have hdepth := depth_le_of_evalAt hcallee
  have hargs : (evalItems host scope (depth + 1) [e]).run.run s₁ = (.ok [arg], s₂) := by
    rw [evalItems, Eval.run_bind_of_ok harg]
    rfl
  rw [evalAt, if_neg (by omega), Eval.run_bind_of_ok hcallee]
  change ((evalItems host scope (depth + 1) [e]) >>= host.apply (.accessor name items)).run.run s₁ = _
  rw [Eval.run_bind_of_ok hargs]
  exact congrArg (·, s₂) (Value.access_of_position? hposition name items)

end

variable (rule : AccessorRule) (host : Host σ) (scope : Fields Value)

-- Two expressions that go the same way through a scope, from the same place on. The first one indexes
-- the arrays on the way. The second one calls their accessors, whose names no
-- other entries keep.
inductive Chain : Nat → Expr α → Expr α → σ → Value → σ → Prop
  | start {depth : Nat} {e : Expr α} {place : List Position} {value : Value} {s s' : σ}
      (hvalue : (e.evalAt host scope depth).run.run s = (.ok value, s'))
      (hplace : (Value.object scope).at? place = some value) : Chain depth e e s value s'
  | top {depth position : Nat} {a b c d : α} {key : String} {e : Expr α} {items : List Value} {arg : Value}
      {s s' : σ} (harray : scope.get? key = some (.array items))
      (hfree : rule.overwrite = true ∨
        ∀ value, scope.get? (rule.namePrefix ++ key) = some value → value.isAccessor = true)
      (harg : (e.evalAt host scope (depth + 1)).run.run s = (.ok arg, s'))
      (hposition : arg.position? = some position) :
      Chain depth (.index a (.name b key) e) (.call c (.name d (rule.namePrefix ++ key)) [e]) s
        (Value.itemAt items position) s'
  | step {depth position : Nat} {a b c d : α} {target target' e : Expr α} {key : String}
      {fields : Fields Value} {items : List Value} {arg : Value} {s s₁ s₂ : σ}
      (htarget : Chain (depth + 2) target target' s (.object fields) s₁)
      (harray : fields.get? key = some (.array items))
      (hfree : rule.overwrite = true ∨
        ∀ value, fields.get? (rule.namePrefix ++ key) = some value → value.isAccessor = true)
      (harg : (e.evalAt host scope (depth + 1)).run.run s₁ = (.ok arg, s₂))
      (hposition : arg.position? = some position) :
      Chain depth (.index a (.member b target key) e)
        (.call c (.member d target' (rule.namePrefix ++ key)) [e]) s (Value.itemAt items position) s₂

variable {rule host scope}

-- A chain ends somewhere in the scope, or past the end of an array.
theorem Chain.at? {depth : Nat} {e e' : Expr α} {s s' : σ} {value : Value}
    (h : Chain rule host scope depth e e' s value s') :
    (∃ place, (Value.object scope).at? place = some value) ∨ value = .null := by
  induction h with
  | start _ hplace => exact .inl ⟨_, hplace⟩
  | top harray _ _ _ =>
      have hscope : (Value.object scope).at? [] = some (.object scope) := rfl
      exact (Value.at?_itemAt _ (Value.at?_entry hscope harray)).imp_left fun h => ⟨_, h⟩
  | step _ harray _ _ _ ih =>
      rcases ih with ⟨place, hplace⟩ | hnull
      · exact (Value.at?_itemAt _ (Value.at?_entry hplace harray)).imp_left fun h => ⟨_, h⟩
      · cases hnull

-- Where all arrays are served, both ways of a chain lead to its end.
theorem Chain.evalAt {depth : Nat} {e e' : Expr α} {s s' : σ} {value : Value}
    (hserves : ∀ place fields key, (Value.object scope).at? place = some (.object fields) →
      rule.Serves fields key)
    (h : Chain rule host scope depth e e' s value s') :
    (e.evalAt host scope depth).run.run s = (.ok value, s') ∧
      (e'.evalAt host scope depth).run.run s = (.ok value, s') := by
  -- The array's accessor is there, as its name is free.
  have haccessor {place : List Position} {fields : Fields Value} {key : String} {items : List Value}
      (hplace : (Value.object scope).at? place = some (.object fields))
      (harray : fields.get? key = some (.array items))
      (hfree : rule.MayTake fields key) :
      ∃ identity, fields.get? (rule.namePrefix ++ key) =
        some (.accessor identity (rule.namePrefix ++ key) items) := by
    rcases hserves place fields key hplace items harray with hthere | ⟨hkeep, value, hget, hplain⟩
    · exact hthere
    · rcases hfree with hoverwrite | hfree
      · rw [hkeep] at hoverwrite
        cases hoverwrite
      · rw [hfree value hget] at hplain
        cases hplain
  induction h with
  | start hvalue _ => exact ⟨hvalue, hvalue⟩
  | top harray hfree harg hposition =>
      obtain ⟨identity, hget⟩ := @haccessor [] _ _ _ rfl harray hfree
      have hdepth := depth_le_of_evalAt harg
      exact ⟨evalAt_index_of_position? _ (evalAt_name_of_get? _ hdepth harray) harg hposition,
        evalAt_call_of_position? _ (evalAt_name_of_get? _ hdepth hget) harg hposition⟩
  | step htarget harray hfree harg hposition ih =>
      obtain ⟨hindexed, hcalled⟩ := ih
      obtain ⟨place, hplace⟩ := htarget.at?.resolve_right nofun
      obtain ⟨identity, hget⟩ := haccessor hplace harray hfree
      exact ⟨evalAt_index_of_position? _ (evalAt_member_of_get? _ hindexed harray) harg hposition,
        evalAt_call_of_position? _ (evalAt_member_of_get? _ hcalled hget) harg hposition⟩

end Expr

-- After augmentation every array at every place agrees with its accessor, and calls of accessors lead
-- where indexing leads.
theorem Context.accessors_agree_with_arrays (host : Host σ) (rule : AccessorRule) (context : Context)
    (hkeys : (Value.object context.entries).Every fun object => object.keys.Nodup) :
    let scope := (context.augment rule).1.entries
    (∀ place (after : Fields Value), (Value.object scope).at? place = some (.object after) →
      ∃ before : Fields Value, (Value.object context.entries).at? place = some (.object before) ∧
        ∀ key items, after.get? key = some (.array items) → rule.Agrees before after key items) ∧
    ∀ depth (e e' : Expr α) s value s', Expr.Chain rule host scope depth e e' s value s' →
      (e.evalAt host scope depth).run.run s = (.ok value, s') ∧
        (e'.evalAt host scope depth).run.run s = (.ok value, s') := by
  intro scope
  have hscope : rule.Augments (.object context.entries) (.object scope) := ⟨context.supply, rfl⟩
  have hbefore {place : List Position} {after : Fields Value}
      (hplace : (Value.object scope).at? place = some (.object after)) :
      ∃ (before : Fields Value) (supply : Nat), (Value.object context.entries).at? place = some (.object before) ∧
        before.keys.Nodup ∧ after = (rule.augmentEntries before before supply).1 := by
    obtain ⟨source, hsource, hsourceKeys, hgrown⟩ := hscope.at? hkeys hplace rfl
    obtain ⟨before, rfl⟩ := hgrown.of_object
    obtain ⟨supply, hafter⟩ := hgrown.object
    exact ⟨before, supply, hsource, (Value.every_object_iff.mp hsourceKeys).1, by cases hafter; rfl⟩
  refine ⟨fun place after hplace => ?_, fun depth e e' s value s' hchain => hchain.evalAt ?_⟩
  · obtain ⟨before, supply, hsource, hnodup, rfl⟩ := hbefore hplace
    exact ⟨before, hsource, fun key items hget => AccessorRule.agrees_augmentEntries hnodup supply hget⟩
  · intro place fields key hplace
    obtain ⟨before, supply, -, hnodup, rfl⟩ := hbefore hplace
    exact (AccessorRule.passage_augmentEntries hnodup supply).serves (by simp [Fields.keys])

-- An array whose item has an array.
def nested : Context := ⟨[("t", .object [("a", .array [.object [("b", .array [.string "x"])]])])], 0⟩

theorem every_nodup_nested : (Value.object nested.entries).Every fun object => object.keys.Nodup := by
  have htext : (Value.string "x").Every fun object => (List.map Prod.fst object).Nodup :=
    Value.IsFlat.every ⟨nofun, nofun⟩
  simp [nested, Value.every_object_iff, Value.every_array_iff, Fields.get?_cons, Fields.keys, htext]

-- The step from an object to the first item of one of its arrays, and to what an accessor gives first.
def firstItem (target : Expr Unit) (key : String) : Expr Unit := .index () (.member () target key) (.number () 0)

def firstGiven (target : Expr Unit) (name : String) : Expr Unit :=
  .call () (.member () target name) [.number () 0]

-- t.$a(0).$b(0) is t.a[0].b[0].
theorem accessors_agree_in_nested :
    let rule : AccessorRule := ⟨"$", false⟩
    let scope := (nested.augment rule).1.entries
    let indexed := firstItem (firstItem (.name () "t") "a") "b"
    let called := firstGiven (firstGiven (.name () "t") "$a") "$b"
    ((Value.object nested.entries).Every fun object => object.keys.Nodup) ∧
      Expr.Chain rule idleHost scope 0 indexed called () (.string "x") () ∧
      (indexed.evalAt idleHost scope 0).run.run () = (.ok (.string "x"), ()) ∧
      (called.evalAt idleHost scope 0).run.run () = (.ok (.string "x"), ()) := by
  intro rule scope indexed called
  have hzero : (Value.number 0).position? = some 0 := by decide +kernel
  have hplace : (Value.object scope).at? [.key "t"] = some _ := rfl
  have hstart : Expr.Chain rule idleHost scope 4 (.name () "t") (.name () "t") () _ () := .start rfl hplace
  have hfirst : Expr.Chain rule idleHost scope 2 (firstItem (.name () "t") "a")
      (firstGiven (.name () "t") "$a") () _ () :=
    hstart.step rfl (.inr fun _ hget => by cases hget; rfl) rfl hzero
  have hchain : Expr.Chain rule idleHost scope 0 indexed called () (Value.itemAt [.string "x"] 0) () :=
    hfirst.step rfl (.inr fun _ hget => by cases hget; rfl) rfl hzero
  have hagree := @Context.accessors_agree_with_arrays Unit Unit idleHost rule nested every_nodup_nested
  exact ⟨every_nodup_nested, hchain, hagree.2 0 indexed called () _ () hchain⟩

end JsonTemplate
