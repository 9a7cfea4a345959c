import JsonTemplate.Template.Walk

namespace JsonTemplate

variable {σ α β : Type}

-- A host without functions.
def idleHost : Host Unit where
  call _ _ _ s := (.ok .null, s)

theorem run_bind_of_run {x : StateM σ α} {f : α → StateM σ β} {s s₁ : σ} {a : α}
    (h : x.run s = (a, s₁)) : (x >>= f).run s = (f a).run s₁ := by
  rw [StateT.run_bind, h]
  rfl

-- What a sequence of two computations gave, told apart.
theorem exists_run_of_run_bind {x : StateM σ α} {f : α → StateM σ β} {s s' : σ} {b : β}
    (h : (x >>= f).run s = (b, s')) : ∃ a s₁, x.run s = (a, s₁) ∧ (f a).run s₁ = (b, s') :=
  ⟨(x.run s).1, (x.run s).2, rfl, by rw [← h, StateT.run_bind]; rfl⟩

namespace Walker

variable (resolve : Json.Pointer → Json → StateM σ Slot) (path : Json.Pointer)

-- Entries that the walk has not come to.
def untouched (entries : List (String × Json)) : List (String × Json × Presence) :=
  entries.map fun (key, child) => (key, child, .present)

theorem walkEntries_of_ok {key : String} {child node : Json} {presence : Presence}
    {rest : List (String × Json)} {slots : List (String × Json × Presence)}
    {failure : Option RenderError} {s s₁ s' : σ}
    (hslot : (resolve (path.child key) child).run s = (⟨node, .ok presence⟩, s₁))
    (hrest : (walkEntries resolve path rest).run s₁ = ((slots, failure), s')) :
    (walkEntries resolve path ((key, child) :: rest)).run s =
      (((key, node, presence) :: slots, failure), s') := by
  rw [walkEntries, run_bind_of_run hslot]
  exact run_bind_of_run hrest

theorem walkEntries_of_error {key : String} {child node : Json} {error : RenderError}
    (rest : List (String × Json)) {s s₁ : σ}
    (hslot : (resolve (path.child key) child).run s = (⟨node, .error error⟩, s₁)) :
    (walkEntries resolve path ((key, child) :: rest)).run s =
      (((key, node, .present) :: untouched rest, some error), s₁) := by
  rw [walkEntries, run_bind_of_run hslot]
  rfl

theorem walkItems_of_ok {position : Nat} {child node : Json} {presence : Presence}
    {rest nodes : List Json} {failure : Option RenderError} {s s₁ s' : σ}
    (hslot : (resolve (path.item position) child).run s = (⟨node, .ok presence⟩, s₁))
    (hrest : (walkItems resolve path (position + 1) rest).run s₁ = ((nodes, failure), s')) :
    (walkItems resolve path position (child :: rest)).run s =
      (((if presence = .absent then .null else node) :: nodes, failure), s') := by
  rw [walkItems, run_bind_of_run hslot]
  exact run_bind_of_run hrest

theorem walkItems_of_error {position : Nat} {child node : Json} {error : RenderError}
    (rest : List Json) {s s₁ : σ}
    (hslot : (resolve (path.item position) child).run s = (⟨node, .error error⟩, s₁)) :
    (walkItems resolve path position (child :: rest)).run s = ((node :: rest, some error), s₁) := by
  rw [walkItems, run_bind_of_run hslot]
  rfl

-- The entries of an object without those that are absent.
def kept (slots : List (String × Json × Presence)) : List (String × Json) :=
  (slots.filter (·.2.2 = .present)).map fun (key, node, _) => (key, node)

-- The entries of an object, the absent ones among them.
def standing (slots : List (String × Json × Presence)) : List (String × Json) :=
  slots.map fun (key, node, _) => (key, node)

variable {resolve path}

theorem walkObject_of_ok {entries : List (String × Json)}
    {slots : List (String × Json × Presence)} {s s' : σ}
    (h : (walkEntries resolve path entries).run s = ((slots, none), s')) :
    (walkObject resolve path entries).run s = (.present (.object (kept slots)), s') := by
  rw [walkObject, run_bind_of_run h]
  rfl

theorem walkObject_of_error {entries : List (String × Json)}
    {slots : List (String × Json × Presence)} {error : RenderError} {s s' : σ}
    (h : (walkEntries resolve path entries).run s = ((slots, some error), s')) :
    (walkObject resolve path entries).run s = (.failed (.object (standing slots)) error, s') := by
  rw [walkObject, run_bind_of_run h]
  rfl

theorem walkArray_of_ok {items nodes : List Json} {s s' : σ}
    (h : (walkItems resolve path 0 items).run s = ((nodes, none), s')) :
    (walkArray resolve path items).run s = (.present (.array nodes), s') := by
  rw [walkArray, run_bind_of_run h]
  rfl

theorem walkArray_of_error {items nodes : List Json} {error : RenderError} {s s' : σ}
    (h : (walkItems resolve path 0 items).run s = ((nodes, some error), s')) :
    (walkArray resolve path items).run s = (.failed (.array nodes) error, s') := by
  rw [walkArray, run_bind_of_run h]
  rfl

-- A walk over entries fails at one of them: those before it were resolved, those after it were not
-- looked at.
theorem exists_failed_entry {entries : List (String × Json)}
    {slots : List (String × Json × Presence)} {error : RenderError} {s s' : σ}
    (h : (walkEntries resolve path entries).run s = ((slots, some error), s')) :
    ∃ before key child after done node s₁, entries = before ++ (key, child) :: after ∧
      (walkEntries resolve path before).run s = ((done, none), s₁) ∧
      (resolve (path.child key) child).run s₁ = (⟨node, .error error⟩, s') ∧
      slots = done ++ (key, node, .present) :: untouched after := by
  induction entries generalizing slots s with
  | nil => cases h
  | cons entry rest ih =>
      obtain ⟨key, child⟩ := entry
      rcases hslot : (resolve (path.child key) child).run s with ⟨⟨node, outcome⟩, s₁⟩
      cases outcome with
      | error found =>
          rw [walkEntries_of_error resolve path rest hslot] at h
          cases h
          exact ⟨[], key, child, rest, [], node, s, rfl, rfl, hslot, rfl⟩
      | ok presence =>
          rcases hrest : (walkEntries resolve path rest).run s₁ with ⟨⟨others, failure⟩, s₂⟩
          rw [walkEntries_of_ok resolve path hslot hrest] at h
          cases h
          obtain ⟨before, failed, inner, after, done, left, s₃, rfl, hbefore, hfailed, rfl⟩ := ih hrest
          exact ⟨(key, child) :: before, failed, inner, after, (key, node, presence) :: done, left, s₃,
            rfl, walkEntries_of_ok resolve path hslot hbefore, hfailed, rfl⟩

theorem exists_failed_item {position : Nat} {items nodes : List Json} {error : RenderError} {s s' : σ}
    (h : (walkItems resolve path position items).run s = ((nodes, some error), s')) :
    ∃ before child after done node s₁, items = before ++ child :: after ∧
      (walkItems resolve path position before).run s = ((done, none), s₁) ∧
      (resolve (path.item (position + before.length)) child).run s₁ = (⟨node, .error error⟩, s') ∧
      nodes = done ++ node :: after := by
  induction items generalizing position nodes s with
  | nil => cases h
  | cons child rest ih =>
      rcases hslot : (resolve (path.item position) child).run s with ⟨⟨node, outcome⟩, s₁⟩
      cases outcome with
      | error found =>
          rw [walkItems_of_error resolve path rest hslot] at h
          cases h
          exact ⟨[], child, rest, [], node, s, rfl, rfl, hslot, rfl⟩
      | ok presence =>
          rcases hrest : (walkItems resolve path (position + 1) rest).run s₁ with ⟨⟨others, failure⟩, s₂⟩
          rw [walkItems_of_ok resolve path hslot hrest] at h
          cases h
          obtain ⟨before, inner, after, done, left, s₃, rfl, hbefore, hfailed, rfl⟩ := ih hrest
          refine ⟨child :: before, inner, after, _, left, s₃, rfl,
            walkItems_of_ok resolve path hslot hbefore, ?_, rfl⟩
          rwa [List.length_cons, Nat.add_comm before.length, ← Nat.add_assoc]

variable {walker : Walker σ} {levels : Nat}

-- All that can become of a text.
inductive LeafStep (walker : Walker σ) (path : Json.Pointer) (leaf : String) (s : σ) :
    Slot → σ → Prop
  | plain (hfind : walker.config.delimiters.find? leaf = none) :
      LeafStep walker path leaf s (.present (.string leaf)) s
  | refused {placeholder : Placeholder} {cause : EvalError} {s' : σ}
      (hfind : walker.config.delimiters.find? leaf = some placeholder)
      (heval : (walker.evaluate (String.ofList placeholder.expression)).run.run s = (.error cause, s')) :
      LeafStep walker path leaf s
        (.failed (.string leaf) (.evaluation (String.ofList placeholder.expression) path cause)) s'
  | typed {placeholder : Placeholder} {value : Value} {json : Json} {s' : σ}
      (hfind : walker.config.delimiters.find? leaf = some placeholder)
      (heval : (walker.evaluate (String.ofList placeholder.expression)).run.run s = (.ok value, s'))
      (hwhole : (walker.config.preserveWholeLeafTypes && placeholder.isWhole) = true)
      (hjson : value.toJson = .ok json) : LeafStep walker path leaf s (.present json) s'
  | untyped {placeholder : Placeholder} {value : Value} {cause : EvalError} {s' : σ}
      (hfind : walker.config.delimiters.find? leaf = some placeholder)
      (heval : (walker.evaluate (String.ofList placeholder.expression)).run.run s = (.ok value, s'))
      (hwhole : (walker.config.preserveWholeLeafTypes && placeholder.isWhole) = true)
      (hjson : value.toJson = .error cause) :
      LeafStep walker path leaf s (.failed (.string leaf) (.conversion path cause)) s'
  | spliced {placeholder : Placeholder} {value : Value} {s' : σ}
      (hfind : walker.config.delimiters.find? leaf = some placeholder)
      (heval : (walker.evaluate (String.ofList placeholder.expression)).run.run s = (.ok value, s'))
      (hwhole : (walker.config.preserveWholeLeafTypes && placeholder.isWhole) = false) :
      LeafStep walker path leaf s (.present (.string (String.ofList
        (Text.replaceAll placeholder.span value.text.toList leaf.toList)))) s'

theorem substitute_step {leaf : String} {slot : Slot} {s s' : σ}
    (h : (walker.substitute path leaf).run s = (slot, s')) : LeafStep walker path leaf s slot s' := by
  unfold substitute at h
  cases hfind : walker.config.delimiters.find? leaf with
  | none => rw [hfind] at h; cases h; exact .plain hfind
  | some placeholder =>
      simp only [hfind] at h
      obtain ⟨outcome, s₁, heval, h⟩ := exists_run_of_run_bind h
      cases outcome with
      | error cause => cases h; exact .refused hfind heval
      | ok value =>
          cases hwhole : walker.config.preserveWholeLeafTypes && placeholder.isWhole with
          | false =>
              simp only [hwhole, Bool.false_eq_true, ite_false] at h
              cases h
              exact .spliced hfind heval hwhole
          | true =>
              simp only [hwhole, ite_true] at h
              cases hjson : value.toJson with
              | ok json => rw [hjson] at h; cases h; exact .typed hfind heval hwhole hjson
              | error cause => rw [hjson] at h; cases h; exact .untyped hfind heval hwhole hjson

-- All that can become of a construct.
inductive ConstructStep (walker : Walker σ) (path : Json.Pointer) (construct : Construct)
    (entries : Fields Json) (s : σ) : Except RenderError (Option Json) → σ → Prop
  | invalid (hcontrol : ∀ expression, entries.get? construct.key ≠ some (.string expression)) :
      ConstructStep walker path construct entries s (.error (.invalidConstruct construct path)) s
  | refused {expression : String} {cause : EvalError} {s' : σ}
      (hcontrol : entries.get? construct.key = some (.string expression))
      (heval : (walker.evaluate expression).run.run s = (.error cause, s')) :
      ConstructStep walker path construct entries s (.error (.evaluation expression path cause)) s'
  | selected {expression : String} {value : Value} {s' : σ}
      (hcontrol : entries.get? construct.key = some (.string expression))
      (heval : (walker.evaluate expression).run.run s = (.ok value, s')) :
      ConstructStep walker path construct entries s
        ((construct.select entries value).mapError (.conversion path)) s'

theorem resolveConstruct_step {construct : Construct} {entries : Fields Json}
    {outcome : Except RenderError (Option Json)} {s s' : σ}
    (h : (walker.resolveConstruct path construct entries).run s = (outcome, s')) :
    ConstructStep walker path construct entries s outcome s' := by
  unfold resolveConstruct at h
  split at h
  · rename_i expression hcontrol
    obtain ⟨result, s₁, heval, h⟩ := exists_run_of_run_bind h
    cases result with
    | error cause => cases h; exact .refused hcontrol heval
    | ok value => cases h; exact .selected hcontrol heval
  · rename_i hcontrol
    cases h
    exact .invalid hcontrol

-- The node is a construct, and it stands for the replacement.
def Replaces (walker : Walker σ) (path : Json.Pointer) (node : Json) (s : σ) (replacement : Json) (s' : σ) :
    Prop :=
  ∃ entries construct, node = .object entries ∧ Construct.detect? entries = some construct ∧
    (walker.resolveConstruct path construct entries).run s = (.ok (some replacement), s')

theorem Replaces.unique {path : Json.Pointer} {node replacement other : Json} {s s₁ s₂ : σ}
    (h : walker.Replaces path node s replacement s₁) (h' : walker.Replaces path node s other s₂) :
    replacement = other ∧ s₁ = s₂ := by
  obtain ⟨entries, construct, rfl, hdetect, hrun⟩ := h
  obtain ⟨_, _, ⟨⟩, hdetect', hrun'⟩ := h'
  cases hdetect.symm.trans hdetect'
  cases hrun.symm.trans hrun'
  exact ⟨rfl, rfl⟩

-- All that the resolution of a slot above the depth limit can do.
inductive SlotStep (walker : Walker σ) (levels : Nat) (path : Json.Pointer) :
    Json → σ → Slot → σ → Prop
  | leaf {leaf : String} {slot : Slot} {s s' : σ}
      (h : (walker.substitute path leaf).run s = (slot, s')) :
      SlotStep walker levels path (.string leaf) s slot s'
  | array {items : List Json} {slot : Slot} {s s' : σ}
      (h : (walkArray (walker.resolveSlot levels) path items).run s = (slot, s')) :
      SlotStep walker levels path (.array items) s slot s'
  | object {entries : List (String × Json)} {slot : Slot} {s s' : σ}
      (hplain : Construct.detect? entries = none)
      (h : (walkObject (walker.resolveSlot levels) path entries).run s = (slot, s')) :
      SlotStep walker levels path (.object entries) s slot s'
  | refused {entries : List (String × Json)} {construct : Construct} {error : RenderError} {s s' : σ}
      (hdetect : Construct.detect? entries = some construct)
      (h : (walker.resolveConstruct path construct entries).run s = (.error error, s')) :
      SlotStep walker levels path (.object entries) s (.failed (.object entries) error) s'
  | vanished {entries : List (String × Json)} {construct : Construct} {s s' : σ}
      (hdetect : Construct.detect? entries = some construct)
      (h : (walker.resolveConstruct path construct entries).run s = (.ok none, s')) :
      SlotStep walker levels path (.object entries) s ⟨.object entries, .ok .absent⟩ s'
  | replaced {entries : List (String × Json)} {construct : Construct} {replacement : Json}
      {slot : Slot} {s s₁ s' : σ}
      (hdetect : Construct.detect? entries = some construct)
      (h : (walker.resolveConstruct path construct entries).run s = (.ok (some replacement), s₁))
      (hslot : (walker.resolveSlot levels path replacement).run s₁ = (slot, s')) :
      SlotStep walker levels path (.object entries) s slot s'
  | scalar {node : Json} {s : σ} (hstring : ∀ leaf, node ≠ .string leaf)
      (harray : ∀ items, node ≠ .array items) (hobject : ∀ entries, node ≠ .object entries) :
      SlotStep walker levels path node s (.present node) s

theorem resolveSlot_step {node : Json} {slot : Slot} {s s' : σ}
    (h : (walker.resolveSlot (levels + 1) path node).run s = (slot, s')) :
    SlotStep walker levels path node s slot s' := by
  cases node with
  | string leaf => exact .leaf h
  | array items => exact .array h
  | object entries =>
      rw [resolveSlot] at h
      cases hdetect : Construct.detect? entries with
      | none => exact .object hdetect (by simpa only [hdetect] using h)
      | some construct =>
          simp only [hdetect] at h
          obtain ⟨outcome, s₁, hconstruct, h⟩ := exists_run_of_run_bind h
          cases outcome with
          | error error => cases h; exact .refused hdetect hconstruct
          | ok chosen =>
              cases chosen with
              | none => cases h; exact .vanished hdetect hconstruct
              | some replacement => exact .replaced hdetect hconstruct h
  | null | bool _ | integer _ | double _ => cases h; exact .scalar (by simp) (by simp) (by simp)

theorem resolveSlot_of_step {node : Json} {slot : Slot} {s s' : σ}
    (h : SlotStep walker levels path node s slot s') :
    (walker.resolveSlot (levels + 1) path node).run s = (slot, s') := by
  cases h with
  | leaf h => exact h
  | array h => exact h
  | object hplain h => simpa only [resolveSlot, hplain] using h
  | refused hdetect h => simp only [resolveSlot, hdetect]; exact run_bind_of_run h
  | vanished hdetect h => simp only [resolveSlot, hdetect]; exact run_bind_of_run h
  | replaced hdetect h hslot =>
      simp only [resolveSlot, hdetect]
      exact (run_bind_of_run h).trans hslot
  | scalar hstring harray hobject =>
      cases node with
      | string leaf => exact absurd rfl (hstring leaf)
      | array items => exact absurd rfl (harray items)
      | object entries => exact absurd rfl (hobject entries)
      | null | bool _ | integer _ | double _ => rfl

-- All that the walk does at the root of a template.
inductive RootStep (walker : Walker σ) : Json → σ → Slot → σ → Prop
  | leaf {leaf : String} {slot : Slot} {s s' : σ}
      (h : (walker.substitute Json.Pointer.root leaf).run s = (slot, s')) :
      RootStep walker (.string leaf) s slot s'
  | array {items : List Json} {slot : Slot} {s s' : σ}
      (h : (walkArray (walker.resolveSlot walker.config.maxDepth) Json.Pointer.root items).run s =
        (slot, s')) : RootStep walker (.array items) s slot s'
  | object {entries : List (String × Json)} {slot : Slot} {s s' : σ}
      (h : (walkObject (walker.resolveSlot walker.config.maxDepth) Json.Pointer.root entries).run s =
        (slot, s')) : RootStep walker (.object entries) s slot s'
  | scalar {node : Json} {s : σ} (hstring : ∀ leaf, node ≠ .string leaf)
      (harray : ∀ items, node ≠ .array items) (hobject : ∀ entries, node ≠ .object entries) :
      RootStep walker node s (.present node) s

-- How the walk of a template ended.
def failure? : Except RenderError Presence → Option RenderError
  | .ok _ => none
  | .error error => some error

theorem rootStep_of_walk {root node : Json} {failure : Option RenderError} {s s' : σ}
    (h : (walker.walk root).run s = ((node, failure), s')) :
    ∃ outcome, RootStep walker root s ⟨node, outcome⟩ s' ∧ failure = failure? outcome := by
  cases root with
  | string leaf =>
      obtain ⟨slot, s₁, hslot, h⟩ := exists_run_of_run_bind h
      cases h
      exact ⟨slot.outcome, .leaf hslot, rfl⟩
  | array items =>
      obtain ⟨slot, s₁, hslot, h⟩ := exists_run_of_run_bind h
      cases h
      exact ⟨slot.outcome, .array hslot, rfl⟩
  | object entries =>
      obtain ⟨slot, s₁, hslot, h⟩ := exists_run_of_run_bind h
      cases h
      exact ⟨slot.outcome, .object hslot, rfl⟩
  | null | bool _ | integer _ | double _ =>
      cases h
      exact ⟨.ok .present, .scalar (by simp) (by simp) (by simp), rfl⟩

theorem walk_of_rootStep {root : Json} {slot : Slot} {s s' : σ} (h : RootStep walker root s slot s') :
    (walker.walk root).run s = ((slot.node, failure? slot.outcome), s') := by
  cases h with
  | leaf h | array h | object h => exact run_bind_of_run h
  | scalar hstring harray hobject =>
      cases root with
      | string leaf => exact absurd rfl (hstring leaf)
      | array items => exact absurd rfl (harray items)
      | object entries => exact absurd rfl (hobject entries)
      | null | bool _ | integer _ | double _ => rfl

end Walker

end JsonTemplate
