import JsonTemplate.Template.Walk

namespace JsonTemplate.Walker

variable {σ τ : Type}

-- A relation of computations that their sequences inherit.
structure Compatible (rel : (α : Type) → StateM σ α → StateM τ α → Prop) : Prop where
  pure : ∀ {α : Type} (a : α), rel α (pure a) (pure a)
  bind : ∀ {α β : Type} {x : StateM σ α} {y : StateM τ α} {f : α → StateM σ β} {g : α → StateM τ β},
    rel α x y → (∀ a, rel β (f a) (g a)) → rel β (x >>= f) (y >>= g)

variable {rel : (α : Type) → StateM σ α → StateM τ α → Prop}

section

variable {resolve : Json.Pointer → Json → StateM σ Slot} {resolve' : Json.Pointer → Json → StateM τ Slot}

theorem Compatible.walkEntries (hrel : Compatible rel)
    (hresolve : ∀ path node, rel Slot (resolve path node) (resolve' path node)) (path : Json.Pointer)
    (entries : List (String × Json)) :
    rel _ (walkEntries resolve path entries) (walkEntries resolve' path entries) := by
  induction entries with
  | nil => exact hrel.pure _
  | cons entry rest ih =>
      obtain ⟨key, child⟩ := entry
      rw [Walker.walkEntries, Walker.walkEntries]
      refine hrel.bind (hresolve _ _) fun slot => ?_
      cases slot.outcome with
      | error error => exact hrel.pure _
      | ok presence => exact hrel.bind ih fun _ => hrel.pure _

theorem Compatible.walkItems (hrel : Compatible rel)
    (hresolve : ∀ path node, rel Slot (resolve path node) (resolve' path node)) (path : Json.Pointer)
    (position : Nat) (items : List Json) :
    rel _ (walkItems resolve path position items) (walkItems resolve' path position items) := by
  induction items generalizing position with
  | nil => exact hrel.pure _
  | cons child rest ih =>
      rw [Walker.walkItems, Walker.walkItems]
      refine hrel.bind (hresolve _ _) fun slot => ?_
      cases slot.outcome with
      | error error => exact hrel.pure _
      | ok presence => exact hrel.bind (ih (position + 1)) fun _ => hrel.pure _

theorem Compatible.walkObject (hrel : Compatible rel)
    (hresolve : ∀ path node, rel Slot (resolve path node) (resolve' path node)) (path : Json.Pointer)
    (entries : List (String × Json)) :
    rel _ (walkObject resolve path entries) (walkObject resolve' path entries) :=
  hrel.bind (hrel.walkEntries hresolve path entries) fun _ => hrel.pure _

theorem Compatible.walkArray (hrel : Compatible rel)
    (hresolve : ∀ path node, rel Slot (resolve path node) (resolve' path node)) (path : Json.Pointer)
    (items : List Json) : rel _ (walkArray resolve path items) (walkArray resolve' path items) :=
  hrel.bind (hrel.walkItems hresolve path 0 items) fun _ => hrel.pure _

end

variable {evaluate : String → Eval σ Value} {evaluate' : String → Eval τ Value} {config : Config}

theorem Compatible.substitute (hrel : Compatible rel)
    (hevaluate : ∀ source, rel _ (evaluate source).run (evaluate' source).run) (path : Json.Pointer)
    (leaf : String) :
    rel _ (substitute ⟨evaluate, config⟩ path leaf) (substitute ⟨evaluate', config⟩ path leaf) := by
  unfold Walker.substitute
  cases config.delimiters.find? leaf with
  | none => exact hrel.pure _
  | some placeholder =>
      refine hrel.bind (hevaluate _) fun outcome => ?_
      cases outcome with
      | error cause => exact hrel.pure _
      | ok value =>
          cases config.preserveWholeLeafTypes && placeholder.isWhole with
          | false => exact hrel.pure _
          | true =>
              simp only [ite_true]
              cases value.toJson <;> exact hrel.pure _

theorem Compatible.resolveConstruct (hrel : Compatible rel)
    (hevaluate : ∀ source, rel _ (evaluate source).run (evaluate' source).run) (path : Json.Pointer)
    (construct : Construct) (entries : Fields Json) :
    rel _ (resolveConstruct ⟨evaluate, config⟩ path construct entries)
      (resolveConstruct ⟨evaluate', config⟩ path construct entries) := by
  unfold Walker.resolveConstruct
  split
  · refine hrel.bind (hevaluate _) fun outcome => ?_
    cases outcome <;> exact hrel.pure _
  · exact hrel.pure _

theorem Compatible.resolveSlot (hrel : Compatible rel)
    (hevaluate : ∀ source, rel _ (evaluate source).run (evaluate' source).run) (levels : Nat)
    (path : Json.Pointer) (node : Json) :
    rel _ (resolveSlot ⟨evaluate, config⟩ levels path node)
      (resolveSlot ⟨evaluate', config⟩ levels path node) := by
  induction levels generalizing path node with
  | zero => exact hrel.pure _
  | succ levels ih =>
      cases node with
      | string leaf => exact hrel.substitute hevaluate path leaf
      | array items => exact hrel.walkArray ih path items
      | object entries =>
          rw [Walker.resolveSlot, Walker.resolveSlot]
          cases Construct.detect? entries with
          | none => exact hrel.walkObject ih path entries
          | some construct =>
              refine hrel.bind (hrel.resolveConstruct hevaluate path construct entries) fun outcome => ?_
              rcases outcome with error | _ | replacement
              · exact hrel.pure _
              · exact hrel.pure _
              · exact ih path replacement
      | null | bool _ | integer _ | double _ => exact hrel.pure _

-- Walks are related when their evaluations are.
theorem Compatible.walk (hrel : Compatible rel)
    (hevaluate : ∀ source, rel _ (evaluate source).run (evaluate' source).run) (root : Json) :
    rel _ (walk ⟨evaluate, config⟩ root) (walk ⟨evaluate', config⟩ root) := by
  unfold Walker.walk
  cases root with
  | string leaf => exact hrel.bind (hrel.substitute hevaluate _ leaf) fun _ => hrel.pure _
  | array items => exact hrel.bind (hrel.walkArray (hrel.resolveSlot hevaluate _) _ items) fun _ => hrel.pure _
  | object entries =>
      exact hrel.bind (hrel.walkObject (hrel.resolveSlot hevaluate _) _ entries) fun _ => hrel.pure _
  | null | bool _ | integer _ | double _ => exact hrel.bind (hrel.pure _) fun _ => hrel.pure _

-- A computation that does what another one does and keeps a log beside it, which it only adds to.
def Extends {ω : Type} (α : Type) (x : StateM (σ × List ω) α) (y : StateM σ α) : Prop :=
  ∀ s log, ∃ more, x.run (s, log) = ((y.run s).1, (y.run s).2, log ++ more)

theorem compatible_extends {ω : Type} : Compatible (@Extends σ ω) where
  pure a s log := ⟨[], by rw [List.append_nil]; rfl⟩
  bind := by
    intro α β x y f g hx hf s log
    obtain ⟨more, hmore⟩ := hx s log
    obtain ⟨further, hfurther⟩ := hf (y.run s).1 (y.run s).2 (log ++ more)
    refine ⟨more ++ further, ?_⟩
    rw [StateT.run_bind, StateT.run_bind, hmore, ← List.append_assoc]
    exact hfurther

end JsonTemplate.Walker
