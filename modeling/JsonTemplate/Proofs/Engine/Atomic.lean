import JsonTemplate.Engine
import JsonTemplate.Proofs.Evaluation.Simulated
import JsonTemplate.Proofs.Template.Steps

namespace JsonTemplate

variable {σ : Type}

-- What can be done with an engine. Between renderings its context is open to any change, and the state of the
-- host as well.
inductive Operation (σ : Type) where
  | setTemplate (template : Json)
  | change (change : Context → σ → Context × σ)
  | render
  | renderAtomic

namespace Engine

def operate (host : Host σ) (engine : Engine) : Operation σ → StateM σ Engine
  | .setTemplate template => pure { engine with template }
  | .change change => fun s =>
      let (context, s) := change engine.context s
      ({ engine with context }, s)
  | .render => Prod.fst <$> engine.render host
  | .renderAtomic => Prod.fst <$> engine.renderAtomic host

def operateAll (host : Host σ) (engine : Engine) (operations : List (Operation σ)) : StateM σ Engine :=
  operations.foldlM (operate host) engine

-- The operation gives the engine this template: one that is handed in, the outcome of a successful rendering, or
-- what a rendering that is not atomic has left behind when it failed.
inductive Sets (host : Host σ) (engine : Engine) (s : σ) : Operation σ → Json → Prop
  | given {template : Json} : Sets host engine s (.setTemplate template) template
  | rendered {after : Engine} {s' : σ} (hrun : (engine.render host).run s = ((after, none), s')) :
      Sets host engine s .render after.template
  | renderedAtomic {after : Engine} {s' : σ} (hrun : (engine.renderAtomic host).run s = ((after, none), s')) :
      Sets host engine s .renderAtomic after.template
  | failed {after : Engine} {error : RenderError} {s' : σ}
      (hrun : (engine.render host).run s = ((after, some error), s')) : Sets host engine s .render after.template

section

variable (host : Host σ) (engine : Engine)

-- The log sees all calls, and changes nothing.
theorem extends_render : Walker.Extends _ (engine.render host.logged) (engine.render host) := by
  have hevaluate := Walker.compatible_extends.evaluate engine.augmentContext.context.entries (Walker.extends_call host)
  exact Walker.compatible_extends.bind (Walker.compatible_extends.walk hevaluate engine.template) fun _ =>
    Walker.compatible_extends.pure _

-- An atomic rendering is the rendering, with the old template put back after a failure.
theorem run_renderAtomic (s : σ) :
    (engine.renderAtomic host).run s =
      let ((after, failure), s) := (engine.render host).run s
      ((if failure.isSome then { after with template := engine.template } else after, failure), s) := rfl

end

section

variable {host : Host σ} {engine after : Engine} {s s' : σ}

theorem renderAtomic_of_ok (h : (engine.render host).run s = ((after, none), s')) :
    (engine.renderAtomic host).run s = ((after, none), s') := by
  rw [run_renderAtomic, h]
  rfl

theorem renderAtomic_of_error {error : RenderError} (h : (engine.render host).run s = ((after, some error), s')) :
    (engine.renderAtomic host).run s = (({ after with template := engine.template }, some error), s') := by
  rw [run_renderAtomic, h]
  rfl

theorem operate_render {failure : Option RenderError} (h : (engine.render host).run s = ((after, failure), s')) :
    (engine.operate host .render).run s = (after, s') := by
  rw [operate, StateT.run_map, h]
  rfl

theorem operate_renderAtomic {failure : Option RenderError}
    (h : (engine.renderAtomic host).run s = ((after, failure), s')) :
    (engine.operate host .renderAtomic).run s = (after, s') := by
  rw [operate, StateT.run_map, h]
  rfl

end

-- What one operation does to the template.
theorem template_operate (host : Host σ) (engine : Engine) (operation : Operation σ) (s : σ) :
    ((engine.operate host operation).run s).1.template = engine.template ∨
      Sets host engine s operation ((engine.operate host operation).run s).1.template := by
  cases operation with
  | setTemplate template => exact .inr .given
  | change change => exact .inl rfl
  | render =>
      rcases hrun : (engine.render host).run s with ⟨⟨after, _ | error⟩, s'⟩
      · rw [operate_render hrun]
        exact .inr (.rendered hrun)
      · rw [operate_render hrun]
        exact .inr (.failed hrun)
  | renderAtomic =>
      rcases hrun : (engine.render host).run s with ⟨⟨after, _ | error⟩, s'⟩
      · rw [operate_renderAtomic (renderAtomic_of_ok hrun)]
        exact .inr (.renderedAtomic (renderAtomic_of_ok hrun))
      · rw [operate_renderAtomic (renderAtomic_of_error hrun)]
        exact .inl rfl

-- What a run of operations does to it: the template is the old one, or the one that the last operation to give
-- the engine a template has given it.
theorem template_operateAll (host : Host σ) (engine : Engine) (operations : List (Operation σ)) (s : σ) :
    let final := ((engine.operateAll host operations).run s).1
    final.template = engine.template ∨
      ∃ before operation after, operations = before ++ operation :: after ∧
        Sets host ((engine.operateAll host before).run s).1 ((engine.operateAll host before).run s).2 operation
          final.template := by
  induction operations generalizing engine s with
  | nil => exact .inl rfl
  | cons operation rest ih =>
      rcases hstep : (engine.operate host operation).run s with ⟨next, s'⟩
      have hrun (later : List (Operation σ)) :
          (engine.operateAll host (operation :: later)).run s = (next.operateAll host later).run s' := by
        rw [operateAll, List.foldlM_cons, StateT.run_bind, hstep]
        rfl
      intro final
      rcases ih next s' with hsame | ⟨before, later, after, rfl, hsets⟩
      · have hfirst := engine.template_operate host operation s
        rw [hstep, ← hsame, ← hrun rest] at hfirst
        exact hfirst.imp_right fun hsets => ⟨[], operation, rest, rfl, hsets⟩
      · refine .inr ⟨operation :: before, later, after, rfl, ?_⟩
        rw [← hrun before, ← hrun (before ++ later :: after)] at hsets
        exact hsets

-- Plain and atomic renderings are the same rendering, with the same calls of host functions. They differ in the
-- template that a failure leaves. So only three things give an engine another template: handing one in, a
-- successful rendering, and a plain rendering that fails.
theorem plain_and_atomic (host : Host σ) (engine : Engine) (s : σ) :
    let plain := (engine.render host).run s
    let atomic := (engine.renderAtomic host).run s
    ((∃ calls, (engine.render host.logged).run (s, []) = (plain.1, plain.2, calls) ∧
        (engine.renderAtomic host.logged).run (s, []) = (atomic.1, atomic.2, calls)) ∧
      atomic.1.2 = plain.1.2 ∧ atomic.2 = plain.2 ∧ atomic.1.1.context = plain.1.1.context ∧
      atomic.1.1.config = plain.1.1.config ∧
      (plain.1.2 = none → atomic.1.1.template = plain.1.1.template) ∧
      ∀ error, plain.1.2 = some error → atomic.1.1.template = engine.template) ∧
    ∀ operations,
      let final := ((engine.operateAll host operations).run s).1
      final.template = engine.template ∨
        ∃ before operation after, operations = before ++ operation :: after ∧
          Sets host ((engine.operateAll host before).run s).1 ((engine.operateAll host before).run s).2 operation
            final.template := by
  intro plain atomic
  refine ⟨?_, fun operations => template_operateAll host engine operations s⟩
  obtain ⟨calls, hcalls⟩ := extends_render host engine s []
  rw [List.nil_append] at hcalls
  rcases hplain : plain with ⟨⟨after, failure⟩, s'⟩
  change (engine.render host.logged).run (s, []) = (plain.1, plain.2, calls) at hcalls
  rw [hplain] at hcalls
  cases failure with
  | none =>
      have hatomic : atomic = ((after, none), s') := renderAtomic_of_ok hplain
      rw [hatomic]
      exact ⟨⟨calls, hcalls, renderAtomic_of_ok hcalls⟩, rfl, rfl, rfl, rfl, fun _ => rfl, nofun⟩
  | some error =>
      have hatomic : atomic = (({ after with template := engine.template }, some error), s') :=
        renderAtomic_of_error hplain
      rw [hatomic]
      exact ⟨⟨calls, hcalls, renderAtomic_of_error hcalls⟩, rfl, rfl, rfl, rfl, nofun, fun _ _ => rfl⟩

-- The first item is rendered before the second one fails.
def halfway : Engine :=
  ⟨.array [.string "\x7b\x7btrue\x7d\x7d", .string "\x7b\x7bx\x7d\x7d"], .empty 0, .standard⟩

example :
    ((halfway.render idleHost).run ()).1.1.template = .array [.string "true", .string "\x7b\x7bx\x7d\x7d"] ∧
    ((halfway.renderAtomic idleHost).run ()).1.1.template = halfway.template :=
  ⟨rfl, rfl⟩

end Engine

end JsonTemplate
