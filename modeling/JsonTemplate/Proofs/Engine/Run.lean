import JsonTemplate.Engine
import JsonTemplate.Proofs.Json.Node

namespace JsonTemplate

-- One step on the way into a value.
inductive Position where
  | key (key : String)
  | item (position : Nat)

-- Appends an item to the array at a place in a value. Without an array there, nothing is done.
def Value.appendAt? (item : Value) : List Position → Value → Option Value
  | [], .array items => some (.array (items ++ [item]))
  | .key key :: place, .object fields => do
      let value ← Fields.get? fields key
      let value ← appendAt? item place value
      return .object (Fields.insert fields key value)
  | .item position :: place, .array items => do
      let value ← items[position]?
      let value ← appendAt? item place value
      return .array (items.set position value)
  | _, _ => none

-- What the owner of an engine does with it. All values that come in are JSON.
inductive Action where
  | insert (key : String) (json : Json)
  | remove (key : String)
  | push (key : String) (place : List Position) (json : Json)
  | setContext (json : Json)
  | setTemplate (template : Json)
  | render
  | renderAtomic

namespace Action

def WellFormed : Action → Prop
  | insert _ json => json.WellFormed
  | push _ _ json => json.WellFormed
  | setContext json => json.WellFormed
  | _ => True

-- The entry of a key is taken away, or replaced by something other than an array.
def Withdraws (action : Action) (key : String) : Prop :=
  action = remove key ∨ ∃ json, action = insert key json ∧ ∀ items, json ≠ .array items

-- An array is put under a key, or all entries are replaced.
def Settles (action : Action) (key : String) : Prop :=
  (∃ items, action = insert key (.array items)) ∨ ∃ entries, action = setContext (.object entries)

-- The last word on a key was to withdraw it.
def Withdrawn (actions : List Action) (key : String) : Prop :=
  ∃ before action after, actions = before ++ action :: after ∧ action.Withdraws key ∧
    ∀ later ∈ after, ¬later.Settles key

theorem withdrawn_concat (actions : List Action) (action : Action) (key : String) :
    Withdrawn (actions ++ [action]) key ↔
      action.Withdraws key ∨ Withdrawn actions key ∧ ¬action.Settles key := by
  constructor
  · rintro ⟨before, withdrawal, after, hsplit, hwithdraws, hafter⟩
    rcases List.eq_nil_or_concat after with rfl | ⟨front, last, rfl⟩
    · obtain ⟨-, hlast⟩ := List.append_inj' hsplit rfl
      cases hlast
      exact .inl hwithdraws
    · rw [List.concat_eq_append, ← List.cons_append, ← List.append_assoc] at hsplit
      obtain ⟨hfront, hlast⟩ := List.append_inj' hsplit rfl
      cases hlast
      refine .inr ⟨⟨before, withdrawal, front, hfront, hwithdraws, ?_⟩, hafter action (by simp)⟩
      intro later hlater
      exact hafter later (by simp [hlater])
  · rintro (hwithdraws | ⟨⟨before, withdrawal, after, rfl, hwithdraws, hafter⟩, hsettles⟩)
    · exact ⟨actions, action, [], rfl, hwithdraws, by simp⟩
    · refine ⟨before, withdrawal, after ++ [action], by simp, hwithdraws, ?_⟩
      intro later hlater
      rcases List.mem_append.mp hlater with hlater | hlater
      · exact hafter later hlater
      · exact List.mem_singleton.mp hlater ▸ hsettles

end Action

namespace Context

-- The context after an action. Only the accessors that a render puts in depend on anything else, and
-- that is the rule.
def after (rule : AccessorRule) (context : Context) : Action → Context
  | .insert key json => context.insert key (.ofJson json)
  | .remove key => context.erase key
  | .push key place json =>
      match (context.get? key).bind (Value.appendAt? (.ofJson json) place) with
      | some value => context.insert key value
      | none => context
  | .setContext json =>
      match ofJson context.supply json with
      | .ok context => context
      | .error _ => context
  | .setTemplate _ => context
  | .render | .renderAtomic => (context.augment rule).1

end Context

namespace Engine

variable {σ : Type}

def act (host : Host σ) (engine : Engine) : Action → StateM σ Engine
  | .setTemplate template => pure { engine with template }
  | .render => Prod.fst <$> engine.render host
  | .renderAtomic => Prod.fst <$> engine.renderAtomic host
  | action => pure { engine with context := engine.context.after (accessorRule engine.config) action }

def perform (host : Host σ) (engine : Engine) (actions : List Action) : StateM σ Engine :=
  actions.foldlM (act host) engine

-- Neither host nor template has a say in what an action makes of the context.
theorem act_context (host : Host σ) (engine : Engine) (action : Action) (s : σ) :
    ((engine.act host action).run s).1.config = engine.config ∧
      ((engine.act host action).run s).1.context =
        engine.context.after (accessorRule engine.config) action := by
  cases action with
  | renderAtomic =>
      have hrender : ∀ failed : Bool, ∀ template : Json,
          (if failed then engine.augmentContext else { engine.augmentContext with template }).config =
            engine.config ∧
          (if failed then engine.augmentContext else { engine.augmentContext with template }).context =
            engine.augmentContext.context := by
        intro failed template
        cases failed <;> exact ⟨rfl, rfl⟩
      exact hrender _ _
  | _ => exact ⟨rfl, rfl⟩

theorem perform_context (host : Host σ) (engine : Engine) (actions : List Action) (s : σ) :
    ((engine.perform host actions).run s).1.config = engine.config ∧
      ((engine.perform host actions).run s).1.context =
        actions.foldl (Context.after (accessorRule engine.config)) engine.context := by
  induction actions generalizing engine s with
  | nil => exact ⟨rfl, rfl⟩
  | cons action rest ih =>
      obtain ⟨hconfig, hcontext⟩ := engine.act_context host action s
      obtain ⟨ihConfig, ihContext⟩ :=
        ih ((engine.act host action).run s).1 ((engine.act host action).run s).2
      rw [hconfig] at ihConfig ihContext
      rw [hcontext] at ihContext
      exact ⟨ihConfig, ihContext⟩

end Engine

end JsonTemplate
