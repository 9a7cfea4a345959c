import JsonTemplate.Evaluation
import JsonTemplate.Proofs.Value.Parts

namespace JsonTemplate

variable {σ α β : Type}

namespace Eval

theorem run_bind_of_ok {x : Eval σ α} {f : α → Eval σ β} {a : α} {s s₁ : σ}
    (h : x.run.run s = (.ok a, s₁)) : (x >>= f).run.run s = (f a).run.run s₁ := by
  rw [ExceptT.run_bind, StateT.run_bind, h]
  rfl

theorem run_bind_of_error {x : Eval σ α} {f : α → Eval σ β} {cause : EvalError} {s s₁ : σ}
    (h : x.run.run s = (.error cause, s₁)) : (x >>= f).run.run s = (.error cause, s₁) := by
  rw [ExceptT.run_bind, StateT.run_bind, h]
  rfl

-- A relation of computations to properties of what they give, which holds of their sequences when it
-- holds of their steps.
structure Composes (rel : (α : Type) → Eval σ α → (α → Prop) → Prop) : Prop where
  outcome : ∀ {α : Type} {P : α → Prop} {outcome : Except EvalError α}, (∀ a, outcome = .ok a → P a) →
    rel α (ExceptT.mk (pure outcome)) P
  bind : ∀ {α β : Type} {x : Eval σ α} {f : α → Eval σ β} {P : α → Prop} {Q : β → Prop}, rel α x P →
    (∀ a, P a → rel β (f a) Q) → rel β (x >>= f) Q

section

variable {rel : (α : Type) → Eval σ α → (α → Prop) → Prop} {P : α → Prop}

theorem Composes.pure (hrel : Composes rel) {a : α} (h : P a) : rel α (pure a) P :=
  hrel.outcome fun _ heq => by cases heq; exact h

theorem Composes.throw (hrel : Composes rel) (cause : EvalError) : rel α (throw cause) P :=
  hrel.outcome nofun

theorem rel_within (hrel : Composes rel) {depth : Nat} {x : Eval σ α} (h : rel α x P) :
    rel α (if maxNesting < depth then throw .nestingTooDeep else x) P := by
  split
  · exact hrel.throw _
  · exact h

theorem rel_branch {condition : Bool} {x y : Eval σ α} (hx : rel α x P) (hy : rel α y P) :
    rel α (if condition then x else y) P := by
  cases condition
  · exact hy
  · exact hx

end

-- Whatever the computation gives has a property.
def Gives (x : Eval σ α) (P : α → Prop) : Prop :=
  ∀ s a s', x.run.run s = (.ok a, s') → P a

theorem composes_gives : Composes fun α => @Gives σ α where
  outcome := by
    intro α P outcome h s a s' hrun
    cases hrun
    exact h a rfl
  bind := by
    intro α β x f P Q hx hf s b s' hrun
    rcases houtcome : x.run.run s with ⟨outcome, s₁⟩
    cases outcome with
    | error cause =>
        rw [run_bind_of_error houtcome] at hrun
        cases hrun
    | ok a =>
        rw [run_bind_of_ok houtcome] at hrun
        exact hf a (hx s a s₁ houtcome) s₁ b s' hrun

theorem gives_pure {P : α → Prop} {a : α} (h : P a) : Gives (pure a : Eval σ α) P :=
  composes_gives.pure h

end Eval

namespace Expr

open Eval

-- An operator that evaluates both of its operands.
theorem evalAt_binary {κ : Type} [Caller κ σ] (caller : κ) (scope : Fields Value) (depth : Nat) (note : α)
    {op : BinaryOp} (hand : op ≠ .and) (hor : op ≠ .or) (lhs rhs : Expr α) :
    (binary note op lhs rhs).evalAt caller scope depth =
      if maxNesting < depth then throw .nestingTooDeep
      else do
        let left ← lhs.evalAt caller scope (depth + 1)
        let right ← rhs.evalAt caller scope (depth + 1)
        return Value.applyBinary op left right := by
  rw [evalAt]
  · exact hand
  · exact hor

-- The values of a scope have a property that evaluation hands on.
structure Closed (rel : (α : Type) → Eval σ α → (α → Prop) → Prop) (host : Host σ) (scope : Fields Value)
    (P : Value → Prop) : Prop extends Value.Inherited P where
  call : ∀ identity name args, P (.function (.external identity name)) → (∀ arg ∈ args, P arg) →
    rel Value (ExceptT.mk (host.call identity name args)) P
  name : ∀ name value, scope.get? name = some value → P value

variable {host : Host σ} {scope : Fields Value} {P : Value → Prop}
  {rel : (α : Type) → Eval σ α → (α → Prop) → Prop}

theorem rel_apply (hrel : Composes rel) (hP : Closed rel host scope P) {function : Value}
    (hfunction : P function) {callable : Callable} (hcallable : function.callable? = some callable)
    {args : List Value} (hargs : ∀ arg ∈ args, P arg) : rel Value (host.apply callable args) P := by
  rw [Value.callable?.eq_def] at hcallable
  split at hcallable <;> cases hcallable
  · exact hrel.outcome fun value h => hP.builtin h
  · exact hP.call _ _ args hfunction hargs
  · exact hrel.outcome fun value h => hP.access (hP.given _ _ _ hfunction) h

mutual

-- What the values of a scope and of calls have by their parts, the values of expressions have.
theorem rel_evalAt (hrel : Composes rel) (hP : Closed rel host scope P) (depth : Nat) (e : Expr α) :
    rel Value (e.evalAt host scope depth) P := by
  cases e with
  | null | bool | number | string =>
      rw [evalAt]
      exact rel_within hrel (hrel.pure (hP.scalar _ rfl))
  | array note items =>
      rw [evalAt]
      exact rel_within hrel (hrel.bind (rel_evalItems hrel hP (depth + 1) items) fun values h =>
        hrel.pure (hP.array values h))
  | object note entries =>
      rw [evalAt]
      refine rel_within hrel (hrel.bind (rel_evalEntries hrel hP (depth + 1) entries) fun values h => ?_)
      exact hrel.pure (hP.object _ (Fields.keys_ofList_nodup values) fun entry hmem =>
        h entry (Fields.mem_of_mem_ofList hmem))
  | name note n =>
      rw [evalAt]
      refine rel_within hrel ?_
      cases hget : scope.get? n with
      | none => exact hrel.throw _
      | some value => exact hrel.pure (hP.name n value hget)
  | member note target key =>
      rw [evalAt]
      exact rel_within hrel (hrel.bind (rel_evalAt hrel hP (depth + 1) target) fun value h =>
        hrel.outcome fun found hfound => hP.member h hfound)
  | index note target key =>
      rw [evalAt]
      refine rel_within hrel (hrel.bind (rel_evalAt hrel hP (depth + 1) target) fun value h => ?_)
      exact hrel.bind (rel_evalAt hrel hP (depth + 1) key) fun keyValue _ =>
        hrel.outcome fun found hfound => hP.element h hfound
  | call note callee args =>
      rw [evalAt]
      refine rel_within hrel (hrel.bind (rel_evalAt hrel hP (depth + 1) callee) fun function h => ?_)
      cases hcallable : function.callable? with
      | none => exact hrel.throw _
      | some callable =>
          exact hrel.bind (rel_evalItems hrel hP (depth + 1) args) fun values hvalues =>
            rel_apply hrel hP h hcallable hvalues
  | unary note op operand =>
      rw [evalAt]
      exact rel_within hrel (hrel.bind (rel_evalAt hrel hP (depth + 1) operand) fun value _ =>
        hrel.pure (hP.scalar _ (Value.isScalar_applyUnary value op)))
  | binary note op lhs rhs =>
      by_cases hand : op = .and
      · subst hand
        rw [evalAt]
        exact rel_within hrel (hrel.bind (rel_evalAt hrel hP (depth + 1) lhs) fun value h =>
          rel_branch (rel_evalAt hrel hP (depth + 1) rhs) (hrel.pure h))
      · by_cases hor : op = .or
        · subst hor
          rw [evalAt]
          exact rel_within hrel (hrel.bind (rel_evalAt hrel hP (depth + 1) lhs) fun value h =>
            rel_branch (hrel.pure h) (rel_evalAt hrel hP (depth + 1) rhs))
        · rw [evalAt_binary host scope depth note hand hor]
          refine rel_within hrel (hrel.bind (rel_evalAt hrel hP (depth + 1) lhs) fun left _ => ?_)
          exact hrel.bind (rel_evalAt hrel hP (depth + 1) rhs) fun right _ =>
            hrel.pure (hP.scalar _ (Value.isScalar_applyBinary hand hor left right))
  | conditional note test yes no =>
      rw [evalAt]
      exact rel_within hrel (hrel.bind (rel_evalAt hrel hP (depth + 1) test) fun value _ =>
        rel_branch (rel_evalAt hrel hP (depth + 1) yes) (rel_evalAt hrel hP (depth + 1) no))

theorem rel_evalItems (hrel : Composes rel) (hP : Closed rel host scope P) (depth : Nat)
    (items : List (Expr α)) :
    rel _ (evalItems host scope depth items) fun values => ∀ value ∈ values, P value := by
  cases items with
  | nil =>
      rw [evalItems]
      exact hrel.pure fun value h => absurd h List.not_mem_nil
  | cons item items =>
      rw [evalItems]
      refine hrel.bind (rel_evalAt hrel hP depth item) fun value h => ?_
      exact hrel.bind (rel_evalItems hrel hP depth items) fun values hvalues =>
        hrel.pure (List.forall_mem_cons.mpr ⟨h, hvalues⟩)

theorem rel_evalEntries (hrel : Composes rel) (hP : Closed rel host scope P) (depth : Nat)
    (entries : List (String × Expr α)) :
    rel _ (evalEntries host scope depth entries) fun values => ∀ entry ∈ values, P entry.2 := by
  cases entries with
  | nil =>
      rw [evalEntries]
      exact hrel.pure fun value h => absurd h List.not_mem_nil
  | cons entry entries =>
      obtain ⟨key, e⟩ := entry
      rw [evalEntries]
      refine hrel.bind (rel_evalAt hrel hP depth e) fun value h => ?_
      exact hrel.bind (rel_evalEntries hrel hP depth entries) fun values hvalues =>
        hrel.pure (List.forall_mem_cons.mpr ⟨h, hvalues⟩)

end

end Expr

theorem rel_evaluate {host : Host σ} {scope : Fields Value} {P : Value → Prop}
    {rel : (α : Type) → Eval σ α → (α → Prop) → Prop} (hrel : Eval.Composes rel)
    (hP : Expr.Closed rel host scope P) (source : String) : rel Value (evaluate host scope source) P := by
  rw [evaluate]
  split
  · exact hrel.throw _
  · exact Expr.rel_evalAt hrel hP 0 _

-- The property passes from the arguments of the host's functions to what they return.
def Host.Keeps (host : Host σ) (P : Value → Prop) : Prop :=
  ∀ identity name args, (∀ arg ∈ args, P arg) → Eval.Gives (ExceptT.mk (host.call identity name args)) P

theorem gives_evaluate {host : Host σ} {scope : Fields Value} {P : Value → Prop} (hP : Value.Inherited P)
    (hhost : host.Keeps P) (hscope : ∀ name value, scope.get? name = some value → P value) (source : String) :
    Eval.Gives (evaluate host scope source) P :=
  rel_evaluate Eval.composes_gives
    { hP with call := fun identity name args _ => hhost identity name args, name := hscope } source

end JsonTemplate
