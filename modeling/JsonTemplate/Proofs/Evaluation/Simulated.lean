import JsonTemplate.Proofs.Evaluation.Results
import JsonTemplate.Proofs.Template.Simulation

namespace JsonTemplate

variable {σ τ α β : Type}

-- A call that reached the host, and what came of it.
structure HostCall where
  identity : Nat
  name : String
  args : List Value
  outcome : Except EvalError Value

-- The same host, with all calls written down beside its state.
def Host.logged (host : Host σ) : Host (σ × List HostCall) where
  call identity name args := fun (s, calls) =>
    let (outcome, s) := host.call identity name args s
    (outcome, s, calls ++ [⟨identity, name, args, outcome⟩])

namespace Walker

variable {rel : (α : Type) → StateM σ α → StateM τ α → Prop}

section

variable {x : Eval σ α} {y : Eval τ α}

theorem Compatible.except (hrel : Compatible rel) (outcome : Except EvalError α) :
    rel _ (ExceptT.mk (Pure.pure outcome) : Eval σ α).run (ExceptT.mk (Pure.pure outcome) : Eval τ α).run :=
  hrel.pure outcome

-- After an error nothing more is computed.
theorem Compatible.eval_bind (hrel : Compatible rel) {f : α → Eval σ β} {g : α → Eval τ β}
    (hx : rel _ x.run y.run) (hf : ∀ a, rel _ (f a).run (g a).run) : rel _ (x >>= f).run (y >>= g).run := by
  change rel _ (x.run >>= ExceptT.bindCont f) (y.run >>= ExceptT.bindCont g)
  refine hrel.bind hx fun outcome => ?_
  cases outcome with
  | error cause => exact hrel.pure _
  | ok a => exact hf a

theorem Compatible.within (hrel : Compatible rel) {depth : Nat} (h : rel _ x.run y.run) :
    rel _ (if maxNesting < depth then throw .nestingTooDeep else x).run
      (if maxNesting < depth then throw .nestingTooDeep else y).run := by
  split
  · exact hrel.except _
  · exact h

end

variable {host : Host σ} {host' : Host τ} (scope : Fields Value)

theorem Compatible.apply (hrel : Compatible rel)
    (hcall : ∀ identity name args, rel _ (host.call identity name args) (host'.call identity name args))
    (callable : Callable) (args : List Value) :
    rel _ (host.apply callable args).run (host'.apply callable args).run := by
  cases callable with
  | builtin | accessor => exact hrel.except _
  | external identity name => exact hcall identity name args

mutual

-- Evaluations are related when the host's functions are.
theorem Compatible.evalAt (hrel : Compatible rel)
    (hcall : ∀ identity name args, rel _ (host.call identity name args) (host'.call identity name args))
    (depth : Nat) (e : Expr α) : rel _ (e.evalAt host scope depth).run (e.evalAt host' scope depth).run := by
  cases e with
  | null | bool | number | string =>
      rw [Expr.evalAt, Expr.evalAt]
      exact hrel.within (hrel.except _)
  | array note items =>
      rw [Expr.evalAt, Expr.evalAt]
      exact hrel.within (hrel.eval_bind (hrel.evalItems hcall (depth + 1) items) fun _ => hrel.except _)
  | object note entries =>
      rw [Expr.evalAt, Expr.evalAt]
      exact hrel.within (hrel.eval_bind (hrel.evalEntries hcall (depth + 1) entries) fun _ => hrel.except _)
  | name note n =>
      rw [Expr.evalAt, Expr.evalAt]
      refine hrel.within ?_
      cases scope.get? n <;> exact hrel.except _
  | member note target key =>
      rw [Expr.evalAt, Expr.evalAt]
      exact hrel.within (hrel.eval_bind (hrel.evalAt hcall (depth + 1) target) fun _ => hrel.except _)
  | index note target key =>
      rw [Expr.evalAt, Expr.evalAt]
      refine hrel.within (hrel.eval_bind (hrel.evalAt hcall (depth + 1) target) fun value => ?_)
      exact hrel.eval_bind (hrel.evalAt hcall (depth + 1) key) fun _ => hrel.except _
  | call note callee args =>
      rw [Expr.evalAt, Expr.evalAt]
      refine hrel.within (hrel.eval_bind (hrel.evalAt hcall (depth + 1) callee) fun function => ?_)
      cases function.callable? with
      | none => exact hrel.except _
      | some callable =>
          exact hrel.eval_bind (hrel.evalItems hcall (depth + 1) args) fun values =>
            hrel.apply hcall callable values
  | unary note op operand =>
      rw [Expr.evalAt, Expr.evalAt]
      exact hrel.within (hrel.eval_bind (hrel.evalAt hcall (depth + 1) operand) fun _ => hrel.except _)
  | binary note op lhs rhs =>
      have hlhs := hrel.evalAt hcall (depth + 1) lhs
      have hrhs := hrel.evalAt hcall (depth + 1) rhs
      by_cases hand : op = .and
      · subst hand
        rw [Expr.evalAt, Expr.evalAt]
        refine hrel.within (hrel.eval_bind hlhs fun value => ?_)
        cases value.isTruthy
        · exact hrel.except _
        · exact hrhs
      · by_cases hor : op = .or
        · subst hor
          rw [Expr.evalAt, Expr.evalAt]
          refine hrel.within (hrel.eval_bind hlhs fun value => ?_)
          cases value.isTruthy
          · exact hrhs
          · exact hrel.except _
        · rw [Expr.evalAt_binary host scope depth note hand hor,
            Expr.evalAt_binary host' scope depth note hand hor]
          exact hrel.within (hrel.eval_bind hlhs fun _ => hrel.eval_bind hrhs fun _ => hrel.except _)
  | conditional note test yes no =>
      have hyes := hrel.evalAt hcall (depth + 1) yes
      have hno := hrel.evalAt hcall (depth + 1) no
      rw [Expr.evalAt, Expr.evalAt]
      refine hrel.within (hrel.eval_bind (hrel.evalAt hcall (depth + 1) test) fun value => ?_)
      cases value.isTruthy
      · exact hno
      · exact hyes

theorem Compatible.evalItems (hrel : Compatible rel)
    (hcall : ∀ identity name args, rel _ (host.call identity name args) (host'.call identity name args))
    (depth : Nat) (items : List (Expr α)) :
    rel _ (Expr.evalItems host scope depth items).run (Expr.evalItems host' scope depth items).run := by
  cases items with
  | nil =>
      rw [Expr.evalItems, Expr.evalItems]
      exact hrel.except _
  | cons item items =>
      rw [Expr.evalItems, Expr.evalItems]
      refine hrel.eval_bind (hrel.evalAt hcall depth item) fun value => ?_
      exact hrel.eval_bind (hrel.evalItems hcall depth items) fun _ => hrel.except _

theorem Compatible.evalEntries (hrel : Compatible rel)
    (hcall : ∀ identity name args, rel _ (host.call identity name args) (host'.call identity name args))
    (depth : Nat) (entries : List (String × Expr α)) :
    rel _ (Expr.evalEntries host scope depth entries).run (Expr.evalEntries host' scope depth entries).run := by
  cases entries with
  | nil =>
      rw [Expr.evalEntries, Expr.evalEntries]
      exact hrel.except _
  | cons entry entries =>
      obtain ⟨key, e⟩ := entry
      rw [Expr.evalEntries, Expr.evalEntries]
      refine hrel.eval_bind (hrel.evalAt hcall depth e) fun value => ?_
      exact hrel.eval_bind (hrel.evalEntries hcall depth entries) fun _ => hrel.except _

end

theorem Compatible.evaluate (hrel : Compatible rel)
    (hcall : ∀ identity name args, rel _ (host.call identity name args) (host'.call identity name args))
    (source : String) :
    rel _ (JsonTemplate.evaluate host scope source).run (JsonTemplate.evaluate host' scope source).run := by
  rw [JsonTemplate.evaluate, JsonTemplate.evaluate]
  cases parse source with
  | error e => exact hrel.except _
  | ok e => exact hrel.evalAt scope hcall 0 e

theorem extends_call (host : Host σ) (identity : Nat) (name : String) (args : List Value) :
    Extends _ (host.logged.call identity name args) (host.call identity name args) :=
  fun _ _ => ⟨_, rfl⟩

-- Writing calls down changes no evaluation.
theorem extends_eval (host : Host σ) (scope : Fields Value) (e : Expr α) :
    Extends _ (e.eval host.logged scope).run (e.eval host scope).run :=
  compatible_extends.evalAt scope (extends_call host) 0 e

end Walker

end JsonTemplate
