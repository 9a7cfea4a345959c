import JsonTemplate.Proofs.Evaluation.Results

namespace JsonTemplate

variable {σ : Type}

namespace Eval

variable {α : Type}

-- The outcome does not depend on the state, and whatever the computation gives has a property.
def Steady (x : Eval σ α) (P : α → Prop) : Prop :=
  (∀ s s', (x.run.run s).1 = (x.run.run s').1) ∧ Gives x P

theorem composes_steady : Composes fun α => @Steady σ α where
  outcome h := ⟨fun _ _ => rfl, composes_gives.outcome h⟩
  bind := by
    intro α β x f P Q hx hf
    refine ⟨fun s s' => ?_, composes_gives.bind hx.2 fun a ha => (hf a ha).2⟩
    rcases hrun : x.run.run s with ⟨outcome, s₁⟩
    rcases hrun' : x.run.run s' with ⟨outcome', s₁'⟩
    have hsame := hx.1 s s'
    rw [hrun, hrun'] at hsame
    cases hsame
    cases outcome with
    | error cause => rw [run_bind_of_error hrun, run_bind_of_error hrun']
    | ok a =>
        rw [run_bind_of_ok hrun, run_bind_of_ok hrun']
        exact (hf a (hx.2 s a s₁ hrun)).1 s₁ s₁'

end Eval

-- The functions that expressions of a scope can call are pure: their results depend on their arguments
-- only. The property selects the values that occur in the scope and in such results.
def Host.PureIn (host : Host σ) (scope : Fields Value) : Prop :=
  ∃ P, Expr.Closed (fun _ => Eval.Steady) host scope P

-- Every scope will do if no function of the host looks at the state.
theorem Host.pureIn_of_forall_call {host : Host σ} {scope : Fields Value}
    (h : ∀ identity name args s s', (host.call identity name args s).1 = (host.call identity name args s').1) :
    host.PureIn scope :=
  ⟨fun _ => True, {
    scalar := fun _ _ => trivial
    array := fun _ _ => trivial
    item := fun _ _ _ _ => trivial
    object := fun _ _ _ => trivial
    entry := fun _ _ _ _ => trivial
    given := fun _ _ _ _ _ _ => trivial
    call := fun identity name args _ _ => ⟨h identity name args, fun _ _ _ _ => trivial⟩
    name := fun _ _ _ => trivial }⟩

-- In such a scope an expression has the same outcome at all times.
theorem evaluate_steady {host : Host σ} {scope : Fields Value} (h : host.PureIn scope) (source : String)
    (s s' : σ) :
    ((evaluate host scope source).run.run s).1 = ((evaluate host scope source).run.run s').1 := by
  obtain ⟨P, hP⟩ := h
  exact (rel_evaluate Eval.composes_steady hP source).1 s s'

end JsonTemplate
