import JsonTemplate.Proofs.Evaluation.Nesting
import JsonTemplate.Proofs.Evaluation.Pure
import JsonTemplate.Proofs.Expr.Nodes

namespace JsonTemplate

variable {σ α β : Type}

namespace Expr

mutual

-- The evaluation that evaluates all parts of an expression and then combines their values. Logical operators
-- are operations on two known operands like all others, and a conditional chooses between two known values.
def eager (host : Host σ) (scope : Fields Value) : Expr α → Eval σ Value
  | null _ => pure .null
  | bool _ b => pure (.bool b)
  | number _ x => pure (.number x)
  | string _ s => pure (.string s)
  | array _ items => do
      let values ← eagerItems host scope items
      return .array values
  | object _ entries => do
      let values ← eagerEntries host scope entries
      return .object (Fields.ofList values)
  | name _ n =>
      match scope.get? n with
      | some value => pure value
      | none => throw (.undefinedReference n)
  | member _ target key => do
      let value ← eager host scope target
      ExceptT.mk (pure (value.member key))
  | index _ target key => do
      let value ← eager host scope target
      let keyValue ← eager host scope key
      ExceptT.mk (pure (value.element keyValue))
  | call _ callee args => do
      let function ← eager host scope callee
      let values ← eagerItems host scope args
      match function.callable? with
      | some callable => host.apply callable values
      | none => throw (.notCallable callee.describe)
  | unary _ op operand => do
      let value ← eager host scope operand
      return value.applyUnary op
  | binary _ op lhs rhs => do
      let left ← eager host scope lhs
      let right ← eager host scope rhs
      return Value.applyBinary op left right
  | conditional _ test yes no => do
      let value ← eager host scope test
      let first ← eager host scope yes
      let second ← eager host scope no
      return if value.isTruthy then first else second

def eagerItems (host : Host σ) (scope : Fields Value) : List (Expr α) → Eval σ (List Value)
  | [] => pure []
  | item :: items => do
      let value ← eager host scope item
      let values ← eagerItems host scope items
      return value :: values

def eagerEntries (host : Host σ) (scope : Fields Value) :
    List (String × Expr α) → Eval σ (List (String × Value))
  | [] => pure []
  | (key, e) :: entries => do
      let value ← eager host scope e
      let values ← eagerEntries host scope entries
      return (key, value) :: values

end

end Expr

namespace Eval

-- What the first computation gives at one time has a property, and the second one gives it at all times.
def Foretells (x y : Eval σ α) (P : α → Prop) : Prop :=
  ∀ s a s₁, x.run.run s = (.ok a, s₁) → P a ∧ ∀ s', (y.run.run s').1 = .ok a

variable {x y : Eval σ α} {P : α → Prop}

theorem foretells_of_steady (h : Steady x P) : Foretells x x P := by
  intro s a s₁ hrun
  refine ⟨h.2 s a s₁ hrun, fun s' => ?_⟩
  rw [h.1 s' s, hrun]

theorem foretells_outcome {outcome : Except EvalError α} (h : ∀ a, outcome = .ok a → P a) :
    Foretells (ExceptT.mk (pure outcome) : Eval σ α) (ExceptT.mk (pure outcome)) P :=
  foretells_of_steady (composes_steady.outcome h)

theorem foretells_pure {a : α} (h : P a) : Foretells (pure a : Eval σ α) (pure a) P :=
  foretells_of_steady (composes_steady.pure h)

theorem foretells_throw (cause : EvalError) : Foretells (throw cause) y P := by
  intro s a s₁ hrun
  cases hrun

theorem Foretells.within {depth : Nat} (h : Foretells x y P) :
    Foretells (if maxNesting < depth then throw .nestingTooDeep else x) y P := by
  split
  · exact foretells_throw _
  · exact h

theorem Foretells.bind {f g : α → Eval σ β} {Q : β → Prop} (hx : Foretells x y P)
    (hf : ∀ a, P a → Foretells (f a) (g a) Q) : Foretells (x >>= f) (y >>= g) Q := by
  intro s b s₂ hrun
  rcases houtcome : x.run.run s with ⟨outcome, s₁⟩
  cases outcome with
  | error cause =>
      rw [run_bind_of_error houtcome] at hrun
      cases hrun
  | ok a =>
      rw [run_bind_of_ok houtcome] at hrun
      obtain ⟨ha, hy⟩ := hx s a s₁ houtcome
      obtain ⟨hb, hg⟩ := hf a ha s₁ b s₂ hrun
      refine ⟨hb, fun s' => ?_⟩
      have hsecond : y.run.run s' = (.ok a, (y.run.run s').2) := Prod.ext (hy s') rfl
      rw [run_bind_of_ok hsecond]
      exact hg _

-- The second computation gives back what it has found.
theorem Foretells.given {f : α → α} (h : Foretells x y P) (hf : ∀ a, f a = a) :
    Foretells x (y >>= fun a => pure (f a)) P := by
  have hpure : (fun a => pure (f a) : α → Eval σ α) = pure := funext fun a => congrArg pure (hf a)
  rw [hpure, bind_pure]
  exact h

-- What the second computation does besides comes to nothing, as long as it does not fail.
theorem Foretells.besides {z : Eval σ β} {g : β → Eval σ α} (hz : ∀ s, ∃ b, (z.run.run s).1 = .ok b)
    (hg : ∀ b, Foretells x (g b) P) : Foretells x (z >>= g) P := by
  intro s a s₁ hrun
  refine ⟨?_, fun s' => ?_⟩
  · obtain ⟨b, -⟩ := hz s
    exact (hg b s a s₁ hrun).1
  · obtain ⟨b, hb⟩ := hz s'
    have hfirst : z.run.run s' = (.ok b, (z.run.run s').2) := Prod.ext hb rfl
    rw [run_bind_of_ok hfirst]
    exact (hg b s a s₁ hrun).2 _

end Eval

namespace Expr

open Eval

variable {host : Host σ} {scope : Fields Value} {P : Value → Prop}

-- At whatever depth the expression has a value, this is its value when all parts are evaluated.
def Foretold (host : Host σ) (scope : Fields Value) (P : Value → Prop) (e : Expr α) : Prop :=
  ∀ depth, Foretells (e.evalAt host scope depth) (e.eager host scope) P

theorem foretells_evalItems {items : List (Expr α)} (hitems : ∀ item ∈ items, Foretold host scope P item)
    (depth : Nat) : Foretells (evalItems host scope depth items) (eagerItems host scope items)
      fun values => ∀ value ∈ values, P value := by
  induction items with
  | nil =>
      rw [evalItems, eagerItems]
      exact foretells_pure (List.forall_mem_nil _)
  | cons item items ih =>
      obtain ⟨hitem, hrest⟩ := List.forall_mem_cons.mp hitems
      rw [evalItems, eagerItems]
      exact (hitem depth).bind fun value h => (ih hrest).bind fun values hvalues =>
        foretells_pure (List.forall_mem_cons.mpr ⟨h, hvalues⟩)

theorem foretells_evalEntries {entries : List (String × Expr α)}
    (hvalues : ∀ e ∈ entries.map Prod.snd, Foretold host scope P e) (depth : Nat) :
    Foretells (evalEntries host scope depth entries) (eagerEntries host scope entries)
      fun values => ∀ entry ∈ values, P entry.2 := by
  induction entries with
  | nil =>
      rw [evalEntries, eagerEntries]
      exact foretells_pure (List.forall_mem_nil _)
  | cons entry entries ih =>
      obtain ⟨key, e⟩ := entry
      obtain ⟨hvalue, hrest⟩ := List.forall_mem_cons.mp hvalues
      rw [evalEntries, eagerEntries]
      exact (hvalue depth).bind fun value h => (ih hrest).bind fun values hvalues =>
        foretells_pure (List.forall_mem_cons.mpr ⟨h, hvalues⟩)

-- Some time the expression has a value of its own.
def Succeeds (host : Host σ) (scope : Fields Value) (e : Expr α) : Prop :=
  ∃ s value, ((e.eval host scope).run.run s).1 = .ok value

-- The part that is left out has a value as well, which does not count.
theorem Foretold.always {e : Expr α} (h : Foretold host scope P e) (hvalue : Succeeds host scope e) (s : σ) :
    ∃ value, ((e.eager host scope).run.run s).1 = .ok value := by
  obtain ⟨s₀, value, hrun⟩ := hvalue
  exact ⟨value, (h 0 s₀ value _ (Prod.ext hrun rfl)).2 s⟩

variable {note : α}

-- The second operand is evaluated in either way, or it makes no difference.
theorem foretold_and {lhs rhs : Expr α} (hlhs : Foretold host scope P lhs) (hrhs : Foretold host scope P rhs)
    (hvalue : Succeeds host scope rhs) : Foretold host scope P (.binary note .and lhs rhs) := by
  intro depth
  rw [evalAt, eager]
  refine ((hlhs (depth + 1)).bind fun left hleft => ?_).within
  cases htruth : left.isTruthy with
  | true =>
      have hright (right : Value) : Value.applyBinary .and left right = right := by
        rw [Value.applyBinary, htruth, if_pos rfl]
      exact (hrhs (depth + 1)).given hright
  | false =>
      refine .besides (hrhs.always hvalue) fun right => ?_
      rw [Value.applyBinary, htruth]
      exact foretells_pure hleft

theorem foretold_or {lhs rhs : Expr α} (hlhs : Foretold host scope P lhs) (hrhs : Foretold host scope P rhs)
    (hvalue : Succeeds host scope rhs) : Foretold host scope P (.binary note .or lhs rhs) := by
  intro depth
  rw [evalAt, eager]
  refine ((hlhs (depth + 1)).bind fun left hleft => ?_).within
  cases htruth : left.isTruthy with
  | true =>
      refine .besides (hrhs.always hvalue) fun right => ?_
      rw [Value.applyBinary, htruth]
      exact foretells_pure hleft
  | false =>
      have hright (right : Value) : Value.applyBinary .or left right = right := by
        rw [Value.applyBinary, htruth, if_neg Bool.false_ne_true]
      exact (hrhs (depth + 1)).given hright

theorem foretold_conditional {test yes no : Expr α} (htest : Foretold host scope P test)
    (hyes : Foretold host scope P yes) (hyesValue : Succeeds host scope yes) (hno : Foretold host scope P no)
    (hnoValue : Succeeds host scope no) : Foretold host scope P (.conditional note test yes no) := by
  intro depth
  rw [evalAt, eager]
  refine ((htest (depth + 1)).bind fun value _ => ?_).within
  cases value.isTruthy with
  | true =>
      have hfirst : Foretells (yes.evalAt host scope (depth + 1) >>= pure)
          (yes.eager host scope >>= fun first => no.eager host scope >>= fun _ => pure first) P :=
        (hyes (depth + 1)).bind fun first h => .besides (hno.always hnoValue) fun _ => foretells_pure h
      rw [bind_pure] at hfirst
      exact hfirst
  | false => exact .besides (hyes.always hyesValue) fun _ => (hno (depth + 1)).given fun _ => rfl

-- By the parts of the expression. What an operator or a conditional leaves out has a value of its own, so that the
-- evaluation of all parts does not fail there.
theorem foretold (hP : Closed (fun _ => Steady) host scope P) {e : Expr α}
    (hparts : ∀ part, e.HasNode part → Succeeds host scope part) : Foretold host scope P e := by
  have hnode {e child : Expr α} (hparts : ∀ part, e.HasNode part → Succeeds host scope part)
      (hchild : child ∈ e.children) : ∀ part, child.HasNode part → Succeeds host scope part :=
    fun part hpart => hparts part (.inside hchild hpart)
  have hvalue {e child : Expr α} (hparts : ∀ part, e.HasNode part → Succeeds host scope part)
      (hchild : child ∈ e.children) : Succeeds host scope child :=
    hnode hparts hchild child .root
  induction e using byParts with
  | null | bool | number | string =>
      intro depth
      rw [evalAt, eager]
      exact (foretells_pure (hP.scalar _ rfl)).within
  | array note items ih =>
      intro depth
      have hitems : ∀ item ∈ items, Foretold host scope P item := fun item hmem => ih item hmem (hnode hparts hmem)
      rw [evalAt, eager]
      exact ((foretells_evalItems hitems (depth + 1)).bind fun values h => foretells_pure (hP.array values h)).within
  | object note entries ih =>
      intro depth
      have hvalues : ∀ e ∈ entries.map Prod.snd, Foretold host scope P e :=
        fun e hmem => ih e hmem (hnode hparts hmem)
      rw [evalAt, eager]
      refine ((foretells_evalEntries hvalues (depth + 1)).bind fun values h => ?_).within
      exact foretells_pure (hP.object _ (Fields.keys_ofList_nodup values) fun entry hmem =>
        h entry (Fields.mem_of_mem_ofList hmem))
  | name note n =>
      intro depth
      rw [evalAt, eager]
      refine Foretells.within ?_
      cases hget : scope.get? n with
      | none => exact foretells_throw _
      | some value => exact foretells_pure (hP.name n value hget)
  | member note target key ih =>
      intro depth
      have htarget := ih (hnode hparts (List.mem_singleton_self target))
      rw [evalAt, eager]
      exact ((htarget (depth + 1)).bind fun value h => foretells_outcome fun found hfound => hP.member h hfound).within
  | index note target key ihtarget ihkey =>
      intro depth
      have htarget := ihtarget (hnode hparts List.mem_cons_self)
      have hkey := ihkey (hnode hparts (List.mem_cons_of_mem _ (List.mem_singleton_self key)))
      rw [evalAt, eager]
      refine ((htarget (depth + 1)).bind fun value h => (hkey (depth + 1)).bind fun keyValue _ => ?_).within
      exact foretells_outcome fun found hfound => hP.element h hfound
  | call note callee args ihcallee ihargs =>
      intro depth
      have hcallee := ihcallee (hnode hparts List.mem_cons_self)
      have hargs : ∀ arg ∈ args, Foretold host scope P arg :=
        fun arg hmem => ihargs arg hmem (hnode hparts (List.mem_cons_of_mem _ hmem))
      rw [evalAt, eager]
      refine ((hcallee (depth + 1)).bind fun function h => ?_).within
      cases hcallable : function.callable? with
      | none => exact foretells_throw _
      | some callable =>
          exact (foretells_evalItems hargs (depth + 1)).bind fun values hvalues =>
            foretells_of_steady (rel_apply composes_steady hP h hcallable hvalues)
  | unary note op operand ih =>
      intro depth
      have hoperand := ih (hnode hparts (List.mem_singleton_self operand))
      rw [evalAt, eager]
      exact ((hoperand (depth + 1)).bind fun value _ =>
        foretells_pure (hP.scalar _ (Value.isScalar_applyUnary value op))).within
  | binary note op lhs rhs ihlhs ihrhs =>
      have hright : rhs ∈ [lhs, rhs] := List.mem_cons_of_mem _ (List.mem_singleton_self rhs)
      have hlhs := ihlhs (hnode hparts List.mem_cons_self)
      have hrhs := ihrhs (hnode hparts hright)
      by_cases hand : op = .and
      · subst hand
        exact foretold_and hlhs hrhs (hvalue hparts hright)
      · by_cases hor : op = .or
        · subst hor
          exact foretold_or hlhs hrhs (hvalue hparts hright)
        · intro depth
          rw [evalAt_binary host scope depth note hand hor, eager]
          refine ((hlhs (depth + 1)).bind fun left _ => (hrhs (depth + 1)).bind fun right _ => ?_).within
          exact foretells_pure (hP.scalar _ (Value.isScalar_applyBinary hand hor left right))
  | conditional note test yes no ihtest ihyes ihno =>
      have hyesMem : yes ∈ [test, yes, no] := List.mem_cons_of_mem _ List.mem_cons_self
      have hnoMem : no ∈ [test, yes, no] := List.mem_cons_of_mem _ (List.mem_cons_of_mem _ (List.mem_singleton_self no))
      exact foretold_conditional (ihtest (hnode hparts List.mem_cons_self)) (ihyes (hnode hparts hyesMem))
        (hvalue hparts hyesMem) (ihno (hnode hparts hnoMem)) (hvalue hparts hnoMem)

-- Where all parts of an expression have a value, those included that an operator or a conditional leaves out, and
-- functions are pure, nothing depends on what is left out: the expression has the value that is combined of the
-- values of all its parts.
theorem eval_eq_eager (host : Host σ) (scope : Fields Value) (hpure : host.PureIn scope) (e : Expr α)
    (hparts : ∀ part, e.HasNode part → ∃ s value, ((part.eval host scope).run.run s).1 = .ok value) :
    ∃ value, ∀ s, ((e.eval host scope).run.run s).1 = .ok value ∧ ((e.eager host scope).run.run s).1 = .ok value := by
  obtain ⟨P, hP⟩ := hpure
  obtain ⟨s₀, value, hrun⟩ := hparts e .root
  refine ⟨value, fun s => ⟨?_, ?_⟩⟩
  · exact ((rel_evalAt composes_steady hP 0 e).1 s s₀).trans hrun
  · exact (foretold hP hparts 0 s₀ value _ (Prod.ext hrun rfl)).2 s

end Expr

-- A call that gives null.
def nullCall : Expr Unit := .call () (.name () "f") []

-- The second operand of the conjunction and the last branch are left out.
def lazyChoice : Expr Unit :=
  .binary () .or (.binary () .and nullCall nullCall)
    (.conditional () (.name () "x") (.array () [.name () "x"]) nullCall)

def choiceScope : Fields Value := [("f", .function (.external 0 "f")), ("x", .string "a")]

-- The value is the same, although one call is made or three of them.
theorem eval_eq_eager_of_lazyChoice :
    tallyHost.PureIn choiceScope ∧
      (∀ part, lazyChoice.HasNode part → ∃ s value, ((part.eval tallyHost choiceScope).run.run s).1 = .ok value) ∧
      (∀ calls, ((lazyChoice.eval tallyHost choiceScope).run.run calls).1 = .ok (.array [.string "a"]) ∧
        ((lazyChoice.eager tallyHost choiceScope).run.run calls).1 = .ok (.array [.string "a"])) ∧
      ((lazyChoice.eval tallyHost choiceScope).run.run 0).2 = 1 ∧
      ((lazyChoice.eager tallyHost choiceScope).run.run 0).2 = 3 := by
  have hpure : tallyHost.PureIn choiceScope := Host.pureIn_of_forall_call fun _ _ _ _ _ => rfl
  have hparts : ∀ part, lazyChoice.HasNode part →
      ∃ s value, ((part.eval tallyHost choiceScope).run.run s).1 = .ok value := by
    have leaf (node : Expr Unit) (hvalue : Expr.Succeeds tallyHost choiceScope node) (hleaf : node.children = []) :
        ∀ part, node.HasNode part → Expr.Succeeds tallyHost choiceScope part :=
      Expr.forall_hasNode hvalue (hleaf ▸ List.forall_mem_nil _)
    have hf := leaf (.name () "f") ⟨0, _, rfl⟩ rfl
    have hx := leaf (.name () "x") ⟨0, _, rfl⟩ rfl
    have hcall := Expr.forall_hasNode (e := nullCall) ⟨0, _, rfl⟩ (List.forall_mem_singleton.mpr hf)
    have hand := Expr.forall_hasNode (e := .binary () .and nullCall nullCall) ⟨0, _, rfl⟩
      (List.forall_mem_cons.mpr ⟨hcall, List.forall_mem_singleton.mpr hcall⟩)
    have harray := Expr.forall_hasNode (e := .array () [.name () "x"]) ⟨0, _, rfl⟩ (List.forall_mem_singleton.mpr hx)
    have hchoice := Expr.forall_hasNode (e := .conditional () (.name () "x") (.array () [.name () "x"]) nullCall)
      ⟨0, _, rfl⟩
      (List.forall_mem_cons.mpr ⟨hx, List.forall_mem_cons.mpr ⟨harray, List.forall_mem_singleton.mpr hcall⟩⟩)
    exact Expr.forall_hasNode ⟨0, _, rfl⟩ (List.forall_mem_cons.mpr ⟨hand, List.forall_mem_singleton.mpr hchoice⟩)
  obtain ⟨value, hvalue⟩ := Expr.eval_eq_eager tallyHost choiceScope hpure lazyChoice hparts
  have hrun : ((lazyChoice.eval tallyHost choiceScope).run.run 0).1 = .ok (.array [.string "a"]) := by rfl
  cases (hvalue 0).1.symm.trans hrun
  exact ⟨hpure, hparts, hvalue, rfl, rfl⟩

end JsonTemplate
