import JsonTemplate.Proofs.Evaluation.Results

namespace JsonTemplate

variable {σ α β : Type}

-- A function that is a value itself, or stands in its items or entries. What an accessor gives out
-- is in none of them.
inductive Value.OccursIn (f : Value) : Value → Prop
  | itself : f.callable?.isSome = true → OccursIn f f
  | item {items item} : item ∈ items → OccursIn f item → OccursIn f (.array items)
  | entry {fields : Fields Value} {entry} : entry ∈ fields → OccursIn f entry.2 → OccursIn f (.object fields)

-- A call that an evaluation made.
structure Call where
  function : Value
  args : List Value
  outcome : Except EvalError Value

-- A host with whom every call is written down, also one that does not reach it.
structure Tracer (σ : Type) where
  host : Host σ

instance : Caller (Tracer σ) (σ × List Call) where
  run tracer function callable args := ExceptT.mk fun (s, calls) =>
    let (outcome, s) := (tracer.host.apply callable args).run.run s
    (outcome, s, calls ++ [⟨function, args, outcome⟩])

-- The evaluation of an expression that writes its calls down.
def Expr.traced (host : Host σ) (scope : Fields Value) (e : Expr α) : Eval (σ × List Call) Value :=
  e.eval (Tracer.mk host) scope

-- A function that the host has handed out: in a value of the scope, or in one that a call returned.
inductive HandedOut (scope : Fields Value) (calls : List Call) (f : Value) : Prop
  | scope {name value} : scope.get? name = some value → f.OccursIn value → HandedOut scope calls f
  | returned {call value} : call ∈ calls → call.outcome = .ok value → f.OccursIn value → HandedOut scope calls f

-- Every function was handed out before it was called.
def Granted (scope : Fields Value) (calls : List Call) : Prop :=
  ∀ earlier call later, calls = earlier ++ call :: later → HandedOut scope earlier call.function

-- All functions in a value are handed out.
def Holds (scope : Fields Value) (calls : List Call) (value : Value) : Prop :=
  ∀ f : Value, f.OccursIn value → HandedOut scope calls f

variable {scope : Fields Value} {calls : List Call}

theorem HandedOut.append {f : Value} (h : HandedOut scope calls f) (more : List Call) :
    HandedOut scope (calls ++ more) f := by
  cases h with
  | scope hget hin => exact .scope hget hin
  | returned hmem hvalue hin => exact .returned (List.mem_append_left _ hmem) hvalue hin

theorem Holds.append {value : Value} (h : Holds scope calls value) (more : List Call) :
    Holds scope (calls ++ more) value :=
  fun f hin => (h f hin).append more

theorem composed_holds (scope : Fields Value) (calls : List Call) : Value.Composed (Holds scope calls) where
  scalar value hscalar f hin := by
    cases hin with
    | itself hcallable =>
        cases value with
        | null | bool | number | string => cases hcallable
        | _ => cases hscalar
    | item => cases hscalar
    | entry => cases hscalar
  array items h f hin := by
    cases hin with
    | itself hcallable => cases hcallable
    | item hmem hin => exact h _ hmem f hin
  item items h item hmem f hin := h f (.item hmem hin)
  object fields _ h f hin := by
    cases hin with
    | itself hcallable => cases hcallable
    | entry hmem hin => exact h _ hmem f hin
  entry fields h entry hmem f hin := h f (.entry hmem hin)

theorem granted_nil : Granted scope [] := by
  intro earlier call later heq
  cases earlier <;> cases heq

theorem Granted.concat (hcalls : Granted scope calls) {call : Call} (hcall : HandedOut scope calls call.function) :
    Granted scope (calls ++ [call]) := by
  intro earlier next later heq
  rcases List.eq_nil_or_concat later with rfl | ⟨rest, last, rfl⟩
  · obtain ⟨rfl, hlast⟩ := List.append_inj' heq rfl
    cases hlast
    exact hcall
  · rw [List.concat_eq_append, ← List.cons_append, ← List.append_assoc] at heq
    exact hcalls earlier next rest (List.append_inj' heq rfl).1

namespace Eval

-- The second computation does what the first one does, writes down only functions that were handed
-- out, and its result has a property.
def Traces (scope : Fields Value) (calls : List Call) (x : Eval σ α) (y : Eval (σ × List Call) α)
    (P : List Call → α → Prop) : Prop :=
  Granted scope calls → ∀ s, ∃ more,
    y.run.run (s, calls) = ((x.run.run s).1, (x.run.run s).2, calls ++ more) ∧ Granted scope (calls ++ more) ∧
      ∀ a, (x.run.run s).1 = .ok a → P (calls ++ more) a

variable {x : Eval σ α} {y : Eval (σ × List Call) α} {P : List Call → α → Prop}

theorem traces_except {outcome : Except EvalError α} (h : ∀ a, outcome = .ok a → P calls a) :
    Traces scope calls (ExceptT.mk (pure outcome) : Eval σ α) (ExceptT.mk (pure outcome)) P := by
  intro hcalls s
  refine ⟨[], ?_, ?_, ?_⟩
  · rw [List.append_nil]
    rfl
  · rw [List.append_nil]
    exact hcalls
  · rw [List.append_nil]
    exact h

theorem traces_pure {a : α} (h : P calls a) :
    Traces scope calls (pure a : Eval σ α) (pure a) P :=
  traces_except fun _ heq => by
    cases heq
    exact h

theorem traces_throw (cause : EvalError) : Traces scope calls (throw cause : Eval σ α) (throw cause) P :=
  traces_except fun _ heq => by cases heq

theorem Traces.bind {f : α → Eval σ β} {g : α → Eval (σ × List Call) β} {Q : List Call → β → Prop}
    (hx : Traces scope calls x y P)
    (hf : ∀ more a, P (calls ++ more) a → Traces scope (calls ++ more) (f a) (g a) Q) :
    Traces scope calls (x >>= f) (y >>= g) Q := by
  intro hcalls s
  obtain ⟨more, hrun, hgranted, hresult⟩ := hx hcalls s
  rcases houtcome : x.run.run s with ⟨outcome, s₁⟩
  rw [houtcome] at hrun hresult
  cases outcome with
  | error cause =>
      refine ⟨more, ?_, hgranted, ?_⟩
      · rw [run_bind_of_error houtcome, run_bind_of_error hrun]
      · rw [run_bind_of_error houtcome]
        exact fun _ heq => by cases heq
  | ok a =>
      obtain ⟨further, hrest⟩ := hf more a (hresult a rfl) hgranted s₁
      refine ⟨more ++ further, ?_⟩
      rw [run_bind_of_ok houtcome, run_bind_of_ok hrun, ← List.append_assoc]
      exact hrest

end Eval

namespace Expr

open Eval

variable {host : Host σ}

theorem traces_apply {function : Value} {callable : Callable} (hcallable : function.callable? = some callable)
    (hfunction : Holds scope calls function) (args : List Value) :
    Traces scope calls (Caller.run host function callable args)
      (Caller.run (Tracer.mk host) function callable args) (Holds scope) := by
  intro hcalls s
  have hin : function.OccursIn function := .itself (by rw [hcallable]; rfl)
  refine ⟨[⟨function, args, ((host.apply callable args).run.run s).1⟩], rfl, ?_, ?_⟩
  · exact hcalls.concat (hfunction function hin)
  · intro value hvalue f hf
    exact .returned (List.mem_append_right _ (List.mem_singleton_self _)) hvalue hf

theorem traces_within {depth : Nat} {x : Eval σ Value} {y : Eval (σ × List Call) Value}
    {P : List Call → Value → Prop} (h : Traces scope calls x y P) :
    Traces scope calls (if maxNesting < depth then throw .nestingTooDeep else x)
      (if maxNesting < depth then throw .nestingTooDeep else y) P := by
  split
  · exact traces_throw _
  · exact h

theorem traces_branch {condition : Bool} {x x' : Eval σ Value} {y y' : Eval (σ × List Call) Value}
    {P : List Call → Value → Prop} (h : Traces scope calls x y P) (h' : Traces scope calls x' y' P) :
    Traces scope calls (if condition then x else x') (if condition then y else y') P := by
  cases condition
  · exact h'
  · exact h

mutual

-- Every value that comes up in an evaluation holds only functions that were handed out.
theorem traces_evalAt (calls : List Call) (depth : Nat) (e : Expr α) :
    Traces scope calls (e.evalAt host scope depth) (e.evalAt (Tracer.mk host) scope depth) (Holds scope) := by
  cases e with
  | null | bool | number | string =>
      rw [evalAt, evalAt]
      exact traces_within (traces_pure ((composed_holds scope calls).scalar _ rfl))
  | array note items =>
      rw [evalAt, evalAt]
      refine traces_within ((traces_evalItems calls (depth + 1) items).bind fun more values h => ?_)
      exact traces_pure ((composed_holds scope _).array values h)
  | object note entries =>
      rw [evalAt, evalAt]
      refine traces_within ((traces_evalEntries calls (depth + 1) entries).bind fun more values h => ?_)
      exact traces_pure ((composed_holds scope _).object _ (Fields.keys_ofList_nodup values) fun entry hmem =>
        h entry (Fields.mem_of_mem_ofList hmem))
  | name note n =>
      rw [evalAt, evalAt]
      refine traces_within ?_
      cases hget : scope.get? n with
      | none => exact traces_throw _
      | some value => exact traces_pure fun f hin => .scope hget hin
  | member note target key =>
      rw [evalAt, evalAt]
      exact traces_within ((traces_evalAt calls (depth + 1) target).bind fun more value h =>
        traces_except fun found hfound => (composed_holds scope _).member h hfound)
  | index note target key =>
      rw [evalAt, evalAt]
      refine traces_within ((traces_evalAt calls (depth + 1) target).bind fun more value h => ?_)
      exact (traces_evalAt _ (depth + 1) key).bind fun further keyValue _ =>
        traces_except fun found hfound => (composed_holds scope _).element (h.append further) hfound
  | call note callee args =>
      rw [evalAt, evalAt]
      refine traces_within ((traces_evalAt calls (depth + 1) callee).bind fun more function h => ?_)
      cases hcallable : function.callable? with
      | none => exact traces_throw _
      | some callable =>
          exact (traces_evalItems _ (depth + 1) args).bind fun further values _ =>
            traces_apply hcallable (h.append further) values
  | unary note op operand =>
      rw [evalAt, evalAt]
      exact traces_within ((traces_evalAt calls (depth + 1) operand).bind fun more value _ =>
        traces_pure ((composed_holds scope _).scalar _ (Value.isScalar_applyUnary value op)))
  | binary note op lhs rhs =>
      by_cases hand : op = .and
      · subst hand
        rw [evalAt, evalAt]
        exact traces_within ((traces_evalAt calls (depth + 1) lhs).bind fun more value h =>
          traces_branch (traces_evalAt _ (depth + 1) rhs) (traces_pure h))
      · by_cases hor : op = .or
        · subst hor
          rw [evalAt, evalAt]
          exact traces_within ((traces_evalAt calls (depth + 1) lhs).bind fun more value h =>
            traces_branch (traces_pure h) (traces_evalAt _ (depth + 1) rhs))
        · rw [evalAt_binary host scope depth note hand hor, evalAt_binary (Tracer.mk host) scope depth note hand hor]
          refine traces_within ((traces_evalAt calls (depth + 1) lhs).bind fun more left _ => ?_)
          exact (traces_evalAt _ (depth + 1) rhs).bind fun further right _ =>
            traces_pure ((composed_holds scope _).scalar _ (Value.isScalar_applyBinary hand hor left right))
  | conditional note test yes no =>
      rw [evalAt, evalAt]
      exact traces_within ((traces_evalAt calls (depth + 1) test).bind fun more value _ =>
        traces_branch (traces_evalAt _ (depth + 1) yes) (traces_evalAt _ (depth + 1) no))

theorem traces_evalItems (calls : List Call) (depth : Nat) (items : List (Expr α)) :
    Traces scope calls (evalItems host scope depth items) (evalItems (Tracer.mk host) scope depth items)
      fun calls values => ∀ value ∈ values, Holds scope calls value := by
  cases items with
  | nil =>
      rw [evalItems, evalItems]
      exact traces_pure (List.forall_mem_nil _)
  | cons item items =>
      rw [evalItems, evalItems]
      refine (traces_evalAt calls depth item).bind fun more value h => ?_
      exact (traces_evalItems _ depth items).bind fun further values hvalues =>
        traces_pure (List.forall_mem_cons.mpr ⟨h.append further, hvalues⟩)

theorem traces_evalEntries (calls : List Call) (depth : Nat) (entries : List (String × Expr α)) :
    Traces scope calls (evalEntries host scope depth entries) (evalEntries (Tracer.mk host) scope depth entries)
      fun calls values => ∀ entry ∈ values, Holds scope calls entry.2 := by
  cases entries with
  | nil =>
      rw [evalEntries, evalEntries]
      exact traces_pure (List.forall_mem_nil _)
  | cons entry entries =>
      obtain ⟨key, e⟩ := entry
      rw [evalEntries, evalEntries]
      refine (traces_evalAt calls depth e).bind fun more value h => ?_
      exact (traces_evalEntries _ depth entries).bind fun further values hvalues =>
        traces_pure (List.forall_mem_cons.mpr ⟨h.append further, hvalues⟩)

end

-- An evaluation calls only functions that were handed out before, in the scope or by an earlier
-- call, and what it gives holds no others. Without functions in the scope it calls nothing.
theorem functions_handed_out (host : Host σ) (scope : Fields Value) (e : Expr α) (s : σ) :
    ∃ calls, (e.traced host scope).run.run (s, []) =
        (((e.eval host scope).run.run s).1, ((e.eval host scope).run.run s).2, calls) ∧
      (∀ earlier call later, calls = earlier ++ call :: later → HandedOut scope earlier call.function) ∧
      (∀ value, ((e.eval host scope).run.run s).1 = .ok value →
        ∀ f : Value, f.OccursIn value → HandedOut scope calls f) ∧
      ((∀ name value, scope.get? name = some value → ∀ f : Value, ¬f.OccursIn value) →
        calls = [] ∧ ∀ value, ((e.eval host scope).run.run s).1 = .ok value → ∀ f : Value, ¬f.OccursIn value) := by
  have htraces : Traces scope [] (e.eval host scope) (e.traced host scope) (Holds scope) := traces_evalAt [] 0 e
  obtain ⟨calls, hrun, hgranted, hresult⟩ := htraces granted_nil s
  refine ⟨calls, hrun, hgranted, hresult, fun hscope => ?_⟩
  have hnone (f : Value) : ¬HandedOut scope [] f
    | .scope hget hin => hscope _ _ hget f hin
  have hcalls : calls = [] := by
    cases calls with
    | nil => rfl
    | cons call later => exact absurd (hgranted [] call later rfl) (hnone _)
  subst hcalls
  exact ⟨rfl, fun value hvalue f hin => hnone f (hresult value hvalue f hin)⟩

end Expr

end JsonTemplate
