import JsonTemplate.Proofs.Evaluation.BigStep

namespace JsonTemplate

variable {σ α β γ : Type}

namespace Value

-- The limit on nesting is no concern of single values.
theorem member_ne_nestingTooDeep (target : Value) (key : String) :
    target.member key ≠ .error .nestingTooDeep := by
  unfold member
  split <;> try split
  all_goals exact nofun

theorem element_ne_nestingTooDeep (target key : Value) : target.element key ≠ .error .nestingTooDeep := by
  unfold element
  split
  · exact nofun
  · exact nofun
  · exact member_ne_nestingTooDeep target key.text

theorem access_ne_nestingTooDeep (name : String) (items args : List Value) :
    access name items args ≠ .error .nestingTooDeep := by
  unfold access
  split <;> try split
  all_goals exact nofun

end Value

theorem Builtin.apply_ne_nestingTooDeep (builtin : Builtin) (args : List Value) :
    builtin.apply args ≠ .error .nestingTooDeep := by
  intro h
  cases builtin with
  | length | keys | join =>
      rw [apply] at h
      split at h <;> cases h
  | toUpper | toLower | trim | string | number => cases h

-- No function of the host reports that an expression is nested too deeply.
def Host.LeavesNesting (host : Host σ) : Prop :=
  ∀ identity name args s, (host.call identity name args s).1 ≠ .error .nestingTooDeep

namespace Eval

-- The computation runs through the events of an evaluation without a limit, and stops before the first
-- node that is too deep.
structure CutOff (x : Eval (σ × List HostCall) β) (s : σ) (events : List Event) (outcome : Except EvalError β)
    (s' : σ) : Prop where
  complete : Shallow maxNesting events → ∀ calls, x.run.run (s, calls) = (outcome, s', calls ++ hostCalls events)
  cut : ∀ before depth after, events = before ++ .node depth :: after → Shallow maxNesting before →
    maxNesting < depth → ∀ calls, ∃ s₁, x.run.run (s, calls) = (.error .nestingTooDeep, s₁, calls ++ hostCalls before)
  genuine : outcome ≠ .error .nestingTooDeep

namespace CutOff

variable {x : Eval (σ × List HostCall) β} {f : β → Eval (σ × List HostCall) γ} {s s₁ s' : σ}
  {events more : List Event}

theorem of_outcome {outcome : Except EvalError β} (h : outcome ≠ .error .nestingTooDeep) :
    CutOff (ExceptT.mk (pure outcome) : Eval (σ × List HostCall) β) s [] outcome s where
  complete _ calls := by
    rw [hostCalls_nil, List.append_nil]
    rfl
  cut before depth after heq := by cases before <;> cases heq
  genuine := h

theorem of_pure (a : β) : CutOff (pure a : Eval (σ × List HostCall) β) s [] (.ok a) s := of_outcome nofun

theorem of_throw {cause : EvalError} (h : cause ≠ .nestingTooDeep) :
    CutOff (throw cause : Eval (σ × List HostCall) β) s [] (.error cause) s :=
  of_outcome fun heq => h (Except.error.inj heq)

theorem bind {a : β} {outcome : Except EvalError γ} (hx : CutOff x s events (.ok a) s₁)
    (hf : CutOff (f a) s₁ more outcome s') : CutOff (x >>= f) s (events ++ more) outcome s' where
  complete hshallow calls := by
    obtain ⟨hevents, hmore⟩ := Shallow.append_iff.mp hshallow
    rw [run_bind_of_ok (hx.complete hevents calls), hf.complete hmore, List.append_assoc, hostCalls_append]
  cut before depth after heq hbefore hdepth calls := by
    -- The first node that is too deep is among the events of one of the two computations.
    rcases List.append_eq_append_iff.mp heq with ⟨late, rfl, hmore⟩ | ⟨early, rfl, hearly⟩
    · obtain ⟨hevents, hlate⟩ := Shallow.append_iff.mp hbefore
      obtain ⟨s₂, hrun⟩ := hf.cut late depth after hmore hlate hdepth (calls ++ hostCalls events)
      refine ⟨s₂, ?_⟩
      rw [run_bind_of_ok (hx.complete hevents calls), hrun, List.append_assoc, hostCalls_append]
    · cases early with
      | nil =>
          rw [List.append_nil] at hx
          obtain ⟨s₂, hrun⟩ := hf.cut [] depth after hearly.symm .nil hdepth (calls ++ hostCalls before)
          refine ⟨s₂, ?_⟩
          rw [run_bind_of_ok (hx.complete hbefore calls), hrun, hostCalls_nil, List.append_nil]
      | cons event early =>
          cases hearly
          obtain ⟨s₂, hrun⟩ := hx.cut before depth early rfl hbefore hdepth calls
          exact ⟨s₂, run_bind_of_error hrun⟩
  genuine := hf.genuine

theorem bind_error {cause : EvalError} (hx : CutOff x s events (.error cause) s') :
    CutOff (x >>= f) s events (.error cause) s' where
  complete hshallow calls := run_bind_of_error (hx.complete hshallow calls)
  cut before depth after heq hbefore hdepth calls := by
    obtain ⟨s₁, hrun⟩ := hx.cut before depth after heq hbefore hdepth calls
    exact ⟨s₁, run_bind_of_error hrun⟩
  genuine h := by
    cases h
    exact hx.genuine rfl

-- What follows is no event.
theorem bind_silent {a : β} {outcome : Except EvalError γ} (hx : CutOff x s events (.ok a) s₁)
    (hf : CutOff (f a) s₁ [] outcome s') : CutOff (x >>= f) s events outcome s' := by
  have h := hx.bind hf
  rwa [List.append_nil] at h

theorem except {outcome : Except EvalError β} {g : β → Except EvalError γ}
    (hx : CutOff x s events outcome s') (hg : ∀ a, g a ≠ .error .nestingTooDeep) :
    CutOff (x >>= fun a => ExceptT.mk (pure (g a))) s events (outcome.bind g) s' := by
  cases outcome with
  | error cause => exact hx.bind_error
  | ok a => exact hx.bind_silent (of_outcome (hg a))

theorem map {outcome : Except EvalError β} (hx : CutOff x s events outcome s') (g : β → γ) :
    CutOff (x >>= fun a => pure (g a)) s events (outcome.map g) s' := by
  have h := hx.except (g := fun a => .ok (g a)) (fun _ => nofun)
  cases outcome <;> exact h

-- A node that is too deep is not evaluated.
theorem within {depth : Nat} {outcome : Except EvalError β} (hx : CutOff x s events outcome s') :
    CutOff (if maxNesting < depth then throw .nestingTooDeep else x) s (.node depth :: events) outcome s' where
  complete hshallow calls := by
    obtain ⟨hdepth, hevents⟩ := Shallow.node_cons_iff.mp hshallow
    rw [if_neg (Nat.not_lt.mpr hdepth), hostCalls_node]
    exact hx.complete hevents calls
  cut before deep after heq hbefore hdeep calls := by
    cases before with
    | nil =>
        cases heq
        refine ⟨s, ?_⟩
        rw [if_pos hdeep, hostCalls_nil, List.append_nil]
        rfl
    | cons event before =>
        cases heq
        obtain ⟨hdepth, hbefore⟩ := Shallow.node_cons_iff.mp hbefore
        rw [if_neg (Nat.not_lt.mpr hdepth), hostCalls_node]
        exact hx.cut before deep after rfl hbefore hdeep calls
  genuine := hx.genuine

end CutOff

end Eval

namespace Expr

open Eval

variable {host : Host σ} {scope : Fields Value}

theorem cutOff_apply (hhost : host.LeavesNesting) {callable : Callable} {args : List Value} {s s' : σ}
    {events : List Event} {outcome : Except EvalError Value} (h : host.Applies callable args s events outcome s') :
    CutOff (host.logged.apply callable args) s events outcome s' := by
  cases h with
  | builtin => exact .of_outcome (Builtin.apply_ne_nestingTooDeep _ _)
  | accessor => exact .of_outcome (Value.access_ne_nestingTooDeep _ _ _)
  | @external identity name _ _ _ _ hcall =>
      have hrun (calls : List HostCall) : host.logged.call identity name args (s, calls) =
          (outcome, s', calls ++ [⟨identity, name, args, outcome⟩]) := by
        simp only [Host.logged, hcall]
      refine ⟨fun _ => hrun, ?_, ?_⟩
      · rintro (_ | ⟨_, _ | _⟩) depth after heq <;> cases heq
      · have hgenuine := hhost identity name args s
        rwa [hcall] at hgenuine

theorem cutOff_evalItems {items : List (Expr α)}
    (hitems : ∀ item ∈ items, ∀ {depth s s' events outcome}, Evaluates host scope depth item s events outcome s' →
      CutOff (item.evalAt host.logged scope depth) s events outcome s')
    {depth : Nat} {s s' : σ} {events : List Event} {outcome : Except EvalError (List Value)}
    (h : EvaluatesAll host scope depth items s events outcome s') :
    CutOff (evalItems host.logged scope depth items) s events outcome s' := by
  induction items generalizing s events outcome with
  | nil =>
      cases h
      rw [evalItems]
      exact .of_pure []
  | cons item items ih =>
      obtain ⟨hitem, hrest⟩ := List.forall_mem_cons.mp hitems
      rw [evalItems]
      cases h with
      | cons hfirst hlater => exact (hitem hfirst).bind ((ih hrest hlater).map _)
      | fails hfirst => exact (hitem hfirst).bind_error

theorem cutOff_evalEntries {entries : List (String × Expr α)}
    (hvalues : ∀ e ∈ entries.map Prod.snd, ∀ {depth s s' events outcome},
      Evaluates host scope depth e s events outcome s' →
        CutOff (e.evalAt host.logged scope depth) s events outcome s')
    {depth : Nat} {s s' : σ} {events : List Event} {outcome : Except EvalError (List Value)}
    (h : EvaluatesAll host scope depth (entries.map Prod.snd) s events outcome s') :
    CutOff (evalEntries host.logged scope depth entries) s events
      (outcome.map fun values => (entries.map Prod.fst).zip values) s' := by
  induction entries generalizing s events outcome with
  | nil =>
      cases h
      rw [evalEntries]
      exact .of_pure []
  | cons entry entries ih =>
      obtain ⟨key, e⟩ := entry
      obtain ⟨hvalue, hrest⟩ := List.forall_mem_cons.mp hvalues
      rw [evalEntries]
      cases h with
      | @cons _ _ _ _ _ _ _ _ value outcome hfirst hlater =>
          have hmore := (ih hrest hlater).map fun values => (key, value) :: values
          have h := (hvalue hfirst).bind (f := fun value => do
            let values ← evalEntries host.logged scope depth entries
            return (key, value) :: values) hmore
          cases outcome <;> exact h
      | fails hfirst => exact (hvalue hfirst).bind_error

-- The evaluator does what the evaluation without a limit does, as long as no node is too deep.
theorem cutOff_evalAt (hhost : host.LeavesNesting) {depth : Nat} {e : Expr α} {s s' : σ} {events : List Event}
    {outcome : Except EvalError Value} (h : Evaluates host scope depth e s events outcome s') :
    CutOff (e.evalAt host.logged scope depth) s events outcome s' := by
  induction e using byParts generalizing depth s s' events outcome with
  | null | bool | number | string =>
      cases h
      rw [evalAt]
      exact (CutOff.of_pure _).within
  | array note items ih =>
      rw [evalAt]
      cases h with
      | array hitems => exact ((cutOff_evalItems ih hitems).map _).within
  | object note entries ih =>
      rw [evalAt]
      cases h with
      | @object _ _ _ _ _ _ outcome hvalues =>
          have h := (cutOff_evalEntries ih hvalues).map fun values => Value.object (Fields.ofList values)
          cases outcome <;> exact h.within
  | name note n =>
      rw [evalAt]
      cases h with
      | name hget =>
          rw [hget]
          exact (CutOff.of_pure _).within
      | undefined hget =>
          have hcause : EvalError.undefinedReference n ≠ .nestingTooDeep := nofun
          rw [hget]
          exact (CutOff.of_throw hcause).within
  | member note target key ih =>
      rw [evalAt]
      cases h with
      | member htarget =>
          exact ((ih htarget).except fun value => value.member_ne_nestingTooDeep key).within
  | index note target key ihtarget ihkey =>
      rw [evalAt]
      cases h with
      | @index _ _ _ _ _ _ _ _ _ value _ htarget hkey =>
          have h := (ihkey hkey).except value.element_ne_nestingTooDeep
          exact ((ihtarget htarget).bind h).within
      | indexFails htarget => exact (ihtarget htarget).bind_error.within
  | call note callee args ihcallee ihargs =>
      rw [evalAt]
      cases h with
      | call hcallee hcallable hargs happlies =>
          refine CutOff.within ((ihcallee hcallee).bind ?_)
          rw [hcallable]
          exact (cutOff_evalItems ihargs hargs).bind (cutOff_apply hhost happlies)
      | argsFail hcallee hcallable hargs =>
          refine CutOff.within ((ihcallee hcallee).bind ?_)
          rw [hcallable]
          exact (cutOff_evalItems ihargs hargs).bind_error
      | notCallable hcallee hcallable =>
          refine CutOff.within ((ihcallee hcallee).bind_silent ?_)
          rw [hcallable]
          exact .of_throw nofun
      | calleeFails hcallee => exact (ihcallee hcallee).bind_error.within
  | unary note op operand ih =>
      rw [evalAt]
      cases h with
      | unary hoperand => exact ((ih hoperand).map _).within
  | binary note op lhs rhs ihlhs ihrhs =>
      cases h with
      | andTrue hlhs htruth hrhs =>
          rw [evalAt]
          refine CutOff.within ((ihlhs hlhs).bind ?_)
          rw [if_pos htruth]
          exact ihrhs hrhs
      | andFalse hlhs htruth =>
          rw [evalAt]
          refine CutOff.within ((ihlhs hlhs).bind_silent ?_)
          rw [if_neg (Bool.eq_false_iff.mp htruth)]
          exact .of_pure _
      | orTrue hlhs htruth =>
          rw [evalAt]
          refine CutOff.within ((ihlhs hlhs).bind_silent ?_)
          rw [if_pos htruth]
          exact .of_pure _
      | orFalse hlhs htruth hrhs =>
          rw [evalAt]
          refine CutOff.within ((ihlhs hlhs).bind ?_)
          rw [if_neg (Bool.eq_false_iff.mp htruth)]
          exact ihrhs hrhs
      | binary hand hor hlhs hrhs =>
          rw [evalAt_binary host.logged scope depth note hand hor]
          exact ((ihlhs hlhs).bind ((ihrhs hrhs).map _)).within
      | binaryFails hlhs =>
          by_cases hand : op = .and
          · subst hand
            rw [evalAt]
            exact (ihlhs hlhs).bind_error.within
          · by_cases hor : op = .or
            · subst hor
              rw [evalAt]
              exact (ihlhs hlhs).bind_error.within
            · rw [evalAt_binary host.logged scope depth note hand hor]
              exact (ihlhs hlhs).bind_error.within
  | conditional note test yes no ihtest ihyes ihno =>
      rw [evalAt]
      cases h with
      | @conditional _ _ _ _ _ _ _ _ _ _ value _ htest hbranch =>
          refine CutOff.within ((ihtest htest).bind ?_)
          cases htruth : value.isTruthy with
          | true =>
              rw [htruth] at hbranch
              exact ihyes hbranch
          | false =>
              rw [htruth] at hbranch
              exact ihno hbranch
      | testFails htest => exact (ihtest htest).bind_error.within

-- Up to the limit an evaluation is the one without a limit. An expression that is too deep is evaluated just as
-- far as the first node beyond the limit that the evaluation comes to.
theorem eval_cut_off (host : Host σ) (scope : Fields Value) (e : Expr α) (s : σ) (hhost : host.LeavesNesting) :
    let run := (e.eval host scope).run.run s
    ∃ calls, (e.eval host.logged scope).run.run (s, []) = (run.1, run.2, calls) ∧
      (∃ events outcome s', Evaluates host scope 0 e s events outcome s') ∧
      ∀ events outcome s', Evaluates host scope 0 e s events outcome s' →
        (e.height ≤ maxNesting → run = (outcome, s') ∧ calls = hostCalls events) ∧
        (run = (outcome, s') ∧ calls = hostCalls events ∨ run.1 = .error .nestingTooDeep) ∧
        (run.1 = .error .nestingTooDeep ↔ ∃ depth, .node depth ∈ events ∧ maxNesting < depth) ∧
        calls <+: hostCalls events ∧
        ∀ before depth after, events = before ++ .node depth :: after → Shallow maxNesting before →
          maxNesting < depth → calls = hostCalls before := by
  intro run
  obtain ⟨calls, hcalls⟩ := Walker.extends_eval host scope e s []
  rw [List.nil_append] at hcalls
  refine ⟨calls, hcalls, exists_evaluates host scope 0 e s, fun events outcome s' h => ?_⟩
  have hcut := cutOff_evalAt hhost h
  have hshallow (hevents : Shallow maxNesting events) : run = (outcome, s') ∧ calls = hostCalls events := by
    obtain ⟨houtcome, hrest⟩ := Prod.mk.inj (hcalls.symm.trans (hcut.complete hevents []))
    obtain ⟨hstate, hlog⟩ := Prod.mk.inj hrest
    exact ⟨Prod.ext houtcome hstate, hlog⟩
  have hdeep (before depth after) (heq : events = before ++ .node depth :: after)
      (hbefore : Shallow maxNesting before) (hdepth : maxNesting < depth) :
      run.1 = .error .nestingTooDeep ∧ calls = hostCalls before := by
    obtain ⟨s₁, hrun⟩ := hcut.cut before depth after heq hbefore hdepth []
    obtain ⟨houtcome, hrest⟩ := Prod.mk.inj (hcalls.symm.trans hrun)
    exact ⟨houtcome, (Prod.mk.inj hrest).2⟩
  rcases shallow_or_exists_first maxNesting events with hevents | ⟨before, depth, after, rfl, hbefore, hdepth⟩
  · obtain ⟨hrun, hlog⟩ := hshallow hevents
    refine ⟨fun _ => ⟨hrun, hlog⟩, .inl ⟨hrun, hlog⟩, ?_, hlog ▸ List.prefix_rfl, ?_⟩
    · rw [hrun]
      refine iff_of_false hcut.genuine ?_
      rintro ⟨depth, hmem, hdepth⟩
      exact Nat.not_lt.mpr (hevents depth hmem) hdepth
    · rintro before depth after rfl - hdepth
      exact absurd hdepth (Nat.not_lt.mpr (hevents depth (List.mem_append_right _ List.mem_cons_self)))
  · obtain ⟨hrun, hlog⟩ := hdeep before depth after rfl hbefore hdepth
    have hmem : Event.node depth ∈ before ++ .node depth :: after := List.mem_append_right _ List.mem_cons_self
    refine ⟨fun hheight => ?_, .inr hrun, iff_of_true hrun ⟨depth, hmem, hdepth⟩, ?_,
      fun before depth after heq hbefore hdepth => (hdeep before depth after heq hbefore hdepth).2⟩
    · have hevents : Shallow maxNesting _ := shallow_of_evaluates (by rwa [Nat.zero_add]) h
      exact absurd hdepth (Nat.not_lt.mpr (hevents depth hmem))
    · rw [hlog, hostCalls_append]
      exact List.prefix_append _ _

end Expr

-- A host that keeps a tally of its calls.
def tallyHost : Host Nat where
  call _ _ _ calls := (.ok .null, calls + 1)

-- Many negations of null.
def negations : Nat → Expr Unit
  | 0 => .null ()
  | depth + 1 => .unary () .not (negations depth)

-- The second item is too deep, the third one is not evaluated.
def deepList : Expr Unit :=
  .array () [.call () (.name () "f") [], negations 256, .call () (.name () "f") []]

set_option maxRecDepth 20000 in
theorem eval_cut_off_of_deepList :
    tallyHost.LeavesNesting ∧
      (deepList.eval tallyHost [("f", .function (.external 0 "f"))]).run.run 0 = (.error .nestingTooDeep, 1) ∧
      ∃ events outcome s',
        Expr.Evaluates tallyHost [("f", .function (.external 0 "f"))] 0 deepList 0 events outcome s' ∧
        (∃ depth, .node depth ∈ events ∧ maxNesting < depth) ∧ [⟨0, "f", [], .ok .null⟩] <+: hostCalls events := by
  have hhost : tallyHost.LeavesNesting := fun _ _ _ _ => nofun
  have hrun : (deepList.eval tallyHost [("f", .function (.external 0 "f"))]).run.run 0 =
      (.error .nestingTooDeep, 1) := by rfl
  have hlogged : (deepList.eval tallyHost.logged [("f", .function (.external 0 "f"))]).run.run (0, []) =
      (.error .nestingTooDeep, 1, [⟨0, "f", [], .ok .null⟩]) := by rfl
  obtain ⟨calls, hcalls, ⟨events, outcome, s', h⟩, hall⟩ :=
    Expr.eval_cut_off tallyHost [("f", .function (.external 0 "f"))] deepList 0 hhost
  obtain ⟨-, -, hdeep, hprefix, -⟩ := hall events outcome s' h
  rw [hlogged] at hcalls
  cases (Prod.mk.inj (Prod.mk.inj hcalls).2).2
  exact ⟨hhost, hrun, events, outcome, s', h, hdeep.mp (congrArg Prod.fst hrun), hprefix⟩

end JsonTemplate
