import JsonTemplate.Proofs.Template.Stages
import JsonTemplate.Proofs.Template.Steps

namespace JsonTemplate.Walker

open Stage

variable {σ : Type}

-- Evaluations one after the other, each in the state that the one before it has left.
inductive Performs (walker : Walker σ) : σ → List Visit → σ → Prop
  | nil {s : σ} : Performs walker s [] s
  | cons {visit : Visit} {visits : List Visit} {s s₁ s' : σ}
      (heval : (walker.evaluate visit.evaluation.source).run.run s = (visit.evaluation.outcome, s₁))
      (hrest : Performs walker s₁ visits s') : Performs walker s (visit :: visits) s'

theorem Performs.append {walker : Walker σ} {visits more : List Visit} {s s₁ s' : σ}
    (h : walker.Performs s visits s₁) (hmore : walker.Performs s₁ more s') :
    walker.Performs s (visits ++ more) s' := by
  induction h with
  | nil => exact hmore
  | cons heval _ ih => exact .cons heval (ih hmore)

-- The visits that a walk makes to some stages, and how it ends.
structure Tour (walker : Walker σ) (stages : Stage → Prop) (s : σ) (visits : List Visit)
    (failure : Option RenderError) (s' : σ) : Prop where
  performs : walker.Performs s visits s'
  -- Visits are in document order. No stage has two of them.
  ordered : visits.Pairwise fun visit later => visit.stage.Before later.stage
  asked : ∀ visit ∈ visits, stages visit.stage ∧ visit.stage.Asks walker.config visit.evaluation.source
  -- An expression is evaluated unless the walk has failed before.
  complete : ∀ stage source, stages stage → stage.Asks walker.config source →
    (∃ visit ∈ visits, visit.stage = stage ∧ visit.evaluation.source = source) ∨
      ∃ failing, stages failing ∧ Failing walker.config visits failing ∧ failing.Before stage
  halted : ∀ failing, stages failing → Failing walker.config visits failing →
    ∀ visit ∈ visits, ¬failing.Before visit.stage
  fails_iff : failure ≠ none ↔ ∃ failing, stages failing ∧ Failing walker.config visits failing

namespace Tour

variable {walker : Walker σ} {stages more : Stage → Prop} {visits later : List Visit}
  {failure : Option RenderError} {s s₁ s' : σ}

theorem congr (h : walker.Tour stages s visits failure s') (hiff : ∀ stage, stages stage ↔ more stage) :
    walker.Tour more s visits failure s' := by
  rwa [← funext fun stage => propext (hiff stage)]

theorem nil : walker.Tour (fun _ => False) s [] none s where
  performs := .nil
  ordered := .nil
  asked := by simp
  complete := by simp
  halted := by simp
  fails_iff := by simp

-- A single stage with or without an expression.
theorem visit {stage : Stage} {source : String} {outcome : Except EvalError Value}
    (hasks : stage.Asks walker.config source) (heval : (walker.evaluate source).run.run s = (outcome, s'))
    (hfails : failure ≠ none ↔ Failing walker.config [⟨stage, source, outcome⟩] stage) :
    walker.Tour (· = stage) s [⟨stage, source, outcome⟩] failure s' where
  performs := .cons heval .nil
  ordered := List.pairwise_singleton _ _
  asked := by simpa using hasks
  complete := by
    rintro _ source' rfl hasks'
    exact .inl ⟨_, List.mem_singleton_self _, rfl, hasks.unique hasks'⟩
  halted := by
    rintro _ rfl - visit hmem
    cases List.mem_singleton.mp hmem
    exact before_irrefl _
  fails_iff := by simpa using hfails

theorem silent {stage : Stage} (hasks : ∀ source, ¬stage.Asks walker.config source)
    (hfails : failure ≠ none ↔ Failing walker.config [] stage) : walker.Tour (· = stage) s [] failure s where
  performs := .nil
  ordered := .nil
  asked := by simp
  complete := by
    rintro _ source rfl h
    exact absurd h (hasks source)
  halted := by simp
  fails_iff := by simpa using hfails

-- After a failure the walk does not go on.
theorem halt {error : RenderError} (h : walker.Tour stages s visits (some error) s')
    (hbefore : ∀ stage other, stages stage → more other → stage.Before other) :
    walker.Tour (fun stage => stages stage ∨ more stage) s visits (some error) s' := by
  obtain ⟨failing, hfound, hfailing⟩ := h.fails_iff.mp nofun
  exact {
    performs := h.performs
    ordered := h.ordered
    asked := fun visit hmem => (h.asked visit hmem).imp_left .inl
    complete := by
      rintro stage source (hstage | hstage) hasks
      · refine (h.complete stage source hstage hasks).imp_right ?_
        rintro ⟨failing, hfound, hfails, hlt⟩
        exact ⟨failing, .inl hfound, hfails, hlt⟩
      · exact .inr ⟨failing, .inl hfound, hfailing, hbefore failing stage hfound hstage⟩
    halted := by
      rintro failing (hfound | hfound) hfails visit hmem
      · exact h.halted failing hfound hfails visit hmem
      · exact (hbefore _ _ (h.asked visit hmem).1 hfound).asymm
    fails_iff := iff_of_true nofun ⟨failing, .inl hfound, hfailing⟩ }

-- Stages are toured one group after the other.
theorem append (h : walker.Tour stages s visits none s₁) (hlater : walker.Tour more s₁ later failure s')
    (hbefore : ∀ stage other, stages stage → more other → stage.Before other) :
    walker.Tour (fun stage => stages stage ∨ more stage) s (visits ++ later) failure s' := by
  -- The visits of one group are no visits of the other.
  have hfirst {stage : Stage} (hstage : stages stage) : Covers visits (visits ++ later) stage := by
    intro evaluation hmem
    refine (List.mem_append.mp hmem).resolve_right fun hmem => ?_
    exact before_irrefl _ (hbefore _ _ hstage (hlater.asked _ hmem).1)
  have hsecond {stage : Stage} (hstage : more stage) : Covers later (visits ++ later) stage := by
    intro evaluation hmem
    refine (List.mem_append.mp hmem).resolve_left fun hmem => ?_
    exact before_irrefl _ (hbefore _ _ (h.asked _ hmem).1 hstage)
  have hright (stage : Stage) : Covers (visits ++ later) later stage := fun _ => List.mem_append_right _
  have hnone {failing : Stage} (hfound : stages failing) : ¬Failing walker.config (visits ++ later) failing :=
    fun hfails => h.fails_iff.mpr ⟨failing, hfound, hfails.transfer (hfirst hfound)⟩ rfl
  exact {
    performs := h.performs.append hlater.performs
    ordered := List.pairwise_append.mpr ⟨h.ordered, hlater.ordered, fun visit hmem visit' hmem' =>
      hbefore _ _ (h.asked visit hmem).1 (hlater.asked visit' hmem').1⟩
    asked := by
      intro visit hmem
      rcases List.mem_append.mp hmem with hmem | hmem
      · exact (h.asked visit hmem).imp_left .inl
      · exact (hlater.asked visit hmem).imp_left .inr
    complete := by
      rintro stage source (hstage | hstage) hasks
      · rcases h.complete stage source hstage hasks with ⟨visit, hmem, heq⟩ | ⟨failing, hfound, hfails, -⟩
        · exact .inl ⟨visit, List.mem_append_left _ hmem, heq⟩
        · exact absurd rfl (h.fails_iff.mpr ⟨failing, hfound, hfails⟩)
      · rcases hlater.complete stage source hstage hasks with
          ⟨visit, hmem, heq⟩ | ⟨failing, hfound, hfails, hlt⟩
        · exact .inl ⟨visit, List.mem_append_right _ hmem, heq⟩
        · exact .inr ⟨failing, .inr hfound, hfails.transfer (hright failing), hlt⟩
    halted := by
      rintro failing (hfound | hfound) hfails visit hmem
      · exact absurd hfails (hnone hfound)
      · rcases List.mem_append.mp hmem with hmem | hmem
        · exact (hbefore _ _ (h.asked visit hmem).1 hfound).asymm
        · exact hlater.halted failing hfound (hfails.transfer (hsecond hfound)) visit hmem
    fails_iff := by
      rw [hlater.fails_iff]
      constructor
      · rintro ⟨failing, hfound, hfails⟩
        exact ⟨failing, .inr hfound, hfails.transfer (hright failing)⟩
      · rintro ⟨failing, hfound | hfound, hfails⟩
        · exact absurd hfails (hnone hfound)
        · exact ⟨failing, hfound, hfails.transfer (hsecond hfound)⟩ }

end Tour

-- The visits of all stages that the walk comes to from some stages.
def TourFrom (walker : Walker σ) (starts : List Stage) (s : σ) (visits : List Visit)
    (failure : Option RenderError) (s' : σ) : Prop :=
  walker.Tour (Reached visits starts) s visits failure s'

namespace TourFrom

variable {walker : Walker σ} {starts more : List Stage} {visits later : List Visit}
  {failure : Option RenderError} {s s₁ s' : σ}

theorem within (h : walker.TourFrom starts s visits failure s') {visit : Visit} (hmem : visit ∈ visits) :
    Within starts visit.stage :=
  (h.asked visit hmem).1.within

theorem nil : walker.TourFrom [] s [] none s :=
  Tour.nil.congr fun stage => by simp [Reached]

theorem halt {error : RenderError} (h : walker.TourFrom starts s visits (some error) s')
    (hbefore : ∀ start ∈ starts, ∀ other ∈ more, start.Precedes other) :
    walker.TourFrom (starts ++ more) s visits (some error) s' :=
  (Tour.halt h fun _ _ hstage hother => hstage.within.before hbefore hother.within).congr
    fun _ => reached_append_iff.symm

theorem append (h : walker.TourFrom starts s visits none s₁) (hlater : walker.TourFrom more s₁ later failure s')
    (hbefore : ∀ start ∈ starts, ∀ other ∈ more, start.Precedes other) :
    walker.TourFrom (starts ++ more) s (visits ++ later) failure s' :=
  (Tour.append h hlater fun _ _ hstage hother => hstage.within.before hbefore hother.within).congr
    fun _ => (reached_append_append_iff (fun _ => h.within) (fun _ => hlater.within) hbefore).symm

-- A stage at which the walk ends.
theorem last {start : Stage} (h : walker.Tour (· = start) s visits failure s')
    (hnext : ∀ other, ¬Next visits start other) : walker.TourFrom [start] s visits failure s' := by
  refine h.congr fun stage => ⟨fun heq => reached_of_mem (List.mem_singleton.mpr heq), ?_⟩
  rintro ⟨_, hmem, hsteps⟩
  cases List.mem_singleton.mp hmem
  rcases hsteps.cases_head with rfl | ⟨other, hfirst, -⟩
  · rfl
  · exact absurd hfirst (hnext other)

-- A stage from which the walk goes on to others.
theorem step {start : Stage} (h : walker.Tour (· = start) s visits none s₁)
    (hnext : ∀ other, Next visits start other ↔ other ∈ starts)
    (hafter : ∀ other ∈ starts, start.place <+: other.place ∧ other.levels < start.levels)
    (hlater : walker.TourFrom starts s₁ later failure s') :
    walker.TourFrom [start] s (visits ++ later) failure s' := by
  have hbefore (stage : Stage) (hstage : Within starts stage) : start.Before stage := by
    obtain ⟨other, hmem, hbelow⟩ := hstage
    exact before_of_below (hafter other hmem).1 (hafter other hmem).2 hbelow
  have hown (visit : Visit) (hmem : visit ∈ visits) : visit.stage = start := (h.asked visit hmem).1
  refine (Tour.append h hlater ?_).congr fun _ =>
    (reached_singleton_iff hown (fun _ => hlater.within) hbefore hnext).symm
  rintro _ other rfl hother
  exact hbefore other hother.within

end TourFrom

end JsonTemplate.Walker
