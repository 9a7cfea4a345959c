import JsonTemplate.Proofs.Template.Observation
import Mathlib.Data.List.Lex
import Mathlib.Logic.Relation

namespace JsonTemplate

open Relation (ReflTransGen)

-- A slot of a template at one of its resolutions: the positions on the way to it from the root, the
-- levels that remain, and what stands in it then. The root counts as a slot with one level more.
structure Stage where
  place : List Nat
  levels : Nat
  node : Json

-- An evaluation and the stage at which it is made.
structure Visit where
  stage : Stage
  evaluation : Evaluation

namespace Stage

-- The stage of a construct. The root of a template is none, whatever its keys are.
inductive Is (construct : Construct) (entries : Fields Json) : Stage → Prop
  | intro {place : List Nat} {levels : Nat} (hplace : place ≠ [])
      (hdetect : Construct.detect? entries = some construct) :
      Is construct entries ⟨place, levels + 1, .object entries⟩

-- The nodes in the slots of a container.
def children : Stage → List Json
  | ⟨_, _ + 1, .array items⟩ => items
  | ⟨place, _ + 1, .object entries⟩ =>
      if place = [] ∨ Construct.detect? entries = none then entries.map Prod.snd else []
  | _ => []

-- The expression of a placeholder or the control expression of a construct.
inductive Asks (config : Config) : Stage → String → Prop
  | placeholder {place : List Nat} {levels : Nat} {leaf : String} {placeholder : Placeholder}
      (hfind : config.delimiters.find? leaf = some placeholder) :
      Asks config ⟨place, levels + 1, .string leaf⟩ (String.ofList placeholder.expression)
  | control {stage : Stage} {construct : Construct} {entries : Fields Json} {expression : String}
      (his : stage.Is construct entries) (hcontrol : entries.get? construct.key = some (.string expression)) :
      Asks config stage expression

theorem Is.unique {construct construct' : Construct} {entries entries' : Fields Json} {stage : Stage}
    (h : stage.Is construct entries) (h' : stage.Is construct' entries') :
    construct = construct' ∧ entries = entries' := by
  cases h with
  | intro _ hdetect =>
      cases h' with
      | intro _ hdetect' => exact ⟨Option.some.inj (hdetect.symm.trans hdetect'), rfl⟩

theorem Asks.unique {config : Config} {stage : Stage} {source source' : String} (h : stage.Asks config source)
    (h' : stage.Asks config source') : source = source' := by
  cases h with
  | placeholder hfind =>
      cases h' with
      | placeholder hfind' => rw [Option.some.inj (hfind.symm.trans hfind')]
      | control his => cases his
  | control his hcontrol =>
      cases h' with
      | placeholder => cases his
      | control his' hcontrol' =>
          obtain ⟨rfl, rfl⟩ := his.unique his'
          exact Json.string.inj (Option.some.inj (hcontrol.symm.trans hcontrol'))

-- From a container to its slots in their order, and from a construct to what it was found to stand for.
inductive Next (visits : List Visit) : Stage → Stage → Prop
  | child {stage : Stage} {position : Nat} {node : Json} (h : stage.children[position]? = some node) :
      Next visits stage ⟨stage.place ++ [position], stage.levels - 1, node⟩
  | replacement {stage : Stage} {construct : Construct} {entries : Fields Json} {source : String}
      {value : Value} {node : Json} (his : stage.Is construct entries)
      (hvisit : ⟨stage, source, .ok value⟩ ∈ visits)
      (hselect : construct.select entries value = .ok (some node)) :
      Next visits stage ⟨stage.place, stage.levels - 1, node⟩

-- The resolution of the slot itself fails.
inductive Failing (config : Config) (visits : List Visit) : Stage → Prop
  | tooDeep {place : List Nat} {node : Json} : Failing config visits ⟨place, 0, node⟩
  | invalid {stage : Stage} {construct : Construct} {entries : Fields Json} (his : stage.Is construct entries)
      (hcontrol : ∀ expression, entries.get? construct.key ≠ some (.string expression)) :
      Failing config visits stage
  | refused {stage : Stage} {source : String} {cause : EvalError}
      (hvisit : ⟨stage, source, .error cause⟩ ∈ visits) : Failing config visits stage
  | unselected {stage : Stage} {construct : Construct} {entries : Fields Json} {source : String} {value : Value}
      {cause : EvalError} (his : stage.Is construct entries) (hvisit : ⟨stage, source, .ok value⟩ ∈ visits)
      (hselect : construct.select entries value = .error cause) : Failing config visits stage
  | untyped {place : List Nat} {levels : Nat} {leaf source : String} {placeholder : Placeholder} {value : Value}
      {cause : EvalError} (hfind : config.delimiters.find? leaf = some placeholder)
      (hvisit : ⟨⟨place, levels + 1, .string leaf⟩, source, .ok value⟩ ∈ visits)
      (hwhole : (config.preserveWholeLeafTypes && placeholder.isWhole) = true)
      (hjson : value.toJson = .error cause) : Failing config visits ⟨place, levels + 1, .string leaf⟩

-- In document order, and earlier resolutions of a slot before later ones.
def Before (stage other : Stage) : Prop :=
  stage.place < other.place ∨ stage.place = other.place ∧ other.levels < stage.levels

theorem before_irrefl (stage : Stage) : ¬stage.Before stage := by
  rintro (hplace | ⟨-, hlevels⟩)
  · exact lt_irrefl _ hplace
  · exact lt_irrefl _ hlevels

theorem Before.asymm {stage other : Stage} (h : stage.Before other) : ¬other.Before stage := by
  rintro (hplace' | ⟨heq', hlevels'⟩) <;> rcases h with hplace | ⟨heq, hlevels⟩
  · exact lt_asymm hplace hplace'
  · exact lt_irrefl _ (heq ▸ hplace')
  · exact lt_irrefl _ (heq' ▸ hplace)
  · exact lt_asymm hlevels hlevels'

-- A stage of the slot or of one within it, with no more levels.
def Below (start stage : Stage) : Prop := start.place <+: stage.place ∧ stage.levels ≤ start.levels

theorem below_refl (stage : Stage) : stage.Below stage := ⟨List.prefix_rfl, le_rfl⟩

theorem Below.trans {a b c : Stage} (h : a.Below b) (h' : b.Below c) : a.Below c :=
  ⟨h.1.trans h'.1, h'.2.trans h.2⟩

theorem Next.below {visits : List Visit} {stage other : Stage} (h : Next visits stage other) :
    stage.Below other := by
  cases h with
  | child => exact ⟨List.prefix_append _ _, Nat.sub_le _ _⟩
  | replacement => exact ⟨List.prefix_rfl, Nat.sub_le _ _⟩

-- The whole resolution of one slot is before that of another one.
def Precedes (start other : Stage) : Prop :=
  ∀ stage later, start.Below stage → other.Below later → stage.Before later

theorem precedes_of_position_lt {place : List Nat} {position later : Nat} (h : position < later)
    (levels levels' : Nat) (node node' : Json) :
    Precedes ⟨place ++ [position], levels, node⟩ ⟨place ++ [later], levels', node'⟩ := by
  rintro ⟨_, _, _⟩ ⟨_, _, _⟩ ⟨⟨rest, rfl⟩, -⟩ ⟨⟨rest', rfl⟩, -⟩
  refine .inl ?_
  rw [List.append_assoc, List.append_assoc]
  exact List.append_left_lt (List.cons_lt_cons_iff.mpr (.inl h))

-- A slot is before those within it, and before what takes its place.
theorem before_of_below {start other stage : Stage} (hplace : start.place <+: other.place)
    (hlevels : other.levels < start.levels) (h : other.Below stage) : start.Before stage := by
  obtain ⟨rest, hrest⟩ := hplace.trans h.1
  cases rest with
  | nil => exact .inr ⟨by rw [← hrest, List.append_nil], h.2.trans_lt hlevels⟩
  | cons position rest =>
      have hlt : start.place ++ [] < start.place ++ position :: rest :=
        List.append_left_lt (List.nil_lt_cons position rest)
      rw [hrest, List.append_nil] at hlt
      exact .inl hlt

-- The walk comes to a stage from one of some stages.
def Reached (visits : List Visit) (starts : List Stage) (stage : Stage) : Prop :=
  ∃ start ∈ starts, ReflTransGen (Next visits) start stage

-- The stage is below one of some stages.
def Within (starts : List Stage) (stage : Stage) : Prop := ∃ start ∈ starts, start.Below stage

variable {config : Config} {visits others : List Visit} {starts more : List Stage} {start stage : Stage}

theorem Within.before {other : Stage} (hbefore : ∀ start ∈ starts, ∀ other ∈ more, start.Precedes other)
    (hstage : Within starts stage) (hother : Within more other) : stage.Before other := by
  obtain ⟨start, hmem, hbelow⟩ := hstage
  obtain ⟨start', hmem', hbelow'⟩ := hother
  exact hbefore start hmem start' hmem' stage other hbelow hbelow'

theorem below_of_reflTransGen (h : ReflTransGen (Next visits) start stage) : start.Below stage := by
  induction h with
  | refl => exact below_refl _
  | tail _ hnext ih => exact ih.trans hnext.below

theorem Reached.within (h : Reached visits starts stage) : Within starts stage := by
  obtain ⟨start, hmem, hsteps⟩ := h
  exact ⟨start, hmem, below_of_reflTransGen hsteps⟩

theorem reached_of_mem (h : stage ∈ starts) : Reached visits starts stage := ⟨stage, h, .refl⟩

-- What the walk does at a stage depends on the visits of this stage only.
def Covers (others : List Visit) (visits : List Visit) (stage : Stage) : Prop :=
  ∀ evaluation, ⟨stage, evaluation⟩ ∈ visits → ⟨stage, evaluation⟩ ∈ others

theorem Next.transfer {other : Stage} (hcovers : Covers others visits stage) (h : Next visits stage other) :
    Next others stage other := by
  cases h with
  | child hchild => exact .child hchild
  | replacement his hvisit hselect => exact .replacement his (hcovers _ hvisit) hselect

theorem Failing.transfer (hcovers : Covers others visits stage) (h : Failing config visits stage) :
    Failing config others stage := by
  cases h with
  | tooDeep => exact .tooDeep
  | invalid his hcontrol => exact .invalid his hcontrol
  | refused hvisit => exact .refused (hcovers _ hvisit)
  | unselected his hvisit hselect => exact .unselected his (hcovers _ hvisit) hselect
  | untyped hfind hvisit hwhole hjson => exact .untyped hfind (hcovers _ hvisit) hwhole hjson

theorem Reached.transfer (hcovers : ∀ stage, Within starts stage → Covers others visits stage)
    (h : Reached visits starts stage) : Reached others starts stage := by
  obtain ⟨start, hmem, hsteps⟩ := h
  refine ⟨start, hmem, ?_⟩
  induction hsteps with
  | refl => exact .refl
  | tail hsteps hnext ih =>
      exact ih.tail (hnext.transfer (hcovers _ ⟨start, hmem, below_of_reflTransGen hsteps⟩))

theorem reached_append_iff :
    Reached visits (starts ++ more) stage ↔ Reached visits starts stage ∨ Reached visits more stage := by
  simp only [Reached, List.mem_append, or_and_right, exists_or]

-- What is reached from stages whose visits are apart.
theorem reached_append_append_iff {later : List Visit}
    (hvisits : ∀ visit ∈ visits, Within starts visit.stage) (hlater : ∀ visit ∈ later, Within more visit.stage)
    (hbefore : ∀ start ∈ starts, ∀ other ∈ more, start.Precedes other) :
    Reached (visits ++ later) (starts ++ more) stage ↔
      Reached visits starts stage ∨ Reached later more stage := by
  rw [reached_append_iff]
  refine or_congr ⟨.transfer ?_, .transfer ?_⟩ ⟨.transfer ?_, .transfer ?_⟩
  · intro stage hstage evaluation hmem
    refine (List.mem_append.mp hmem).resolve_right fun hmem => ?_
    exact before_irrefl _ (hstage.before hbefore (hlater _ hmem))
  · exact fun _ _ _ => List.mem_append_left _
  · intro stage hstage evaluation hmem
    refine (List.mem_append.mp hmem).resolve_left fun hmem => ?_
    exact before_irrefl _ ((hvisits _ hmem).before hbefore hstage)
  · exact fun _ _ _ => List.mem_append_right _

-- What is reached from a stage whose visits decide where it leads.
theorem reached_singleton_iff {own later : List Visit} (hown : ∀ visit ∈ own, visit.stage = start)
    (hlater : ∀ visit ∈ later, Within starts visit.stage)
    (hbefore : ∀ stage, Within starts stage → start.Before stage)
    (hnext : ∀ other, Next own start other ↔ other ∈ starts) :
    Reached (own ++ later) [start] stage ↔ stage = start ∨ Reached later starts stage := by
  have hstart : Covers own (own ++ later) start := by
    intro evaluation hmem
    refine (List.mem_append.mp hmem).resolve_right fun hmem => ?_
    exact before_irrefl _ (hbefore _ (hlater _ hmem))
  have hnext' (other : Stage) : Next (own ++ later) start other ↔ other ∈ starts :=
    ⟨fun h => (hnext other).mp (h.transfer hstart),
      fun h => ((hnext other).mpr h).transfer fun _ => List.mem_append_left _⟩
  have hsteps : Reached (own ++ later) [start] stage ↔
      stage = start ∨ Reached (own ++ later) starts stage := by
    simp only [Reached, List.mem_singleton, exists_eq_left]
    rw [Relation.ReflTransGen.cases_head_iff, eq_comm]
    simp only [hnext']
  rw [hsteps]
  refine or_congr_right ⟨.transfer ?_, .transfer fun _ _ _ => List.mem_append_right _⟩
  intro stage hstage evaluation hmem
  refine (List.mem_append.mp hmem).resolve_left fun hmem => ?_
  have heq : stage = start := hown _ hmem
  exact before_irrefl _ (heq ▸ hbefore _ hstage)

end Stage

end JsonTemplate
