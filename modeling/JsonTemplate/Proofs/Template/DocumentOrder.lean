import JsonTemplate.Proofs.Template.Tour

namespace JsonTemplate.Walker

open Stage

variable {σ : Type} {walker : Walker σ} {levels : Nat}

-- The resolution of the slots of a container, up to the first failure.
inductive Turns (walker : Walker σ) (levels : Nat) : List Json → σ → Option RenderError → σ → Prop
  | nil {s : σ} : Turns walker levels [] s none s
  | failed {path : Json.Pointer} {child node : Json} {rest : List Json} {error : RenderError} {s s' : σ}
      (hslot : (walker.resolveSlot levels path child).run s = (⟨node, .error error⟩, s')) :
      Turns walker levels (child :: rest) s (some error) s'
  | passed {path : Json.Pointer} {child node : Json} {presence : Presence} {rest : List Json}
      {failure : Option RenderError} {s s₁ s' : σ}
      (hslot : (walker.resolveSlot levels path child).run s = (⟨node, .ok presence⟩, s₁))
      (hrest : Turns walker levels rest s₁ failure s') : Turns walker levels (child :: rest) s failure s'

section

variable {path : Json.Pointer} {failure : Option RenderError} {s s' : σ}

theorem turns_of_walkEntries {entries : List (String × Json)} {slots : List (String × Json × Presence)}
    (h : (walkEntries (walker.resolveSlot levels) path entries).run s = ((slots, failure), s')) :
    walker.Turns levels (entries.map Prod.snd) s failure s' := by
  induction entries generalizing slots s with
  | nil => cases h; exact .nil
  | cons entry rest ih =>
      obtain ⟨key, child⟩ := entry
      rcases hslot : (walker.resolveSlot levels (path.child key) child).run s with ⟨⟨node, outcome⟩, s₁⟩
      cases outcome with
      | error error =>
          rw [walkEntries_of_error _ path rest hslot] at h
          cases h
          exact .failed hslot
      | ok presence =>
          rcases hrest : (walkEntries (walker.resolveSlot levels) path rest).run s₁ with ⟨⟨others, found⟩, s₂⟩
          rw [walkEntries_of_ok _ path hslot hrest] at h
          cases h
          exact .passed hslot (ih hrest)

theorem turns_of_walkItems {position : Nat} {items nodes : List Json}
    (h : (walkItems (walker.resolveSlot levels) path position items).run s = ((nodes, failure), s')) :
    walker.Turns levels items s failure s' := by
  induction items generalizing position nodes s with
  | nil => cases h; exact .nil
  | cons child rest ih =>
      rcases hslot : (walker.resolveSlot levels (path.item position) child).run s with ⟨⟨node, outcome⟩, s₁⟩
      cases outcome with
      | error error =>
          rw [walkItems_of_error _ path rest hslot] at h
          cases h
          exact .failed hslot
      | ok presence =>
          rcases hrest : (walkItems (walker.resolveSlot levels) path (position + 1) rest).run s₁ with
            ⟨⟨others, found⟩, s₂⟩
          rw [walkItems_of_ok _ path hslot hrest] at h
          cases h
          exact .passed hslot (ih hrest)

theorem turns_of_walkObject {entries : List (String × Json)} {slot : Slot}
    (h : (walkObject (walker.resolveSlot levels) path entries).run s = (slot, s')) :
    walker.Turns levels (entries.map Prod.snd) s (failure? slot.outcome) s' := by
  rcases hrun : (walkEntries (walker.resolveSlot levels) path entries).run s with ⟨⟨slots, failure⟩, s₁⟩
  have hturns := turns_of_walkEntries hrun
  cases failure with
  | none => rw [walkObject_of_ok hrun] at h; cases h; exact hturns
  | some error => rw [walkObject_of_error hrun] at h; cases h; exact hturns

theorem turns_of_walkArray {items : List Json} {slot : Slot}
    (h : (walkArray (walker.resolveSlot levels) path items).run s = (slot, s')) :
    walker.Turns levels items s (failure? slot.outcome) s' := by
  rcases hrun : (walkItems (walker.resolveSlot levels) path 0 items).run s with ⟨⟨nodes, failure⟩, s₁⟩
  have hturns := turns_of_walkItems hrun
  cases failure with
  | none => rw [walkArray_of_ok hrun] at h; cases h; exact hturns
  | some error => rw [walkArray_of_error hrun] at h; cases h; exact hturns

end

-- The stages of children at a place, from a position on.
def stagesOf (place : List Nat) (levels position : Nat) (children : List Json) : List Stage :=
  (children.zipIdx position).map fun child => ⟨place ++ [child.2], levels, child.1⟩

theorem precedes_stagesOf (place : List Nat) (levels position : Nat) (node : Json) (children : List Json) :
    ∀ start ∈ [(⟨place ++ [position], levels, node⟩ : Stage)],
      ∀ other ∈ stagesOf place levels (position + 1) children, start.Precedes other := by
  intro start hstart other hother
  cases List.mem_singleton.mp hstart
  obtain ⟨⟨child, later⟩, hmem, rfl⟩ := List.mem_map.mp hother
  exact precedes_of_position_lt (List.mem_zipIdx hmem).1 _ _ _ _

-- The walk can be toured from every slot within a number of levels.
def Toured (walker : Walker σ) (levels : Nat) : Prop :=
  ∀ path node slot s s' (place : List Nat), place ≠ [] →
    (walker.resolveSlot levels path node).run s = (slot, s') →
    ∃ visits, walker.TourFrom [⟨place, levels, node⟩] s visits (failure? slot.outcome) s'

theorem exists_tourFrom_of_turns (hslot : walker.Toured levels) (place : List Nat) (position : Nat)
    {children : List Json} {failure : Option RenderError} {s s' : σ}
    (h : walker.Turns levels children s failure s') :
    ∃ visits, walker.TourFrom (stagesOf place levels position children) s visits failure s' := by
  induction h generalizing position with
  | nil => exact ⟨[], .nil⟩
  | @failed _ child _ rest _ _ _ hrun =>
      obtain ⟨visits, hvisits⟩ := hslot _ _ _ _ _ (place ++ [position]) (by simp) hrun
      exact ⟨visits, hvisits.halt (precedes_stagesOf place levels position child rest)⟩
  | @passed _ child _ _ rest _ _ _ _ hrun _ ih =>
      obtain ⟨visits, hvisits⟩ := hslot _ _ _ _ _ (place ++ [position]) (by simp) hrun
      obtain ⟨later, hlater⟩ := ih (position + 1)
      exact ⟨visits ++ later, hvisits.append hlater (precedes_stagesOf place levels position child rest)⟩

section

variable {place : List Nat} {node : Json} {failure : Option RenderError} {s s' : σ}

theorem next_iff_mem_stagesOf {visits : List Visit} {other : Stage}
    (his : ∀ construct entries, ¬Stage.Is construct entries ⟨place, levels + 1, node⟩) :
    Next visits ⟨place, levels + 1, node⟩ other ↔
      other ∈ stagesOf place levels 0 (children ⟨place, levels + 1, node⟩) := by
  rw [stagesOf, List.mem_map]
  constructor
  · intro h
    cases h with
    | @child position child hchild => exact ⟨(child, position), List.mem_zipIdx_iff_getElem?.mpr hchild, rfl⟩
    | replacement his' => exact absurd his' (his _ _)
  · rintro ⟨⟨child, position⟩, hmem, rfl⟩
    exact .child (List.mem_zipIdx_iff_getElem?.mp hmem)

-- A slot without an expression leads to its children.
theorem exists_tourFrom_of_silent (hslot : walker.Toured levels)
    (hleaf : ∀ leaf, node = .string leaf → walker.config.delimiters.find? leaf = none)
    (his : ∀ construct entries, ¬Stage.Is construct entries ⟨place, levels + 1, node⟩)
    (h : walker.Turns levels (children ⟨place, levels + 1, node⟩) s failure s') :
    ∃ visits, walker.TourFrom [⟨place, levels + 1, node⟩] s visits failure s' := by
  have hasks (source : String) : ¬Stage.Asks walker.config ⟨place, levels + 1, node⟩ source := by
    intro hasks
    cases hasks with
    | placeholder hfind =>
        rw [hleaf _ rfl] at hfind
        cases hfind
    | control his' => exact his _ _ his'
  have hfailing : ¬Failing walker.config [] ⟨place, levels + 1, node⟩ := by
    intro hfailing
    cases hfailing with
    | invalid his' | unselected his' => exact his _ _ his'
    | refused hvisit | untyped _ hvisit => cases hvisit
  obtain ⟨later, hlater⟩ := exists_tourFrom_of_turns hslot place 0 h
  refine ⟨later, .step (.silent hasks (iff_of_false (fun h => h rfl) hfailing)) ?_ ?_ hlater⟩
  · exact fun _ => next_iff_mem_stagesOf his
  · intro other hmem
    obtain ⟨child, -, rfl⟩ := List.mem_map.mp hmem
    exact ⟨List.prefix_append _ _, Nat.lt_succ_self _⟩

end

-- A value that the walker places into a template is no failure.
theorem not_failing_of_value {stage : Stage} {source : String} {value : Value}
    (his : ∀ construct entries, stage.Is construct entries →
      (∃ expression, entries.get? construct.key = some (.string expression)) ∧
        ∃ chosen, construct.select entries value = .ok chosen)
    (htyped : ∀ place levels leaf placeholder, stage = ⟨place, levels + 1, .string leaf⟩ →
      walker.config.delimiters.find? leaf = some placeholder →
      (walker.config.preserveWholeLeafTypes && placeholder.isWhole) = true → ∃ json, value.toJson = .ok json)
    (hlevels : stage.levels ≠ 0) : ¬Failing walker.config [⟨stage, source, .ok value⟩] stage := by
  intro hfailing
  cases hfailing with
  | tooDeep => exact hlevels rfl
  | invalid his' hcontrol =>
      obtain ⟨expression, hget⟩ := (his _ _ his').1
      exact hcontrol expression hget
  | refused hvisit => cases List.mem_singleton.mp hvisit
  | unselected his' hvisit hselect =>
      cases List.mem_singleton.mp hvisit
      obtain ⟨chosen, hchosen⟩ := (his _ _ his').2
      rw [hselect] at hchosen
      cases hchosen
  | untyped hfind hvisit hwhole hjson =>
      cases List.mem_singleton.mp hvisit
      obtain ⟨json, hok⟩ := htyped _ _ _ _ rfl hfind hwhole
      rw [hjson] at hok
      cases hok

section

variable {path : Json.Pointer} {place : List Nat} {slot : Slot} {s s' : σ}

theorem not_is_string {leaf : String} {construct : Construct} {entries : Fields Json} :
    ¬Stage.Is construct entries ⟨place, levels + 1, .string leaf⟩ := nofun

theorem exists_tourFrom_of_substitute {leaf : String} (hslot : walker.Toured levels)
    (h : (walker.substitute path leaf).run s = (slot, s')) :
    ∃ visits, walker.TourFrom [⟨place, levels + 1, .string leaf⟩] s visits (failure? slot.outcome) s' := by
  have hnext (visits : List Visit) (other : Stage) : ¬Next visits ⟨place, levels + 1, .string leaf⟩ other := by
    rw [next_iff_mem_stagesOf fun _ _ => not_is_string]
    exact List.not_mem_nil
  cases substitute_step h with
  | plain hfind =>
      refine exists_tourFrom_of_silent hslot ?_ (fun _ _ => not_is_string) .nil
      rintro _ ⟨⟩
      exact hfind
  | refused hfind heval =>
      refine ⟨_, .last (.visit (.placeholder hfind) heval (iff_of_true nofun ?_)) (hnext _)⟩
      exact .refused (List.mem_singleton_self _)
  | typed hfind heval hwhole hjson =>
      refine ⟨_, .last (.visit (.placeholder hfind) heval (iff_of_false (fun h => h rfl) ?_)) (hnext _)⟩
      refine not_failing_of_value (fun _ _ his => absurd his not_is_string) ?_ (Nat.succ_ne_zero _)
      exact fun _ _ _ _ _ _ _ => ⟨_, hjson⟩
  | untyped hfind heval hwhole hjson =>
      refine ⟨_, .last (.visit (.placeholder hfind) heval (iff_of_true nofun ?_)) (hnext _)⟩
      exact .untyped hfind (List.mem_singleton_self _) hwhole hjson
  | spliced hfind heval hwhole =>
      refine ⟨_, .last (.visit (.placeholder hfind) heval (iff_of_false (fun h => h rfl) ?_)) (hnext _)⟩
      refine not_failing_of_value (fun _ _ his => absurd his not_is_string) ?_ (Nat.succ_ne_zero _)
      intro place levels leaf placeholder hstage hfind' hwhole'
      cases hstage
      cases hfind.symm.trans hfind'
      rw [hwhole] at hwhole'
      cases hwhole'

theorem exists_tourFrom_of_walkArray {items : List Json} (hslot : walker.Toured levels)
    (h : (walkArray (walker.resolveSlot levels) path items).run s = (slot, s')) :
    ∃ visits, walker.TourFrom [⟨place, levels + 1, .array items⟩] s visits (failure? slot.outcome) s' :=
  exists_tourFrom_of_silent hslot nofun nofun (turns_of_walkArray h)

theorem exists_tourFrom_of_walkObject {entries : List (String × Json)} (hslot : walker.Toured levels)
    (hplain : place = [] ∨ Construct.detect? entries = none)
    (h : (walkObject (walker.resolveSlot levels) path entries).run s = (slot, s')) :
    ∃ visits, walker.TourFrom [⟨place, levels + 1, .object entries⟩] s visits (failure? slot.outcome) s' := by
  refine exists_tourFrom_of_silent hslot nofun ?_ ?_
  · intro construct _ his
    cases his with
    | intro hplace hdetect => simp [hplace, hdetect] at hplain
  · rw [children, if_pos hplain]
    exact turns_of_walkObject h

theorem exists_tourFrom_of_scalar {node : Json} (hslot : walker.Toured levels)
    (hstring : ∀ leaf, node ≠ .string leaf) (harray : ∀ items, node ≠ .array items)
    (hobject : ∀ entries, node ≠ .object entries) :
    ∃ visits, walker.TourFrom [⟨place, levels + 1, node⟩] s visits none s := by
  refine exists_tourFrom_of_silent hslot (fun leaf heq => absurd heq (hstring leaf)) ?_ ?_
  · rintro construct entries ⟨⟩
    exact hobject _ rfl
  · have hchildren : children ⟨place, levels + 1, node⟩ = [] := by
      cases node with
      | array items => exact absurd rfl (harray items)
      | object entries => exact absurd rfl (hobject entries)
      | null | bool | integer | double | string => rfl
    rw [hchildren]
    exact .nil

variable {entries : List (String × Json)} {construct : Construct}

-- From a construct the walk goes on to what its value selects.
theorem next_construct_iff (hplace : place ≠ []) (hdetect : Construct.detect? entries = some construct)
    {visits : List Visit} {other : Stage} :
    Next visits ⟨place, levels + 1, .object entries⟩ other ↔
      ∃ source value node, ⟨⟨place, levels + 1, .object entries⟩, source, .ok value⟩ ∈ visits ∧
        construct.select entries value = .ok (some node) ∧ other = ⟨place, levels, node⟩ := by
  have his : Stage.Is construct entries ⟨place, levels + 1, .object entries⟩ := .intro hplace hdetect
  constructor
  · intro hnext
    cases hnext with
    | child hchild =>
        rw [children, if_neg (by simp [hplace, hdetect])] at hchild
        cases hchild
    | replacement his' hvisit hselect =>
        obtain ⟨rfl, rfl⟩ := his.unique his'
        exact ⟨_, _, _, hvisit, hselect, rfl⟩
  · rintro ⟨source, value, node, hvisit, hselect, rfl⟩
    exact .replacement his hvisit hselect

-- A construct is toured with what it stands for.
theorem exists_tourFrom_of_construct (hslot : walker.Toured levels) (hplace : place ≠ [])
    (hdetect : Construct.detect? entries = some construct)
    (h : (walker.resolveSlot (levels + 1) path (.object entries)).run s = (slot, s')) :
    ∃ visits, walker.TourFrom [⟨place, levels + 1, .object entries⟩] s visits (failure? slot.outcome) s' := by
  have his : Stage.Is construct entries ⟨place, levels + 1, .object entries⟩ := .intro hplace hdetect
  rcases hconstruct : (walker.resolveConstruct path construct entries).run s with ⟨outcome, s₁⟩
  cases resolveConstruct_step hconstruct with
  | invalid hcontrol =>
      cases h.symm.trans (resolveSlot_of_step (.refused hdetect hconstruct))
      refine ⟨[], .last (.silent ?_ (iff_of_true nofun (.invalid his hcontrol))) fun other => ?_⟩
      · intro source hasks
        cases hasks with
        | control his' hcontrol' =>
            obtain ⟨rfl, rfl⟩ := his.unique his'
            exact hcontrol _ hcontrol'
      · simp [next_construct_iff hplace hdetect]
  | refused hcontrol heval =>
      cases h.symm.trans (resolveSlot_of_step (.refused hdetect hconstruct))
      refine ⟨_, .last (.visit (.control his hcontrol) heval (iff_of_true nofun ?_)) fun other => ?_⟩
      · exact .refused (List.mem_singleton_self _)
      · simp [next_construct_iff hplace hdetect]
  | @selected expression value _ hcontrol heval =>
      cases hselect : construct.select entries value with
      | error cause =>
          rw [hselect] at hconstruct
          cases h.symm.trans (resolveSlot_of_step (.refused hdetect hconstruct))
          refine ⟨_, .last (.visit (.control his hcontrol) heval (iff_of_true nofun ?_)) fun other => ?_⟩
          · exact .unselected his (List.mem_singleton_self _) hselect
          · simp [next_construct_iff hplace hdetect, hselect]
      | ok chosen =>
          have hfailing : ¬Failing walker.config [⟨⟨place, levels + 1, .object entries⟩, expression, .ok value⟩]
              ⟨place, levels + 1, .object entries⟩ := by
            refine not_failing_of_value (fun construct' entries' his' => ?_) nofun (Nat.succ_ne_zero _)
            obtain ⟨rfl, rfl⟩ := his.unique his'
            exact ⟨⟨_, hcontrol⟩, _, hselect⟩
          have hvisit := Tour.visit (.control his hcontrol) heval (iff_of_false (fun h => h rfl) hfailing)
          rw [hselect] at hconstruct
          cases chosen with
          | none =>
              cases h.symm.trans (resolveSlot_of_step (.vanished hdetect hconstruct))
              refine ⟨_, .last hvisit fun other => ?_⟩
              simp [next_construct_iff hplace hdetect, hselect]
          | some node =>
              rcases hrun : (walker.resolveSlot levels path node).run s₁ with ⟨slot', s₂⟩
              cases h.symm.trans (resolveSlot_of_step (.replaced hdetect hconstruct hrun))
              obtain ⟨later, hlater⟩ := hslot _ _ _ _ _ place hplace hrun
              refine ⟨_, .step hvisit (fun other => ?_) ?_ hlater⟩
              · rw [next_construct_iff hplace hdetect, List.mem_singleton]
                constructor
                · rintro ⟨source', value', node', hmem, hselect', rfl⟩
                  cases List.mem_singleton.mp hmem
                  cases hselect.symm.trans hselect'
                  rfl
                · rintro rfl
                  exact ⟨_, _, _, List.mem_singleton_self _, hselect, rfl⟩
              · intro other hmem
                cases List.mem_singleton.mp hmem
                exact ⟨List.prefix_rfl, Nat.lt_succ_self _⟩

end

theorem toured (walker : Walker σ) (levels : Nat) : walker.Toured levels := by
  induction levels with
  | zero =>
      intro path node slot s s' place hplace h
      cases h
      refine ⟨[], .last (.silent nofun (iff_of_true nofun .tooDeep)) fun other hnext => ?_⟩
      cases hnext with
      | child hchild => cases node <;> cases hchild
      | replacement his => cases his
  | succ levels ih =>
      intro path node slot s s' place hplace h
      cases resolveSlot_step h with
      | leaf hleaf => exact exists_tourFrom_of_substitute ih hleaf
      | array hitems => exact exists_tourFrom_of_walkArray ih hitems
      | object hplain hentries => exact exists_tourFrom_of_walkObject ih (.inr hplain) hentries
      | refused hdetect | vanished hdetect | replaced hdetect =>
          exact exists_tourFrom_of_construct ih hplace hdetect h
      | scalar hstring harray hobject => exact exists_tourFrom_of_scalar ih hstring harray hobject

-- The stage of a template's root.
def rootStage (config : Config) (root : Json) : Stage := ⟨[], config.maxDepth + 1, root⟩

theorem exists_tourFrom_of_walk {root node : Json} {failure : Option RenderError} {s s' : σ}
    (h : (walker.walk root).run s = ((node, failure), s')) :
    ∃ visits, walker.TourFrom [rootStage walker.config root] s visits failure s' := by
  obtain ⟨outcome, hstep, rfl⟩ := rootStep_of_walk h
  have hslot := walker.toured walker.config.maxDepth
  cases hstep with
  | leaf hleaf => exact exists_tourFrom_of_substitute hslot hleaf
  | array hitems => exact exists_tourFrom_of_walkArray hslot hitems
  | object hentries => exact exists_tourFrom_of_walkObject hslot (.inl rfl) hentries
  | scalar hstring harray hobject => exact exists_tourFrom_of_scalar hslot hstring harray hobject

theorem run_recording (walker : Walker σ) (source : String) (s : σ) (log : List Evaluation) :
    (walker.recording.evaluate source).run.run (s, log) =
      let (outcome, s') := (walker.evaluate source).run.run s
      (outcome, s', log ++ [⟨source, outcome⟩]) := rfl

-- What a recording walker performs is what it writes down.
theorem performs_of_recording {visits : List Visit} {s s' : σ} {log log' : List Evaluation}
    (h : walker.recording.Performs (s, log) visits (s', log')) :
    walker.Performs s visits s' ∧ log' = log ++ visits.map Visit.evaluation := by
  induction visits generalizing s log with
  | nil =>
      cases h
      exact ⟨.nil, (List.append_nil _).symm⟩
  | cons visit visits ih =>
      obtain ⟨stage, source, outcome⟩ := visit
      cases h with
      | cons heval hrest =>
          rcases hrun : (walker.evaluate source).run.run s with ⟨found, s₂⟩
          rw [run_recording, hrun] at heval
          cases heval
          obtain ⟨hperforms, rfl⟩ := ih hrest
          exact ⟨.cons hrun hperforms, List.append_assoc ..⟩

-- The evaluations of a walk are made in document order, once for each stage that the walk comes to,
-- and only up to the first failure.
theorem walk_in_document_order (walker : Walker σ) (root : Json) (s : σ) :
    let ended := (walker.walk root).run s
    ∃ visits : List Visit,
      (walker.recording.walk root).run (s, []) = (ended.1, ended.2, visits.map Visit.evaluation) ∧
        walker.TourFrom [rootStage walker.config root] s visits ended.1.2 ended.2 := by
  intro ended
  obtain ⟨log, hlog⟩ := extends_walk walker root s []
  obtain ⟨visits, hvisits⟩ := exists_tourFrom_of_walk hlog
  obtain ⟨hperforms, heq⟩ := performs_of_recording hvisits.performs
  refine ⟨visits, hlog.trans ?_, { hvisits with performs := hperforms }⟩
  exact congrArg (fun log => (ended.1, ended.2, log)) heq

end JsonTemplate.Walker
