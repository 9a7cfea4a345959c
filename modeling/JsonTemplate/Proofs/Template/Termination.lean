import JsonTemplate.Proofs.Template.Attempts

namespace JsonTemplate

variable {σ : Type}

namespace Attempt

-- The slot or one within it, and no less deep.
def Below (attempt other : Attempt σ) : Prop :=
  attempt.place <+: other.place ∧ attempt.depth ≤ other.depth

-- In a slot of the container from a position on.
def Holds (container : Attempt σ) (position : Nat) (other : Attempt σ) : Prop :=
  ∃ index, position ≤ index ∧ container.place ++ [index] <+: other.place ∧ container.depth < other.depth

end Attempt

namespace Walker

variable {walker : Walker σ}

-- The node stands for a construct, which stands for another one, and so on without an end.
def Reproduces (walker : Walker σ) (path : Json.Pointer) (node : Json) (s : σ) : Prop :=
  ∃ (nodes : Nat → Json) (states : Nat → σ), nodes 0 = node ∧ states 0 = s ∧
    ∀ n, walker.Replaces path (nodes n) (states n) (nodes (n + 1)) (states (n + 1))

theorem Reproduces.next {path : Json.Pointer} {node : Json} {s : σ} (h : walker.Reproduces path node s) :
    ∃ replacement s₁, walker.Replaces path node s replacement s₁ ∧ walker.Reproduces path replacement s₁ := by
  obtain ⟨nodes, states, rfl, rfl, hnext⟩ := h
  exact ⟨nodes 1, states 1, hnext 0, fun n => nodes (n + 1), fun n => states (n + 1), rfl, rfl,
    fun n => hnext (n + 1)⟩

theorem reproduces_of_replaces_self {path : Json.Pointer} {node : Json} {s : σ}
    (h : walker.Replaces path node s node s) : walker.Reproduces path node s :=
  ⟨fun _ => node, fun _ => s, rfl, rfl, fun _ => h⟩

-- What holds of all resolutions of slots that a resolution takes.
structure Bounded (walker : Walker σ) (inside : Attempt σ → Prop) (attempts : List (Attempt σ))
    (failure : Option RenderError) (s' : σ) : Prop where
  inside : ∀ attempt ∈ attempts, inside attempt ∧ attempt.depth ≤ walker.config.maxDepth + 1
  -- The walk goes on from a slot within the limit only, and it is deeper in the same slot and in those within it.
  deepening : attempts.Pairwise fun attempt later => attempt.depth ≤ walker.config.maxDepth ∧
    (attempt.place <+: later.place → attempt.depth < later.depth)
  tooDeep : ∀ attempt ∈ attempts, walker.config.maxDepth < attempt.depth →
    attempt.state = s' ∧ failure = some (.depthExceeded attempt.path walker.config.maxDepth)
  reproducing : ∀ attempt ∈ attempts, walker.Reproduces attempt.path attempt.node attempt.state →
    failure = some (.depthExceeded attempt.path walker.config.maxDepth)

namespace Bounded

variable {inside more : Attempt σ → Prop} {attempts later : List (Attempt σ)} {failure : Option RenderError}
  {s s₁ s' : σ}

theorem nil : walker.Bounded inside [] failure s' where
  inside := by simp
  deepening := .nil
  tooDeep := by simp
  reproducing := by simp

theorem mono (h : walker.Bounded inside attempts failure s') (hmore : ∀ attempt, inside attempt → more attempt) :
    walker.Bounded more attempts failure s' where
  inside attempt hmem := (h.inside attempt hmem).imp_left (hmore attempt)
  deepening := h.deepening
  tooDeep := h.tooDeep
  reproducing := h.reproducing

-- A slot at which the walk ends.
theorem last {attempt : Attempt σ} (hdepth : attempt.depth ≤ walker.config.maxDepth + 1)
    (htooDeep : walker.config.maxDepth < attempt.depth →
      attempt.state = s' ∧ failure = some (.depthExceeded attempt.path walker.config.maxDepth))
    (hreproducing : walker.Reproduces attempt.path attempt.node attempt.state →
      failure = some (.depthExceeded attempt.path walker.config.maxDepth)) :
    walker.Bounded (· = attempt) [attempt] failure s' where
  inside := List.forall_mem_singleton.mpr ⟨rfl, hdepth⟩
  deepening := List.pairwise_singleton _ _
  tooDeep := List.forall_mem_singleton.mpr htooDeep
  reproducing := List.forall_mem_singleton.mpr hreproducing

-- A slot from which the walk goes on to others.
theorem cons {attempt : Attempt σ} (h : walker.Bounded inside attempts failure s')
    (hdepth : attempt.depth ≤ walker.config.maxDepth) (hafter : ∀ later, inside later → attempt.depth < later.depth)
    (hreproducing : walker.Reproduces attempt.path attempt.node attempt.state →
      failure = some (.depthExceeded attempt.path walker.config.maxDepth)) :
    walker.Bounded (fun other => other = attempt ∨ inside other) (attempt :: attempts) failure s' where
  inside := by
    refine List.forall_mem_cons.mpr ⟨⟨.inl rfl, Nat.le_succ_of_le hdepth⟩, fun other hmem => ?_⟩
    exact (h.inside other hmem).imp_left .inr
  deepening := by
    refine List.pairwise_cons.mpr ⟨fun other hmem => ⟨hdepth, fun _ => ?_⟩, h.deepening⟩
    exact hafter other (h.inside other hmem).1
  tooDeep := List.forall_mem_cons.mpr ⟨fun hlt => absurd hdepth (Nat.not_le.mpr hlt), h.tooDeep⟩
  reproducing := List.forall_mem_cons.mpr ⟨hreproducing, h.reproducing⟩

-- Slots of which none is within another one.
theorem append (h : walker.Bounded inside attempts none s₁) (hlater : walker.Bounded more later failure s')
    (hapart : ∀ attempt other, inside attempt → more other → ¬attempt.place <+: other.place) :
    walker.Bounded (fun other => inside other ∨ more other) (attempts ++ later) failure s' where
  inside := by
    refine List.forall_mem_append.mpr ⟨fun other hmem => ?_, fun other hmem => ?_⟩
    · exact (h.inside other hmem).imp_left .inl
    · exact (hlater.inside other hmem).imp_left .inr
  deepening := by
    refine List.pairwise_append.mpr ⟨h.deepening, hlater.deepening, fun attempt hmem other hother => ⟨?_, ?_⟩⟩
    · refine Nat.not_lt.mp fun hlt => ?_
      exact nomatch (h.tooDeep attempt hmem hlt).2
    · intro hplace
      exact absurd hplace (hapart attempt other (h.inside attempt hmem).1 (hlater.inside other hother).1)
  tooDeep := by
    refine List.forall_mem_append.mpr ⟨fun attempt hmem hlt => ?_, hlater.tooDeep⟩
    exact nomatch (h.tooDeep attempt hmem hlt).2
  reproducing := by
    refine List.forall_mem_append.mpr ⟨fun attempt hmem hrepro => ?_, hlater.reproducing⟩
    exact nomatch h.reproducing attempt hmem hrepro

end Bounded

theorem index_unique {place other : List Nat} {index index' : Nat} (h : place ++ [index] <+: other)
    (h' : place ++ [index'] <+: other) : index = index' := by
  obtain ⟨rest, rfl⟩ := h
  obtain ⟨rest', heq⟩ := h'
  rw [List.append_assoc, List.append_assoc] at heq
  exact (List.cons.inj (List.append_cancel_left heq)).1.symm

theorem mem_of_resolves {attempt : Attempt σ} {attempts : List (Attempt σ)} {slot : Slot} {s' : σ}
    (h : walker.Resolves attempt attempts slot s') : attempt ∈ attempts := by
  cases h <;> exact List.mem_cons_self

-- A container's first slot is resolved.
theorem mem_of_resolvesAll {container : Attempt σ} {position : Nat} {path : Json.Pointer} {child : Json}
    {rest : List (Json.Pointer × Json)} {attempts : List (Attempt σ)} {results : List (Json × Presence)}
    {failure : Option RenderError} {s s' : σ}
    (h : walker.ResolvesAll container position ((path, child) :: rest) s attempts results failure s') :
    container.child position path child s ∈ attempts := by
  cases h with
  | failed h => exact mem_of_resolves h
  | passed h => exact List.mem_append_left _ (mem_of_resolves h)

theorem bounded_of_resolvesAll {container : Attempt σ}
    (hslot : ∀ {child attempts slot s'}, child.depth = container.depth + 1 →
      walker.Resolves child attempts slot s' → walker.Bounded child.Below attempts (failure? slot.outcome) s')
    {position : Nat} {slots : List (Json.Pointer × Json)} {attempts : List (Attempt σ)}
    {results : List (Json × Presence)} {failure : Option RenderError} {s s' : σ}
    (h : walker.ResolvesAll container position slots s attempts results failure s') :
    walker.Bounded (container.Holds position) attempts failure s' := by
  induction slots generalizing position attempts results s with
  | nil => cases h; exact .nil
  | cons slot rest ih =>
      have hchild {path : Json.Pointer} {child : Json} (other : Attempt σ)
          (hbelow : (container.child position path child s).Below other) : container.Holds position other :=
        ⟨position, Nat.le_refl _, hbelow.1, hbelow.2⟩
      cases h with
      | failed h => exact (hslot rfl h).mono hchild
      | passed h hrest =>
          refine ((hslot rfl h).append (ih hrest) ?_).mono ?_
          · rintro attempt other ⟨hattempt, -⟩ ⟨index, hindex, hother, -⟩ hplace
            have heq := index_unique (hattempt.trans hplace) hother
            omega
          · rintro other (hbelow | ⟨index, hindex, hplace, hdepth⟩)
            · exact hchild other hbelow
            · exact ⟨index, Nat.le_of_succ_le hindex, hplace, hdepth⟩

theorem bounded_of_renders {attempt : Attempt σ}
    (hslot : ∀ {child attempts slot s'}, child.depth = attempt.depth + 1 →
      walker.Resolves child attempts slot s' → walker.Bounded child.Below attempts (failure? slot.outcome) s')
    {attempts : List (Attempt σ)} {slot : Slot} {s' : σ} (h : walker.Renders attempt attempts slot s') :
    walker.Bounded (attempt.Holds 0) attempts (failure? slot.outcome) s' := by
  cases h with
  | leaf | scalar => exact .nil
  | array _ hslots | arrayFails _ hslots | object _ hslots | objectFails _ hslots =>
      exact bounded_of_resolvesAll hslot hslots

theorem not_reproduces_of_resolveConstruct {path : Json.Pointer} {entries : List (String × Json)}
    {construct : Construct} {outcome : Except RenderError (Option Json)} {s s' : σ}
    (hdetect : Construct.detect? entries = some construct)
    (h : (walker.resolveConstruct path construct entries).run s = (outcome, s'))
    (hstops : ∀ replacement, outcome ≠ .ok (some replacement)) : ¬walker.Reproduces path (.object entries) s := by
  intro hrepro
  obtain ⟨replacement, s₁, ⟨_, _, ⟨⟩, hdetect', hrun⟩, -⟩ := hrepro.next
  cases hdetect.symm.trans hdetect'
  cases h.symm.trans hrun
  exact hstops replacement rfl

-- By induction on how far the slot is from the depth limit.
theorem bounded_of_resolves {attempt : Attempt σ} {attempts : List (Attempt σ)} {slot : Slot} {s' : σ}
    (hdepth : attempt.depth ≤ walker.config.maxDepth + 1) (h : walker.Resolves attempt attempts slot s') :
    walker.Bounded attempt.Below attempts (failure? slot.outcome) s' := by
  induction hlevels : walker.config.maxDepth + 1 - attempt.depth using Nat.strongRecOn
    generalizing attempt attempts slot s' with
  | ind levels ih =>
      have hbelow (other : Attempt σ) (heq : other = attempt) : attempt.Below other :=
        heq ▸ ⟨List.prefix_rfl, Nat.le_refl _⟩
      cases h with
      | tooDeep hlt => exact (Bounded.last hdepth (fun _ => ⟨rfl, rfl⟩) fun _ => rfl).mono hbelow
      | plain hle hplain hrenders =>
          have hslots := bounded_of_renders (fun hchild h => ih _ (by omega) (by omega) h rfl) hrenders
          refine (hslots.cons hle (fun other hholds => ?_) fun hrepro => ?_).mono ?_
          · obtain ⟨index, -, -, hlt⟩ := hholds
            exact hlt
          · obtain ⟨replacement, s₁, ⟨entries, construct, hnode, hdetect, -⟩, -⟩ := hrepro.next
            cases (hplain entries hnode).symm.trans hdetect
          · rintro other (heq | ⟨index, -, hplace, hlt⟩)
            · exact hbelow other heq
            · exact ⟨(List.prefix_append _ _).trans hplace, Nat.le_of_lt hlt⟩
      | refused hle hnode hdetect h | vanished hle hnode hdetect h =>
          have hstops := not_reproduces_of_resolveConstruct hdetect h nofun
          rw [← hnode] at hstops
          exact (Bounded.last hdepth (fun hlt => absurd hle (Nat.not_le.mpr hlt)) fun hrepro =>
            absurd hrepro hstops).mono hbelow
      | replaced hle hreplaces h =>
          rename_i replacement attempts s₁
          have hagain : (attempt.again replacement s₁).depth = attempt.depth + 1 := rfl
          have hlater := ih _ (by omega) (by omega) h rfl
          refine (hlater.cons hle (fun other hother => hother.2) fun hrepro => ?_).mono ?_
          · obtain ⟨other, s₂, hnext, hrepro⟩ := hrepro.next
            obtain ⟨rfl, rfl⟩ := hreplaces.unique hnext
            exact hlater.reproducing (attempt.again replacement s₁) (mem_of_resolves h) hrepro
          · rintro other (heq | ⟨hplace, hlt⟩)
            · exact hbelow other heq
            · exact ⟨hplace, Nat.le_of_succ_le hlt⟩

-- Deeper and deeper resolutions of one slot are no more than there are depths.
theorem countP_place_le {attempt : Attempt σ} {later : List (Attempt σ)} {limit : Nat}
    (hlimit : ∀ other ∈ later, other.depth ≤ limit)
    (h : (attempt :: later).Pairwise fun one other => one.place <+: other.place → one.depth < other.depth) :
    (later.countP fun other => other.place = attempt.place) ≤ limit - attempt.depth := by
  induction later generalizing attempt with
  | nil => exact Nat.zero_le _
  | cons next later ih =>
      obtain ⟨hnext, hlater⟩ := List.forall_mem_cons.mp hlimit
      obtain ⟨hattempt, hrest⟩ := List.pairwise_cons.mp h
      by_cases hplace : next.place = attempt.place
      · have hlt := hattempt next List.mem_cons_self (hplace ▸ List.prefix_rfl)
        have hcount := ih hlater hrest
        rw [List.countP_cons_of_pos (by simpa using hplace), ← hplace]
        omega
      · rw [List.countP_cons_of_neg (by simpa using hplace)]
        exact ih hlater (h.sublist (.cons_cons attempt (List.sublist_cons_self next later)))

-- Every walk ends. There is a finite account of the slots that it resolves, in which a slot at some depth is resolved
-- again no more often than there are depths left, and only the last one may be beyond the limit. A slot whose
-- constructs stand for constructs without an end makes the walk fail there.
theorem walk_terminates (walker : Walker σ) (root : Json) (s : σ) :
    let limit := walker.config.maxDepth
    (∃ attempts slot s', walker.Renders (.root root s) attempts slot s') ∧
    ∀ attempts slot s', walker.Renders (.root root s) attempts slot s' →
      (walker.walk root).run s = ((slot.node, failure? slot.outcome), s') ∧
      ∀ before attempt after, attempts = before ++ attempt :: after → attempt.depth ≤ limit + 1 ∧
        (after.countP fun later => later.place = attempt.place) ≤ limit + 1 - attempt.depth ∧
        (∀ later ∈ after, attempt.place <+: later.place → attempt.depth < later.depth) ∧
        (limit < attempt.depth → after = [] ∧ s' = attempt.state ∧
          failure? slot.outcome = some (.depthExceeded attempt.path limit)) ∧
        (walker.Reproduces attempt.path attempt.node attempt.state →
          failure? slot.outcome = some (.depthExceeded attempt.path limit)) := by
  intro limit
  refine ⟨exists_renders fun child _ => exists_resolves walker child, fun attempts slot s' h => ?_⟩
  refine ⟨walk_of_renders h, ?_⟩
  rintro before attempt after rfl
  have hbounded := bounded_of_renders (fun hchild h => bounded_of_resolves (by simp [hchild, Attempt.root]) h) h
  have hmem : attempt ∈ before ++ attempt :: after := List.mem_append_right _ List.mem_cons_self
  have hdeepening := (List.pairwise_append.mp hbounded.deepening).2.1
  obtain ⟨hafter, -⟩ := List.pairwise_cons.mp hdeepening
  refine ⟨(hbounded.inside attempt hmem).2, countP_place_le (fun other hother => ?_) (hdeepening.imp And.right),
    fun later hlater => (hafter later hlater).2, fun hlt => ?_, hbounded.reproducing attempt hmem⟩
  · exact (hbounded.inside other (List.mem_append_right _ (List.mem_cons_of_mem _ hother))).2
  · obtain ⟨hstate, hfailure⟩ := hbounded.tooDeep attempt hmem hlt
    refine ⟨List.eq_nil_iff_forall_not_mem.mpr fun later hlater => ?_, hstate.symm, hfailure⟩
    exact Nat.not_le.mpr hlt (hafter later hlater).1

end Walker

-- A construct for the entry c of the context, which is this construct.
def selfEval : Json := .object [("$eval", .string "c")]

def selfWalker (maxDepth : Nat) : Walker Unit :=
  ⟨evaluate idleHost [("c", .object [("$eval", .string "c")])], { Config.standard with maxDepth }⟩

theorem reproduces_selfEval (maxDepth : Nat) (path : Json.Pointer) :
    (selfWalker maxDepth).Reproduces path selfEval () :=
  Walker.reproduces_of_replaces_self ⟨_, .eval, rfl, rfl, rfl⟩

theorem walk_terminates_of_selfEval : ∃ attempts slot s',
    (selfWalker 256).Renders (.root (.array [selfEval]) ()) attempts slot s' ∧
      ⟨[0], ["0"], 1, selfEval, ()⟩ ∈ attempts ∧
      Walker.failure? slot.outcome = some (.depthExceeded ["0"] 256) := by
  obtain ⟨⟨attempts, slot, s', h⟩, hall⟩ := Walker.walk_terminates (selfWalker 256) (.array [selfEval]) ()
  have hmem : ⟨[0], ["0"], 1, selfEval, ()⟩ ∈ attempts := by
    cases h with
    | array hnode hslots | arrayFails hnode hslots =>
        cases hnode
        exact Walker.mem_of_resolvesAll hslots
    | leaf hnode | object hnode | objectFails hnode => cases hnode
    | scalar _ harray => exact absurd rfl (harray _)
  obtain ⟨before, after, heq⟩ := List.append_of_mem hmem
  obtain ⟨-, -, -, -, hfails⟩ := (hall attempts slot s' h).2 before _ after heq
  exact ⟨attempts, slot, s', h, hmem, hfails (reproduces_selfEval 256 _)⟩

example : ((selfWalker 3).walk (.array [selfEval])).run () =
    ((.array [selfEval], some (.depthExceeded ["0"] 3)), ()) := by rfl

end JsonTemplate
