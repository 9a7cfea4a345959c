import JsonTemplate.Proofs.Evaluation.Nesting
import JsonTemplate.Proofs.Template.Steps

namespace JsonTemplate

variable {σ : Type}

-- The failure, if there is one, is not that the template was too deep.
def WithinDepth (failure : Option RenderError) : Prop :=
  ∀ path maxDepth, failure ≠ some (.depthExceeded path maxDepth)

namespace Walker

variable {resolve resolve' : Json.Pointer → Json → StateM σ Slot} {path : Json.Pointer}

-- The second resolution does the same as the first one wherever that does not end at the depth limit.
def Deepens (resolve resolve' : Json.Pointer → Json → StateM σ Slot) : Prop :=
  ∀ ⦃path node s slot s'⦄, (resolve path node).run s = (slot, s') → WithinDepth (failure? slot.outcome) →
    (resolve' path node).run s = (slot, s')

theorem Deepens.walkEntries (hdeepens : Deepens resolve resolve') {entries : List (String × Json)}
    {slots : List (String × Json × Presence)} {failure : Option RenderError} {s s' : σ}
    (h : (walkEntries resolve path entries).run s = ((slots, failure), s')) (hwithin : WithinDepth failure) :
    (walkEntries resolve' path entries).run s = ((slots, failure), s') := by
  induction entries generalizing slots s with
  | nil => exact h
  | cons entry rest ih =>
      obtain ⟨key, child⟩ := entry
      rcases hslot : (resolve (path.child key) child).run s with ⟨⟨node, outcome⟩, s₁⟩
      cases outcome with
      | error error =>
          rw [walkEntries_of_error resolve path rest hslot] at h
          cases h
          exact walkEntries_of_error resolve' path rest (hdeepens hslot hwithin)
      | ok presence =>
          rcases hrest : (Walker.walkEntries resolve path rest).run s₁ with ⟨⟨others, found⟩, s₂⟩
          rw [walkEntries_of_ok resolve path hslot hrest] at h
          cases h
          exact walkEntries_of_ok resolve' path (hdeepens hslot nofun) (ih hrest)

theorem Deepens.walkItems (hdeepens : Deepens resolve resolve') {position : Nat} {items nodes : List Json}
    {failure : Option RenderError} {s s' : σ}
    (h : (walkItems resolve path position items).run s = ((nodes, failure), s')) (hwithin : WithinDepth failure) :
    (walkItems resolve' path position items).run s = ((nodes, failure), s') := by
  induction items generalizing position nodes s with
  | nil => exact h
  | cons child rest ih =>
      rcases hslot : (resolve (path.item position) child).run s with ⟨⟨node, outcome⟩, s₁⟩
      cases outcome with
      | error error =>
          rw [walkItems_of_error resolve path rest hslot] at h
          cases h
          exact walkItems_of_error resolve' path rest (hdeepens hslot hwithin)
      | ok presence =>
          rcases hrest : (Walker.walkItems resolve path (position + 1) rest).run s₁ with ⟨⟨others, found⟩, s₂⟩
          rw [walkItems_of_ok resolve path hslot hrest] at h
          cases h
          exact walkItems_of_ok resolve' path (hdeepens hslot nofun) (ih hrest)

theorem Deepens.walkObject (hdeepens : Deepens resolve resolve') {entries : List (String × Json)} {slot : Slot}
    {s s' : σ} (h : (walkObject resolve path entries).run s = (slot, s'))
    (hwithin : WithinDepth (failure? slot.outcome)) :
    (walkObject resolve' path entries).run s = (slot, s') := by
  rcases hentries : (Walker.walkEntries resolve path entries).run s with ⟨⟨slots, failure⟩, s₁⟩
  cases failure with
  | none =>
      rw [walkObject_of_ok hentries] at h
      cases h
      exact walkObject_of_ok (hdeepens.walkEntries hentries nofun)
  | some error =>
      rw [walkObject_of_error hentries] at h
      cases h
      exact walkObject_of_error (hdeepens.walkEntries hentries hwithin)

theorem Deepens.walkArray (hdeepens : Deepens resolve resolve') {items : List Json} {slot : Slot} {s s' : σ}
    (h : (walkArray resolve path items).run s = (slot, s')) (hwithin : WithinDepth (failure? slot.outcome)) :
    (walkArray resolve' path items).run s = (slot, s') := by
  rcases hitems : (Walker.walkItems resolve path 0 items).run s with ⟨⟨nodes, failure⟩, s₁⟩
  cases failure with
  | none =>
      rw [walkArray_of_ok hitems] at h
      cases h
      exact walkArray_of_ok (hdeepens.walkItems hitems nofun)
  | some error =>
      rw [walkArray_of_error hitems] at h
      cases h
      exact walkArray_of_error (hdeepens.walkItems hitems hwithin)

variable (walker : Walker σ)

-- The same walker with another depth limit.
def limited (maxDepth : Nat) : Walker σ := { walker with config := { walker.config with maxDepth } }

-- The limit matters where no level remains, and nowhere else.
theorem deepens_resolveSlot {limit larger levels more : Nat} (hle : levels ≤ more) :
    Deepens ((walker.limited limit).resolveSlot levels) ((walker.limited larger).resolveSlot more) := by
  induction levels generalizing more with
  | zero =>
      intro path node s slot s' h hwithin
      cases h
      exact absurd rfl (hwithin path limit)
  | succ levels ih =>
      obtain ⟨more, rfl⟩ := Nat.exists_eq_add_one_of_ne_zero (Nat.ne_zero_of_lt hle)
      intro path node s slot s' h hwithin
      have hdeepens := ih (Nat.le_of_succ_le_succ hle)
      refine resolveSlot_of_step ?_
      cases resolveSlot_step h with
      | leaf h => exact .leaf h
      | array h => exact .array (hdeepens.walkArray h hwithin)
      | object hplain h => exact .object hplain (hdeepens.walkObject h hwithin)
      | refused hdetect h => exact .refused hdetect h
      | vanished hdetect h => exact .vanished hdetect h
      | replaced hdetect h hslot => exact .replaced hdetect h (hdeepens hslot hwithin)
      | scalar hstring harray hobject => exact .scalar hstring harray hobject

theorem run_walk_limited {limit larger : Nat} (hle : limit ≤ larger) {root : Json} {s : σ}
    (hwithin : WithinDepth (((walker.limited limit).walk root).run s).1.2) :
    ((walker.limited larger).walk root).run s = ((walker.limited limit).walk root).run s := by
  rcases h : ((walker.limited limit).walk root).run s with ⟨⟨node, failure⟩, s'⟩
  rw [h] at hwithin
  obtain ⟨outcome, hstep, rfl⟩ := rootStep_of_walk h
  have hdeepens : Deepens ((walker.limited limit).resolveSlot limit) ((walker.limited larger).resolveSlot larger) :=
    walker.deepens_resolveSlot hle
  have hlarger : RootStep (walker.limited larger) root s ⟨node, outcome⟩ s' := by
    cases hstep with
    | leaf h => exact .leaf h
    | array h => exact .array (hdeepens.walkArray h hwithin)
    | object h => exact .object (hdeepens.walkObject h hwithin)
    | scalar hstring harray hobject => exact .scalar hstring harray hobject
  exact walk_of_rootStep hlarger

end Walker

-- A walk that does not end at the depth limit is the same under any larger limit, with the same tree and the same
-- calls of host functions.
theorem walk_within_depth (host : Host σ) (scope : Fields Value) (config : Config) (root : Json) (s : σ)
    (limit larger : Nat) (hle : limit ≤ larger) :
    let walk maxDepth := (Walker.limited ⟨evaluate host scope, config⟩ maxDepth).walk root
    let logged maxDepth := (Walker.limited ⟨evaluate host.logged scope, config⟩ maxDepth).walk root
    let ended := (walk limit).run s
    WithinDepth ended.1.2 → (walk larger).run s = ended ∧
      ∃ calls, (logged limit).run (s, []) = (ended.1, ended.2, calls) ∧
        (logged larger).run (s, []) = (ended.1, ended.2, calls) := by
  intro walk logged ended hwithin
  have hevaluate := Walker.compatible_extends.evaluate scope (Walker.extends_call host)
  have hextends : Walker.Extends _ (logged limit) (walk limit) := Walker.compatible_extends.walk hevaluate root
  obtain ⟨calls, hcalls⟩ := hextends s []
  rw [List.nil_append] at hcalls
  have hsame : (logged larger).run (s, []) = (logged limit).run (s, []) := by
    refine Walker.run_walk_limited _ hle ?_
    rw [hcalls]
    exact hwithin
  exact ⟨Walker.run_walk_limited _ hle hwithin, calls, hcalls, hsame.trans hcalls⟩

-- The branch of the choice is an array, and its last item fails.
def failingBranch : Json :=
  .object [("a", .object [("$if", .string "true"),
    ("$then", .array [.string "\x7b\x7bf()\x7d\x7d", .string "\x7b\x7bx\x7d\x7d"])])]

theorem walk_within_depth_of_failingBranch :
    let walk maxDepth := (Walker.limited ⟨evaluate tallyHost [("f", .function (.external 0 "f"))], .standard⟩
      maxDepth).walk failingBranch
    3 ≤ 5 ∧ WithinDepth ((walk 3).run 0).1.2 ∧ ((walk 3).run 0).2 = 1 ∧ (walk 5).run 0 = (walk 3).run 0 := by
  intro walk
  have hfailure : ((walk 3).run 0).1.2 = some (.evaluation "x" ["a", "1"] (.undefinedReference "x")) := by rfl
  have hwithin : WithinDepth ((walk 3).run 0).1.2 := by
    rw [hfailure]
    exact nofun
  have hsame := walk_within_depth tallyHost [("f", .function (.external 0 "f"))] .standard failingBranch 0 3 5
    (by decide) hwithin
  exact ⟨by decide, hwithin, rfl, hsame.1⟩

end JsonTemplate
