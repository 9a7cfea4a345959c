import JsonTemplate.Engine
import JsonTemplate.Proofs.Template.Trail

namespace JsonTemplate.Walker

variable {σ : Type} {walker : Walker σ}

theorem substitute_error_node {path : Json.Pointer} {leaf : String} {node : Json}
    {error : RenderError} {s s' : σ}
    (h : (walker.substitute path leaf).run s = (⟨node, .error error⟩, s')) : node = .string leaf := by
  cases substitute_step h <;> rfl

-- The slots of a failed object, with the entries that the walk has not come to.
theorem standing_failed (done : List (String × Json × Presence)) (key : String) (node : Json)
    (after : List (String × Json)) :
    standing (done ++ (key, node, .present) :: untouched after) = standing done ++ (key, node) :: after := by
  simp [standing, untouched, Function.comp_def]

theorem walkEntries_append_of_error {resolve : Json.Pointer → Json → StateM σ Slot}
    {path : Json.Pointer} {before : List (String × Json)} {key : String} {child node : Json}
    {after : List (String × Json)} {done : List (String × Json × Presence)} {error : RenderError}
    {s s₁ s' : σ} (hbefore : (walkEntries resolve path before).run s = ((done, none), s₁))
    (hslot : (resolve (path.child key) child).run s₁ = (⟨node, .error error⟩, s')) :
    (walkEntries resolve path (before ++ (key, child) :: after)).run s =
      ((done ++ (key, node, .present) :: untouched after, some error), s') := by
  induction before generalizing done s with
  | nil => cases hbefore; exact walkEntries_of_error resolve path after hslot
  | cons entry rest ih =>
      obtain ⟨first, inner⟩ := entry
      rcases hfirst : (resolve (path.child first) inner).run s with ⟨⟨left, outcome⟩, s₂⟩
      cases outcome with
      | error found => rw [walkEntries_of_error resolve path rest hfirst] at hbefore; cases hbefore
      | ok presence =>
          rcases hrest : (walkEntries resolve path rest).run s₂ with ⟨⟨others, failure⟩, s₃⟩
          rw [walkEntries_of_ok resolve path hfirst hrest] at hbefore
          cases hbefore
          exact walkEntries_of_ok resolve path hfirst (ih hrest)

theorem walkItems_append_of_error {resolve : Json.Pointer → Json → StateM σ Slot}
    {path : Json.Pointer} {position : Nat} {before : List Json} {child node : Json}
    {after done : List Json} {error : RenderError} {s s₁ s' : σ}
    (hbefore : (walkItems resolve path position before).run s = ((done, none), s₁))
    (hslot : (resolve (path.item (position + before.length)) child).run s₁ =
      (⟨node, .error error⟩, s')) :
    (walkItems resolve path position (before ++ child :: after)).run s =
      ((done ++ node :: after, some error), s') := by
  induction before generalizing position done s with
  | nil => cases hbefore; exact walkItems_of_error resolve path after hslot
  | cons inner rest ih =>
      rcases hfirst : (resolve (path.item position) inner).run s with ⟨⟨left, outcome⟩, s₂⟩
      cases outcome with
      | error found => rw [walkItems_of_error resolve path rest hfirst] at hbefore; cases hbefore
      | ok presence =>
          rcases hrest : (walkItems resolve path (position + 1) rest).run s₂ with ⟨⟨others, failure⟩, s₃⟩
          rw [walkItems_of_ok resolve path hfirst hrest] at hbefore
          cases hbefore
          refine walkItems_of_ok resolve path hfirst (ih hrest ?_)
          rwa [Nat.add_assoc, Nat.add_comm 1]

-- Where the resolution of single slots fails along a trail, that of a container does.
theorem containerFails_of_walkObject {levels : Nat} {path : Json.Pointer}
    {entries : List (String × Json)} {left : Json} {error : RenderError} {s s' : σ}
    (hslot : ∀ {path node left s}, (walker.resolveSlot levels path node).run s = (⟨left, .error error⟩, s') →
      ∃ trail slot, walker.SlotFails levels path node s trail slot error s' ∧ left = Trail.left trail slot)
    (h : (walkObject (walker.resolveSlot levels) path entries).run s = (⟨left, .error error⟩, s')) :
    ∃ trail slot, walker.ContainerFails levels path (.object entries) s trail slot error s' ∧
      left = Trail.left trail slot := by
  rcases hentries : (walkEntries (walker.resolveSlot levels) path entries).run s with ⟨⟨slots, failure⟩, s₁⟩
  cases failure with
  | none => rw [walkObject_of_ok hentries] at h; cases h
  | some found =>
      rw [walkObject_of_error hentries] at h
      cases h
      obtain ⟨before, key, child, after, done, node, s₂, rfl, hbefore, hchild, rfl⟩ :=
        exists_failed_entry hentries
      obtain ⟨trail, slot, hfails, rfl⟩ := hslot hchild
      exact ⟨.object done key after :: trail, slot, .entry hbefore hfails,
        congrArg Json.object (standing_failed done key _ after)⟩

theorem containerFails_of_walkArray {levels : Nat} {path : Json.Pointer} {items : List Json}
    {left : Json} {error : RenderError} {s s' : σ}
    (hslot : ∀ {path node left s}, (walker.resolveSlot levels path node).run s = (⟨left, .error error⟩, s') →
      ∃ trail slot, walker.SlotFails levels path node s trail slot error s' ∧ left = Trail.left trail slot)
    (h : (walkArray (walker.resolveSlot levels) path items).run s = (⟨left, .error error⟩, s')) :
    ∃ trail slot, walker.ContainerFails levels path (.array items) s trail slot error s' ∧
      left = Trail.left trail slot := by
  rcases hitems : (walkItems (walker.resolveSlot levels) path 0 items).run s with ⟨⟨nodes, failure⟩, s₁⟩
  cases failure with
  | none => rw [walkArray_of_ok hitems] at h; cases h
  | some found =>
      rw [walkArray_of_error hitems] at h
      cases h
      obtain ⟨before, child, after, done, node, s₂, rfl, hbefore, hchild, rfl⟩ :=
        exists_failed_item hitems
      rw [Nat.zero_add] at hchild
      obtain ⟨trail, slot, hfails, rfl⟩ := hslot hchild
      exact ⟨.array done after :: trail, slot, .item hbefore hfails, rfl⟩

theorem slotFails_of_resolveSlot {levels : Nat} {path : Json.Pointer} {node left : Json}
    {error : RenderError} {s s' : σ}
    (h : (walker.resolveSlot levels path node).run s = (⟨left, .error error⟩, s')) :
    ∃ trail slot, walker.SlotFails levels path node s trail slot error s' ∧
      left = Trail.left trail slot := by
  induction levels generalizing path node left s with
  | zero => cases h; exact ⟨[], node, .tooDeep, rfl⟩
  | succ levels ih =>
      cases resolveSlot_step h with
      | leaf h =>
          obtain rfl := substitute_error_node h
          exact ⟨[], _, .leaf h, rfl⟩
      | array h =>
          obtain ⟨trail, slot, hfails, hleft⟩ := containerFails_of_walkArray ih h
          exact ⟨trail, slot, .inside (fun _ he => by cases he) hfails, hleft⟩
      | object hplain h =>
          obtain ⟨trail, slot, hfails, hleft⟩ := containerFails_of_walkObject ih h
          exact ⟨trail, slot, .inside (fun _ he => by cases he; exact hplain) hfails, hleft⟩
      | refused hdetect h => exact ⟨[], _, .construct hdetect h, rfl⟩
      | replaced hdetect h hslot =>
          obtain ⟨trail, slot, hfails, hleft⟩ := ih hslot
          exact ⟨trail, slot, .replacement hdetect h hfails, hleft⟩

theorem walkObject_of_failed_entry {levels : Nat} {path : Json.Pointer}
    {before after : List (String × Json)} {key : String} {child node : Json}
    {done : List (String × Json × Presence)} {error : RenderError} {s s₁ s' : σ}
    (hbefore : (walkEntries (walker.resolveSlot levels) path before).run s = ((done, none), s₁))
    (hslot : (walker.resolveSlot levels (path.child key) child).run s₁ = (.failed node error, s')) :
    (walkObject (walker.resolveSlot levels) path (before ++ (key, child) :: after)).run s =
      (.failed ((Level.object done key after).left node) error, s') := by
  rw [walkObject_of_error (walkEntries_append_of_error hbefore hslot), standing_failed]
  rfl

theorem walkArray_of_failed_item {levels : Nat} {path : Json.Pointer} {before after : List Json}
    {child node : Json} {done : List Json} {error : RenderError} {s s₁ s' : σ}
    (hbefore : (walkItems (walker.resolveSlot levels) path 0 before).run s = ((done, none), s₁))
    (hslot : (walker.resolveSlot levels (path.item before.length) child).run s₁ =
      (.failed node error, s')) :
    (walkArray (walker.resolveSlot levels) path (before ++ child :: after)).run s =
      (.failed ((Level.array done after).left node) error, s') := by
  rw [← Nat.zero_add before.length] at hslot
  exact walkArray_of_error (walkItems_append_of_error hbefore hslot)

theorem resolveSlot_of_slotFails {levels : Nat} {path : Json.Pointer} {node slot : Json}
    {trail : Trail} {error : RenderError} {s s' : σ}
    (h : walker.SlotFails levels path node s trail slot error s') :
    (walker.resolveSlot levels path node).run s = (.failed (Trail.left trail slot) error, s') := by
  induction levels generalizing path node trail slot s with
  | zero => cases h; rfl
  | succ levels ih =>
      cases h with
      | leaf h => exact h
      | construct hdetect h => exact resolveSlot_of_step (.refused hdetect h)
      | replacement hdetect h hfails => exact resolveSlot_of_step (.replaced hdetect h (ih hfails))
      | inside hplain hfails =>
          cases hfails with
          | entry hbefore hfails =>
              exact resolveSlot_of_step
                (.object (hplain _ rfl) (walkObject_of_failed_entry hbefore (ih hfails)))
          | item hbefore hfails => exact walkArray_of_failed_item hbefore (ih hfails)

theorem walk_of_fails {root slot : Json} {trail : Trail} {error : RenderError} {s s' : σ}
    (h : walker.Fails root s trail slot error s') :
    (walker.walk root).run s = ((Trail.left trail slot, some error), s') := by
  cases h with
  | leaf h => exact walk_of_rootStep (.leaf h)
  | inside hfails =>
      cases hfails with
      | entry hbefore hfails =>
          exact walk_of_rootStep
            (.object (walkObject_of_failed_entry hbefore (resolveSlot_of_slotFails hfails)))
      | item hbefore hfails =>
          exact walk_of_rootStep
            (.array (walkArray_of_failed_item hbefore (resolveSlot_of_slotFails hfails)))

theorem fails_of_walk {root left : Json} {error : RenderError} {s s' : σ}
    (h : (walker.walk root).run s = ((left, some error), s')) :
    ∃ trail slot, walker.Fails root s trail slot error s' ∧ left = Trail.left trail slot := by
  obtain ⟨outcome, hstep, hfailure⟩ := rootStep_of_walk h
  cases outcome with
  | ok presence => cases hfailure
  | error found =>
      cases hfailure
      cases hstep with
      | leaf h =>
          obtain rfl := substitute_error_node h
          exact ⟨[], _, .leaf h, rfl⟩
      | array h =>
          obtain ⟨trail, slot, hfails, hleft⟩ := containerFails_of_walkArray slotFails_of_resolveSlot h
          exact ⟨trail, slot, .inside hfails, hleft⟩
      | object h =>
          obtain ⟨trail, slot, hfails, hleft⟩ := containerFails_of_walkObject slotFails_of_resolveSlot h
          exact ⟨trail, slot, .inside hfails, hleft⟩

theorem kept_eq_standing {slots : List (String × Json × Presence)}
    (h : ∀ entry ∈ slots, entry.2.2 ≠ .absent) : kept slots = standing slots := by
  have hpresent : ∀ entry ∈ slots, decide (entry.2.2 = .present) = true := by
    intro entry he
    cases hp : entry.2.2 with
    | present => rfl
    | absent => exact absurd hp (h entry he)
  rw [kept, standing, List.filter_eq_self.mpr hpresent]

theorem length_kept_lt {slots : List (String × Json × Presence)}
    (h : ∃ entry ∈ slots, entry.2.2 = .absent) : (kept slots).length < (standing slots).length := by
  obtain ⟨entry, he, habsent⟩ := h
  rw [kept, standing, List.length_map, List.length_map]
  exact List.length_filter_lt_length_iff_exists.mpr ⟨entry, he, by simp [habsent]⟩

end JsonTemplate.Walker

namespace JsonTemplate

theorem Level.left_eq_settled_iff (level : Level) (node other : Json) :
    level.left node = level.settled other ↔ ¬ level.LosesEntry ∧ node = other := by
  cases level with
  | array before after => simp [Level.left, Level.settled, Level.LosesEntry]
  | object before key after =>
      simp only [Level.left, Level.settled, Level.LosesEntry, Json.object.injEq]
      constructor
      · intro h
        have hnone : ¬ ∃ entry ∈ before, entry.2.2 = .absent := by
          intro hloses
          have hlt := Walker.length_kept_lt hloses
          have hlength := congrArg List.length h
          simp only [List.length_append, List.length_cons] at hlength
          omega
        have hkept := Walker.kept_eq_standing (fun entry he habsent => hnone ⟨entry, he, habsent⟩)
        rw [hkept] at h
        have htail := List.append_cancel_left h
        exact ⟨hnone, by injection htail with hhead; exact (Prod.mk.inj hhead).2⟩
      · rintro ⟨hnone, rfl⟩
        rw [Walker.kept_eq_standing (fun entry he habsent => hnone ⟨entry, he, habsent⟩)]

theorem Trail.left_eq_settled_iff (trail : Trail) (slot : Json) :
    trail.left slot = trail.settled slot ↔ ∀ level ∈ trail, ¬ level.LosesEntry := by
  induction trail with
  | nil => simp [Trail.left, Trail.settled]
  | cons level trail ih =>
      simp only [Trail.left, Trail.settled, List.foldr_cons, List.forall_mem_cons] at ih ⊢
      rw [Level.left_eq_settled_iff, ih]

namespace Walker

variable {σ : Type}

-- A walk fails along a trail to a slot. It leaves the tree that was rendered up to this slot, unless
-- an entry before the trail has resolved to nothing: such an entry stays in its object.
theorem failed_walk_leaves_settled_iff (walker : Walker σ) (root left : Json) (error : RenderError)
    (s s' : σ) :
    ((walker.walk root).run s = ((left, some error), s') ↔
      ∃ trail slot, walker.Fails root s trail slot error s' ∧ left = Trail.left trail slot) ∧
    ∀ trail slot, walker.Fails root s trail slot error s' →
      ((walker.walk root).run s = ((Trail.settled trail slot, some error), s') ↔
        ∀ level ∈ trail, ¬ level.LosesEntry) := by
  refine ⟨⟨fails_of_walk, ?_⟩, ?_⟩
  · rintro ⟨trail, slot, hfails, rfl⟩
    exact walk_of_fails hfails
  · intro trail slot hfails
    rw [walk_of_fails hfails, ← Trail.left_eq_settled_iff]
    constructor
    · intro h
      exact congrArg (·.1.1) h
    · intro h
      rw [h]

end Walker

-- A walker over an empty scope.
def bareWalker : Walker Unit := ⟨evaluate idleHost [], .standard⟩

-- The entry a has no branch to take and the entry b refers to nothing. The walk stops at b before it
-- would take a out of the object.
theorem not_forall_failed_walk_leaves_settled :
    ¬ ∀ (walker : Walker Unit) (root slot : Json) (trail : Trail) (error : RenderError),
      walker.Fails root () trail slot error () →
        (walker.walk root).run () = ((Trail.settled trail slot, some error), ()) := by
  intro h
  have hbefore : (Walker.walkEntries (bareWalker.resolveSlot 256) []
      [("a", .object [("$if", .string "false")])]).run () =
      (([("a", .object [("$if", .string "false")], .absent)], none), ()) := by rfl
  have hleaf : (bareWalker.substitute ["b"] "\x7b\x7bx\x7d\x7d").run () =
      (.failed (.string "\x7b\x7bx\x7d\x7d") (.evaluation "x" ["b"] (.undefinedReference "x")), ()) := by rfl
  have hfails : bareWalker.Fails (.object
      [("a", .object [("$if", .string "false")]), ("b", .string "\x7b\x7bx\x7d\x7d")]) () _ _ _ () :=
    .inside (.entry hbefore (.leaf hleaf))
  have hwalk := h bareWalker _ _ _ _ hfails
  rw [Walker.walk_of_fails hfails] at hwalk
  have hkeeps := (Trail.left_eq_settled_iff _ _).mp (congrArg (·.1.1) hwalk)
  exact hkeeps _ (List.mem_singleton_self _) ⟨_, List.mem_singleton_self _, rfl⟩

end JsonTemplate
