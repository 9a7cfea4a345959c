import JsonTemplate.Proofs.Template.ErrorPath

namespace JsonTemplate

variable {σ : Type}

namespace Walker

mutual

-- What a failed walk leaves of a node. Either the node is the failing slot, or that is within one of its entries:
-- then no key is gone or out of its place, and the entries after this one are the old ones.
inductive NodeSpared (walker : Walker σ) (failing : Json.Pointer) : Json.Pointer → Json → σ → Json → Prop
  | itself {node : Json} {s : σ} : NodeSpared walker failing failing node s node
  | entry {levels : Nat} {path : Json.Pointer} {before after : List (String × Json)} {key : String}
      {child left : Json} {done : List (String × Json × Presence)} {s s₁ : σ}
      (hbefore : (walkEntries (walker.resolveSlot levels) path before).run s = ((done, none), s₁))
      (hkeys : Fields.keys (standing done) = Fields.keys before)
      (hslot : SlotSpared walker failing (path.child key) child s₁ left) :
      NodeSpared walker failing path (.object (before ++ (key, child) :: after)) s
        (.object (standing done ++ (key, left) :: after))
  | item {levels : Nat} {path : Json.Pointer} {before after done : List Json} {child left : Json} {s s₁ : σ}
      (hbefore : (walkItems (walker.resolveSlot levels) path 0 before).run s = ((done, none), s₁))
      (hlength : done.length = before.length)
      (hslot : SlotSpared walker failing (path.item before.length) child s₁ left) :
      NodeSpared walker failing path (.array (before ++ child :: after)) s (.array (done ++ left :: after))

-- What it leaves of a slot is compared with the node there, or with what a construct there was resolved to.
inductive SlotSpared (walker : Walker σ) (failing : Json.Pointer) : Json.Pointer → Json → σ → Json → Prop
  | unresolved {path : Json.Pointer} {node left : Json} {s : σ}
      (hnode : NodeSpared walker failing path node s left) : SlotSpared walker failing path node s left
  | resolved {path : Json.Pointer} {node replacement left : Json} {s s₁ : σ}
      (hreplaces : walker.Replaces path node s replacement s₁)
      (hslot : SlotSpared walker failing path replacement s₁ left) : SlotSpared walker failing path node s left

end

variable {walker : Walker σ}

theorem keys_standing (slots : List (String × Json × Presence)) :
    Fields.keys (standing slots) = slots.map Prod.fst := by
  rw [Fields.keys, standing, List.map_map]
  rfl

theorem substitute_error_path {path : Json.Pointer} {leaf : String} {node : Json} {error : RenderError} {s s' : σ}
    (h : (walker.substitute path leaf).run s = (⟨node, .error error⟩, s')) : error.path = path :=
  (names_of_substitute h).path_eq.trans (List.append_nil path)

theorem resolveConstruct_error_path {path : Json.Pointer} {construct : Construct} {entries : List (String × Json)}
    {error : RenderError} {s s' : σ} (hdetect : Construct.detect? entries = some construct)
    (h : (walker.resolveConstruct path construct entries).run s = (.error error, s')) : error.path = path := by
  have hnames : Names walker.config path [] (.object entries) error := names_of_resolveConstruct hdetect h
  exact hnames.path_eq.trans (List.append_nil path)

theorem NodeSpared.here {path : Json.Pointer} {node : Json} {error : RenderError} (s : σ)
    (hpath : error.path = path) : walker.NodeSpared error.path path node s node := by
  subst hpath
  exact .itself

-- Where failing slots spare what comes after them, a container with such a slot does.
theorem ContainerFails.spared {levels : Nat} {path : Json.Pointer} {node slot : Json} {trail : Trail}
    {error : RenderError} {s s' : σ}
    (hslot : ∀ {path node trail slot s}, walker.SlotFails levels path node s trail slot error s' →
      walker.SlotSpared error.path path node s (Trail.left trail slot))
    (h : walker.ContainerFails levels path node s trail slot error s') :
    walker.NodeSpared error.path path node s (Trail.left trail slot) := by
  cases h with
  | entry hbefore hfails =>
      exact .entry hbefore ((keys_standing _).trans (keys_of_walkEntries hbefore)) (hslot hfails)
  | item hbefore hfails => exact .item hbefore (length_of_walkItems hbefore) (hslot hfails)

theorem SlotFails.spared {levels : Nat} {path : Json.Pointer} {node slot : Json} {trail : Trail}
    {error : RenderError} {s s' : σ} (h : walker.SlotFails levels path node s trail slot error s') :
    walker.SlotSpared error.path path node s (Trail.left trail slot) := by
  induction levels generalizing path node trail slot s with
  | zero =>
      cases h
      exact .unresolved .itself
  | succ levels ih =>
      cases h with
      | leaf h => exact .unresolved (.here s (substitute_error_path h))
      | construct hdetect h => exact .unresolved (.here s (resolveConstruct_error_path hdetect h))
      | replacement hdetect h hfails => exact .resolved ⟨_, _, rfl, hdetect, h⟩ (ih hfails)
      | inside hplain hfails => exact .unresolved (ContainerFails.spared ih hfails)

-- A failed walk leaves all entries and items after the failing slot alone, in each container on the way to it. The
-- slot itself is the old one, or what a construct there was resolved to.
theorem failed_walk_spares_rest (walker : Walker σ) (root left : Json) (error : RenderError) (s s' : σ)
    (h : (walker.walk root).run s = ((left, some error), s')) :
    walker.NodeSpared error.path Json.Pointer.root root s left := by
  obtain ⟨trail, slot, hfails, rfl⟩ := fails_of_walk h
  cases hfails with
  | leaf h => exact .here s (substitute_error_path h)
  | inside hfails => exact ContainerFails.spared SlotFails.spared hfails

end Walker

-- The walk fails at the second construct, when the first one has been resolved to the object it is in.
def failingChoice : Json :=
  .object [("a", .object [("$if", .string "true"), ("$then", .object [("p", .string "\x7b\x7btrue\x7d\x7d"),
      ("q", .object [("$if", .string "true"), ("$then", .string "\x7b\x7bx\x7d\x7d")]),
      ("r", .string "\x7b\x7by\x7d\x7d")])]),
    ("b", .string "\x7b\x7bz\x7d\x7d")]

theorem failed_walk_spares_rest_of_failingChoice :
    let left := .object [("a", .object [("p", .string "true"), ("q", .string "\x7b\x7bx\x7d\x7d"),
      ("r", .string "\x7b\x7by\x7d\x7d")]), ("b", .string "\x7b\x7bz\x7d\x7d")]
    (bareWalker.walk failingChoice).run () =
        ((left, some (.evaluation "x" ["a", "q"] (.undefinedReference "x"))), ()) ∧
      bareWalker.NodeSpared ["a", "q"] Json.Pointer.root failingChoice () left := by
  intro left
  have hwalk : (bareWalker.walk failingChoice).run () =
      ((left, some (.evaluation "x" ["a", "q"] (.undefinedReference "x"))), ()) := by rfl
  exact ⟨hwalk, Walker.failed_walk_spares_rest bareWalker failingChoice left _ () () hwalk⟩

end JsonTemplate
