import JsonTemplate.Proofs.Template.Steps

namespace JsonTemplate

variable {σ : Type}

-- A container on the way from the root of a template to a slot, at the time when the slot is
-- resolved: what became of the slots before it, and the slots after it as they are in the template.
-- An absent item has become null by then.
inductive Level where
  | object (before : List (String × Json × Presence)) (key : String) (after : List (String × Json))
  | array (before after : List Json)

namespace Level

-- The container with a node in the slot and all entries before it, also the absent ones.
def left : Level → Json → Json
  | object before key after, node => .object (Walker.standing before ++ (key, node) :: after)
  | array before after, node => .array (before ++ node :: after)

-- The container with a node in the slot, and with the slots before it as a successful walk of them
-- leaves them.
def settled : Level → Json → Json
  | object before key after, node => .object (Walker.kept before ++ (key, node) :: after)
  | array before after, node => .array (before ++ node :: after)

-- An entry before the slot has resolved to nothing.
def LosesEntry : Level → Prop
  | object before _ _ => ∃ entry ∈ before, entry.2.2 = .absent
  | array _ _ => False

end Level

-- The containers from the root on.
abbrev Trail := List Level

namespace Trail

def left (trail : Trail) (slot : Json) : Json := trail.foldr Level.left slot

def settled (trail : Trail) (slot : Json) : Json := trail.foldr Level.settled slot

end Trail

namespace Walker

mutual

-- The resolution of a node fails at a slot within it, reached along a trail. The slot is the node
-- itself, what a construct in its place stands for, or a slot further inside.
inductive SlotFails (walker : Walker σ) :
    Nat → Json.Pointer → Json → σ → Trail → Json → RenderError → σ → Prop
  | tooDeep {path : Json.Pointer} {node : Json} {s : σ} :
      SlotFails walker 0 path node s [] node (.depthExceeded path walker.config.maxDepth) s
  | leaf {levels : Nat} {path : Json.Pointer} {leaf : String} {error : RenderError} {s s' : σ}
      (h : (walker.substitute path leaf).run s = (.failed (.string leaf) error, s')) :
      SlotFails walker (levels + 1) path (.string leaf) s [] (.string leaf) error s'
  | construct {levels : Nat} {path : Json.Pointer} {entries : List (String × Json)}
      {construct : Construct} {error : RenderError} {s s' : σ}
      (hdetect : Construct.detect? entries = some construct)
      (h : (walker.resolveConstruct path construct entries).run s = (.error error, s')) :
      SlotFails walker (levels + 1) path (.object entries) s [] (.object entries) error s'
  | replacement {levels : Nat} {path : Json.Pointer} {entries : List (String × Json)}
      {construct : Construct} {replacement : Json} {trail : Trail} {slot : Json}
      {error : RenderError} {s s₁ s' : σ}
      (hdetect : Construct.detect? entries = some construct)
      (h : (walker.resolveConstruct path construct entries).run s = (.ok (some replacement), s₁))
      (hfails : SlotFails walker levels path replacement s₁ trail slot error s') :
      SlotFails walker (levels + 1) path (.object entries) s trail slot error s'
  | inside {levels : Nat} {path : Json.Pointer} {node : Json} {trail : Trail} {slot : Json}
      {error : RenderError} {s s' : σ}
      (hplain : ∀ entries, node = .object entries → Construct.detect? entries = none)
      (hfails : ContainerFails walker levels path node s trail slot error s') :
      SlotFails walker (levels + 1) path node s trail slot error s'

-- The slots before the failing one were resolved one after the other.
inductive ContainerFails (walker : Walker σ) :
    Nat → Json.Pointer → Json → σ → Trail → Json → RenderError → σ → Prop
  | entry {levels : Nat} {path : Json.Pointer} {before after : List (String × Json)} {key : String}
      {child : Json} {done : List (String × Json × Presence)} {trail : Trail} {slot : Json}
      {error : RenderError} {s s₁ s' : σ}
      (hbefore : (walkEntries (walker.resolveSlot levels) path before).run s = ((done, none), s₁))
      (hfails : SlotFails walker levels (path.child key) child s₁ trail slot error s') :
      ContainerFails walker levels path (.object (before ++ (key, child) :: after)) s
        (.object done key after :: trail) slot error s'
  | item {levels : Nat} {path : Json.Pointer} {before after : List Json} {child : Json}
      {done : List Json} {trail : Trail} {slot : Json} {error : RenderError} {s s₁ s' : σ}
      (hbefore : (walkItems (walker.resolveSlot levels) path 0 before).run s = ((done, none), s₁))
      (hfails : SlotFails walker levels (path.item before.length) child s₁ trail slot error s') :
      ContainerFails walker levels path (.array (before ++ child :: after)) s
        (.array done after :: trail) slot error s'

end

-- How the walk of a template fails. Its root is no construct and no slot of a container.
inductive Fails (walker : Walker σ) : Json → σ → Trail → Json → RenderError → σ → Prop
  | leaf {leaf : String} {error : RenderError} {s s' : σ}
      (h : (walker.substitute Json.Pointer.root leaf).run s = (.failed (.string leaf) error, s')) :
      Fails walker (.string leaf) s [] (.string leaf) error s'
  | inside {root : Json} {trail : Trail} {slot : Json} {error : RenderError} {s s' : σ}
      (hfails : ContainerFails walker walker.config.maxDepth Json.Pointer.root root s trail slot error s') :
      Fails walker root s trail slot error s'

end Walker

end JsonTemplate
