import JsonTemplate.Proofs.Template.NormalForm

namespace JsonTemplate

variable {σ : Type}

-- A resolution of a slot: the positions on the way to it from the root, its path, how deep it is, what stands in it
-- then, and the state of the host.
structure Attempt (σ : Type) where
  place : List Nat
  path : Json.Pointer
  depth : Nat
  node : Json
  state : σ

namespace Attempt

-- The root of a template. It is no slot, but the slots in it are one level further down.
def root (node : Json) (s : σ) : Attempt σ := ⟨[], Json.Pointer.root, 0, node, s⟩

-- A slot of a container.
def child (container : Attempt σ) (position : Nat) (path : Json.Pointer) (node : Json) (s : σ) : Attempt σ :=
  ⟨container.place ++ [position], path, container.depth + 1, node, s⟩

-- The same slot with what a construct in it stands for.
def again (attempt : Attempt σ) (replacement : Json) (s : σ) : Attempt σ :=
  { attempt with depth := attempt.depth + 1, node := replacement, state := s }

end Attempt

namespace Walker

-- The slots of an array and of an object, with their paths.
def slotsOfItems (path : Json.Pointer) (position : Nat) (items : List Json) : List (Json.Pointer × Json) :=
  (items.zipIdx position).map fun item => (path.item item.2, item.1)

def slotsOfEntries (path : Json.Pointer) (entries : List (String × Json)) : List (Json.Pointer × Json) :=
  entries.map fun entry => (path.child entry.1, entry.2)

-- Slots that the walk has not come to.
def unresolved (slots : List (Json.Pointer × Json)) : List (Json × Presence) :=
  slots.map fun slot => (slot.2, .present)

-- What an array has in place of a slot.
def itemOf (result : Json × Presence) : Json := if result.2 = .absent then .null else result.1

def entriesOf (entries : List (String × Json)) (results : List (Json × Presence)) :
    List (String × Json × Presence) :=
  entries.zipWith (fun entry result => (entry.1, result)) results

mutual

-- The resolution of a slot, with all resolutions of slots that it takes. Nothing but the depth bounds it, which
-- grows by one from a container to its slots and from a construct to what it stands for.
inductive Resolves (walker : Walker σ) : Attempt σ → List (Attempt σ) → Slot → σ → Prop
  | tooDeep {attempt : Attempt σ} (hdepth : walker.config.maxDepth < attempt.depth) :
      Resolves walker attempt [attempt]
        (.failed attempt.node (.depthExceeded attempt.path walker.config.maxDepth)) attempt.state
  | plain {attempt : Attempt σ} {attempts : List (Attempt σ)} {slot : Slot} {s' : σ}
      (hdepth : attempt.depth ≤ walker.config.maxDepth) (hplain : attempt.node.Plain)
      (hrenders : Renders walker attempt attempts slot s') : Resolves walker attempt (attempt :: attempts) slot s'
  | refused {attempt : Attempt σ} {entries : List (String × Json)} {construct : Construct} {error : RenderError}
      {s' : σ} (hdepth : attempt.depth ≤ walker.config.maxDepth) (hnode : attempt.node = .object entries)
      (hdetect : Construct.detect? entries = some construct)
      (h : (walker.resolveConstruct attempt.path construct entries).run attempt.state = (.error error, s')) :
      Resolves walker attempt [attempt] (.failed attempt.node error) s'
  | vanished {attempt : Attempt σ} {entries : List (String × Json)} {construct : Construct} {s' : σ}
      (hdepth : attempt.depth ≤ walker.config.maxDepth) (hnode : attempt.node = .object entries)
      (hdetect : Construct.detect? entries = some construct)
      (h : (walker.resolveConstruct attempt.path construct entries).run attempt.state = (.ok none, s')) :
      Resolves walker attempt [attempt] ⟨attempt.node, .ok .absent⟩ s'
  | replaced {attempt : Attempt σ} {replacement : Json} {attempts : List (Attempt σ)} {slot : Slot} {s₁ s' : σ}
      (hdepth : attempt.depth ≤ walker.config.maxDepth)
      (hreplaces : walker.Replaces attempt.path attempt.node attempt.state replacement s₁)
      (hslot : Resolves walker (attempt.again replacement s₁) attempts slot s') :
      Resolves walker attempt (attempt :: attempts) slot s'

-- What becomes of a node that is not looked at as a construct.
inductive Renders (walker : Walker σ) : Attempt σ → List (Attempt σ) → Slot → σ → Prop
  | leaf {attempt : Attempt σ} {leaf : String} {slot : Slot} {s' : σ} (hnode : attempt.node = .string leaf)
      (h : (walker.substitute attempt.path leaf).run attempt.state = (slot, s')) :
      Renders walker attempt [] slot s'
  | array {attempt : Attempt σ} {items : List Json} {attempts : List (Attempt σ)} {results : List (Json × Presence)}
      {s' : σ} (hnode : attempt.node = .array items)
      (hslots : ResolvesAll walker attempt 0 (slotsOfItems attempt.path 0 items) attempt.state attempts results
        none s') :
      Renders walker attempt attempts (.present (.array (results.map itemOf))) s'
  | arrayFails {attempt : Attempt σ} {items : List Json} {attempts : List (Attempt σ)}
      {results : List (Json × Presence)} {error : RenderError} {s' : σ} (hnode : attempt.node = .array items)
      (hslots : ResolvesAll walker attempt 0 (slotsOfItems attempt.path 0 items) attempt.state attempts results
        (some error) s') :
      Renders walker attempt attempts (.failed (.array (results.map itemOf)) error) s'
  | object {attempt : Attempt σ} {entries : List (String × Json)} {attempts : List (Attempt σ)}
      {results : List (Json × Presence)} {s' : σ} (hnode : attempt.node = .object entries)
      (hslots : ResolvesAll walker attempt 0 (slotsOfEntries attempt.path entries) attempt.state attempts results
        none s') :
      Renders walker attempt attempts (.present (.object (kept (entriesOf entries results)))) s'
  | objectFails {attempt : Attempt σ} {entries : List (String × Json)} {attempts : List (Attempt σ)}
      {results : List (Json × Presence)} {error : RenderError} {s' : σ} (hnode : attempt.node = .object entries)
      (hslots : ResolvesAll walker attempt 0 (slotsOfEntries attempt.path entries) attempt.state attempts results
        (some error) s') :
      Renders walker attempt attempts (.failed (.object (standing (entriesOf entries results))) error) s'
  | scalar {attempt : Attempt σ} (hstring : ∀ leaf, attempt.node ≠ .string leaf)
      (harray : ∀ items, attempt.node ≠ .array items) (hobject : ∀ entries, attempt.node ≠ .object entries) :
      Renders walker attempt [] (.present attempt.node) attempt.state

-- The resolution of the slots of a container from a position on, up to the first failure.
inductive ResolvesAll (walker : Walker σ) : Attempt σ → Nat → List (Json.Pointer × Json) → σ → List (Attempt σ) →
    List (Json × Presence) → Option RenderError → σ → Prop
  | nil {container : Attempt σ} {position : Nat} {s : σ} : ResolvesAll walker container position [] s [] [] none s
  | failed {container : Attempt σ} {position : Nat} {path : Json.Pointer} {child node : Json}
      {rest : List (Json.Pointer × Json)} {attempts : List (Attempt σ)} {error : RenderError} {s s' : σ}
      (hslot : Resolves walker (container.child position path child s) attempts ⟨node, .error error⟩ s') :
      ResolvesAll walker container position ((path, child) :: rest) s attempts
        ((node, .present) :: unresolved rest) (some error) s'
  | passed {container : Attempt σ} {position : Nat} {path : Json.Pointer} {child node : Json} {presence : Presence}
      {rest : List (Json.Pointer × Json)} {attempts others : List (Attempt σ)} {results : List (Json × Presence)}
      {failure : Option RenderError} {s s₁ s' : σ}
      (hslot : Resolves walker (container.child position path child s) attempts ⟨node, .ok presence⟩ s₁)
      (hrest : ResolvesAll walker container (position + 1) rest s₁ others results failure s') :
      ResolvesAll walker container position ((path, child) :: rest) s (attempts ++ others)
        ((node, presence) :: results) failure s'

end

variable {walker : Walker σ} {levels : Nat}

theorem itemOf_unresolved (path : Json.Pointer) (position : Nat) (items : List Json) :
    (unresolved (slotsOfItems path position items)).map itemOf = items := by
  rw [unresolved, slotsOfItems, List.map_map, List.map_map]
  exact List.zipIdx_map_fst position items

theorem entriesOf_unresolved (path : Json.Pointer) (entries : List (String × Json)) :
    entriesOf entries (unresolved (slotsOfEntries path entries)) = untouched entries := by
  rw [unresolved, slotsOfEntries, List.map_map, entriesOf, List.zipWith_map_right, List.zipWith_self]
  rfl

-- With these levels the walk does all that the resolutions of slots at this depth do.
def Computes (walker : Walker σ) (levels depth : Nat) : Prop :=
  ∀ ⦃attempt attempts slot s'⦄, attempt.depth = depth → walker.Resolves attempt attempts slot s' →
    (walker.resolveSlot levels attempt.path attempt.node).run attempt.state = (slot, s')

section

variable {container : Attempt σ} {path : Json.Pointer} {attempts : List (Attempt σ)}
  {results : List (Json × Presence)} {failure : Option RenderError} {s s' : σ}

theorem walkItems_of_resolvesAll (hslot : walker.Computes levels (container.depth + 1)) {position : Nat}
    {items : List Json}
    (h : walker.ResolvesAll container position (slotsOfItems path position items) s attempts results failure s') :
    (walkItems (walker.resolveSlot levels) path position items).run s = ((results.map itemOf, failure), s') := by
  induction items generalizing position attempts results s with
  | nil => cases h; rfl
  | cons item rest ih =>
      cases h with
      | failed h =>
          refine (walkItems_of_error _ path rest (hslot rfl h)).trans ?_
          rw [List.map_cons]
          exact congrArg (fun rest => ((_ :: rest, _), s')) (itemOf_unresolved path (position + 1) rest).symm
      | passed h hrest => exact walkItems_of_ok _ path (hslot rfl h) (ih hrest)

theorem walkEntries_of_resolvesAll (hslot : walker.Computes levels (container.depth + 1)) {position : Nat}
    {entries : List (String × Json)}
    (h : walker.ResolvesAll container position (slotsOfEntries path entries) s attempts results failure s') :
    (walkEntries (walker.resolveSlot levels) path entries).run s = ((entriesOf entries results, failure), s') := by
  induction entries generalizing position attempts results s with
  | nil => cases h; rfl
  | cons entry rest ih =>
      cases h with
      | failed h =>
          refine (walkEntries_of_error _ path rest (hslot rfl h)).trans ?_
          exact congrArg (fun rest => ((_ :: rest, _), s')) (entriesOf_unresolved path rest).symm
      | passed h hrest => exact walkEntries_of_ok _ path (hslot rfl h) (ih hrest)

end

theorem slotStep_of_renders {attempt : Attempt σ} {attempts : List (Attempt σ)} {slot : Slot} {s' : σ}
    (hslot : walker.Computes levels (attempt.depth + 1)) (hplain : attempt.node.Plain)
    (h : walker.Renders attempt attempts slot s') :
    SlotStep walker levels attempt.path attempt.node attempt.state slot s' := by
  cases h with
  | leaf hnode h => exact hnode ▸ .leaf h
  | array hnode hslots => exact hnode ▸ .array (walkArray_of_ok (walkItems_of_resolvesAll hslot hslots))
  | arrayFails hnode hslots => exact hnode ▸ .array (walkArray_of_error (walkItems_of_resolvesAll hslot hslots))
  | object hnode hslots =>
      exact hnode ▸ .object (hplain _ hnode) (walkObject_of_ok (walkEntries_of_resolvesAll hslot hslots))
  | objectFails hnode hslots =>
      exact hnode ▸ .object (hplain _ hnode) (walkObject_of_error (walkEntries_of_resolvesAll hslot hslots))
  | scalar hstring harray hobject => exact .scalar hstring harray hobject

-- The levels that remain are those from the depth of the slot to the limit.
theorem computes (walker : Walker σ) {levels depth : Nat} (hlevels : levels = walker.config.maxDepth + 1 - depth) :
    walker.Computes levels depth := by
  induction levels generalizing depth with
  | zero =>
      rintro attempt attempts slot s' rfl h
      cases h with
      | tooDeep => rfl
      | plain hdepth | refused hdepth | vanished hdepth | replaced hdepth => omega
  | succ levels ih =>
      rintro attempt attempts slot s' rfl h
      have hlater : walker.Computes levels (attempt.depth + 1) := ih (by omega)
      refine resolveSlot_of_step ?_
      cases h with
      | tooDeep hdepth => omega
      | plain _ hplain hrenders => exact slotStep_of_renders hlater hplain hrenders
      | refused _ hnode hdetect h => exact hnode ▸ .refused hdetect h
      | vanished _ hnode hdetect h => exact hnode ▸ .vanished hdetect h
      | replaced _ hreplaces h =>
          obtain ⟨entries, construct, hnode, hdetect, hrun⟩ := hreplaces
          exact hnode ▸ .replaced hdetect hrun (hlater rfl h)

theorem walk_of_renders {node : Json} {attempts : List (Attempt σ)} {slot : Slot} {s s' : σ}
    (h : walker.Renders (.root node s) attempts slot s') :
    (walker.walk node).run s = ((slot.node, failure? slot.outcome), s') := by
  have hslot : walker.Computes walker.config.maxDepth ((Attempt.root node s).depth + 1) := walker.computes rfl
  refine walk_of_rootStep ?_
  cases h with
  | leaf hnode h => cases hnode; exact .leaf h
  | array hnode hslots => cases hnode; exact .array (walkArray_of_ok (walkItems_of_resolvesAll hslot hslots))
  | arrayFails hnode hslots =>
      cases hnode
      exact .array (walkArray_of_error (walkItems_of_resolvesAll hslot hslots))
  | object hnode hslots =>
      cases hnode
      exact .object (walkObject_of_ok (walkEntries_of_resolvesAll hslot hslots))
  | objectFails hnode hslots =>
      cases hnode
      exact .object (walkObject_of_error (walkEntries_of_resolvesAll hslot hslots))
  | scalar hstring harray hobject => exact .scalar hstring harray hobject

-- A container's slots can be resolved one after the other when each of them can.
theorem exists_resolvesAll {container : Attempt σ}
    (hslot : ∀ child : Attempt σ, child.depth = container.depth + 1 →
      ∃ attempts slot s', walker.Resolves child attempts slot s') (position : Nat)
    (slots : List (Json.Pointer × Json)) (s : σ) :
    ∃ attempts results failure s', walker.ResolvesAll container position slots s attempts results failure s' := by
  induction slots generalizing position s with
  | nil => exact ⟨_, _, _, _, .nil⟩
  | cons slot rest ih =>
      obtain ⟨path, child⟩ := slot
      obtain ⟨attempts, ⟨node, outcome⟩, s₁, h⟩ := hslot (container.child position path child s) rfl
      cases outcome with
      | error error => exact ⟨_, _, _, _, .failed h⟩
      | ok presence =>
          obtain ⟨others, results, failure, s', hrest⟩ := ih (position + 1) s₁
          exact ⟨_, _, _, _, .passed h hrest⟩

theorem exists_renders {attempt : Attempt σ}
    (hslot : ∀ child : Attempt σ, child.depth = attempt.depth + 1 →
      ∃ attempts slot s', walker.Resolves child attempts slot s') :
    ∃ attempts slot s', walker.Renders attempt attempts slot s' := by
  cases hnode : attempt.node with
  | string leaf => exact ⟨_, _, _, .leaf hnode rfl⟩
  | array items =>
      obtain ⟨attempts, results, failure, s', h⟩ :=
        exists_resolvesAll hslot 0 (slotsOfItems attempt.path 0 items) attempt.state
      cases failure with
      | none => exact ⟨_, _, _, .array hnode h⟩
      | some error => exact ⟨_, _, _, .arrayFails hnode h⟩
  | object entries =>
      obtain ⟨attempts, results, failure, s', h⟩ :=
        exists_resolvesAll hslot 0 (slotsOfEntries attempt.path entries) attempt.state
      cases failure with
      | none => exact ⟨_, _, _, .object hnode h⟩
      | some error => exact ⟨_, _, _, .objectFails hnode h⟩
  | null | bool | integer | double =>
      exact ⟨_, _, _, .scalar (by simp [hnode]) (by simp [hnode]) (by simp [hnode])⟩

-- Every slot has a resolution that ends, by induction on how far it is from the depth limit.
theorem exists_resolves (walker : Walker σ) (attempt : Attempt σ) :
    ∃ attempts slot s', walker.Resolves attempt attempts slot s' := by
  induction hlevels : walker.config.maxDepth + 1 - attempt.depth generalizing attempt with
  | zero => exact ⟨_, _, _, .tooDeep (by omega)⟩
  | succ levels ih =>
      have hdepth : attempt.depth ≤ walker.config.maxDepth := by omega
      have hslot (other : Attempt σ) (hother : other.depth = attempt.depth + 1) := ih other (by omega)
      rcases attempt.node.plain_or_construct with hplain | ⟨entries, construct, hnode, hdetect⟩
      · obtain ⟨attempts, slot, s', h⟩ := exists_renders hslot
        exact ⟨_, _, _, .plain hdepth hplain h⟩
      · rcases hrun : (walker.resolveConstruct attempt.path construct entries).run attempt.state with ⟨outcome, s₁⟩
        rcases outcome with error | _ | replacement
        · exact ⟨_, _, _, .refused hdepth hnode hdetect hrun⟩
        · exact ⟨_, _, _, .vanished hdepth hnode hdetect hrun⟩
        · obtain ⟨attempts, slot, s', h⟩ := hslot (attempt.again replacement s₁) rfl
          exact ⟨_, _, _, .replaced hdepth ⟨entries, construct, hnode, hdetect, hrun⟩ h⟩

end Walker

end JsonTemplate
