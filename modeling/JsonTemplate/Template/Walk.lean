import JsonTemplate.Config
import JsonTemplate.Evaluation
import JsonTemplate.Template.Error

namespace JsonTemplate

variable {σ : Type}

-- Whether a slot still has a value. A construct without a matching branch or case has none.
inductive Presence where
  | present
  | absent
deriving DecidableEq, Repr

-- What became of a slot: its node as it stands, and how its resolution ended. After a failure the
-- node is as far rendered as the walk had come.
structure Slot where
  node : Json
  outcome : Except RenderError Presence

namespace Slot

def present (node : Json) : Slot := ⟨node, .ok .present⟩

def failed (node : Json) (error : RenderError) : Slot := ⟨node, .error error⟩

end Slot

-- Evaluates the expressions of a template and knows its configuration.
structure Walker (σ : Type) where
  evaluate : String → Eval σ Value
  config : Config

namespace Walker

-- A text with its placeholder replaced by the result. Every copy of the placeholder is replaced.
def substitute (walker : Walker σ) (path : Json.Pointer) (leaf : String) : StateM σ Slot := do
  match walker.config.delimiters.find? leaf with
  | none => return .present (.string leaf)
  | some placeholder =>
      let expression := String.ofList placeholder.expression
      match ← (walker.evaluate expression).run with
      | .error cause => return .failed (.string leaf) (.evaluation expression path cause)
      | .ok value =>
          if walker.config.preserveWholeLeafTypes && placeholder.isWhole then
            match value.toJson with
            | .ok json => return .present json
            | .error cause => return .failed (.string leaf) (.conversion path cause)
          else
            let text := Text.replaceAll placeholder.span value.text.toList leaf.toList
            return .present (.string (String.ofList text))

-- What a construct stands for.
def resolveConstruct (walker : Walker σ) (path : Json.Pointer) (construct : Construct)
    (entries : Fields Json) : StateM σ (Except RenderError (Option Json)) := do
  match entries.get? construct.key with
  | some (.string expression) =>
      match ← (walker.evaluate expression).run with
      | .error cause => return .error (.evaluation expression path cause)
      | .ok value => return (construct.select entries value).mapError (.conversion path)
  | _ => return .error (.invalidConstruct construct path)

-- Resolves the entries of an object in their order, up to the first failure.
def walkEntries (resolve : Json.Pointer → Json → StateM σ Slot) (path : Json.Pointer) :
    List (String × Json) → StateM σ (List (String × Json × Presence) × Option RenderError)
  | [] => return ([], none)
  | (key, child) :: rest => do
      let slot ← resolve (path.child key) child
      match slot.outcome with
      | .error error =>
          let untouched := rest.map fun (key, child) => (key, child, Presence.present)
          return ((key, slot.node, .present) :: untouched, some error)
      | .ok presence =>
          let (others, failure) ← walkEntries resolve path rest
          return ((key, slot.node, presence) :: others, failure)

-- Resolves the items of an array in their order, up to the first failure. An absent item leaves
-- null, so that the others keep their positions.
def walkItems (resolve : Json.Pointer → Json → StateM σ Slot) (path : Json.Pointer) :
    Nat → List Json → StateM σ (List Json × Option RenderError)
  | _, [] => return ([], none)
  | position, child :: rest => do
      let slot ← resolve (path.item position) child
      match slot.outcome with
      | .error error => return (slot.node :: rest, some error)
      | .ok presence =>
          let (others, failure) ← walkItems resolve path (position + 1) rest
          return ((if presence = .absent then .null else slot.node) :: others, failure)

private def ended (node : Json) : Option RenderError → Slot
  | none => .present node
  | some error => .failed node error

-- An object loses its absent entries after all of them were resolved. After a failure it keeps them.
def walkObject (resolve : Json.Pointer → Json → StateM σ Slot) (path : Json.Pointer)
    (entries : List (String × Json)) : StateM σ Slot := do
  let (slots, failure) ← walkEntries resolve path entries
  let kept := if failure.isNone then slots.filter (·.2.2 = .present) else slots
  return ended (.object (kept.map fun (key, node, _) => (key, node))) failure

def walkArray (resolve : Json.Pointer → Json → StateM σ Slot) (path : Json.Pointer)
    (items : List Json) : StateM σ Slot := do
  let (nodes, failure) ← walkItems resolve path 0 items
  return ended (.array nodes) failure

-- Resolves a slot within a number of remaining levels. What a construct stands for is resolved in
-- its place, one level further down.
def resolveSlot (walker : Walker σ) : Nat → Json.Pointer → Json → StateM σ Slot
  | 0, path, node => return .failed node (.depthExceeded path walker.config.maxDepth)
  | levels + 1, path, node =>
      match node with
      | .string leaf => walker.substitute path leaf
      | .array items => walkArray (walker.resolveSlot levels) path items
      | .object entries =>
          match Construct.detect? entries with
          | none => walkObject (walker.resolveSlot levels) path entries
          | some construct => do
              match ← walker.resolveConstruct path construct entries with
              | .error error => return .failed node error
              | .ok none => return ⟨node, .ok .absent⟩
              | .ok (some replacement) => walker.resolveSlot levels path replacement
      | _ => return .present node

-- Renders a template. The root itself is never a construct.
def walk (walker : Walker σ) (root : Json) : StateM σ (Json × Option RenderError) := do
  let resolve := walker.resolveSlot walker.config.maxDepth
  let slot ←
    match root with
    | .string leaf => walker.substitute Json.Pointer.root leaf
    | .array items => walkArray resolve Json.Pointer.root items
    | .object entries => walkObject resolve Json.Pointer.root entries
    | _ => pure (.present root)
  return (slot.node, match slot.outcome with
    | .ok _ => none
    | .error error => some error)

end Walker

end JsonTemplate
