import JsonTemplate.Proofs.Template.Steps

namespace JsonTemplate

variable {σ : Type}

-- What a slot became, without the reason of a failure: nothing after a failure, and no node if the
-- slot is absent.
def Slot.result? (slot : Slot) : Option (Option Json) :=
  match slot.outcome with
  | .error _ => none
  | .ok .absent => some none
  | .ok .present => some (some slot.node)

namespace Walker

section

variable (render : Json → Option (Option Json))

-- The entries of a rendered object, without those that are absent.
def renderEntries : List (String × Json) → Option (List (String × Json))
  | [] => some []
  | (key, child) :: rest => do
      let node? ← render child
      let others ← renderEntries rest
      return (node?.map fun node => (key, node)).toList ++ others

-- The items of a rendered array, with null for those that are absent.
def renderItems : List Json → Option (List Json)
  | [] => some []
  | child :: rest => do
      let node? ← render child
      let others ← renderItems rest
      return node?.getD .null :: others

end

theorem renderEntries_cons_eq_some_iff {render : Json → Option (Option Json)} {key : String} {child : Json}
    {rest kept : List (String × Json)} :
    renderEntries render ((key, child) :: rest) = some kept ↔
      ∃ node? others, render child = some node? ∧ renderEntries render rest = some others ∧
        kept = (node?.map fun node => (key, node)).toList ++ others := by
  simp only [renderEntries, Option.bind_eq_bind, Option.bind_eq_some_iff, Option.pure_def, Option.some_inj]
  constructor
  · rintro ⟨node?, hnode, others, hothers, rfl⟩
    exact ⟨node?, others, hnode, hothers, rfl⟩
  · rintro ⟨node?, others, hnode, hothers, rfl⟩
    exact ⟨node?, hnode, others, hothers, rfl⟩

theorem renderItems_cons_eq_some_iff {render : Json → Option (Option Json)} {child : Json}
    {rest nodes : List Json} :
    renderItems render (child :: rest) = some nodes ↔
      ∃ node? others, render child = some node? ∧ renderItems render rest = some others ∧
        nodes = node?.getD .null :: others := by
  simp only [renderItems, Option.bind_eq_bind, Option.bind_eq_some_iff, Option.pure_def, Option.some_inj]
  constructor
  · rintro ⟨node?, hnode, others, hothers, rfl⟩
    exact ⟨node?, others, hnode, hothers, rfl⟩
  · rintro ⟨node?, others, hnode, hothers, rfl⟩
    exact ⟨node?, hnode, others, hothers, rfl⟩

-- What templates become when every expression has a fixed value, or none.
variable (config : Config) (value? : String → Option Value)

def renderLeaf (leaf : String) : Option Json :=
  match config.delimiters.find? leaf with
  | none => some (.string leaf)
  | some placeholder => do
      let value ← value? (String.ofList placeholder.expression)
      if config.preserveWholeLeafTypes && placeholder.isWhole then value.toJson.toOption
      else return .string (String.ofList (Text.replaceAll placeholder.span value.text.toList leaf.toList))

def renderConstruct (construct : Construct) (entries : Fields Json) : Option (Option Json) := do
  let expression ← (entries.get? construct.key).bind Json.string?
  let value ← value? expression
  (construct.select entries value).toOption

def renderSlot : Nat → Json → Option (Option Json)
  | 0, _ => none
  | levels + 1, node =>
      match node with
      | .string leaf => (renderLeaf config value? leaf).map some
      | .array items => ((renderItems (renderSlot levels) items).map .array).map some
      | .object entries =>
          match Construct.detect? entries with
          | none => ((renderEntries (renderSlot levels) entries).map .object).map some
          | some construct => do
              match ← renderConstruct value? construct entries with
              | none => return none
              | some replacement => renderSlot levels replacement
      | _ => some (some node)

def renderRoot (root : Json) : Option Json :=
  match root with
  | .string leaf => renderLeaf config value? leaf
  | .array items => (renderItems (renderSlot config value? config.maxDepth) items).map .array
  | .object entries => (renderEntries (renderSlot config value? config.maxDepth) entries).map .object
  | _ => some root

-- The expressions have these values for the walker in every state.
def Yields (walker : Walker σ) (value? : String → Option Value) : Prop :=
  ∀ source s, ((walker.evaluate source).run.run s).1.toOption = value? source

variable {config value?} {walker : Walker σ} {path : Json.Pointer}

theorem Yields.eq_some (h : walker.Yields value?) {source : String} {value : Value} {s s' : σ}
    (hrun : (walker.evaluate source).run.run s = (.ok value, s')) : value? source = some value := by
  rw [← h source s, hrun]
  rfl

theorem Yields.eq_none (h : walker.Yields value?) {source : String} {cause : EvalError} {s s' : σ}
    (hrun : (walker.evaluate source).run.run s = (.error cause, s')) : value? source = none := by
  rw [← h source s, hrun]
  rfl

theorem result?_substitute (h : walker.Yields value?) (leaf : String) (s : σ) :
    ((walker.substitute path leaf).run s).1.result? = (renderLeaf walker.config value? leaf).map some := by
  rcases hrun : (walker.substitute path leaf).run s with ⟨slot, s'⟩
  unfold renderLeaf
  cases substitute_step hrun with
  | plain hfind => rw [hfind]; rfl
  | refused hfind heval => simp only [hfind, h.eq_none heval]; rfl
  | typed hfind heval hwhole hjson =>
      simp only [hfind, h.eq_some heval, hwhole, Option.bind_eq_bind, Option.bind_some, ite_true, hjson]
      rfl
  | untyped hfind heval hwhole hjson =>
      simp only [hfind, h.eq_some heval, hwhole, Option.bind_eq_bind, Option.bind_some, ite_true, hjson]
      rfl
  | spliced hfind heval hwhole => simp only [hfind, h.eq_some heval, hwhole]; rfl

theorem toOption_resolveConstruct (h : walker.Yields value?) (construct : Construct) (entries : Fields Json)
    (s : σ) :
    ((walker.resolveConstruct path construct entries).run s).1.toOption =
      renderConstruct value? construct entries := by
  rcases hrun : (walker.resolveConstruct path construct entries).run s with ⟨outcome, s'⟩
  unfold renderConstruct
  cases resolveConstruct_step hrun with
  | invalid hcontrol =>
      have hnone : (entries.get? construct.key).bind Json.string? = none := by
        cases hget : entries.get? construct.key with
        | none => rfl
        | some node =>
            cases node with
            | string expression => exact absurd hget (hcontrol expression)
            | null | bool | integer | double | array | object => rfl
      rw [hnone]
      rfl
  | refused hcontrol heval =>
      simp only [hcontrol, Option.bind_some, Json.string?, h.eq_none heval, Option.bind_eq_bind]
      rfl
  | selected hcontrol heval =>
      simp only [hcontrol, Option.bind_some, Json.string?, h.eq_some heval, Option.bind_eq_bind]
      cases construct.select entries _ <;> rfl

section

variable {resolve : Json.Pointer → Json → StateM σ Slot} {render : Json → Option (Option Json)}
  (h : ∀ path node s, ((resolve path node).run s).1.result? = render node)

include h

theorem render_of_error {child node : Json} {error : RenderError} {s s' : σ}
    (hslot : (resolve path child).run s = (⟨node, .error error⟩, s')) : render child = none := by
  rw [← h path child s, hslot]
  rfl

theorem render_of_ok {child node : Json} {presence : Presence} {s s' : σ}
    (hslot : (resolve path child).run s = (⟨node, .ok presence⟩, s')) :
    render child = some (if presence = .present then some node else none) := by
  rw [← h path child s, hslot]
  cases presence <;> rfl

variable (path) in
theorem kept_walkEntries (entries : List (String × Json)) (s : σ) :
    let ended := ((walkEntries resolve path entries).run s).1
    (if ended.2.isNone then some (kept ended.1) else none) = renderEntries render entries := by
  induction entries generalizing s with
  | nil => rfl
  | cons entry rest ih =>
      obtain ⟨key, child⟩ := entry
      rcases hslot : (resolve (path.child key) child).run s with ⟨⟨node, outcome⟩, s₁⟩
      cases outcome with
      | error error =>
          rw [walkEntries_of_error resolve path rest hslot, renderEntries, render_of_error h hslot]
          rfl
      | ok presence =>
          rcases hrest : (walkEntries resolve path rest).run s₁ with ⟨⟨slots, failure⟩, s₂⟩
          have hothers := ih s₁
          rw [hrest] at hothers
          rw [walkEntries_of_ok resolve path hslot hrest, renderEntries, render_of_ok h hslot, ← hothers]
          cases failure <;> cases presence <;> rfl

variable (path) in
theorem nodes_walkItems (position : Nat) (items : List Json) (s : σ) :
    let ended := ((walkItems resolve path position items).run s).1
    (if ended.2.isNone then some ended.1 else none) = renderItems render items := by
  induction items generalizing position s with
  | nil => rfl
  | cons child rest ih =>
      rcases hslot : (resolve (path.item position) child).run s with ⟨⟨node, outcome⟩, s₁⟩
      cases outcome with
      | error error =>
          rw [walkItems_of_error resolve path rest hslot, renderItems, render_of_error h hslot]
          rfl
      | ok presence =>
          rcases hrest : (walkItems resolve path (position + 1) rest).run s₁ with ⟨⟨nodes, failure⟩, s₂⟩
          have hothers := ih (position + 1) s₁
          rw [hrest] at hothers
          rw [walkItems_of_ok resolve path hslot hrest, renderItems, render_of_ok h hslot, ← hothers]
          cases failure <;> cases presence <;> rfl

theorem result?_walkObject (entries : List (String × Json)) (s : σ) :
    ((walkObject resolve path entries).run s).1.result? =
      ((renderEntries render entries).map .object).map some := by
  rcases hrun : (walkEntries resolve path entries).run s with ⟨⟨slots, failure⟩, s'⟩
  have hentries := kept_walkEntries path h entries s
  rw [hrun] at hentries
  rw [← hentries]
  cases failure with
  | none => rw [walkObject_of_ok hrun]; rfl
  | some error => rw [walkObject_of_error hrun]; rfl

theorem result?_walkArray (items : List Json) (s : σ) :
    ((walkArray resolve path items).run s).1.result? =
      ((renderItems render items).map .array).map some := by
  rcases hrun : (walkItems resolve path 0 items).run s with ⟨⟨nodes, failure⟩, s'⟩
  have hitems := nodes_walkItems path h 0 items s
  rw [hrun] at hitems
  rw [← hitems]
  cases failure with
  | none => rw [walkArray_of_ok hrun]; rfl
  | some error => rw [walkArray_of_error hrun]; rfl

end

-- A slot becomes the same in every state and at every path.
theorem result?_resolveSlot (h : walker.Yields value?) (levels : Nat) (path : Json.Pointer) (node : Json)
    (s : σ) :
    ((walker.resolveSlot levels path node).run s).1.result? = renderSlot walker.config value? levels node := by
  induction levels generalizing path node s with
  | zero => rfl
  | succ levels ih =>
      rcases hrun : (walker.resolveSlot (levels + 1) path node).run s with ⟨slot, s'⟩
      cases resolveSlot_step hrun with
      | leaf hleaf =>
          rw [renderSlot, ← result?_substitute h, hleaf]
      | array hitems =>
          rw [renderSlot, ← result?_walkArray ih, hitems]
      | object hplain hentries =>
          simp only [renderSlot, hplain]
          rw [← result?_walkObject ih, hentries]
      | refused hdetect hconstruct =>
          simp only [renderSlot, hdetect]
          rw [← toOption_resolveConstruct h, hconstruct]
          rfl
      | vanished hdetect hconstruct =>
          simp only [renderSlot, hdetect]
          rw [← toOption_resolveConstruct h, hconstruct]
          rfl
      | replaced hdetect hconstruct hslot =>
          simp only [renderSlot, hdetect]
          rw [← toOption_resolveConstruct h, hconstruct]
          exact (congrArg (fun ended => ended.1.result?) hslot).symm.trans (ih path _ _)
      | scalar hstring harray hobject =>
          cases node with
          | string leaf => exact absurd rfl (hstring leaf)
          | array items => exact absurd rfl (harray items)
          | object entries => exact absurd rfl (hobject entries)
          | null | bool | integer | double => rfl

theorem result?_of_rootStep (h : walker.Yields value?) {root : Json} {slot : Slot} {s s' : σ}
    (hstep : RootStep walker root s slot s') :
    slot.result? = (renderRoot walker.config value? root).map some := by
  cases hstep with
  | leaf hleaf => rw [renderRoot, ← result?_substitute h, hleaf]
  | array hitems =>
      rw [renderRoot, ← result?_walkArray (result?_resolveSlot h _), hitems]
  | object hentries =>
      rw [renderRoot, ← result?_walkObject (result?_resolveSlot h _), hentries]
  | scalar hstring harray hobject =>
      cases root with
      | string leaf => exact absurd rfl (hstring leaf)
      | array items => exact absurd rfl (harray items)
      | object entries => exact absurd rfl (hobject entries)
      | null | bool | integer | double => rfl

theorem renderRoot_eq_of_walk (h : walker.Yields value?) {root node : Json} {failure : Option RenderError}
    {s s' : σ} (hwalk : (walker.walk root).run s = ((node, failure), s')) :
    renderRoot walker.config value? root = if failure.isNone then some node else none := by
  obtain ⟨outcome, hstep, rfl⟩ := rootStep_of_walk hwalk
  have hresult := result?_of_rootStep h hstep
  rcases hroot : renderRoot walker.config value? root with _ | rendered <;> rw [hroot] at hresult <;>
    rcases outcome with error | _ | _ <;> cases hresult <;> rfl

end Walker

end JsonTemplate
