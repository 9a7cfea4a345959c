import JsonTemplate.Proofs.Json.Pointer
import JsonTemplate.Proofs.Template.NormalForm
import JsonTemplate.Proofs.Template.PartialTree
import JsonTemplate.Proofs.Value.WellFormed

namespace JsonTemplate

variable {σ : Type}

namespace Level

-- How a pointer names the slot in its container.
def step : Level → String
  | object _ key _ => key
  | array before _ => Nat.repr before.length

-- The container has no other entry under the key of the slot.
def Distinct : Level → Prop
  | object before key after => key ∉ before.map Prod.fst ∧ key ∉ Fields.keys after
  | array _ _ => True

theorem leads_left_iff {level : Level} (h : level.Distinct) (child node : Json) (pointer : Json.Pointer) :
    (level.left child).Leads (level.step :: pointer) node ↔ child.Leads pointer node := by
  cases level with
  | object before key after =>
      constructor
      · intro hleads
        rw [left, step] at hleads
        cases hleads with
        | entry hmem hin =>
            rcases List.mem_append.mp hmem with hbefore | hmem
            · obtain ⟨entry, hentry, heq⟩ := List.mem_map.mp hbefore
              cases heq
              exact absurd (List.mem_map_of_mem hentry) h.1
            · rcases List.mem_cons.mp hmem with heq | hafter
              · cases heq
                exact hin
              · exact absurd (List.mem_map_of_mem hafter) h.2
      · exact .entry (List.mem_append_right _ List.mem_cons_self)
  | array before after =>
      constructor
      · intro hleads
        rw [left, step] at hleads
        generalize hkey : Nat.repr before.length = key at hleads
        cases hleads with
        | item hget hin =>
            rw [← Json.repr_injective hkey, List.getElem?_append_right (Nat.le_refl _), Nat.sub_self] at hget
            cases hget
            exact hin
      · refine .item ?_
        rw [List.getElem?_append_right (Nat.le_refl _), Nat.sub_self]
        rfl

end Level

namespace Trail

def pointer (trail : Trail) : Json.Pointer := trail.map Level.step

theorem leads_left_iff {trail : Trail} (h : ∀ level ∈ trail, level.Distinct) (slot node : Json) :
    (trail.left slot).Leads trail.pointer node ↔ node = slot := by
  induction trail with
  | nil =>
      constructor
      · intro hleads
        cases hleads
        rfl
      · rintro rfl
        exact .here
  | cons level trail ih =>
      obtain ⟨hlevel, htrail⟩ := List.forall_mem_cons.mp h
      exact (Level.leads_left_iff hlevel _ node _).trans (ih htrail)

end Trail

-- What is at the slot of an error. What fails to convert is the value of an $eval construct or of a
-- text that is one placeholder and nothing else.
def RenderError.Fits (config : Config) (slot : Json) : RenderError → Prop
  | evaluation expression _ _ =>
      (∃ leaf placeholder, slot = .string leaf ∧ config.delimiters.find? leaf = some placeholder ∧
        expression = String.ofList placeholder.expression) ∨
      ∃ entries construct, slot = .object entries ∧ Construct.detect? entries = some construct ∧
        Fields.get? entries construct.key = some (.string expression)
  | invalidConstruct construct _ =>
      ∃ entries, slot = .object entries ∧ Construct.detect? entries = some construct ∧
        ∃ control, Fields.get? entries construct.key = some control ∧ control.string? = none
  | conversion _ _ =>
      (∃ entries, slot = .object entries ∧ Construct.detect? entries = some .eval) ∨
      ∃ leaf placeholder, slot = .string leaf ∧ config.delimiters.find? leaf = some placeholder ∧
        placeholder.isWhole = true
  | depthExceeded _ maxDepth => maxDepth = config.maxDepth

namespace Construct

theorem get?_of_detect? {entries : Fields Json} {construct : Construct}
    (h : detect? entries = some construct) : ∃ control, entries.get? construct.key = some control := by
  rw [detect?] at h
  exact Option.isSome_iff_exists.mp (List.find?_some h :)

-- Only the value of $eval may have no JSON form.
theorem eq_eval_of_select_error {construct : Construct} {entries : Fields Json} {value : Value}
    {cause : EvalError} (h : construct.select entries value = .error cause) : construct = .eval := by
  cases construct with
  | eval => rfl
  | choice | switch => cases h

theorem wellFormed_select {construct : Construct} {entries : Fields Json} {value : Value}
    {replacement : Json} (hentries : (Json.object entries).WellFormed) (hvalue : value.WellFormed)
    (h : construct.select entries value = .ok (some replacement)) : replacement.WellFormed := by
  have hchild {key : String} (hget : entries.get? key = some replacement) : replacement.WellFormed :=
    hentries.entry (Fields.mem_of_get? hget)
  cases construct with
  | choice | switch => exact hchild (Except.ok.inj h)
  | eval =>
      obtain ⟨json, hjson, heq⟩ := exists_of_map_eq_ok h
      cases heq
      exact Value.wellFormed_toJson hvalue hjson

end Construct

namespace Walker

variable {walker : Walker σ} {config : Config}

theorem length_of_walkItems {resolve : Json.Pointer → Json → StateM σ Slot} {path : Json.Pointer}
    {position : Nat} {items nodes : List Json} {s s' : σ}
    (h : (walkItems resolve path position items).run s = ((nodes, none), s')) :
    nodes.length = items.length := by
  induction items generalizing position nodes s with
  | nil => cases h; rfl
  | cons child rest ih =>
      rcases hslot : (resolve (path.item position) child).run s with ⟨⟨node, outcome⟩, s₁⟩
      cases outcome with
      | error error => rw [walkItems_of_error resolve path rest hslot] at h; cases h
      | ok presence =>
          rcases hrest : (walkItems resolve path (position + 1) rest).run s₁ with ⟨⟨others, found⟩, s₂⟩
          rw [walkItems_of_ok resolve path hslot hrest] at h
          cases h
          exact congrArg Nat.succ (ih hrest)

-- An error at the end of a trail names its slot: by its path, which no other slot of the containers
-- has, and by what is there.
structure Names (config : Config) (path : Json.Pointer) (trail : Trail) (slot : Json)
    (error : RenderError) : Prop where
  path_eq : error.path = path ++ trail.pointer
  distinct : ∀ level ∈ trail, level.Distinct
  fits : error.Fits config slot

theorem Names.here {path : Json.Pointer} {slot : Json} {error : RenderError} (hpath : error.path = path)
    (hfits : error.Fits config slot) : Names config path [] slot error where
  path_eq := hpath.trans (List.append_nil path).symm
  distinct := List.forall_mem_nil _
  fits := hfits

theorem Names.cons {path : Json.Pointer} {level : Level} {trail : Trail} {slot : Json} {error : RenderError}
    (hlevel : level.Distinct) (h : Names config (path.child level.step) trail slot error) :
    Names config path (level :: trail) slot error where
  path_eq := by rw [h.path_eq, Json.Pointer.child, List.append_assoc]; rfl
  distinct := List.forall_mem_cons.mpr ⟨hlevel, h.distinct⟩
  fits := h.fits

theorem names_of_substitute {path : Json.Pointer} {leaf : String} {node : Json} {error : RenderError}
    {s s' : σ} (h : (walker.substitute path leaf).run s = (⟨node, .error error⟩, s')) :
    Names walker.config path [] (.string leaf) error := by
  cases substitute_step h with
  | refused hfind => exact .here rfl (.inl ⟨leaf, _, rfl, hfind, rfl⟩)
  | untyped hfind _ hwhole =>
      exact .here rfl (.inr ⟨leaf, _, rfl, hfind, (Bool.and_eq_true_iff.mp hwhole).2⟩)

theorem names_of_resolveConstruct {path : Json.Pointer} {construct : Construct}
    {entries : List (String × Json)} {error : RenderError} {s s' : σ}
    (hdetect : Construct.detect? entries = some construct)
    (h : (walker.resolveConstruct path construct entries).run s = (.error error, s')) :
    Names config path [] (.object entries) error := by
  generalize houtcome : (Except.error error : Except RenderError (Option Json)) = outcome at h
  cases resolveConstruct_step h with
  | invalid hcontrol =>
      cases houtcome
      obtain ⟨control, hget⟩ := Construct.get?_of_detect? hdetect
      refine .here rfl ⟨entries, rfl, hdetect, control, hget, ?_⟩
      cases control with
      | string expression => exact absurd hget (hcontrol expression)
      | _ => rfl
  | refused hcontrol =>
      cases houtcome
      exact .here rfl (.inr ⟨entries, construct, rfl, hdetect, hcontrol⟩)
  | selected hcontrol heval =>
      rename_i expression value
      cases hselect : construct.select entries value with
      | ok chosen => rw [hselect] at houtcome; cases houtcome
      | error cause =>
          rw [hselect] at houtcome
          cases houtcome
          obtain rfl := Construct.eq_eval_of_select_error hselect
          exact .here rfl (.inl ⟨entries, rfl, hdetect⟩)

theorem wellFormed_of_resolveConstruct
    (hvalues : ∀ source, Eval.Gives (walker.evaluate source) Value.WellFormed) {path : Json.Pointer}
    {construct : Construct} {entries : List (String × Json)} {replacement : Json} {s s' : σ}
    (hentries : (Json.object entries).WellFormed)
    (h : (walker.resolveConstruct path construct entries).run s = (.ok (some replacement), s')) :
    replacement.WellFormed := by
  generalize houtcome : (Except.ok (some replacement) : Except RenderError (Option Json)) = outcome at h
  cases resolveConstruct_step h with
  | invalid | refused => cases houtcome
  | selected hcontrol heval =>
      rename_i expression value
      cases hselect : construct.select entries value with
      | error cause => rw [hselect] at houtcome; cases houtcome
      | ok chosen =>
          rw [hselect] at houtcome
          cases houtcome
          exact Construct.wellFormed_select hentries (hvalues expression s value s' heval) hselect

-- Where errors name the slots of single nodes, they name those of a container.
theorem ContainerFails.names {levels : Nat} {path : Json.Pointer} {node slot : Json} {trail : Trail}
    {error : RenderError} {s s' : σ}
    (hslot : ∀ {path node trail slot s}, node.WellFormed →
      walker.SlotFails levels path node s trail slot error s' → Names walker.config path trail slot error)
    (hnode : node.WellFormed) (h : walker.ContainerFails levels path node s trail slot error s') :
    Names walker.config path trail slot error := by
  cases h with
  | entry hbefore hfails =>
      rename_i before after key child done trail s₁
      have hkeys := hnode.keys_nodup
      rw [Fields.keys, List.map_append, List.map_cons, List.nodup_append] at hkeys
      have hdone : done.map Prod.fst = before.map Prod.fst := keys_of_walkEntries hbefore
      refine (hslot (hnode.entry (List.mem_append_right _ List.mem_cons_self)) hfails).cons ⟨?_, ?_⟩
      · intro hmem
        rw [hdone] at hmem
        exact hkeys.2.2 key hmem key List.mem_cons_self rfl
      · exact (List.nodup_cons.mp hkeys.2.1).1
  | item hbefore hfails =>
      rename_i before after child done trail s₁
      rw [← length_of_walkItems hbefore] at hfails
      exact (hslot (hnode.item (List.mem_append_right _ List.mem_cons_self)) hfails).cons trivial

theorem SlotFails.names (hvalues : ∀ source, Eval.Gives (walker.evaluate source) Value.WellFormed)
    {levels : Nat} {path : Json.Pointer} {node slot : Json} {trail : Trail} {error : RenderError} {s s' : σ}
    (hnode : node.WellFormed) (h : walker.SlotFails levels path node s trail slot error s') :
    Names walker.config path trail slot error := by
  induction levels generalizing path node trail slot s with
  | zero =>
      cases h
      exact .here rfl rfl
  | succ levels ih =>
      cases h with
      | leaf h => exact names_of_substitute h
      | construct hdetect h => exact names_of_resolveConstruct hdetect h
      | replacement hdetect h hfails => exact ih (wellFormed_of_resolveConstruct hvalues hnode h) hfails
      | inside hplain hfails => exact ContainerFails.names ih hnode hfails

theorem Fails.names (hvalues : ∀ source, Eval.Gives (walker.evaluate source) Value.WellFormed)
    {root slot : Json} {trail : Trail} {error : RenderError} {s s' : σ} (hroot : root.WellFormed)
    (h : walker.Fails root s trail slot error s') : Names walker.config Json.Pointer.root trail slot error := by
  cases h with
  | leaf h => exact names_of_substitute h
  | inside hfails => exact ContainerFails.names (SlotFails.names hvalues) hroot hfails

end Walker

-- The path of an error, read as a JSON pointer, leads to the slot that failed and to no other node of
-- the tree that the walk has left.
theorem failed_walk_path_leads_to_slot (host : Host σ) (scope : Fields Value) (config : Config)
    (root left : Json) (error : RenderError) (s s' : σ) (hroot : root.WellFormed)
    (hscope : ∀ name value, scope.get? name = some value → value.WellFormed)
    (hhost : host.Keeps Value.WellFormed)
    (h : (Walker.walk ⟨evaluate host scope, config⟩ root).run s = ((left, some error), s')) :
    ∃ trail slot pointer, Walker.Fails ⟨evaluate host scope, config⟩ root s trail slot error s' ∧
      Json.Pointer.parse? error.path.text = some pointer ∧
      (∀ node, left.Leads pointer node ↔ node = slot) ∧ error.Fits config slot := by
  obtain ⟨trail, slot, hfails, rfl⟩ := Walker.fails_of_walk h
  have hnames := hfails.names (gives_evaluate Value.inherited_wellFormed hhost hscope) hroot
  refine ⟨trail, slot, trail.pointer, hfails, ?_, Trail.leads_left_iff hnames.distinct slot, hnames.fits⟩
  rw [hnames.path_eq]
  exact Json.Pointer.parse?_text trail.pointer

-- A text with a missing name under keys that a pointer has to escape.
def escapedKeys : Json :=
  .object [("a/b", .object [("~", .array [.string "\x7b\x7bx\x7d\x7d"])])]

theorem failed_walk_path_of_escaped_keys :
    escapedKeys.WellFormed ∧ ∃ error, (bareWalker.walk escapedKeys).run () = ((escapedKeys, some error), ()) ∧
      error.path.text = "/a~1b/~0/0" ∧ Json.Pointer.parse? "/a~1b/~0/0" = some ["a/b", "~", "0"] ∧
      ∀ node, escapedKeys.Leads ["a/b", "~", "0"] node ↔ node = .string "\x7b\x7bx\x7d\x7d" := by
  have hkeys (key : String) (json : Json) : (Fields.keys [(key, json)]).Nodup := List.pairwise_singleton _ key
  have hroot : escapedKeys.WellFormed := by
    refine Json.wellFormed_object_iff.mpr ⟨hkeys _ _, List.forall_mem_singleton.mpr ?_⟩
    refine Json.wellFormed_object_iff.mpr ⟨hkeys _ _, List.forall_mem_singleton.mpr ?_⟩
    refine Json.wellFormed_array_iff.mpr (List.forall_mem_singleton.mpr ?_)
    exact Json.wellFormed_of_flat (by simp) (by simp)
  have hhost : idleHost.Keeps Value.WellFormed := fun _ _ _ _ => Eval.gives_pure (.scalar rfl)
  have hwalk : (bareWalker.walk escapedKeys).run () =
      ((escapedKeys, some (.evaluation "x" ["a/b", "~", "0"] (.undefinedReference "x"))), ()) := by rfl
  obtain ⟨trail, slot, pointer, hfails, hparse, hleads, hfits⟩ :=
    failed_walk_path_leads_to_slot idleHost [] .standard escapedKeys escapedKeys _ () () hroot nofun hhost hwalk
  have hpointer : pointer = ["a/b", "~", "0"] :=
    Option.some.inj (hparse.symm.trans (Json.Pointer.parse?_text ["a/b", "~", "0"]))
  subst hpointer
  have hslot : escapedKeys.Leads ["a/b", "~", "0"] (.string "\x7b\x7bx\x7d\x7d") :=
    .entry List.mem_cons_self (.entry List.mem_cons_self (@Json.Leads.item _ 0 _ _ _ rfl .here))
  have heq := (hleads _).mp hslot
  subst heq
  exact ⟨hroot, _, hwalk, rfl, hparse, hleads⟩

end JsonTemplate
