import JsonTemplate.Engine
import JsonTemplate.Proofs.Json.Node
import JsonTemplate.Proofs.Template.Steps

namespace JsonTemplate

variable {σ : Type}

-- The node is no object with a control key.
def Json.Plain (node : Json) : Prop :=
  ∀ entries, node = .object entries → Construct.detect? entries = none

theorem Json.plain_or_construct (node : Json) :
    node.Plain ∨ ∃ entries construct, node = .object entries ∧ Construct.detect? entries = some construct := by
  cases node with
  | object entries =>
      cases hdetect : Construct.detect? entries with
      | none => exact .inl fun _ heq => Json.object.inj heq ▸ hdetect
      | some construct => exact .inr ⟨entries, construct, rfl, hdetect⟩
  | null | bool | integer | double | string | array => exact .inl nofun

-- What a slot resolves to within a number of levels: it takes no more of them, and none of its nodes
-- is a construct.
def Json.Normal (levels : Nat) (node : Json) : Prop :=
  ∀ depth inner, node.At depth inner → depth < levels ∧ inner.Plain

theorem Json.Normal.mono {node : Json} {levels more : Nat} (h : node.Normal levels)
    (hle : levels ≤ more) : node.Normal more := by
  intro depth inner hin
  obtain ⟨hlt, hplain⟩ := h depth inner hin
  exact ⟨Nat.lt_of_lt_of_le hlt hle, hplain⟩

theorem Json.normal_scalar {node : Json} (harray : ∀ items, node ≠ .array items)
    (hobject : ∀ entries, node ≠ .object entries) (levels : Nat) : node.Normal (levels + 1) := by
  intro depth inner hin
  cases hin with
  | root => exact ⟨Nat.succ_pos levels, fun entries he => absurd he (hobject entries)⟩
  | entry => exact absurd rfl (hobject _)
  | item => exact absurd rfl (harray _)

theorem Json.normal_array {items : List Json} {levels : Nat}
    (h : ∀ child ∈ items, child.Normal levels) : (Json.array items).Normal (levels + 1) := by
  intro depth inner hin
  cases hin with
  | root => exact ⟨Nat.succ_pos levels, fun entries he => by cases he⟩
  | item hmem hin =>
      obtain ⟨hlt, hplain⟩ := h _ hmem _ _ hin
      exact ⟨Nat.succ_lt_succ hlt, hplain⟩

theorem Json.normal_object {entries : List (String × Json)} {levels : Nat}
    (hplain : Construct.detect? entries = none)
    (h : ∀ key child, (key, child) ∈ entries → child.Normal levels) :
    (Json.object entries).Normal (levels + 1) := by
  intro depth inner hin
  cases hin with
  | root => exact ⟨Nat.succ_pos levels, fun others he => by cases he; exact hplain⟩
  | entry hmem hin =>
      obtain ⟨hlt, hinner⟩ := h _ _ hmem _ _ hin
      exact ⟨Nat.succ_lt_succ hlt, hinner⟩

theorem Fields.contains_iff {α : Type} (fields : Fields α) (key : String) :
    fields.contains key = true ↔ key ∈ fields.keys := by
  rw [Fields.contains, Option.isSome_iff_ne_none, ne_eq, Fields.get?_eq_none_iff, Decidable.not_not]

theorem Construct.detect?_eq_none_iff (entries : Fields Json) :
    detect? entries = none ↔ ∀ construct : Construct, construct.key ∉ entries.keys := by
  simp only [detect?, List.find?_eq_none, Fields.contains_iff]
  constructor
  · intro h construct
    exact h construct (by cases construct <;> simp)
  · intro h construct _
    exact h construct

namespace Walker

variable {walker : Walker σ} {resolve : Json.Pointer → Json → StateM σ Slot} {path : Json.Pointer}

theorem keys_of_walkEntries {entries : List (String × Json)}
    {slots : List (String × Json × Presence)} {failure : Option RenderError} {s s' : σ}
    (h : (walkEntries resolve path entries).run s = ((slots, failure), s')) :
    slots.map Prod.fst = Fields.keys entries := by
  induction entries generalizing slots failure s with
  | nil => cases h; rfl
  | cons entry rest ih =>
      obtain ⟨key, child⟩ := entry
      rcases hslot : (resolve (path.child key) child).run s with ⟨⟨node, outcome⟩, s₁⟩
      cases outcome with
      | error error =>
          rw [walkEntries_of_error resolve path rest hslot] at h
          cases h
          simp [untouched, Fields.keys, Function.comp_def]
      | ok presence =>
          rcases hrest : (walkEntries resolve path rest).run s₁ with ⟨⟨others, found⟩, s₂⟩
          rw [walkEntries_of_ok resolve path hslot hrest] at h
          cases h
          exact congrArg (key :: ·) (ih hrest)

-- What holds of all that single slots resolve to holds of all entries that are present.
theorem forall_of_walkEntries {P : Json → Prop}
    (hresolve : ∀ {path node out} {s s' : σ}, (resolve path node).run s = (⟨out, .ok .present⟩, s') → P out)
    {entries : List (String × Json)} {slots : List (String × Json × Presence)} {s s' : σ}
    (h : (walkEntries resolve path entries).run s = ((slots, none), s')) :
    ∀ key node, (key, node, .present) ∈ slots → P node := by
  induction entries generalizing slots s with
  | nil => cases h; simp
  | cons entry rest ih =>
      obtain ⟨key, child⟩ := entry
      rcases hslot : (resolve (path.child key) child).run s with ⟨⟨node, outcome⟩, s₁⟩
      cases outcome with
      | error error => rw [walkEntries_of_error resolve path rest hslot] at h; cases h
      | ok presence =>
          rcases hrest : (walkEntries resolve path rest).run s₁ with ⟨⟨others, found⟩, s₂⟩
          rw [walkEntries_of_ok resolve path hslot hrest] at h
          cases h
          intro other inner hmem
          rcases List.mem_cons.mp hmem with hhead | htail
          · cases hhead; exact hresolve hslot
          · exact ih hrest other inner htail

theorem forall_of_walkItems {P : Json → Prop}
    (hnull : ∀ {path node out} {s s' : σ}, (resolve path node).run s = (⟨out, .ok .absent⟩, s') → P .null)
    (hresolve : ∀ {path node out} {s s' : σ}, (resolve path node).run s = (⟨out, .ok .present⟩, s') → P out)
    {position : Nat} {items nodes : List Json} {s s' : σ}
    (h : (walkItems resolve path position items).run s = ((nodes, none), s')) : ∀ node ∈ nodes, P node := by
  induction items generalizing position nodes s with
  | nil => cases h; simp
  | cons child rest ih =>
      rcases hslot : (resolve (path.item position) child).run s with ⟨⟨node, outcome⟩, s₁⟩
      cases outcome with
      | error error => rw [walkItems_of_error resolve path rest hslot] at h; cases h
      | ok presence =>
          rcases hrest : (walkItems resolve path (position + 1) rest).run s₁ with ⟨⟨others, found⟩, s₂⟩
          rw [walkItems_of_ok resolve path hslot hrest] at h
          cases h
          intro inner hmem
          rcases List.mem_cons.mp hmem with rfl | htail
          · cases presence with
            | absent => exact hnull hslot
            | present => exact hresolve hslot
          · exact ih hrest inner htail

theorem mem_keys_of_mem_keys_kept {slots : List (String × Json × Presence)} {key : String}
    (h : key ∈ Fields.keys (kept slots)) : key ∈ slots.map Prod.fst := by
  simp only [Fields.keys, kept, List.map_map, List.mem_map, List.mem_filter] at h
  obtain ⟨entry, ⟨hmem, -⟩, rfl⟩ := h
  exact List.mem_map_of_mem hmem

theorem mem_of_mem_kept {slots : List (String × Json × Presence)} {key : String} {node : Json}
    (h : (key, node) ∈ kept slots) : (key, node, .present) ∈ slots := by
  simp only [kept, List.mem_map, List.mem_filter, decide_eq_true_eq] at h
  obtain ⟨⟨other, inner, presence⟩, ⟨hmem, hpresent⟩, he⟩ := h
  cases he
  cases hpresent
  exact hmem

theorem normal_of_walkArray {levels : Nat}
    (hnull : ∀ {path node out} {s s' : σ}, (resolve path node).run s = (⟨out, .ok .absent⟩, s') →
      Json.null.Normal levels)
    (hslot : ∀ {path node out} {s s' : σ}, (resolve path node).run s = (⟨out, .ok .present⟩, s') →
      out.Normal levels)
    {items : List Json} {out : Json} {presence : Presence} {s s' : σ}
    (h : (walkArray resolve path items).run s = (⟨out, .ok presence⟩, s')) : out.Normal (levels + 1) := by
  rcases hitems : (walkItems resolve path 0 items).run s with ⟨⟨nodes, failure⟩, s₁⟩
  cases failure with
  | some error => rw [walkArray_of_error hitems] at h; cases h
  | none =>
      rw [walkArray_of_ok hitems] at h
      cases h
      exact Json.normal_array (forall_of_walkItems hnull hslot hitems)

-- An object that is no construct loses entries at most, so it does not become one.
theorem detect?_of_walkObject {entries slots : List (String × Json)} {presence : Presence} {s s' : σ}
    (h : (walkObject resolve path entries).run s = (⟨.object slots, .ok presence⟩, s'))
    (hplain : Construct.detect? entries = none) : Construct.detect? slots = none := by
  rcases hentries : (walkEntries resolve path entries).run s with ⟨⟨found, failure⟩, s₁⟩
  cases failure with
  | some error => rw [walkObject_of_error hentries] at h; cases h
  | none =>
      rw [walkObject_of_ok hentries] at h
      cases h
      rw [Construct.detect?_eq_none_iff] at hplain ⊢
      intro construct hmem
      apply hplain construct
      rw [← keys_of_walkEntries hentries]
      exact mem_keys_of_mem_keys_kept hmem

theorem normal_of_walkObject {levels : Nat}
    (hslot : ∀ {path node out} {s s' : σ}, (resolve path node).run s = (⟨out, .ok .present⟩, s') →
      out.Normal levels)
    {entries : List (String × Json)} {out : Json} {presence : Presence} {s s' : σ}
    (h : (walkObject resolve path entries).run s = (⟨out, .ok presence⟩, s')) :
    ∃ slots, out = .object slots ∧ ∀ key node, (key, node) ∈ slots → node.Normal levels := by
  rcases hentries : (walkEntries resolve path entries).run s with ⟨⟨slots, failure⟩, s₁⟩
  cases failure with
  | some error => rw [walkObject_of_error hentries] at h; cases h
  | none =>
      rw [walkObject_of_ok hentries] at h
      cases h
      refine ⟨kept slots, rfl, ?_⟩
      intro key node hmem
      exact forall_of_walkEntries hslot hentries key node (mem_of_mem_kept hmem)

theorem normal_null_of_absent {levels : Nat} {node out : Json} {s s' : σ}
    (h : (walker.resolveSlot levels path node).run s = (⟨out, .ok .absent⟩, s')) :
    Json.null.Normal levels := by
  cases levels with
  | zero => cases h
  | succ levels => exact Json.normal_scalar (by simp) (by simp) levels

theorem normal_of_resolveSlot (hconfig : walker.config.preserveWholeLeafTypes = false)
    {levels : Nat} {node out : Json} {s s' : σ}
    (h : (walker.resolveSlot levels path node).run s = (⟨out, .ok .present⟩, s')) :
    out.Normal levels := by
  induction levels generalizing path node out s s' with
  | zero => cases h
  | succ levels ih =>
      cases resolveSlot_step h with
      | leaf h =>
          cases substitute_step h with
          | plain | spliced => exact Json.normal_scalar (by simp) (by simp) levels
          | typed _ _ hwhole => simp [hconfig] at hwhole
      | array h => exact normal_of_walkArray normal_null_of_absent ih h
      | object hplain h =>
          obtain ⟨slots, rfl, hslots⟩ := normal_of_walkObject ih h
          exact Json.normal_object (detect?_of_walkObject h hplain) hslots
      | replaced _ _ hslot => exact (ih hslot).mono (Nat.le_succ levels)
      | scalar _ harray hobject => exact Json.normal_scalar harray hobject levels

-- Below the root a template is normal. The root itself may be a construct, as it is never resolved
-- as one.
theorem normal_of_rootStep (hconfig : walker.config.preserveWholeLeafTypes = false)
    {root out : Json} {presence : Presence} {s s' : σ}
    (h : RootStep walker root s ⟨out, .ok presence⟩ s') {depth : Nat} {node : Json}
    (hnode : out.At depth node) : depth ≤ walker.config.maxDepth ∧ (0 < depth → node.Plain) := by
  have hslot {path node out} {s s' : σ}
      (h : (walker.resolveSlot walker.config.maxDepth path node).run s = (⟨out, .ok .present⟩, s')) :=
    normal_of_resolveSlot hconfig h
  have hscalar (harray : ∀ items, out ≠ .array items) (hobject : ∀ entries, out ≠ .object entries) :
      depth ≤ walker.config.maxDepth ∧ (0 < depth → node.Plain) := by
    obtain ⟨hlt, hplain⟩ := Json.normal_scalar harray hobject walker.config.maxDepth _ _ hnode
    exact ⟨Nat.le_of_lt_succ hlt, fun _ => hplain⟩
  cases h with
  | leaf h =>
      cases substitute_step h with
      | plain | spliced => exact hscalar (by simp) (by simp)
      | typed _ _ hwhole => simp [hconfig] at hwhole
  | array h =>
      obtain ⟨hlt, hplain⟩ := normal_of_walkArray normal_null_of_absent hslot h _ _ hnode
      exact ⟨Nat.le_of_lt_succ hlt, fun _ => hplain⟩
  | object h =>
      obtain ⟨slots, rfl, hslots⟩ := normal_of_walkObject hslot h
      cases hnode with
      | root => exact ⟨Nat.zero_le _, fun hpos => absurd hpos (Nat.lt_irrefl 0)⟩
      | entry hmem hin =>
          obtain ⟨hlt, hplain⟩ := hslots _ _ hmem _ _ hin
          exact ⟨hlt, fun _ => hplain⟩
  | scalar _ harray hobject => exact hscalar harray hobject

theorem walk_normal_form (walker : Walker σ) (root out : Json) (s s' : σ)
    (hconfig : walker.config.preserveWholeLeafTypes = false)
    (h : (walker.walk root).run s = ((out, none), s')) (depth : Nat) (node : Json)
    (hnode : out.At depth node) :
    depth ≤ walker.config.maxDepth ∧
      (0 < depth → ∀ entries, node = .object entries →
        ∀ key ∈ ["$if", "$switch", "$eval"], key ∉ Fields.keys entries) := by
  obtain ⟨outcome, hstep, hfailure⟩ := rootStep_of_walk h
  cases outcome with
  | error error => cases hfailure
  | ok presence =>
      obtain ⟨hdepth, hplain⟩ := normal_of_rootStep hconfig hstep hnode
      refine ⟨hdepth, fun hpos entries he key hkey => ?_⟩
      have hkeys := (Construct.detect?_eq_none_iff entries).mp (hplain hpos entries he)
      simp only [List.mem_cons, List.not_mem_nil, or_false] at hkey
      rcases hkey with rfl | rfl | rfl
      · exact hkeys .choice
      · exact hkeys .switch
      · exact hkeys .eval

end Walker

-- A walker over a scope whose entry c is a construct that chooses the array with the object in it.
def chainWalker : Walker Unit :=
  ⟨evaluate idleHost [("c", .object [("$switch", .string "d"), ("x", .array [.object [("k", .null)]])]),
    ("d", .string "x")], .standard⟩

theorem walk_normal_form_of_chain :
    chainWalker.config.preserveWholeLeafTypes = false ∧
      (chainWalker.walk (.object
        [("a", .object [("$if", .string "d"), ("$then", .object [("$eval", .string "c")])])])).run () =
        ((.object [("a", .array [.object [("k", .null)]])], none), ()) ∧
      (Json.object [("a", .array [.object [("k", .null)]])]).At 2 (.object [("k", .null)]) ∧
      2 ≤ chainWalker.config.maxDepth ∧ (0 < 2 → ∀ entries, Json.object [("k", .null)] = .object entries →
        ∀ key ∈ ["$if", "$switch", "$eval"], key ∉ Fields.keys entries) := by
  have hwalk : (chainWalker.walk (.object
      [("a", .object [("$if", .string "d"), ("$then", .object [("$eval", .string "c")])])])).run () =
      ((.object [("a", .array [.object [("k", .null)]])], none), ()) := by rfl
  have hin : (Json.object [("a", .array [.object [("k", .null)]])]).At 2 (.object [("k", .null)]) :=
    .entry (List.mem_singleton_self _) (.item (List.mem_singleton_self _) .root)
  exact ⟨rfl, hwalk, hin, Walker.walk_normal_form chainWalker _ _ () () rfl hwalk 2 _ hin⟩

end JsonTemplate
