import JsonTemplate.Proofs.Template.NormalForm
import JsonTemplate.Proofs.Template.Observation

namespace JsonTemplate

variable {σ : Type}

-- No text of the value holds a placeholder.
def Json.Unmarked (delimiters : Delimiters) (node : Json) : Prop :=
  ∀ depth leaf, node.At depth (.string leaf) → delimiters.find? leaf = none

-- A template without expressions, no deeper than the limit. The root is never a construct and may
-- have control keys.
structure Json.Inert (config : Config) (template : Json) : Prop where
  within : ∀ depth node, template.At depth node → depth ≤ config.maxDepth
  unmarked : template.Unmarked config.delimiters
  plain : ∀ depth entries, template.At depth (.object entries) → 0 < depth →
    ∀ key ∈ ["$if", "$switch", "$eval"], key ∉ Fields.keys entries

theorem Json.Normal.item {items : List Json} {child : Json} {levels : Nat}
    (h : (Json.array items).Normal (levels + 1)) (hmem : child ∈ items) : child.Normal levels := by
  intro depth inner hin
  obtain ⟨hlt, hplain⟩ := h (depth + 1) inner (.item hmem hin)
  exact ⟨Nat.lt_of_succ_lt_succ hlt, hplain⟩

theorem Json.Normal.entry {entries : List (String × Json)} {key : String} {child : Json} {levels : Nat}
    (h : (Json.object entries).Normal (levels + 1)) (hmem : (key, child) ∈ entries) : child.Normal levels := by
  intro depth inner hin
  obtain ⟨hlt, hplain⟩ := h (depth + 1) inner (.entry hmem hin)
  exact ⟨Nat.lt_of_succ_lt_succ hlt, hplain⟩

theorem Json.Unmarked.item {delimiters : Delimiters} {items : List Json} {child : Json}
    (h : (Json.array items).Unmarked delimiters) (hmem : child ∈ items) : child.Unmarked delimiters :=
  fun depth leaf hin => h (depth + 1) leaf (.item hmem hin)

theorem Json.Unmarked.entry {delimiters : Delimiters} {entries : List (String × Json)} {key : String} {child : Json}
    (h : (Json.object entries).Unmarked delimiters) (hmem : (key, child) ∈ entries) : child.Unmarked delimiters :=
  fun depth leaf hin => h (depth + 1) leaf (.entry hmem hin)

theorem Construct.detect?_eq_none_iff_keys (entries : Fields Json) :
    detect? entries = none ↔ ∀ key ∈ ["$if", "$switch", "$eval"], key ∉ entries.keys := by
  rw [detect?_eq_none_iff]
  constructor
  · intro h key hkey
    simp only [List.mem_cons, List.not_mem_nil, or_false] at hkey
    rcases hkey with rfl | rfl | rfl
    · exact h .choice
    · exact h .switch
    · exact h .eval
  · intro h construct
    apply h
    cases construct <;> simp [key]

-- Nodes below the root.
theorem Json.Inert.plain_below {config : Config} {template node : Json} {depth : Nat} (h : template.Inert config)
    (hin : template.At (depth + 1) node) : depth < config.maxDepth ∧ node.Plain := by
  refine ⟨h.within (depth + 1) node hin, fun entries hnode => ?_⟩
  subst hnode
  exact (Construct.detect?_eq_none_iff_keys entries).mpr (h.plain (depth + 1) entries hin (Nat.succ_pos depth))

theorem Json.Inert.normal_item {config : Config} {items : List Json} {child : Json}
    (h : (Json.array items).Inert config) (hmem : child ∈ items) : child.Normal config.maxDepth :=
  fun _ _ hin => h.plain_below (.item hmem hin)

theorem Json.Inert.normal_entry {config : Config} {entries : List (String × Json)} {key : String} {child : Json}
    (h : (Json.object entries).Inert config) (hmem : (key, child) ∈ entries) : child.Normal config.maxDepth :=
  fun _ _ hin => h.plain_below (.entry hmem hin)

namespace Walker

variable {resolve : Json.Pointer → Json → StateM σ Slot} {path : Json.Pointer} {s : σ}

theorem kept_untouched (entries : List (String × Json)) : kept (untouched entries) = entries := by
  simp [kept, untouched, List.filter_map, Function.comp_def]

-- Entries that all resolve to themselves.
theorem walkEntries_of_fixed {entries : List (String × Json)}
    (h : ∀ key child, (key, child) ∈ entries → ∀ path, (resolve path child).run s = (.present child, s)) :
    (walkEntries resolve path entries).run s = ((untouched entries, none), s) := by
  induction entries with
  | nil => rfl
  | cons entry rest ih =>
      obtain ⟨key, child⟩ := entry
      have hslot := h key child List.mem_cons_self (path.child key)
      have hrest := ih fun other inner hmem => h other inner (List.mem_cons_of_mem _ hmem)
      exact walkEntries_of_ok resolve path hslot hrest

theorem walkItems_of_fixed {items : List Json}
    (h : ∀ child ∈ items, ∀ path, (resolve path child).run s = (.present child, s)) (position : Nat) :
    (walkItems resolve path position items).run s = ((items, none), s) := by
  induction items generalizing position with
  | nil => rfl
  | cons child rest ih =>
      have hslot := h child List.mem_cons_self (path.item position)
      have hrest := ih (fun inner hmem => h inner (List.mem_cons_of_mem _ hmem)) (position + 1)
      exact walkItems_of_ok resolve path hslot hrest

theorem walkObject_of_fixed {entries : List (String × Json)}
    (h : ∀ key child, (key, child) ∈ entries → ∀ path, (resolve path child).run s = (.present child, s)) :
    (walkObject resolve path entries).run s = (.present (.object entries), s) := by
  rw [walkObject_of_ok (walkEntries_of_fixed h), kept_untouched]

theorem walkArray_of_fixed {items : List Json}
    (h : ∀ child ∈ items, ∀ path, (resolve path child).run s = (.present child, s)) :
    (walkArray resolve path items).run s = (.present (.array items), s) :=
  walkArray_of_ok (walkItems_of_fixed h 0)

theorem substitute_of_unmarked {walker : Walker σ} {leaf : String}
    (h : (Json.string leaf).Unmarked walker.config.delimiters) :
    (walker.substitute path leaf).run s = (.present (.string leaf), s) := by
  rw [substitute, h 0 leaf .root]
  rfl

variable {walker : Walker σ}

-- By induction on the levels that remain. The node has fewer, so that the limit is not reached.
theorem resolveSlot_of_normal {levels : Nat} {node : Json} (hnormal : node.Normal levels)
    (hunmarked : node.Unmarked walker.config.delimiters) :
    (walker.resolveSlot levels path node).run s = (.present node, s) := by
  induction levels generalizing path node with
  | zero =>
      have hlt := (hnormal 0 node .root).1
      exact absurd hlt (Nat.not_lt_zero 0)
  | succ levels ih =>
      apply resolveSlot_of_step
      cases node with
      | string leaf => exact .leaf (substitute_of_unmarked hunmarked)
      | array items =>
          refine .array (walkArray_of_fixed fun child hmem path => ?_)
          exact ih (hnormal.item hmem) (hunmarked.item hmem)
      | object entries =>
          have hplain := (hnormal 0 _ .root).2 entries rfl
          refine .object hplain (walkObject_of_fixed fun key child hmem path => ?_)
          exact ih (hnormal.entry hmem) (hunmarked.entry hmem)
      | null | bool | integer | double => exact .scalar nofun nofun nofun

theorem walk_of_inert {template : Json} (h : template.Inert walker.config) :
    (walker.walk template).run s = ((template, none), s) := by
  have hstep : RootStep walker template s (.present template) s := by
    cases template with
    | string leaf => exact .leaf (substitute_of_unmarked h.unmarked)
    | array items =>
        refine .array (walkArray_of_fixed fun child hmem path => ?_)
        exact resolveSlot_of_normal (h.normal_item hmem) (h.unmarked.item hmem)
    | object entries =>
        refine .object (walkObject_of_fixed fun key child hmem path => ?_)
        exact resolveSlot_of_normal (h.normal_entry hmem) (h.unmarked.entry hmem)
    | null | bool | integer | double => exact .scalar nofun nofun nofun
  exact walk_of_rootStep hstep

-- The normal form of a rendered template is inert once its texts hold no placeholder.
theorem inert_of_walk {root out : Json} {s' : σ} (hconfig : walker.config.preserveWholeLeafTypes = false)
    (h : (walker.walk root).run s = ((out, none), s')) (hunmarked : out.Unmarked walker.config.delimiters) :
    out.Inert walker.config := by
  obtain ⟨outcome, hstep, hfailure⟩ := rootStep_of_walk h
  cases outcome with
  | error error => cases hfailure
  | ok presence =>
      have hnormal {depth : Nat} {node : Json} (hin : out.At depth node) :=
        normal_of_rootStep hconfig hstep hin
      refine ⟨fun depth node hin => (hnormal hin).1, hunmarked, fun depth entries hin hpos => ?_⟩
      have hdetect := (hnormal hin).2 hpos entries rfl
      exact (Construct.detect?_eq_none_iff_keys entries).mp hdetect

-- A template without expressions is rendered as it is, whatever expressions would do, and none is
-- evaluated, so that no function is called. What was rendered with success is such a template if its
-- texts hold no placeholder, so that it may be rendered again.
theorem walk_fixed_points (walker : Walker σ) (s : σ) :
    (∀ template : Json, template.Inert walker.config →
      (walker.walk template).run s = ((template, none), s) ∧
        (walker.recording.walk template).run (s, []) = ((template, none), s, [])) ∧
    (walker.config.preserveWholeLeafTypes = false → ∀ template out s',
      (walker.walk template).run s = ((out, none), s') → out.Unmarked walker.config.delimiters →
      ∀ (τ : Type) (again : Walker τ) (t : τ), again.config = walker.config →
        (again.walk out).run t = ((out, none), t) ∧
          (again.recording.walk out).run (t, []) = ((out, none), t, [])) := by
  refine ⟨fun template hinert => ⟨walk_of_inert hinert, walk_of_inert hinert⟩, ?_⟩
  intro hconfig template out s' hwalk hunmarked τ again t hagain
  have hinert := inert_of_walk hconfig hwalk hunmarked
  rw [← hagain] at hinert
  exact ⟨walk_of_inert hinert, walk_of_inert hinert⟩

end Walker

-- A template whose root has a control key, and what it is rendered to over a scope in which x is an
-- opening mark.
def marked : Json :=
  .object [("$if", .array [.object [("$if", .string "x"), ("$then", .string "\x7b\x7bx\x7d\x7d")]])]

def halfMarked : Json := .object [("$if", .array [.string "\x7b\x7b"])]

def markWalker : Walker Unit := ⟨evaluate idleHost [("x", .string "\x7b\x7b")], .standard⟩

theorem unmarked_halfMarked : halfMarked.Unmarked .braces := by
  intro depth leaf hin
  cases hin with
  | entry hmem hin =>
      cases List.mem_singleton.mp hmem
      cases hin with
      | item hmem hin =>
          cases List.mem_singleton.mp hmem
          cases hin
          rfl

theorem walk_fixed_points_of_marked :
    (markWalker.walk marked).run () = ((halfMarked, none), ()) ∧
      (chainWalker.walk halfMarked).run () = ((halfMarked, none), ()) ∧
      (chainWalker.recording.walk halfMarked).run ((), []) = ((halfMarked, none), (), []) := by
  have hwalk : (markWalker.walk marked).run () = ((halfMarked, none), ()) := by rfl
  refine ⟨hwalk, ?_⟩
  have hagain := (Walker.walk_fixed_points markWalker ()).2 rfl marked halfMarked () hwalk unmarked_halfMarked
  exact hagain Unit chainWalker () rfl

end JsonTemplate
