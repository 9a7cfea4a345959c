import JsonTemplate.Proofs.Context.Conservative
import JsonTemplate.Proofs.Engine.Orderly
import JsonTemplate.Proofs.Evaluation.Augmented
import JsonTemplate.Proofs.Template.Steps

namespace JsonTemplate

variable {σ α : Type}

-- No key in the value is a reserved name.
def Json.Lacks (namePrefix : String) (json : Json) : Prop :=
  ∀ depth entries, json.At depth (.object entries) → ∀ key ∈ Fields.keys entries, ¬Reserved namePrefix key

namespace Json

variable {namePrefix : String}

theorem lacks_array_iff {items : List Json} :
    (array items).Lacks namePrefix ↔ ∀ item ∈ items, item.Lacks namePrefix :=
  forall_at_array_iff

theorem lacks_object_iff {entries : List (String × Json)} :
    (object entries).Lacks namePrefix ↔ (∀ key ∈ Fields.keys entries, ¬Reserved namePrefix key) ∧
      ∀ entry ∈ entries, entry.2.Lacks namePrefix :=
  forall_at_object_iff

theorem lacks_of_flat {json : Json} (harray : ∀ items, json ≠ array items)
    (hobject : ∀ entries, json ≠ object entries) : json.Lacks namePrefix :=
  forall_at_of_flat harray hobject

end Json

namespace AccessorRule

variable {rule : AccessorRule}

theorem spares_entriesOfJson {entries : List (String × Json)} (hnodup : (Fields.keys entries).Nodup)
    (hkeys : ∀ key ∈ Fields.keys entries, ¬Reserved rule.namePrefix key) :
    rule.Spares (Value.entriesOfJson entries) where
  nodup := by rwa [Value.keys_entriesOfJson]
  free _ key value hget := by
    have hmem := List.mem_map_of_mem (f := Prod.fst) (Fields.mem_of_get? hget)
    change _ ∈ Fields.keys _ at hmem
    rw [Value.keys_entriesOfJson] at hmem
    exact absurd ⟨key, rfl⟩ (hkeys _ hmem)

theorem every_spares_ofJson {json : Json} (hjson : json.WellFormed) (hkeys : json.Lacks rule.namePrefix) :
    (Value.ofJson json).Every rule.Spares :=
  Value.every_ofJson_of_at fun depth entries hin =>
    spares_entriesOfJson (hjson depth entries hin) (hkeys depth entries hin)

-- Data to which accessors were added under their names is neat.
theorem neat_of_bare {value : Value} (hevery : value.Every (rule.Tidy nothing)) (hdata : value.bare.IsData) :
    value.Neat rule.namePrefix := by
  induction value using Value.byParts with
  | scalar value hscalar => exact .scalar hscalar
  | function f =>
      cases hdata with
      | scalar hscalar => cases hscalar
  | accessor identity name items _ =>
      cases hdata with
      | scalar hscalar => cases hscalar
  | array items ih =>
      rw [Value.bare, Value.bareItems_eq_map] at hdata
      refine .array fun item hmem => ih item hmem (Value.every_array_iff.mp hevery item hmem) ?_
      exact Value.isData_array_iff.mp hdata _ (List.mem_map_of_mem hmem)
  | object fields ih =>
      obtain ⟨htidy, hvalues⟩ := Value.every_object_iff.mp hevery
      refine .object htidy.nodup (fun entry hmem haccessor => ?_) fun entry hmem hplain => ?_
      · obtain ⟨name, value⟩ := entry
        cases value <;> cases haccessor
        exact (htidy.named (Fields.get?_of_mem htidy.nodup hmem)).2
      · refine ih entry hmem (hvalues _ _ (Fields.get?_of_mem htidy.nodup hmem)) ?_
        rw [Value.bare] at hdata
        exact Value.isData_object_iff.mp hdata (entry.1, entry.2.bare)
          (Value.mem_bareEntries.mpr ⟨entry.2, hmem, hplain, rfl⟩)

end AccessorRule

-- Augmentation adds nothing but accessors to data that has no reserved names.
theorem Context.bareEntries_augment {rule : AccessorRule} {json : Json} (hjson : json.WellFormed)
    (hkeys : json.Lacks rule.namePrefix) {supply : Nat} {context : Context}
    (hcontext : Context.ofJson supply json = .ok context) :
    Value.bareEntries (context.augment rule).1.entries = context.entries := by
  cases json with
  | object entries =>
      cases hcontext
      have hdata : ∀ entry ∈ Value.entriesOfJson entries, entry.2.IsData := Value.isData_entriesOfJson entries
      obtain ⟨hspares, hinner⟩ := Value.every_object_iff.mp (AccessorRule.every_spares_ofJson hjson hkeys)
      refine (AccessorRule.bareEntries_augmentEntries _ _ _ (AccessorRule.pending_self hspares hinner)).trans ?_
      exact Value.bareEntries_of_bare_eq fun entry hmem =>
        ⟨(hdata entry hmem).isAccessor, (hdata entry hmem).bare_eq⟩
  | _ => cases hcontext

-- The object of a context's entries, before and after its augmentation.
theorem Context.neat_augment {rule : AccessorRule} (hpre : rule.namePrefix ≠ "") {json : Json}
    (hjson : json.WellFormed) (hkeys : json.Lacks rule.namePrefix) {supply : Nat} {context : Context}
    (hcontext : Context.ofJson supply json = .ok context) :
    (Value.object (context.augment rule).1.entries).Neat rule.namePrefix ∧
      Value.bareEntries (context.augment rule).1.entries = context.entries := by
  have horderly : context.Orderly rule AccessorRule.nothing := Context.orderly_ofJson hjson hcontext _
  obtain ⟨hfresh, hvalues⟩ := horderly.augment hpre
  have hbare := Context.bareEntries_augment hjson hkeys hcontext
  refine ⟨AccessorRule.neat_of_bare ?_ ?_, hbare⟩
  · exact Value.every_object_iff.mpr ⟨hfresh.toTidy,
      fun key value hget => (hvalues key value hget).mono fun _ hobject => hobject.toTidy⟩
  · rw [Value.bare, hbare]
    cases json with
    | object entries =>
        cases hcontext
        exact .object (Value.isData_entriesOfJson entries)
    | _ => cases hcontext

-- An expression has the same outcome over a context before and after its augmentation, but for
-- accessors in the objects of its value.
def Expr.Unaffected (e : Expr α) (host : Host σ) (rule : AccessorRule) (context : Context) (s : σ) : Prop :=
  ∃ outcome, (e.eval host (context.augment rule).1.entries).run.run s = (outcome, s) ∧
    (e.eval host context.entries).run.run s = (outcome.map Value.bare, s)

-- Augmentation does not affect an expression that uses no reserved name and does not come upon accessors
-- in another way.
theorem Context.unaffected_by_augment (host : Host σ) (rule : AccessorRule) (json : Json) (supply : Nat)
    (context : Context) (e : Expr α) (s : σ) (hpre : rule.namePrefix ≠ "") (hjson : json.WellFormed)
    (hkeys : json.Lacks rule.namePrefix) (hcontext : Context.ofJson supply json = .ok context)
    (he : e.Avoids rule.namePrefix)
    (hmeets : ¬e.Meets host (context.augment rule).1.entries s rule.namePrefix 0) :
    e.Unaffected host rule context s := by
  obtain ⟨hneat, hbare⟩ := Context.neat_augment hpre hjson hkeys hcontext
  have hscope (n : String) (hn : ¬Reserved rule.namePrefix n) :
      context.entries.get? n = ((context.augment rule).1.entries.get? n).map Value.bare ∧
        ∀ value, (context.augment rule).1.entries.get? n = some value → value.Neat rule.namePrefix := by
    rw [← hbare]
    exact hneat.get? hn
  obtain ⟨outcome, hafter, hbefore, -⟩ := Expr.mirrors_evalAt hscope he hmeets
  exact ⟨outcome, hafter, hbefore⟩

-- Two objects with an array each.
def twins : List (String × Json) :=
  [("a", .object [("x", .array [.null])]), ("b", .object [("x", .array [.null])])]

-- An array whose key is a digit.
def counted : List (String × Json) := [("o", .object [("2", .array [.null])])]

def comparison (left right : String) : Expr Unit := .binary () .strictEq (.name () left) (.name () right)

def indexing (target : String) (x : Float) : Expr Unit := .index () (.name () target) (.number () x)

theorem well_formed_twins : (Json.object twins).WellFormed := by
  have hnull : Json.null.WellFormed := Json.wellFormed_of_flat (by simp) (by simp)
  simp [twins, Json.wellFormed_object_iff, Json.wellFormed_array_iff, Fields.keys, hnull]

theorem well_formed_counted : (Json.object counted).WellFormed := by
  have hnull : Json.null.WellFormed := Json.wellFormed_of_flat (by simp) (by simp)
  simp [counted, Json.wellFormed_object_iff, Json.wellFormed_array_iff, Fields.keys, hnull]

theorem lacks_twins : (Json.object twins).Lacks "$" := by
  have hnull : Json.null.Lacks "$" := Json.lacks_of_flat (by simp) (by simp)
  have hnames : ∀ name ∈ ["a", "b", "x"], ¬Reserved "$" name := by decide
  simp only [List.forall_mem_cons] at hnames
  simp [twins, Json.lacks_object_iff, Json.lacks_array_iff, Fields.keys, hnull, hnames]

theorem lacks_counted : (Json.object counted).Lacks "1" := by
  have hnull : Json.null.Lacks "1" := Json.lacks_of_flat (by simp) (by simp)
  have hnames : ∀ name ∈ ["o", "2"], ¬Reserved "1" name := by decide
  simp only [List.forall_mem_cons] at hnames
  simp [counted, Json.lacks_object_iff, Json.lacks_array_iff, Fields.keys, hnull, hnames]

theorem avoids_comparison {left right : String} (hleft : ¬Reserved "$" left) (hright : ¬Reserved "$" right) :
    (comparison left right).Avoids "$" :=
  .binary (.name hleft) (.name hright)

-- An object that has accessors is equal to itself.
theorem unaffected_comparison_with_itself :
    (⟨"$", false⟩ : AccessorRule).namePrefix ≠ "" ∧ (Json.object twins).WellFormed ∧
      (Json.object twins).Lacks "$" ∧ Context.ofJson 0 (.object twins) = .ok ⟨Value.entriesOfJson twins, 0⟩ ∧
      (comparison "a" "a").Avoids "$" ∧
      ¬(comparison "a" "a").Meets idleHost
        (Context.augment ⟨Value.entriesOfJson twins, 0⟩ ⟨"$", false⟩).1.entries () "$" 0 ∧
      (comparison "a" "a").Unaffected idleHost ⟨"$", false⟩ ⟨Value.entriesOfJson twins, 0⟩ () := by
  have havoids : (comparison "a" "a").Avoids "$" := avoids_comparison (by decide) (by decide)
  have hmeets : ¬(comparison "a" "a").Meets idleHost
      (Context.augment ⟨Value.entriesOfJson twins, 0⟩ ⟨"$", false⟩).1.entries () "$" 0 := by
    have hoperand : ¬(Expr.name () "a").Meets idleHost
        (Context.augment ⟨Value.entriesOfJson twins, 0⟩ ⟨"$", false⟩).1.entries () "$" 1 := by
      intro h
      cases h with
      | within _ henters _ => cases henters
    intro h
    cases h with
    | compared _ _ hleft hright _ hclash =>
        have hequal := congrArg Prod.fst (hleft.symm.trans hright)
        exact hclash.ne (Except.ok.inj hequal)
    | within _ henters hpart =>
        cases henters with
        | lhs => exact hoperand hpart
        | rhs => exact hoperand hpart
  exact ⟨by decide, well_formed_twins, lacks_twins, rfl, havoids, hmeets,
    Context.unaffected_by_augment idleHost ⟨"$", false⟩ (.object twins) 0 _ (comparison "a" "a") () (by decide)
      well_formed_twins lacks_twins rfl havoids hmeets⟩

theorem not_unaffected {e : Expr α} {host : Host σ} {rule : AccessorRule} {context : Context} {s : σ}
    {before after : Except EvalError Value}
    (hafter : (e.eval host (context.augment rule).1.entries).run.run s = (after, s))
    (hbefore : (e.eval host context.entries).run.run s = (before, s)) (hne : before ≠ after.map Value.bare) :
    ¬e.Unaffected host rule context s := by
  rintro ⟨outcome, houtcome, hmap⟩
  rw [hafter] at houtcome
  cases houtcome
  rw [hbefore] at hmap
  exact hne (congrArg Prod.fst hmap)

-- Objects that were equal have different accessors.
theorem comparison_of_twins_affected :
    ¬(comparison "a" "b").Unaffected idleHost ⟨"$", false⟩ ⟨Value.entriesOfJson twins, 0⟩ () := by
  have hafter : ((comparison "a" "b").eval idleHost
      (Context.augment ⟨Value.entriesOfJson twins, 0⟩ ⟨"$", false⟩).1.entries).run.run () =
      (.ok (.bool false), ()) := by rfl
  have hbefore : ((comparison "a" "b").eval idleHost (Value.entriesOfJson twins)).run.run () =
      (.ok (.bool true), ()) := by rfl
  exact not_unaffected hafter hbefore nofun

-- The text of a number is the name of an accessor.
theorem indexing_of_counted_affected :
    ¬(indexing "o" 12).Unaffected idleHost ⟨"1", false⟩ ⟨Value.entriesOfJson counted, 0⟩ () := by
  have hafter : ((indexing "o" 12).eval idleHost
      (Context.augment ⟨Value.entriesOfJson counted, 0⟩ ⟨"1", false⟩).1.entries).run.run () =
      (.ok (.accessor 0 "12" [.null]), ()) := by rfl
  have hbefore : ((indexing "o" 12).eval idleHost (Value.entriesOfJson counted)).run.run () =
      (.ok .null, ()) := by rfl
  exact not_unaffected hafter hbefore nofun

theorem not_forall_unaffected_by_augment :
    (¬∀ (json : Json) (context : Context) (e : Expr Unit), json.WellFormed → json.Lacks "$" →
      Context.ofJson 0 json = .ok context → e.Avoids "$" → e.Unaffected idleHost ⟨"$", false⟩ context ()) ∧
    ¬∀ (json : Json) (context : Context) (e : Expr Unit), json.WellFormed → json.Lacks "1" →
      Context.ofJson 0 json = .ok context → e.Avoids "1" → e.Unaffected idleHost ⟨"1", false⟩ context () := by
  constructor
  · intro h
    exact comparison_of_twins_affected (h _ _ (comparison "a" "b") well_formed_twins lacks_twins rfl
      (avoids_comparison (by decide) (by decide)))
  · intro h
    have havoids : (indexing "o" 12).Avoids "1" := .index (.name (by decide))
    exact indexing_of_counted_affected (h _ _ (indexing "o" 12) well_formed_counted lacks_counted rfl havoids)

end JsonTemplate
