import JsonTemplate.Proofs.Context.Idempotent
import JsonTemplate.Proofs.Context.Unaffected
import JsonTemplate.Proofs.Evaluation.Navigation
import JsonTemplate.Proofs.Value.Builtins

namespace JsonTemplate

variable {σ α : Type}

-- The call of a builtin with the values of these expressions.
def Builtin.call (builtin : Builtin) (host : Host σ) (scope : Fields Value) (depth : Nat) (args : List (Expr α)) :
    Eval σ Value :=
  Expr.evalItems host scope depth args >>= host.apply (.builtin builtin)

namespace AccessorRule

variable {rule : AccessorRule} {fields : Fields Value}

-- By the length of the accessor's name: the array that it was made for stands beside it, or another accessor
-- has taken its place, with a shorter name.
theorem Tidy.exists_array (hpre : rule.namePrefix ≠ "") (h : rule.Tidy nothing fields) {name : String}
    (hreplaced : isReplaced fields name = true) : ∃ key items, fields.get? key = some (.array items) := by
  induction hlength : name.length using Nat.strong_induction_on generalizing name with
  | h length ih =>
      obtain ⟨value, hget, haccessor⟩ := isReplaced_iff.mp hreplaced
      cases value <;> cases haccessor
      obtain ⟨key, rfl⟩ := (h.named hget).2
      rcases h.beside hreplaced with ⟨items, harray⟩ | ⟨-, hkey⟩ | hnothing
      · exact ⟨key, items, harray⟩
      · exact ih key.length (hlength ▸ length_lt_of_name hpre key) hkey rfl
      · exact hnothing.elim

-- The other entries have no reserved names, so every array has its accessor.
theorem Fresh.exists_accessor_iff (hpre : rule.namePrefix ≠ "") (h : rule.Fresh nothing fields)
    (hkeys : ∀ key ∈ Fields.keys (Value.bareEntries fields), ¬Reserved rule.namePrefix key) :
    (∃ entry ∈ fields, entry.2.isAccessor = true) ↔ ∃ entry ∈ fields, ∃ items, entry.2 = .array items := by
  constructor
  · rintro ⟨⟨name, value⟩, hmem, haccessor⟩
    have hget := Fields.get?_of_mem h.nodup hmem
    obtain ⟨key, items, harray⟩ := h.toTidy.exists_array hpre (isReplaced_iff.mpr ⟨value, hget, haccessor⟩)
    exact ⟨_, Fields.mem_of_get? harray, items, rfl⟩
  · rintro ⟨⟨key, value⟩, hmem, items, rfl⟩
    rcases h.serves key items (Fields.get?_of_mem h.nodup hmem) with ⟨identity, hget⟩ | ⟨-, value, hget, hplain⟩
    · exact ⟨_, Fields.mem_of_get? hget, rfl⟩
    · have hown : (rule.namePrefix ++ key, value.bare) ∈ Value.bareEntries fields :=
        Value.mem_bareEntries.mpr ⟨value, Fields.mem_of_get? hget, hplain, rfl⟩
      exact absurd ⟨key, rfl⟩ (hkeys _ (List.mem_map_of_mem (f := Prod.fst) hown))

end AccessorRule

namespace Context

section

variable {json : Json} {supply : Nat} {context : Context} (hjson : json.WellFormed)
  (hcontext : ofJson supply json = .ok context)

include hjson hcontext

theorem every_nodup_augment (rule : AccessorRule) :
    (Value.object (context.augment rule).1.entries).Every fun object => object.keys.Nodup := by
  cases json with
  | object entries =>
      cases hcontext
      have hkeys : (Value.ofJson (.object entries)).Every fun object => object.keys.Nodup :=
        Value.every_ofJson hjson fun entries hnodup => by rwa [Value.keys_entriesOfJson]
      have hgrown : rule.Augments (.object (Value.entriesOfJson entries))
          (.object (augment ⟨Value.entriesOfJson entries, supply⟩ rule).1.entries) := ⟨supply, rfl⟩
      exact (AccessorRule.every_settled_of_augments hkeys hgrown).mono fun _ hsettled => hsettled.nodup
  | _ => cases hcontext

-- In an augmented context the objects with accessors are those with arrays.
theorem every_exists_accessor_iff {rule : AccessorRule} (hkeys : json.Lacks rule.namePrefix) :
    (Value.object (context.augment rule).1.entries).Every fun fields =>
      (∃ entry ∈ fields, entry.2.isAccessor = true) ↔ ∃ entry ∈ fields, ∃ items, entry.2 = .array items := by
  have hnodup := every_nodup_augment hjson hcontext rule
  have hbare := bareEntries_augment hjson hkeys hcontext
  cases json with
  | object entries =>
      have hlacks : (Value.ofJson (.object entries)).Every fun fields =>
          ∀ key ∈ fields.keys, ¬Reserved rule.namePrefix key :=
        Value.every_ofJson_of_at fun depth inner hin => by
          rw [Value.keys_entriesOfJson]
          exact hkeys depth inner hin
      by_cases hpre : rule.namePrefix = ""
      · -- All names are reserved, so the context is empty.
        have hempty : entries = [] := by
          refine List.eq_nil_iff_forall_not_mem.mpr fun entry hmem => ?_
          refine hkeys 0 entries .root entry.1 (List.mem_map_of_mem hmem) ⟨entry.1, ?_⟩
          rw [hpre, String.empty_append]
        subst hempty
        cases hcontext
        have hnone : (augment ⟨Value.entriesOfJson [], supply⟩ rule).1.entries = [] := rfl
        rw [hnone]
        exact Value.every_object_iff.mpr ⟨by simp, nofun⟩
      · have horderly : context.Orderly rule AccessorRule.nothing := orderly_ofJson hjson hcontext _
        obtain ⟨hfresh, hvalues⟩ := horderly.augment hpre
        have hevery : (Value.object (context.augment rule).1.entries).Every (rule.Fresh AccessorRule.nothing) :=
          Value.every_object_iff.mpr ⟨hfresh, hvalues⟩
        have hown : (Value.object (context.augment rule).1.entries).Every fun fields =>
            ∀ key ∈ Fields.keys (Value.bareEntries fields), ¬Reserved rule.namePrefix key := by
          refine Value.every_of_bare (P := fun fields => ∀ key ∈ fields.keys, ¬Reserved rule.namePrefix key) hnodup ?_
          rw [Value.bare, hbare]
          cases hcontext
          exact hlacks
        exact fun fields hin => (hevery fields hin).exists_accessor_iff hpre (hown fields hin)
  | _ => cases hcontext

-- The number of an object's entries is that of its own ones where it has no arrays.
theorem every_countsOwn_iff {rule : AccessorRule} (hkeys : json.Lacks rule.namePrefix) :
    (Value.object (context.augment rule).1.entries).Every fun fields => fields.length ≤ Value.maxSafeInteger →
      (Value.CountsOwn fields ↔ ∀ entry ∈ fields, ∀ items, entry.2 ≠ .array items) := by
  intro fields hin hsize
  have haccessors := every_exists_accessor_iff hjson hcontext hkeys fields hin
  rw [Value.countsOwn_iff hsize]
  constructor
  · intro h entry hmem items hvalue
    obtain ⟨other, hother, haccessor⟩ := haccessors.mpr ⟨entry, hmem, items, hvalue⟩
    rw [h other hother] at haccessor
    cases haccessor
  · intro h entry hmem
    refine Bool.eq_false_iff.mpr fun haccessor => ?_
    obtain ⟨other, hother, items, hvalue⟩ := haccessors.mp ⟨entry, hmem, haccessor⟩
    exact h other hother items hvalue

end

-- Builtins give the same before and after augmentation, for arguments taken from the context that are no
-- accessors, except that length counts the accessors among the entries of an object. An object has some where
-- it has arrays.
theorem builtin_unaffected_iff (host : Host σ) (rule : AccessorRule) (json : Json) (supply : Nat)
    (context : Context) (builtin : Builtin) (args : List (Expr α)) (depth : Nat) (s : σ) (hjson : json.WellFormed)
    (hkeys : json.Lacks rule.namePrefix) (hcontext : Context.ofJson supply json = .ok context)
    (hargs : ∀ arg ∈ args, arg.Navigates)
    (hreads : ∀ arg ∈ args, ¬arg.ReadsAccessor host (context.augment rule).1.entries s depth) :
    ((builtin.call host (context.augment rule).1.entries depth args).run.run s =
        (builtin.call host context.entries depth args).run.run s ↔
      (builtin = .length → ∀ fields rest,
        (Expr.evalItems host (context.augment rule).1.entries depth args).run.run s =
          (.ok (.object fields :: rest), s) →
        Value.CountsOwn fields)) ∧
      (∀ fields, (Builtin.keys.apply [.object fields] >>= fun names => Builtin.length.apply [names]) =
        Builtin.length.apply [.object fields] ↔ Value.CountsOwn fields) ∧
      (Value.object (context.augment rule).1.entries).Every fun fields => fields.length ≤ Value.maxSafeInteger →
        (Value.CountsOwn fields ↔ ∀ entry ∈ fields, ∀ items, entry.2 ≠ .array items) := by
  refine ⟨?_, Builtin.length_keys_eq_iff, every_countsOwn_iff hjson hcontext hkeys⟩
  have hnodup := every_nodup_augment hjson hcontext rule
  obtain ⟨outcome, hafter, hbefore, -⟩ := Expr.mirrors_evalItems fun arg hreached =>
    (hargs arg hreached.mem).mirrors hnodup (hreads arg hreached.mem)
  rw [bareEntries_augment hjson hkeys hcontext] at hbefore
  rw [Builtin.call, Builtin.call, hafter]
  cases outcome with
  | error cause =>
      rw [Eval.run_bind_of_error hafter, Eval.run_bind_of_error hbefore]
      exact iff_of_true rfl nofun
  | ok values =>
      rw [Eval.run_bind_of_ok hafter, Eval.run_bind_of_ok hbefore]
      change (builtin.apply values, s) = (builtin.apply (values.map Value.bare), s) ↔ _
      rw [Prod.mk.injEq, and_iff_left rfl, eq_comm, Builtin.apply_map_bare_iff]
      refine imp_congr_right fun _ => forall₂_congr fun fields rest => ?_
      constructor
      · intro h hvalues
        cases hvalues
        exact h rfl
      · rintro h rfl
        exact h rfl

end Context

-- The first of two objects with an array each.
def twin : Expr Unit := .name () "a"

def twinsAugmented : Fields Value := (Context.augment ⟨Value.entriesOfJson twins, 0⟩ ⟨"$", false⟩).1.entries

theorem not_readsAccessor_twin : ¬twin.ReadsAccessor idleHost twinsAugmented () 0 := by
  intro h
  cases h with
  | here hvalue haccessor =>
      cases hvalue
      cases haccessor
  | within henters _ => cases henters

theorem keys_of_twin_unaffected :
    (Json.object twins).WellFormed ∧ (Json.object twins).Lacks "$" ∧
      Context.ofJson 0 (.object twins) = .ok ⟨Value.entriesOfJson twins, 0⟩ ∧
      (∀ arg ∈ [twin], arg.Navigates) ∧ (∀ arg ∈ [twin], ¬arg.ReadsAccessor idleHost twinsAugmented () 0) ∧
      (Builtin.keys.call idleHost twinsAugmented 0 [twin]).run.run () =
        (Builtin.keys.call idleHost (Value.entriesOfJson twins) 0 [twin]).run.run () := by
  have hargs : ∀ arg ∈ [twin], arg.Navigates := List.forall_mem_singleton.mpr .name
  have hreads : ∀ arg ∈ [twin], ¬arg.ReadsAccessor idleHost twinsAugmented () 0 :=
    List.forall_mem_singleton.mpr not_readsAccessor_twin
  exact ⟨well_formed_twins, lacks_twins, rfl, hargs, hreads,
    (Context.builtin_unaffected_iff idleHost ⟨"$", false⟩ (.object twins) 0 _ .keys [twin] 0 ()
      well_formed_twins lacks_twins rfl hargs hreads).1.mpr nofun⟩

-- The object has one entry, and two with the accessor.
theorem not_forall_builtin_unaffected :
    ¬∀ (json : Json) (context : Context) (builtin : Builtin) (args : List (Expr Unit)), json.WellFormed →
      json.Lacks "$" → Context.ofJson 0 json = .ok context → (∀ arg ∈ args, arg.Navigates) →
      (∀ arg ∈ args, ¬arg.ReadsAccessor idleHost (context.augment ⟨"$", false⟩).1.entries () 0) →
      (builtin.call idleHost (context.augment ⟨"$", false⟩).1.entries 0 args).run.run () =
        (builtin.call idleHost context.entries 0 args).run.run () := by
  intro h
  have hlength := h (.object twins) ⟨Value.entriesOfJson twins, 0⟩ .length [twin] well_formed_twins lacks_twins rfl
    (List.forall_mem_singleton.mpr .name) (List.forall_mem_singleton.mpr not_readsAccessor_twin)
  have hafter : (Builtin.length.call idleHost twinsAugmented 0 [twin]).run.run () = (.ok (.ofNat 2), ()) := rfl
  have hbefore : (Builtin.length.call idleHost (Value.entriesOfJson twins) 0 [twin]).run.run () =
      (.ok (.ofNat 1), ()) := rfl
  have hcounts : Value.ofNat 2 = .ofNat 1 :=
    Except.ok.inj (congrArg Prod.fst (hafter.symm.trans (hlength.trans hbefore)))
  exact absurd ((Value.ofNat_inj (by decide) (by decide)).mp hcounts) (by decide)

end JsonTemplate
