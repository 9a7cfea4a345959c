import JsonTemplate.Proofs.Json.Node
import JsonTemplate.Proofs.Value.Objects
import Mathlib.Data.List.Forall2
import Mathlib.Data.Option.Defs

namespace JsonTemplate.Json

-- Induction on the parts of a JSON value.
theorem byParts {P : Json → Prop}
    (flat : ∀ json : Json, (∀ items, json ≠ array items) → (∀ entries, json ≠ object entries) → P json)
    (array : ∀ items : List Json, (∀ item ∈ items, P item) → P (.array items))
    (object : ∀ entries : List (String × Json), (∀ entry ∈ entries, P entry.2) → P (.object entries))
    (json : Json) : P json := by
  refine @Json.rec P (fun items => ∀ item ∈ items, P item) (fun entries => ∀ entry ∈ entries, P entry.2)
    (fun entry => P entry.2) ?null ?bool ?integer ?double ?string array object ?noItems ?items ?noEntries
    ?entries ?entry json
  case null => exact flat _ nofun nofun
  case bool => exact fun _ => flat _ nofun nofun
  case integer => exact fun _ => flat _ nofun nofun
  case double => exact fun _ => flat _ nofun nofun
  case string => exact fun _ => flat _ nofun nofun
  case noItems => exact List.forall_mem_nil _
  case items => exact fun item items hitem hitems => List.forall_mem_cons.mpr ⟨hitem, hitems⟩
  case noEntries => exact List.forall_mem_nil _
  case entries => exact fun entry entries hentry hentries => List.forall_mem_cons.mpr ⟨hentry, hentries⟩
  case entry => exact fun key value h => h

-- The same value, but for the order of the entries of its objects.
inductive Similar : Json → Json → Prop
  | flat {json : Json} (harray : ∀ items, json ≠ array items) (hobject : ∀ entries, json ≠ object entries) :
      Similar json json
  | array {items others : List Json} (h : List.Forall₂ Similar items others) :
      Similar (.array items) (.array others)
  | object {entries others : List (String × Json)}
      (hkeys : (Fields.keys entries).Perm (Fields.keys others))
      (h : ∀ key child other, Fields.get? entries key = some child → Fields.get? others key = some other →
        Similar child other) :
      Similar (.object entries) (.object others)

theorem Similar.refl (json : Json) : json.Similar json := by
  induction json using byParts with
  | flat json harray hobject => exact .flat harray hobject
  | array items ih => exact .array (List.forall₂_same.mpr ih)
  | object entries ih =>
      refine .object (.refl _) fun key child other hchild hother => ?_
      cases hchild.symm.trans hother
      exact ih _ (Fields.mem_of_get? hchild)

theorem Similar.string?_eq {json other : Json} (h : json.Similar other) : json.string? = other.string? := by
  cases h <;> rfl

theorem Similar.keys_perm {entries others : List (String × Json)}
    (h : (Json.object entries).Similar (.object others)) :
    (Fields.keys entries).Perm (Fields.keys others) := by
  cases h with
  | flat _ hobject => exact absurd rfl (hobject entries)
  | object hkeys => exact hkeys

-- Similar objects have similar values under a key, or both have none.
theorem rel_get?_of_similar {entries others : List (String × Json)}
    (h : (object entries).Similar (object others)) (key : String) :
    Option.Rel Similar (Fields.get? entries key) (Fields.get? others key) := by
  have hkeys := h.keys_perm
  cases hchild : Fields.get? entries key with
  | none =>
      rw [Fields.get?_eq_none_iff, hkeys.mem_iff, ← Fields.get?_eq_none_iff] at hchild
      rw [hchild]
      exact .none
  | some child =>
      cases hother : Fields.get? others key with
      | none =>
          rw [Fields.get?_eq_none_iff, ← hkeys.mem_iff, ← Fields.get?_eq_none_iff, hchild] at hother
          cases hother
      | some other =>
          cases h with
          | flat _ hobject => exact absurd rfl (hobject entries)
          | object _ hchildren => exact .some (hchildren key child other hchild hother)

-- Objects that have similar values under every key are similar.
theorem similar_of_rel_get? {entries others : List (String × Json)} (hentries : (Fields.keys entries).Nodup)
    (hothers : (Fields.keys others).Nodup)
    (h : ∀ key, Option.Rel Similar (Fields.get? entries key) (Fields.get? others key)) :
    (object entries).Similar (object others) := by
  refine .object ((List.perm_ext_iff_of_nodup hentries hothers).mpr fun key => ?_) ?_
  · refine not_iff_not.mp ?_
    rw [← Fields.get?_eq_none_iff, ← Fields.get?_eq_none_iff]
    generalize Fields.get? entries key = child, Fields.get? others key = other, h key = hrel
    cases hrel with
    | none => exact Iff.rfl
    | some => exact iff_of_false nofun nofun
  · intro key child other hchild hother
    have hrel := h key
    rw [hchild, hother] at hrel
    cases hrel with
    | some hsimilar => exact hsimilar

-- In particular the entries of an object may change their order.
theorem similar_of_perm {entries others : List (String × Json)} (hkeys : (Fields.keys entries).Nodup)
    (h : entries.Perm others) : (object entries).Similar (object others) := by
  refine .object (h.map Prod.fst) fun key child other hchild hother => ?_
  have hmem := h.mem_iff.mpr (Fields.mem_of_get? hother)
  cases hchild.symm.trans (Fields.get?_of_mem hkeys hmem)
  exact .refl child

end JsonTemplate.Json
