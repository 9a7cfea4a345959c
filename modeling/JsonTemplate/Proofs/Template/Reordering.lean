import JsonTemplate.Proofs.Json.Similar
import JsonTemplate.Proofs.Template.NormalForm
import JsonTemplate.Proofs.Template.Rendering

namespace JsonTemplate

-- The same value, or one that differs in the order of keys. Values of expressions may have objects
-- with equal keys.
def Json.Alike (json other : Json) : Prop := json = other ∨ json.WellFormed ∧ json.Similar other

theorem Construct.detect?_congr {entries others : Fields Json} (h : entries.keys.Perm others.keys) :
    detect? entries = detect? others := by
  have hcontains (construct : Construct) : entries.contains construct.key = others.contains construct.key :=
    Bool.eq_iff_iff.mpr (by rw [Fields.contains_iff, Fields.contains_iff, h.mem_iff])
  rw [detect?, detect?, funext hcontains]

namespace Option

variable {α β : Type} {r : α → α → Prop} {q : β → β → Prop}

theorem rel_refl (hr : ∀ a, r a a) : ∀ a? : Option α, Option.Rel r a? a?
  | none => .none
  | some a => .some (hr a)

theorem rel_bind {f g : α → Option β} {a? b? : Option α} (h : Option.Rel r a? b?)
    (hfg : ∀ a b, r a b → Option.Rel q (f a) (g b)) : Option.Rel q (a? >>= f) (b? >>= g) := by
  cases h with
  | none => exact .none
  | some hab => exact hfg _ _ hab

theorem rel_map {f g : α → β} {a? b? : Option α} (h : Option.Rel r a? b?)
    (hfg : ∀ a b, r a b → q (f a) (g b)) :
    Option.Rel q (a?.map f) (b?.map g) := by
  cases h with
  | none => exact .none
  | some hab => exact .some (hfg _ _ hab)

theorem rel_imp {q : α → α → Prop} {a? b? : Option α} (h : Option.Rel r a? b?)
    (hrq : ∀ a b, r a b → q a b) :
    Option.Rel q a? b? := by
  cases h with
  | none => exact .none
  | some hab => exact .some (hrq _ _ hab)

end Option

namespace Walker

-- The results of slots are the same up to the order of keys.
def SimilarSlots (result other : Option (Option Json)) : Prop := Option.Rel (Option.Rel Json.Similar) result other

theorem similarSlots_refl (result : Option (Option Json)) : SimilarSlots result result :=
  Option.rel_refl (Option.rel_refl Json.Similar.refl) result

section

variable {render : Json → Option (Option Json)}

theorem renderItems_similar {items others : List Json}
    (h : List.Forall₂ (fun item other => SimilarSlots (render item) (render other)) items others) :
    Option.Rel (List.Forall₂ Json.Similar) (renderItems render items) (renderItems render others) := by
  induction h with
  | nil => exact .some .nil
  | @cons item other items others hslot _ ih =>
      rw [renderItems, renderItems]
      unfold SimilarSlots at hslot
      generalize render item = result, render other = result', renderItems render items = nodes,
        renderItems render others = nodes' at hslot ih
      cases hslot with
      | none => exact .none
      | some hnode =>
          cases ih with
          | none => exact .none
          | some hnodes =>
              refine .some (.cons ?_ hnodes)
              cases hnode with
              | none => exact .refl .null
              | some hsimilar => exact hsimilar

theorem renderEntries_isSome_iff {entries : List (String × Json)} (hkeys : (Fields.keys entries).Nodup) :
    (renderEntries render entries).isSome ↔
      ∀ key child, Fields.get? entries key = some child → (render child).isSome := by
  have hall : (renderEntries render entries).isSome ↔ ∀ entry ∈ entries, (render entry.2).isSome := by
    clear hkeys
    induction entries with
    | nil => exact iff_of_true rfl (List.forall_mem_nil _)
    | cons entry rest ih =>
        obtain ⟨key, child⟩ := entry
        rw [renderEntries, List.forall_mem_cons, ← ih]
        cases render child <;> cases renderEntries render rest <;> simp
  rw [hall]
  exact ⟨fun h key child hget => h (key, child) (Fields.mem_of_get? hget),
    fun h entry hmem => h entry.1 entry.2 (Fields.get?_of_mem hkeys hmem)⟩

theorem keys_renderEntries_sublist {entries kept : List (String × Json)}
    (h : renderEntries render entries = some kept) : (Fields.keys kept).Sublist (Fields.keys entries) := by
  induction entries generalizing kept with
  | nil => cases h; exact .slnil
  | cons entry rest ih =>
      obtain ⟨node?, others, -, hothers, rfl⟩ := renderEntries_cons_eq_some_iff.mp h
      cases node? with
      | none => exact (ih hothers).cons _
      | some node => exact (ih hothers).cons_cons _

-- What a rendered object has under a key.
theorem get?_renderEntries {entries kept : List (String × Json)} (hkeys : (Fields.keys entries).Nodup)
    (h : renderEntries render entries = some kept) (key : String) :
    Fields.get? kept key = ((Fields.get? entries key).bind render).join := by
  induction entries generalizing kept with
  | nil => cases h; rfl
  | cons entry rest ih =>
      obtain ⟨first, child⟩ := entry
      obtain ⟨node?, others, hnode, hothers, rfl⟩ := renderEntries_cons_eq_some_iff.mp h
      obtain ⟨hfirst, hrest⟩ := List.nodup_cons.mp hkeys
      rw [Fields.get?_cons]
      by_cases hkey : first = key
      · subst hkey
        rw [if_pos rfl, Option.bind_some, hnode]
        cases node? with
        | none =>
            have hsub := (keys_renderEntries_sublist hothers).subset
            exact Fields.get?_eq_none_iff.mpr fun hmem => hfirst (hsub hmem)
        | some node => exact if_pos rfl
      · rw [if_neg hkey, ← ih hrest hothers]
        cases node? with
        | none => rfl
        | some node => exact if_neg hkey

theorem renderEntries_isSome_congr {entries others : List (String × Json)}
    (hkeys : (Fields.keys entries).Nodup) (hothers : (Fields.keys others).Nodup)
    (h : ∀ key, Option.Rel (fun child other => SimilarSlots (render child) (render other))
      (Fields.get? entries key) (Fields.get? others key)) :
    (renderEntries render entries).isSome ↔ (renderEntries render others).isSome := by
  rw [renderEntries_isSome_iff hkeys, renderEntries_isSome_iff hothers]
  refine forall_congr' fun key => ?_
  generalize Fields.get? entries key = child?, Fields.get? others key = other?, h key = hrel
  cases hrel with
  | none => exact Iff.rfl
  | @some child other hslot =>
      simp only [Option.some_inj, forall_eq']
      unfold SimilarSlots at hslot
      generalize render child = result, render other = result' at hslot
      cases hslot <;> exact Iff.rfl

theorem renderEntries_similar {entries others : List (String × Json)} (hkeys : (Fields.keys entries).Nodup)
    (hothers : (Fields.keys others).Nodup)
    (h : ∀ key, Option.Rel (fun child other => SimilarSlots (render child) (render other))
      (Fields.get? entries key) (Fields.get? others key)) :
    Option.Rel (fun kept kept' => Json.Similar (.object kept) (.object kept')) (renderEntries render entries)
      (renderEntries render others) := by
  have hsome := renderEntries_isSome_congr hkeys hothers h
  cases hkept : renderEntries render entries with
  | none =>
      cases hkept' : renderEntries render others with
      | none => exact .none
      | some kept' => rw [hkept, hkept'] at hsome; cases hsome.mpr rfl
  | some kept =>
      cases hkept' : renderEntries render others with
      | none => rw [hkept, hkept'] at hsome; cases hsome.mp rfl
      | some kept' =>
          refine .some (Json.similar_of_rel_get? (hkeys.sublist (keys_renderEntries_sublist hkept))
            (hothers.sublist (keys_renderEntries_sublist hkept')) fun key => ?_)
          rw [get?_renderEntries hkeys hkept, get?_renderEntries hothers hkept']
          generalize Fields.get? entries key = child?, Fields.get? others key = other?, h key = hrel
          cases hrel with
          | none => exact .none
          | @some child other hslot =>
              rw [Option.bind_some, Option.bind_some]
              unfold SimilarSlots at hslot
              generalize render child = result, render other = result' at hslot
              cases hslot with
              | none => exact .none
              | some hnode => exact hnode

end

theorem alike_refl (node : Json) : node.Alike node := .inl rfl

variable {config : Config} {value? : String → Option Value}

theorem alike_get? {entries others : List (String × Json)} (hentries : (Json.object entries).WellFormed)
    (h : (Json.object entries).Similar (.object others)) (key : String) :
    Option.Rel Json.Alike (Fields.get? entries key) (Fields.get? others key) := by
  have hrel := Json.rel_get?_of_similar h key
  cases hchild : Fields.get? entries key with
  | none => 
      rw [hchild] at hrel
      generalize Fields.get? others key = other? at hrel
      cases hrel
      exact .none
  | some child =>
      rw [hchild] at hrel
      generalize Fields.get? others key = other? at hrel
      cases hrel with
      | some hsimilar => exact .some (.inr ⟨hentries.entry (Fields.mem_of_get? hchild), hsimilar⟩)

section

variable {render : Json → Option (Option Json)}
  (hrender : ∀ {node other : Json}, node.Alike other → SimilarSlots (render node) (render other))

include hrender

theorem renderArray_similar {items others : List Json} (hitems : (Json.array items).WellFormed)
    (h : List.Forall₂ Json.Similar items others) :
    Option.Rel Json.Similar ((renderItems render items).map .array) ((renderItems render others).map .array) := by
  have halike : List.Forall₂ (fun item other => item.WellFormed ∧ item.Similar other) items others :=
    (List.forall₂_and_left items others).mpr ⟨fun _ => hitems.item, h⟩
  exact Option.rel_map (renderItems_similar (halike.imp fun _ _ hitem => hrender (.inr hitem)))
    fun _ _ h => .array h

theorem renderObject_similar {entries others : List (String × Json)}
    (hentries : (Json.object entries).WellFormed) (h : (Json.object entries).Similar (.object others)) :
    Option.Rel Json.Similar ((renderEntries render entries).map .object)
      ((renderEntries render others).map .object) := by
  have hothers : (Fields.keys others).Nodup := h.keys_perm.nodup_iff.mp hentries.keys_nodup
  exact Option.rel_map (renderEntries_similar hentries.keys_nodup hothers fun key =>
    Option.rel_imp (alike_get? hentries h key) fun _ _ => hrender) fun _ _ h => h

end

theorem renderConstruct_alike {entries others : List (String × Json)}
    (hentries : (Json.object entries).WellFormed) (h : (Json.object entries).Similar (.object others))
    (construct : Construct) :
    Option.Rel (Option.Rel Json.Alike) (renderConstruct value? construct entries)
      (renderConstruct value? construct others) := by
  have hcontrol : (Fields.get? entries construct.key).bind Json.string? =
      (Fields.get? others construct.key).bind Json.string? := by
    generalize Fields.get? entries construct.key = control?, Fields.get? others construct.key = control?',
      Json.rel_get?_of_similar h construct.key = hrel
    cases hrel with
    | none => rfl
    | some hsimilar => exact hsimilar.string?_eq
  rw [renderConstruct, renderConstruct, hcontrol]
  refine Option.rel_bind (Option.rel_refl (r := Eq) (fun _ => rfl) _) ?_
  rintro expression _ rfl
  refine Option.rel_bind (Option.rel_refl (r := Eq) (fun _ => rfl) _) ?_
  rintro value _ rfl
  cases construct with
  | choice => exact .some (alike_get? hentries h _)
  | switch => exact .some (alike_get? hentries h _)
  | eval => exact Option.rel_refl (Option.rel_refl alike_refl) _

theorem renderSlot_similar (levels : Nat) {node other : Json} (h : node.Alike other) :
    SimilarSlots (renderSlot config value? levels node) (renderSlot config value? levels other) := by
  induction levels generalizing node other with
  | zero => exact .none
  | succ levels ih =>
      rcases h with rfl | ⟨hnode, hsimilar⟩
      · exact similarSlots_refl _
      cases hsimilar with
      | flat => exact similarSlots_refl _
      | array hitems =>
          exact Option.rel_map (renderArray_similar ih hnode hitems) fun _ _ h => .some h
      | @object entries others hkeys hchildren =>
          have hsimilar : (Json.object entries).Similar (.object others) := .object hkeys hchildren
          rw [renderSlot, renderSlot, Construct.detect?_congr hkeys]
          cases Construct.detect? others with
          | none => exact Option.rel_map (renderObject_similar ih hnode hsimilar) fun _ _ h => .some h
          | some construct =>
              refine Option.rel_bind (renderConstruct_alike hnode hsimilar construct) ?_
              rintro chosen chosen' hchosen
              cases hchosen with
              | none => exact .some .none
              | some halike => exact ih halike

theorem renderRoot_similar {root other : Json} (hroot : root.WellFormed) (h : root.Similar other) :
    Option.Rel Json.Similar (renderRoot config value? root) (renderRoot config value? other) := by
  have hrender := @renderSlot_similar config value? config.maxDepth
  cases h with
  | flat => exact Option.rel_refl Json.Similar.refl _
  | array hitems => exact renderArray_similar hrender hroot hitems
  | object hkeys hchildren => exact renderObject_similar hrender hroot (.object hkeys hchildren)

end Walker

end JsonTemplate
