import JsonTemplate.Proofs.Evaluation.Pure
import JsonTemplate.Proofs.Template.Observation
import JsonTemplate.Proofs.Template.Reordering

namespace JsonTemplate

variable {σ : Type}

theorem Slot.result?_eq_some_some_iff {slot : Slot} {node : Json} :
    slot.result? = some (some node) ↔ slot = .present node := by
  obtain ⟨left, error | _ | _⟩ := slot <;> simp [Slot.result?, Slot.present]

namespace Walker

section

variable {render : Json → Option (Option Json)}

theorem renderEntries_singleton_eq_some_iff {key : String} {child : Json} {part : List (String × Json)} :
    renderEntries render [(key, child)] = some part ↔
      ∃ node?, render child = some node? ∧ part = (node?.map fun node => (key, node)).toList := by
  cases hnode : render child <;> simp [renderEntries, hnode, eq_comm]

theorem renderItems_singleton_eq_some_iff {child : Json} {part : List Json} :
    renderItems render [child] = some part ↔
      ∃ node?, render child = some node? ∧ part = [node?.getD .null] := by
  cases hnode : render child <;> simp [renderItems, hnode, eq_comm]

-- An object is made of what its entries become alone.
theorem renderEntries_eq_some_iff {entries kept : List (String × Json)} :
    renderEntries render entries = some kept ↔
      ∃ parts, List.Forall₂ (fun entry part => renderEntries render [entry] = some part) entries parts ∧
        kept = parts.flatten := by
  induction entries generalizing kept with
  | nil =>
      constructor
      · intro h
        cases h
        exact ⟨[], .nil, rfl⟩
      · rintro ⟨parts, hparts, rfl⟩
        cases hparts
        rfl
  | cons entry rest ih =>
      obtain ⟨key, child⟩ := entry
      rw [renderEntries_cons_eq_some_iff]
      constructor
      · rintro ⟨node?, others, hnode, hothers, rfl⟩
        obtain ⟨parts, hparts, rfl⟩ := ih.mp hothers
        exact ⟨_ :: parts, .cons (renderEntries_singleton_eq_some_iff.mpr ⟨node?, hnode, rfl⟩) hparts, rfl⟩
      · rintro ⟨_, hparts, rfl⟩
        cases hparts with
        | @cons _ _ _ parts hpart hparts =>
            obtain ⟨node?, hnode, rfl⟩ := renderEntries_singleton_eq_some_iff.mp hpart
            exact ⟨node?, _, hnode, ih.mpr ⟨parts, hparts, rfl⟩, rfl⟩

-- So is an array, which has one item for each.
theorem renderItems_eq_some_iff {items nodes : List Json} :
    renderItems render items = some nodes ↔
      List.Forall₂ (fun item node => renderItems render [item] = some [node]) items nodes := by
  induction items generalizing nodes with
  | nil =>
      constructor
      · intro h
        cases h
        exact .nil
      · intro h
        cases h
        rfl
  | cons child rest ih =>
      rw [renderItems_cons_eq_some_iff]
      constructor
      · rintro ⟨node?, others, hnode, hothers, rfl⟩
        exact .cons (renderItems_singleton_eq_some_iff.mpr ⟨node?, hnode, rfl⟩) (ih.mp hothers)
      · intro h
        cases h with
        | cons hchild hothers =>
            obtain ⟨node?, hnode, hlist⟩ := renderItems_singleton_eq_some_iff.mp hchild
            exact ⟨node?, _, hnode, ih.mpr hothers, by rw [(List.cons.inj hlist).1]⟩

end

section

variable (walker : Walker σ) (levels : Nat) (path : Json.Pointer) (s : σ)

-- An object with the entry only becomes one with these entries.
def AloneInObject (entry : String × Json) (part : List (String × Json)) : Prop :=
  ((walkObject (walker.resolveSlot levels) path [entry]).run s).1 = .present (.object part)

-- An array with the item only becomes one with this item.
def AloneInArray (item node : Json) : Prop :=
  ((walkArray (walker.resolveSlot levels) path [item]).run s).1 = .present (.array [node])

end

-- The slots of a container are rendered as if they were alone, anywhere and at any time. A container
-- fails if one of its slots does.
structure SiblingsApart (walker : Walker σ) : Prop where
  object : ∀ levels path path' entries node s s',
    ((walkObject (walker.resolveSlot levels) path entries).run s).1 = .present node ↔
      ∃ parts, List.Forall₂ (walker.AloneInObject levels path' s') entries parts ∧
        node = .object parts.flatten
  array : ∀ levels path path' items node s s',
    ((walkArray (walker.resolveSlot levels) path items).run s).1 = .present node ↔
      ∃ nodes, List.Forall₂ (walker.AloneInArray levels path' s') items nodes ∧ node = .array nodes
  -- An absent slot leaves no entry, and null as an item.
  absent : ∀ levels path path' key child s s',
    ((walker.resolveSlot levels path child).run s).1.outcome = .ok .absent →
      walker.AloneInObject levels path' s' (key, child) [] ∧ walker.AloneInArray levels path' s' child .null
  present : ∀ levels path path' key child node s s',
    ((walker.resolveSlot levels path child).run s).1 = .present node →
      walker.AloneInObject levels path' s' (key, child) [(key, node)] ∧
        walker.AloneInArray levels path' s' child node
  failed : ∀ levels path path' key child error s s',
    ((walker.resolveSlot levels path child).run s).1.outcome = .error error →
      (∀ part, ¬walker.AloneInObject levels path' s' (key, child) part) ∧
        ∀ node, ¬walker.AloneInArray levels path' s' child node
  keys : ∀ levels path entries kept s,
    ((walkObject (walker.resolveSlot levels) path entries).run s).1 = .present (.object kept) →
      (Fields.keys kept).Sublist (Fields.keys entries)
  length : ∀ levels path items nodes s,
    ((walkArray (walker.resolveSlot levels) path items).run s).1 = .present (.array nodes) →
      nodes.length = items.length
  -- The order of keys in the template has no effect but on the order of keys in the result.
  reordered : ∀ root other s s', root.WellFormed → root.Similar other →
    (((walker.walk root).run s).1.2 = none ↔ ((walker.walk other).run s').1.2 = none) ∧
      (((walker.walk root).run s).1.2 = none →
        ((walker.walk root).run s).1.1.Similar ((walker.walk other).run s').1.1)

variable {value? : String → Option Value} {walker : Walker σ} (h : walker.Yields value?) {levels : Nat}
  {path : Json.Pointer} {s : σ}

include h

theorem walkObject_eq_present_iff {entries : List (String × Json)} {node : Json} :
    ((walkObject (walker.resolveSlot levels) path entries).run s).1 = .present node ↔
      ∃ kept, renderEntries (renderSlot walker.config value? levels) entries = some kept ∧
        node = .object kept := by
  rw [← Slot.result?_eq_some_some_iff, result?_walkObject (result?_resolveSlot h levels)]
  simp only [Option.map_map, Option.map_eq_some_iff, Function.comp_apply, Option.some_inj, eq_comm (a := node)]

theorem walkArray_eq_present_iff {items : List Json} {node : Json} :
    ((walkArray (walker.resolveSlot levels) path items).run s).1 = .present node ↔
      ∃ nodes, renderItems (renderSlot walker.config value? levels) items = some nodes ∧
        node = .array nodes := by
  rw [← Slot.result?_eq_some_some_iff, result?_walkArray (result?_resolveSlot h levels)]
  simp only [Option.map_map, Option.map_eq_some_iff, Function.comp_apply, Option.some_inj, eq_comm (a := node)]

theorem aloneInObject_iff {entry : String × Json} {part : List (String × Json)} :
    walker.AloneInObject levels path s entry part ↔
      renderEntries (renderSlot walker.config value? levels) [entry] = some part := by
  rw [AloneInObject, walkObject_eq_present_iff h]
  simp

theorem aloneInArray_iff {item node : Json} :
    walker.AloneInArray levels path s item node ↔
      renderItems (renderSlot walker.config value? levels) [item] = some [node] := by
  rw [AloneInArray, walkArray_eq_present_iff h]
  simp

-- A slot that does not fail is rendered alone to what it leaves in a container.
theorem alone_of_renderSlot (key : String) {child : Json} (node? : Option Json)
    (hslot : renderSlot walker.config value? levels child = some node?) :
    walker.AloneInObject levels path s (key, child) (node?.map fun node => (key, node)).toList ∧
      walker.AloneInArray levels path s child (node?.getD .null) :=
  ⟨(aloneInObject_iff h).mpr (renderEntries_singleton_eq_some_iff.mpr ⟨node?, hslot, rfl⟩),
    (aloneInArray_iff h).mpr (renderItems_singleton_eq_some_iff.mpr ⟨node?, hslot, rfl⟩)⟩

theorem not_alone_of_renderSlot (key : String) {child : Json}
    (hslot : renderSlot walker.config value? levels child = none) :
    (∀ part, ¬walker.AloneInObject levels path s (key, child) part) ∧
      ∀ node, ¬walker.AloneInArray levels path s child node := by
  constructor
  · intro part hpart
    obtain ⟨node?, hnode, -⟩ := renderEntries_singleton_eq_some_iff.mp ((aloneInObject_iff h).mp hpart)
    rw [hslot] at hnode
    cases hnode
  · intro node hnode
    obtain ⟨node?, hnode, -⟩ := renderItems_singleton_eq_some_iff.mp ((aloneInArray_iff h).mp hnode)
    rw [hslot] at hnode
    cases hnode

theorem walk_similar {root other : Json} (hroot : root.WellFormed) (hsimilar : root.Similar other) (s s' : σ) :
    (((walker.walk root).run s).1.2 = none ↔ ((walker.walk other).run s').1.2 = none) ∧
      (((walker.walk root).run s).1.2 = none →
        ((walker.walk root).run s).1.1.Similar ((walker.walk other).run s').1.1) := by
  have hrel : Option.Rel Json.Similar (renderRoot walker.config value? root)
      (renderRoot walker.config value? other) := renderRoot_similar hroot hsimilar
  rcases hrun : (walker.walk root).run s with ⟨⟨node, failure⟩, s₁⟩
  rcases hrun' : (walker.walk other).run s' with ⟨⟨node', failure'⟩, s₁'⟩
  rw [renderRoot_eq_of_walk h hrun, renderRoot_eq_of_walk h hrun'] at hrel
  cases failure with
  | none =>
      cases failure' with
      | none => cases hrel with
        | some hnode => exact ⟨Iff.rfl, fun _ => hnode⟩
      | some error => cases hrel
  | some error =>
      cases failure' with
      | none => cases hrel
      | some error => exact ⟨iff_of_false nofun nofun, nofun⟩

theorem siblingsApart_of_yields : walker.SiblingsApart where
  object levels path path' entries node s s' := by
    have halone : walker.AloneInObject levels path' s' = fun entry part =>
        renderEntries (renderSlot walker.config value? levels) [entry] = some part :=
      funext₂ fun _ _ => propext (aloneInObject_iff h)
    rw [walkObject_eq_present_iff h, halone]
    constructor
    · rintro ⟨kept, hkept, rfl⟩
      obtain ⟨parts, hparts, rfl⟩ := renderEntries_eq_some_iff.mp hkept
      exact ⟨parts, hparts, rfl⟩
    · rintro ⟨parts, hparts, rfl⟩
      exact ⟨parts.flatten, renderEntries_eq_some_iff.mpr ⟨parts, hparts, rfl⟩, rfl⟩
  array levels path path' items node s s' := by
    have halone : walker.AloneInArray levels path' s' = fun item node =>
        renderItems (renderSlot walker.config value? levels) [item] = some [node] :=
      funext₂ fun _ _ => propext (aloneInArray_iff h)
    simp only [walkArray_eq_present_iff h, halone]
    exact exists_congr fun nodes => and_congr_left' renderItems_eq_some_iff
  absent levels path path' key child s s' habsent := by
    refine alone_of_renderSlot h key none ?_
    rw [← result?_resolveSlot h levels path child s, Slot.result?, habsent]
  present levels path path' key child node s s' hpresent := by
    refine alone_of_renderSlot h key (some node) ?_
    rw [← result?_resolveSlot h levels path child s, hpresent]
    rfl
  failed levels path path' key child error s s' hfailed := by
    refine not_alone_of_renderSlot h key ?_
    rw [← result?_resolveSlot h levels path child s, Slot.result?, hfailed]
  keys levels path entries kept s hkept := by
    obtain ⟨_, hkept, heq⟩ := (walkObject_eq_present_iff h).mp hkept
    cases heq
    exact keys_renderEntries_sublist hkept
  length levels path items nodes s hnodes := by
    obtain ⟨_, hnodes, heq⟩ := (walkArray_eq_present_iff h).mp hnodes
    cases heq
    exact (renderItems_eq_some_iff.mp hnodes).length_eq.symm
  reordered root other s s' hroot hsimilar := walk_similar h hroot hsimilar s s'

omit h

-- Pure functions give every expression a fixed value.
theorem exists_yields {host : Host σ} {scope : Fields Value} (hscope : host.PureIn scope) (config : Config) :
    ∃ value?, (inScope host config scope).Yields value? := by
  by_cases hstate : Nonempty σ
  · obtain ⟨s⟩ := hstate
    refine ⟨fun source => ((JsonTemplate.evaluate host scope source).run.run s).1.toOption, fun source s' => ?_⟩
    exact congrArg Except.toOption (evaluate_steady hscope source s' s)
  · exact ⟨fun _ => none, fun _ s => absurd ⟨s⟩ hstate⟩

-- In a scope with pure functions only, the slots of a template do not affect each other.
theorem siblings_apart (host : Host σ) (scope : Fields Value) (config : Config) (hscope : host.PureIn scope) :
    (inScope host config scope).SiblingsApart := by
  obtain ⟨value?, h⟩ := exists_yields hscope config
  exact siblingsApart_of_yields h

end Walker

-- A host that counts calls, with functions that give back their argument.
def countingHost : Host Nat where
  call _ _ args n := (.ok (args.headD .null), n + 1)

-- A call and a choice that has no branch to take, in either order.
def callAndChoice : Json :=
  .object [("a", .object [("$eval", .string "f()")]), ("b", .object [("$if", .string "false")])]

def choiceAndCall : Json :=
  .object [("b", .object [("$if", .string "false")]), ("a", .object [("$eval", .string "f()")])]

theorem siblings_apart_of_call_and_choice :
    let walk := (Walker.inScope countingHost .standard [("f", .function (.external 0 "f"))]).walk
    countingHost.PureIn [("f", .function (.external 0 "f"))] ∧ callAndChoice.WellFormed ∧
      callAndChoice.Similar choiceAndCall ∧ (walk callAndChoice).run 0 = ((.object [("a", .null)], none), 1) ∧
      ((walk choiceAndCall).run 7).1.2 = none ∧
      (Json.object [("a", .null)]).Similar ((walk choiceAndCall).run 7).1.1 := by
  intro walk
  have hpure : countingHost.PureIn [("f", .function (.external 0 "f"))] :=
    Host.pureIn_of_forall_call fun _ _ _ _ _ => rfl
  have hentry (key expression : String) : (Json.object [(key, .string expression)]).WellFormed := by
    refine Json.wellFormed_object_iff.mpr ⟨List.pairwise_singleton _ _, ?_⟩
    exact List.forall_mem_singleton.mpr (Json.wellFormed_of_flat nofun nofun)
  have hroot : callAndChoice.WellFormed :=
    Json.wellFormed_object_iff.mpr ⟨by decide, by simpa using ⟨hentry _ _, hentry _ _⟩⟩
  have hsimilar : callAndChoice.Similar choiceAndCall := Json.similar_of_perm hroot.keys_nodup (.swap _ _ _)
  have hrun : (walk callAndChoice).run 0 = ((.object [("a", .null)], none), 1) := by rfl
  obtain ⟨hsuccess, hresult⟩ :=
    (Walker.siblings_apart countingHost _ .standard hpure).reordered _ _ 0 7 hroot hsimilar
  rw [hrun] at hsuccess hresult
  exact ⟨hpure, hroot, hsimilar, hrun, hsuccess.mp rfl, hresult rfl⟩

end JsonTemplate
