import JsonTemplate.Proofs.Engine.Orderly
import JsonTemplate.Proofs.Template.Steps

namespace JsonTemplate

-- What the accessors of an object are after an augmentation. One whose array is there gives out the
-- items of this array. Without an array, the accessor of an accessor that has replaced the array
-- stays, and in the context itself the accessor of an array that was withdrawn.
theorem AccessorRule.Fresh.accessor {rule : AccessorRule} {withdrawn : String → Prop}
    {object : Fields Value} (h : rule.Fresh withdrawn object) {name own : String} {identity : Nat}
    {items : List Value} (hget : object.get? name = some (.accessor identity own items)) :
    own = name ∧ ∃ key, name = rule.namePrefix ++ key ∧
      (object.get? key = some (.array items) ∨ (∀ others, object.get? key ≠ some (.array others)) ∧
        (rule.overwrite = true ∧ isReplaced object key = true ∨ withdrawn key)) := by
  obtain ⟨hown, key, rfl⟩ := h.named hget
  refine ⟨hown, key, rfl, ?_⟩
  by_cases harray : ∃ others, object.get? key = some (.array others)
  · obtain ⟨others, hothers⟩ := harray
    rcases h.serves key others hothers with ⟨identity, hname⟩ | ⟨-, value, hname, hvalue⟩
    · rw [hget] at hname
      cases hname
      exact .inl hothers
    · rw [hget] at hname
      cases hname
      cases hvalue
  · have hreplaced : isReplaced object (rule.namePrefix ++ key) = true :=
      isReplaced_iff.mpr ⟨_, hget, rfl⟩
    rcases h.beside hreplaced with hthere | hrest
    · exact absurd hthere harray
    · exact .inr ⟨fun others hothers => harray ⟨others, hothers⟩, hrest⟩

namespace Engine

variable {σ : Type}

-- What every run from JSON leaves in place, at every level of the context.
theorem accessors_after_augmentation (host : Host σ) (engine : Engine) {json : Json} {supply : Nat}
    (hjson : json.WellFormed) (hcontext : Context.ofJson supply json = .ok engine.context)
    (hpre : engine.config.accessorPrefix ≠ "") (actions : List Action)
    (hactions : ∀ action ∈ actions, action.WellFormed) (s : σ) :
    let scope := ((engine.perform host actions).run s).1.augmentContext.context.entries
    ∀ object, (Value.object scope).Reaches object →
      ∀ name identity own items, object.get? name = some (.accessor identity own items) →
        own = name ∧ ∃ key, name = engine.config.accessorPrefix ++ key ∧
          (object.get? key = some (.array items) ∨
            (∀ others, object.get? key ≠ some (.array others)) ∧
              (engine.config.overwriteUserKeys = true ∧ AccessorRule.isReplaced object key = true ∨
                object = scope ∧ Action.Withdrawn actions key)) := by
  intro scope object hin name identity own items hget
  obtain ⟨hconfig, hrun⟩ := engine.perform_context host actions s
  have hstart : engine.context.Orderly (accessorRule engine.config) (Action.Withdrawn []) :=
    Context.orderly_ofJson hjson hcontext _
  have horderly := hstart.run hpre actions hactions
  obtain ⟨hfresh, hvalues⟩ := horderly.augment hpre
  have hscope : scope = ((actions.foldl (Context.after (accessorRule engine.config)) engine.context).augment
      (accessorRule engine.config)).1.entries := by
    simp only [scope, augmentContext, hconfig, hrun]
  rw [← hscope] at hfresh hvalues
  cases hin with
  | here =>
      obtain ⟨hown, key, hname, hcases⟩ := hfresh.accessor hget
      refine ⟨hown, key, hname, hcases.imp_right fun ⟨hnone, hrest⟩ => ⟨hnone, hrest.imp_right ?_⟩⟩
      exact fun hwithdrawn => ⟨rfl, hwithdrawn⟩
  | entry hvalue hin =>
      obtain ⟨hown, key, hname, hcases⟩ := (hvalues _ _ hvalue object hin).accessor hget
      refine ⟨hown, key, hname, hcases.imp_right fun ⟨hnone, hrest⟩ => ⟨hnone, hrest.imp_right ?_⟩⟩
      exact False.elim

-- A null for a template, and an array in the context.
def oneArray : Engine := ⟨.null, ⟨[("arr", .array [.null])], 0⟩, .standard⟩

-- The accessor that a render made for the array stays when the array has given way to a boolean.
theorem accessors_after_withdrawal :
    ∃ key, "$arr" = "$" ++ key ∧ Action.Withdrawn [.render, .insert "arr" (.bool true)] key := by
  have hjson : (Json.object [("arr", .array [.null])]).WellFormed := by
    simp [Json.wellFormed_object_iff, Json.wellFormed_array_iff, Json.wellFormed_of_flat, Fields.keys]
  have hactions : ∀ action ∈ [Action.render, .insert "arr" (.bool true)], action.WellFormed := by
    simp [Action.WellFormed, Json.wellFormed_of_flat]
  obtain ⟨-, key, hname, hcases⟩ := oneArray.accessors_after_augmentation idleHost hjson rfl (by decide)
    [.render, .insert "arr" (.bool true)] hactions () _ .here "$arr" 0 "$arr" [.null] rfl
  refine ⟨key, hname, ?_⟩
  have hsplit : "$" ++ "arr" = "$" ++ key := hname
  obtain rfl := (String.append_right_inj "$").mp hsplit
  rcases hcases with hget | ⟨-, ⟨hoverwrite, -⟩ | ⟨-, hwithdrawn⟩⟩
  · cases hget
  · cases hoverwrite
  · exact hwithdrawn

-- So not every accessor has its array beside it.
theorem not_forall_accessors_beside_arrays :
    ¬∀ (engine : Engine) (json : Json) (supply : Nat), json.WellFormed →
      Context.ofJson supply json = .ok engine.context → engine.config.accessorPrefix ≠ "" →
      ∀ actions : List Action, (∀ action ∈ actions, action.WellFormed) →
      let scope := ((engine.perform idleHost actions).run ()).1.augmentContext.context.entries
      ∀ object, (Value.object scope).Reaches object →
        ∀ name identity own items, object.get? name = some (.accessor identity own items) →
          ∃ key, name = engine.config.accessorPrefix ++ key ∧ object.get? key = some (.array items) := by
  intro h
  have hjson : (Json.object [("arr", .array [.null])]).WellFormed := by
    simp [Json.wellFormed_object_iff, Json.wellFormed_array_iff, Json.wellFormed_of_flat, Fields.keys]
  have hactions : ∀ action ∈ [Action.render, .insert "arr" (.bool true)], action.WellFormed := by
    simp [Action.WellFormed, Json.wellFormed_of_flat]
  obtain ⟨key, hname, hget⟩ := h oneArray _ 0 hjson rfl (by decide)
    [.render, .insert "arr" (.bool true)] hactions _ .here "$arr" 0 "$arr" [.null] rfl
  have hsplit : "$" ++ "arr" = "$" ++ key := hname
  obtain rfl := (String.append_right_inj "$").mp hsplit
  cases hget

end Engine

end JsonTemplate
