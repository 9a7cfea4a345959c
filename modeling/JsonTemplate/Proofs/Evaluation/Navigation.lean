import JsonTemplate.Proofs.Evaluation.Augmented

namespace JsonTemplate.Expr

open Eval

variable {σ α : Type}

-- An expression that takes a value from the scope by member access and indexing. What it indexes by are
-- literals, or taken in the same way.
inductive Navigates : Expr α → Prop
  | number {a : α} {x : Float} : Navigates (.number a x)
  | string {a : α} {s : String} : Navigates (.string a s)
  | name {a : α} {n : String} : Navigates (.name a n)
  | member {a : α} {target : Expr α} {key : String} (htarget : Navigates target) :
      Navigates (.member a target key)
  | index {a : α} {target key : Expr α} (htarget : Navigates target) (hkey : Navigates key) :
      Navigates (.index a target key)

-- The expression, or a part that its evaluation comes to, has an accessor for its value.
inductive ReadsAccessor (host : Host σ) (scope : Fields Value) (s : σ) : Nat → Expr α → Prop
  | here {depth : Nat} {e : Expr α} {value : Value} (hvalue : HasValue host scope s depth e value)
      (haccessor : value.isAccessor = true) : ReadsAccessor host scope s depth e
  | within {depth : Nat} {e part : Expr α} (henters : Enters host scope s depth e part)
      (hpart : ReadsAccessor host scope s (depth + 1) part) : ReadsAccessor host scope s depth e

variable {host : Host σ} {scope after : Fields Value} {s : σ} {depth : Nat}

-- A value taken from a scope, and its counterpart without accessors, taken in the same way from the scope
-- without accessors.
theorem Navigates.mirrors (hkeys : (Value.object after).Every fun object => object.keys.Nodup) {e : Expr α}
    (he : e.Navigates) (hreads : ¬ReadsAccessor host after s depth e) :
    Mirrors s Value.bare (fun value => value.Every fun object => object.keys.Nodup) (e.evalAt host after depth)
      (e.evalAt host (Value.bareEntries after) depth) := by
  -- The value of the expression is no accessor, and its parts read none either.
  have hplain {depth : Nat} {e : Expr α} {value : Value} (hreads : ¬ReadsAccessor host after s depth e)
      (hvalue : HasValue host after s depth e value) : value.isAccessor = false :=
    Bool.eq_false_iff.mpr fun haccessor => hreads (.here hvalue haccessor)
  have hpart {depth : Nat} {e part : Expr α} (hreads : ¬ReadsAccessor host after s depth e)
      (henters : Enters host after s depth e part) : ¬ReadsAccessor host after s (depth + 1) part :=
    fun h => hreads (.within henters h)
  induction he generalizing depth with
  | number | string =>
      rw [evalAt, evalAt]
      exact mirrors_within fun _ => mirrors_pure (f := Value.bare) (Value.composed_every_nodup.scalar _ rfl)
  | @name a n =>
      obtain ⟨hnodup, hvalues⟩ := Value.every_object_iff.mp hkeys
      rw [evalAt, evalAt, Value.get?_bareEntries hnodup]
      refine mirrors_within fun hdepth => ?_
      cases hget : after.get? n with
      | none => exact mirrors_throw _
      | some value =>
          have hvalue : HasValue host after s depth (.name a n) value := by
            rw [HasValue, evalAt, if_neg (Nat.not_lt.mpr hdepth), hget]
            rfl
          rw [Value.bareSlot?_some (hplain hreads hvalue)]
          exact mirrors_pure (hvalues n value hget)
  | @member a target key _ ih =>
      rw [evalAt, evalAt]
      refine mirrors_within fun hdepth => (ih (hpart hreads .member)).bind fun value hvalue hrun => ?_
      have hfound : ∀ found, value.member key = .ok found → found.isAccessor = false := by
        intro found hfound
        refine hplain hreads ?_
        rw [HasValue, evalAt, if_neg (Nat.not_lt.mpr hdepth), run_bind_of_ok hrun, hfound]
        rfl
      exact mirrors_except (Value.member_bare hvalue key hfound) fun _ => Value.composed_every_nodup.member hvalue
  | @index a target key _ _ ihTarget ihKey =>
      rw [evalAt, evalAt]
      refine mirrors_within fun hdepth => (ihTarget (hpart hreads .target)).bind fun value hvalue hrun => ?_
      refine (ihKey (hpart hreads (.key hrun))).bind fun keyValue _ hrunKey => ?_
      have hfound : ∀ found, value.element keyValue = .ok found → found.isAccessor = false := by
        intro found hfound
        refine hplain hreads ?_
        rw [HasValue, evalAt, if_neg (Nat.not_lt.mpr hdepth), run_bind_of_ok hrun, run_bind_of_ok hrunKey, hfound]
        rfl
      exact mirrors_except (Value.element_bare hvalue hfound) fun _ => Value.composed_every_nodup.element hvalue

end JsonTemplate.Expr
