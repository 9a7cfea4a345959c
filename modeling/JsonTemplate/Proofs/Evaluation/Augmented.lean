import JsonTemplate.Proofs.Evaluation.Results
import JsonTemplate.Proofs.Value.Equality
import JsonTemplate.Proofs.Value.Neat

namespace JsonTemplate

variable {σ α β : Type}

namespace Eval

-- Two computations at a state that they do not change: they fail in the same way, or the value of the
-- second one is made from that of the first, which has a property.
def Mirrors (s : σ) (f : α → β) (P : α → Prop) (x : Eval σ α) (y : Eval σ β) : Prop :=
  ∃ outcome, x.run.run s = (outcome, s) ∧ y.run.run s = (outcome.map f, s) ∧ ∀ a, outcome = .ok a → P a

variable {s : σ} {f : α → β} {P : α → Prop}

theorem mirrors_pure {a : α} (h : P a) : Mirrors s f P (pure a) (pure (f a)) :=
  ⟨.ok a, rfl, rfl, fun _ heq => by cases heq; exact h⟩

theorem mirrors_throw (cause : EvalError) : Mirrors s f P (throw cause) (throw cause) :=
  ⟨.error cause, rfl, rfl, nofun⟩

theorem mirrors_except {outcome : Except EvalError α} {outcome' : Except EvalError β}
    (hmap : outcome' = outcome.map f) (h : ∀ a, outcome = .ok a → P a) :
    Mirrors s f P (ExceptT.mk (pure outcome)) (ExceptT.mk (pure outcome')) :=
  ⟨outcome, rfl, by rw [hmap]; rfl, h⟩

theorem Mirrors.bind {α' β' : Type} {g : α' → β'} {Q : α' → Prop} {x : Eval σ α} {y : Eval σ β}
    {k : α → Eval σ α'} {l : β → Eval σ β'} (hx : Mirrors s f P x y)
    (hk : ∀ a, P a → x.run.run s = (.ok a, s) → Mirrors s g Q (k a) (l (f a))) :
    Mirrors s g Q (x >>= k) (y >>= l) := by
  obtain ⟨outcome, hrun, hmirror, hP⟩ := hx
  cases outcome with
  | error cause => exact ⟨.error cause, run_bind_of_error hrun, run_bind_of_error hmirror, nofun⟩
  | ok a =>
      obtain ⟨outcome, hnext, hnextMirror, hQ⟩ := hk a (hP a rfl) hrun
      exact ⟨outcome, (run_bind_of_ok hrun).trans hnext, (run_bind_of_ok hmirror).trans hnextMirror, hQ⟩

theorem mirrors_within {depth : Nat} {x : Eval σ α} {y : Eval σ β}
    (h : depth ≤ maxNesting → Mirrors s f P x y) :
    Mirrors s f P (if maxNesting < depth then throw .nestingTooDeep else x)
      (if maxNesting < depth then throw .nestingTooDeep else y) := by
  split
  · exact mirrors_throw _
  · rename_i hdepth
    exact h (Nat.not_lt.mp hdepth)

end Eval

namespace Expr

-- An expression without calls that uses no reserved name: not as its own names, nor as names of members
-- or keys. What it indexes by are number literals.
inductive Avoids (namePrefix : String) : Expr α → Prop
  | null {a : α} : Avoids namePrefix (.null a)
  | bool {a : α} {b : Bool} : Avoids namePrefix (.bool a b)
  | number {a : α} {x : Float} : Avoids namePrefix (.number a x)
  | string {a : α} {s : String} : Avoids namePrefix (.string a s)
  | array {a : α} {items : List (Expr α)} (hitems : ∀ item ∈ items, Avoids namePrefix item) :
      Avoids namePrefix (.array a items)
  | object {a : α} {entries : List (String × Expr α)}
      (hkeys : ∀ entry ∈ entries, ¬Reserved namePrefix entry.1)
      (hentries : ∀ entry ∈ entries, Avoids namePrefix entry.2) : Avoids namePrefix (.object a entries)
  | name {a : α} {n : String} (hname : ¬Reserved namePrefix n) : Avoids namePrefix (.name a n)
  | member {a : α} {target : Expr α} {key : String} (htarget : Avoids namePrefix target)
      (hkey : ¬Reserved namePrefix key) : Avoids namePrefix (.member a target key)
  | index {a b : α} {target : Expr α} {x : Float} (htarget : Avoids namePrefix target) :
      Avoids namePrefix (.index a target (.number b x))
  | unary {a : α} {op : UnaryOp} {operand : Expr α} (hoperand : Avoids namePrefix operand) :
      Avoids namePrefix (.unary a op operand)
  | binary {a : α} {op : BinaryOp} {lhs rhs : Expr α} (hlhs : Avoids namePrefix lhs)
      (hrhs : Avoids namePrefix rhs) : Avoids namePrefix (.binary a op lhs rhs)
  | conditional {a : α} {test yes no : Expr α} (htest : Avoids namePrefix test)
      (hyes : Avoids namePrefix yes) (hno : Avoids namePrefix no) :
      Avoids namePrefix (.conditional a test yes no)

section

variable (host : Host σ) (scope : Fields Value) (s : σ)

def HasValue (depth : Nat) (e : Expr α) (value : Value) : Prop :=
  (e.evalAt host scope depth).run.run s = (.ok value, s)

-- An expression of a list is evaluated when those before it have their values.
inductive ReachesItem (depth : Nat) : List (Expr α) → Expr α → Prop
  | head {item : Expr α} {items : List (Expr α)} : ReachesItem depth (item :: items) item
  | tail {item part : Expr α} {items : List (Expr α)} {value : Value}
      (hvalue : HasValue host scope s depth item value) (hpart : ReachesItem depth items part) :
      ReachesItem depth (item :: items) part

-- The evaluation of an expression without calls at a depth evaluates a part of it, one level deeper.
inductive Enters (depth : Nat) : Expr α → Expr α → Prop
  | item {a : α} {items : List (Expr α)} {part : Expr α}
      (hpart : ReachesItem host scope s (depth + 1) items part) : Enters depth (.array a items) part
  | entry {a : α} {entries : List (String × Expr α)} {part : Expr α}
      (hpart : ReachesItem host scope s (depth + 1) (entries.map Prod.snd) part) :
      Enters depth (.object a entries) part
  | member {a : α} {target : Expr α} {key : String} : Enters depth (.member a target key) target
  | target {a : α} {target key : Expr α} : Enters depth (.index a target key) target
  | key {a : α} {target key : Expr α} {value : Value}
      (hvalue : HasValue host scope s (depth + 1) target value) : Enters depth (.index a target key) key
  | operand {a : α} {op : UnaryOp} {operand : Expr α} : Enters depth (.unary a op operand) operand
  | lhs {a : α} {op : BinaryOp} {lhs rhs : Expr α} : Enters depth (.binary a op lhs rhs) lhs
  | rhs {a : α} {op : BinaryOp} {lhs rhs : Expr α} {value : Value}
      (hvalue : HasValue host scope s (depth + 1) lhs value) (hand : op = .and → value.isTruthy = true)
      (hor : op = .or → value.isTruthy = false) : Enters depth (.binary a op lhs rhs) rhs
  | test {a : α} {test yes no : Expr α} : Enters depth (.conditional a test yes no) test
  | yes {a : α} {test yes no : Expr α} {value : Value}
      (hvalue : HasValue host scope s (depth + 1) test value) (htruthy : value.isTruthy = true) :
      Enters depth (.conditional a test yes no) yes
  | no {a : α} {test yes no : Expr α} {value : Value}
      (hvalue : HasValue host scope s (depth + 1) test value) (htruthy : value.isTruthy = false) :
      Enters depth (.conditional a test yes no) no

-- The evaluation of an expression comes upon accessors without their names: it compares two values that
-- are equal but for their accessors, or indexes an object by a number whose text is a reserved name.
inductive Meets (namePrefix : String) : Nat → Expr α → Prop
  | compared {depth : Nat} {a : α} {op : BinaryOp} {lhs rhs : Expr α} {left right : Value}
      (hdepth : depth ≤ maxNesting) (hop : op.isEquality = true)
      (hleft : HasValue host scope s (depth + 1) lhs left)
      (hright : HasValue host scope s (depth + 1) rhs right)
      (hequal : Value.strictEq left.bare right.bare = true) (hclash : left.Clash right) :
      Meets namePrefix depth (.binary a op lhs rhs)
  | indexed {depth : Nat} {a b : α} {target : Expr α} {x : Float} {fields : Fields Value}
      (hdepth : depth ≤ maxNesting)
      (htarget : HasValue host scope s (depth + 1) target (.object fields))
      (hname : Reserved namePrefix (Value.number x).text) :
      Meets namePrefix depth (.index a target (.number b x))
  | within {depth : Nat} {e part : Expr α} (hdepth : depth ≤ maxNesting)
      (henters : Enters host scope s depth e part) (hpart : Meets namePrefix (depth + 1) part) :
      Meets namePrefix depth e

end

variable {host : Host σ} {scope : Fields Value} {s : σ}

theorem ReachesItem.mem {depth : Nat} {items : List (Expr α)} {part : Expr α}
    (h : ReachesItem host scope s depth items part) : part ∈ items := by
  induction h with
  | head => exact List.mem_cons_self
  | tail _ _ ih => exact List.mem_cons_of_mem _ ih

open Eval

variable {before after : Fields Value} {namePrefix : String}

-- The value of an expression and its counterpart without accessors.
def MirrorsValue (before after : Fields Value) (namePrefix : String) (host : Host σ) (s : σ) (depth : Nat)
    (e : Expr α) : Prop :=
  Mirrors s Value.bare (Value.Neat namePrefix) (e.evalAt host after depth) (e.evalAt host before depth)

theorem mirrors_evalItems {P : Value → Prop} {depth : Nat} {items : List (Expr α)}
    (h : ∀ item, ReachesItem host after s depth items item →
      Mirrors s Value.bare P (item.evalAt host after depth) (item.evalAt host before depth)) :
    Mirrors s (List.map Value.bare) (fun values => ∀ value ∈ values, P value)
      (evalItems host after depth items) (evalItems host before depth items) := by
  induction items with
  | nil =>
      rw [evalItems, evalItems]
      exact mirrors_pure fun value hmem => absurd hmem List.not_mem_nil
  | cons item items ih =>
      rw [evalItems, evalItems]
      refine (h item .head).bind fun value hvalue hrun => ?_
      refine (ih fun part hpart => h part (.tail hrun hpart)).bind fun values hvalues _ => ?_
      exact mirrors_pure (f := List.map Value.bare) (List.forall_mem_cons.mpr ⟨hvalue, hvalues⟩)

theorem mirrors_evalEntries {depth : Nat} {entries : List (String × Expr α)}
    (h : ∀ item, ReachesItem host after s depth (entries.map Prod.snd) item →
      MirrorsValue before after namePrefix host s depth item) :
    Mirrors s (Fields.mapValues Value.bare) (fun values => ∀ entry ∈ values, entry.2.Neat namePrefix)
      (evalEntries host after depth entries) (evalEntries host before depth entries) := by
  induction entries with
  | nil =>
      rw [evalEntries, evalEntries]
      exact mirrors_pure fun value hmem => absurd hmem List.not_mem_nil
  | cons entry entries ih =>
      obtain ⟨key, e⟩ := entry
      rw [evalEntries, evalEntries]
      refine (h e .head).bind fun value hvalue hrun => ?_
      refine (ih fun part hpart => h part (.tail hrun hpart)).bind fun values hvalues _ => ?_
      exact mirrors_pure (f := Fields.mapValues Value.bare) (List.forall_mem_cons.mpr ⟨hvalue, hvalues⟩)

theorem mirrors_branch {x y x' y' : Eval σ Value} {value : Value}
    (hyes : value.isTruthy = true → Mirrors s Value.bare (Value.Neat namePrefix) x x')
    (hno : value.isTruthy = false → Mirrors s Value.bare (Value.Neat namePrefix) y y') :
    Mirrors s Value.bare (Value.Neat namePrefix) (if value.isTruthy then x else y)
      (if value.bare.isTruthy then x' else y') := by
  rw [Value.isTruthy_bare]
  cases htruthy : value.isTruthy with
  | true => exact hyes htruthy
  | false => exact hno htruthy

theorem neat_ofList {values : List (String × Value)} (h : ∀ entry ∈ values, entry.2.Neat namePrefix) :
    (Value.object (Fields.ofList values)).Neat namePrefix ∧
      (Value.object (Fields.ofList values)).bare =
        .object (Fields.ofList (Fields.mapValues Value.bare values)) := by
  have hentries : ∀ entry ∈ Fields.ofList values, entry.2.Neat namePrefix :=
    fun entry hmem => h entry (Fields.mem_of_mem_ofList hmem)
  constructor
  · refine .object (Fields.keys_ofList_nodup values) (fun entry hmem haccessor => ?_)
      fun entry hmem _ => hentries entry hmem
    rw [(hentries entry hmem).isAccessor] at haccessor
    cases haccessor
  · rw [Value.bare, Value.bareEntries_of_forall fun entry hmem => (hentries entry hmem).isAccessor,
      Fields.ofList_mapValues]

theorem mirrors_binary {depth : Nat} {a : α} {op : BinaryOp} {lhs rhs : Expr α}
    (hmeets : depth ≤ maxNesting → ¬Meets host after s namePrefix depth (.binary a op lhs rhs))
    (hlhs : depth ≤ maxNesting → MirrorsValue before after namePrefix host s (depth + 1) lhs)
    (hrhs : depth ≤ maxNesting → Enters host after s depth (.binary a op lhs rhs) rhs →
      MirrorsValue before after namePrefix host s (depth + 1) rhs) :
    MirrorsValue before after namePrefix host s depth (.binary a op lhs rhs) := by
  by_cases hand : op = .and
  · subst hand
    rw [MirrorsValue, evalAt, evalAt]
    refine mirrors_within fun hdepth => (hlhs hdepth).bind fun value hvalue hrun => ?_
    exact mirrors_branch (fun htruthy => hrhs hdepth (.rhs hrun (fun _ => htruthy) nofun))
      fun _ => mirrors_pure hvalue
  · by_cases hor : op = .or
    · subst hor
      rw [MirrorsValue, evalAt, evalAt]
      refine mirrors_within fun hdepth => (hlhs hdepth).bind fun value hvalue hrun => ?_
      exact mirrors_branch (fun _ => mirrors_pure hvalue)
        fun htruthy => hrhs hdepth (.rhs hrun nofun fun _ => htruthy)
    · rw [MirrorsValue, evalAt_binary host after depth a hand hor, evalAt_binary host before depth a hand hor]
      refine mirrors_within fun hdepth => (hlhs hdepth).bind fun left hleft hrunLeft => ?_
      have henters : Enters host after s depth (.binary a op lhs rhs) rhs :=
        .rhs hrunLeft (fun h => absurd h hand) fun h => absurd h hor
      refine (hrhs hdepth henters).bind fun right hright hrunRight => ?_
      rw [Value.applyBinary_bare hleft.every_nodup hright.every_nodup fun hop hequal hclash =>
        hmeets hdepth (.compared hdepth hop hrunLeft hrunRight hequal hclash)]
      exact mirrors_pure (.scalar (Value.isScalar_applyBinary hand hor left right))

-- Over two scopes that differ in accessors only, an expression that meets none has the same outcome but
-- for accessors.
theorem mirrors_evalAt
    (hscope : ∀ n, ¬Reserved namePrefix n → before.get? n = (after.get? n).map Value.bare ∧
      ∀ value, after.get? n = some value → value.Neat namePrefix)
    {e : Expr α} (he : e.Avoids namePrefix) {depth : Nat} (hmeets : ¬Meets host after s namePrefix depth e) :
    MirrorsValue before after namePrefix host s depth e := by
  -- The parts that are evaluated meet no accessor either.
  have hpart {depth : Nat} {e part : Expr α} (hmeets : ¬Meets host after s namePrefix depth e)
      (hdepth : depth ≤ maxNesting) (henters : Enters host after s depth e part) :
      ¬Meets host after s namePrefix (depth + 1) part :=
    fun h => hmeets (.within hdepth henters h)
  induction he generalizing depth with
  | null | bool | number | string =>
      rw [MirrorsValue, evalAt, evalAt]
      exact mirrors_within fun _ => mirrors_pure (.scalar rfl)
  | array _ ih =>
      rw [MirrorsValue, evalAt, evalAt]
      refine mirrors_within fun hdepth => ?_
      refine (mirrors_evalItems fun item hitem =>
        ih item hitem.mem (hpart hmeets hdepth (.item hitem))).bind fun values hvalues _ => ?_
      rw [← Value.bareItems_eq_map]
      exact mirrors_pure (f := Value.bare) (.array hvalues)
  | @object a entries _ _ ih =>
      rw [MirrorsValue, evalAt, evalAt]
      refine mirrors_within fun hdepth => ?_
      have hentries (part : Expr α)
          (hreached : ReachesItem host after s (depth + 1) (entries.map Prod.snd) part) :
          MirrorsValue before after namePrefix host s (depth + 1) part := by
        obtain ⟨entry, hmem, rfl⟩ := List.mem_map.mp hreached.mem
        exact ih entry hmem (hpart hmeets hdepth (.entry hreached))
      refine (mirrors_evalEntries hentries).bind fun values hvalues _ => ?_
      obtain ⟨hneat, hbare⟩ := neat_ofList hvalues
      rw [← hbare]
      exact mirrors_pure hneat
  | @name a n hname =>
      obtain ⟨hget, hvalues⟩ := hscope n hname
      rw [MirrorsValue, evalAt, evalAt, hget]
      refine mirrors_within fun _ => ?_
      cases hvalue : after.get? n with
      | none => exact mirrors_throw _
      | some value => exact mirrors_pure (hvalues value hvalue)
  | member _ hkey ih =>
      rw [MirrorsValue, evalAt, evalAt]
      refine mirrors_within fun hdepth => ?_
      refine (ih (hpart hmeets hdepth .member)).bind fun value hvalue _ => ?_
      obtain ⟨hmap, hneat⟩ := hvalue.member hkey
      exact mirrors_except hmap hneat
  | @index a b target x _ ih =>
      rw [MirrorsValue, evalAt, evalAt]
      refine mirrors_within fun hdepth => ?_
      refine (ih (hpart hmeets hdepth .target)).bind fun value hvalue hrun => ?_
      rw [evalAt]
      have hkey : ∀ fields, value = .object fields → ¬Reserved namePrefix (Value.number x).text := by
        rintro fields rfl hreserved
        exact hmeets (.indexed hdepth hrun hreserved)
      obtain ⟨hmap, hneat⟩ := hvalue.element x hkey
      have hnumber : Mirrors s Value.bare (fun key => key = .number x) (pure (.number x)) (pure (.number x)) :=
        mirrors_pure rfl
      refine (mirrors_within fun _ => hnumber).bind ?_
      rintro _ rfl _
      exact mirrors_except hmap hneat
  | @unary a op operand _ ih =>
      rw [MirrorsValue, evalAt, evalAt]
      refine mirrors_within fun hdepth => ?_
      refine (ih (hpart hmeets hdepth .operand)).bind fun value hvalue _ => ?_
      rw [Value.applyUnary_bare]
      exact mirrors_pure (.scalar (Value.isScalar_applyUnary value op))
  | binary _ _ ihLhs ihRhs =>
      exact mirrors_binary (fun _ => hmeets) (fun hdepth => ihLhs (hpart hmeets hdepth .lhs))
        fun hdepth henters => ihRhs (hpart hmeets hdepth henters)
  | conditional _ _ _ ihTest ihYes ihNo =>
      rw [MirrorsValue, evalAt, evalAt]
      refine mirrors_within fun hdepth => ?_
      refine (ihTest (hpart hmeets hdepth .test)).bind fun value hvalue hrun => ?_
      exact mirrors_branch (fun htruthy => ihYes (hpart hmeets hdepth (.yes hrun htruthy)))
        fun htruthy => ihNo (hpart hmeets hdepth (.no hrun htruthy))

end Expr

end JsonTemplate
