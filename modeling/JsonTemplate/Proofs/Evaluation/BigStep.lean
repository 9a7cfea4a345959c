import JsonTemplate.Proofs.Evaluation.Simulated

namespace JsonTemplate

variable {σ α : Type}

-- What an evaluation does, one thing after the other: it comes to a node at a depth below the root of the
-- expression, or it calls a function of the host.
inductive Event where
  | node (depth : Nat)
  | call (call : HostCall)

def Event.call? : Event → Option HostCall
  | node _ => none
  | call made => some made

-- The calls among some events, in their order.
def hostCalls (events : List Event) : List HostCall := events.filterMap Event.call?

@[simp] theorem hostCalls_nil : hostCalls [] = [] := rfl

@[simp] theorem hostCalls_node (depth : Nat) (events : List Event) :
    hostCalls (.node depth :: events) = hostCalls events := rfl

@[simp] theorem hostCalls_append (events more : List Event) :
    hostCalls (events ++ more) = hostCalls events ++ hostCalls more :=
  List.filterMap_append

-- All nodes among the events are within a limit.
def Shallow (limit : Nat) (events : List Event) : Prop := ∀ depth, .node depth ∈ events → depth ≤ limit

namespace Shallow

variable {limit depth : Nat} {events more : List Event}

theorem nil : Shallow limit [] := nofun

theorem node_cons_iff : Shallow limit (.node depth :: events) ↔ depth ≤ limit ∧ Shallow limit events := by
  constructor
  · intro h
    exact ⟨h depth List.mem_cons_self, fun other hmem => h other (List.mem_cons_of_mem _ hmem)⟩
  · rintro ⟨hdepth, h⟩ other hmem
    rcases List.mem_cons.mp hmem with heq | hmem
    · cases heq
      exact hdepth
    · exact h other hmem

theorem append_iff : Shallow limit (events ++ more) ↔ Shallow limit events ∧ Shallow limit more := by
  simp only [Shallow, List.mem_append, or_imp, forall_and]

end Shallow

-- A first node beyond the limit, if there is one at all.
theorem shallow_or_exists_first (limit : Nat) (events : List Event) :
    Shallow limit events ∨ ∃ before depth after, events = before ++ .node depth :: after ∧
      Shallow limit before ∧ limit < depth := by
  induction events with
  | nil => exact .inl .nil
  | cons event events ih =>
      have hrest (hevent : Shallow limit [event]) : Shallow limit (event :: events) ∨ ∃ before depth after,
          event :: events = before ++ .node depth :: after ∧ Shallow limit before ∧ limit < depth := by
        rcases ih with hevents | ⟨before, depth, after, rfl, hbefore, hdepth⟩
        · exact .inl (Shallow.append_iff.mpr ⟨hevent, hevents⟩)
        · exact .inr ⟨event :: before, depth, after, rfl, Shallow.append_iff.mpr ⟨hevent, hbefore⟩, hdepth⟩
      cases event with
      | call call => exact hrest fun depth hmem => by cases List.mem_singleton.mp hmem
      | node depth =>
          by_cases hdepth : depth ≤ limit
          · exact hrest (Shallow.node_cons_iff.mpr ⟨hdepth, .nil⟩)
          · exact .inr ⟨[], depth, events, rfl, .nil, Nat.lt_of_not_le hdepth⟩

-- Runs a function. Only a call of an external one is an event.
inductive Host.Applies (host : Host σ) :
    Callable → List Value → σ → List Event → Except EvalError Value → σ → Prop
  | builtin {builtin : Builtin} {args : List Value} {s : σ} :
      Applies host (.builtin builtin) args s [] (builtin.apply args) s
  | accessor {name : String} {items args : List Value} {s : σ} :
      Applies host (.accessor name items) args s [] (Value.access name items args) s
  | external {identity : Nat} {name : String} {args : List Value} {s s' : σ} {outcome : Except EvalError Value}
      (hcall : host.call identity name args s = (outcome, s')) :
      Applies host (.external identity name) args s [.call ⟨identity, name, args, outcome⟩] outcome s'

theorem Host.exists_applies (host : Host σ) (callable : Callable) (args : List Value) (s : σ) :
    ∃ events outcome s', host.Applies callable args s events outcome s' := by
  cases callable with
  | builtin builtin => exact ⟨_, _, _, .builtin⟩
  | accessor name items => exact ⟨_, _, _, .accessor⟩
  | external identity name => exact ⟨_, _, _, .external rfl⟩

theorem Host.Applies.shallow {host : Host σ} {callable : Callable} {args : List Value} {s s' : σ}
    {events : List Event} {outcome : Except EvalError Value} (h : host.Applies callable args s events outcome s')
    (limit : Nat) : Shallow limit events := by
  cases h with
  | builtin | accessor => exact .nil
  | external => exact fun depth hmem => by cases List.mem_singleton.mp hmem

namespace Expr

mutual

-- The evaluation of an expression, however deep it is. Its events say at which depth a node lies, and
-- nothing else depends on the depth.
inductive Evaluates (host : Host σ) (scope : Fields Value) :
    Nat → Expr α → σ → List Event → Except EvalError Value → σ → Prop
  | null {depth : Nat} {note : α} {s : σ} : Evaluates host scope depth (.null note) s [.node depth] (.ok .null) s
  | bool {depth : Nat} {note : α} {b : Bool} {s : σ} :
      Evaluates host scope depth (.bool note b) s [.node depth] (.ok (.bool b)) s
  | number {depth : Nat} {note : α} {x : Float} {s : σ} :
      Evaluates host scope depth (.number note x) s [.node depth] (.ok (.number x)) s
  | string {depth : Nat} {note : α} {text : String} {s : σ} :
      Evaluates host scope depth (.string note text) s [.node depth] (.ok (.string text)) s
  | array {depth : Nat} {note : α} {items : List (Expr α)} {s s' : σ} {events : List Event}
      {outcome : Except EvalError (List Value)}
      (hitems : EvaluatesAll host scope (depth + 1) items s events outcome s') :
      Evaluates host scope depth (.array note items) s (.node depth :: events) (outcome.map .array) s'
  | object {depth : Nat} {note : α} {entries : List (String × Expr α)} {s s' : σ} {events : List Event}
      {outcome : Except EvalError (List Value)}
      (hvalues : EvaluatesAll host scope (depth + 1) (entries.map Prod.snd) s events outcome s') :
      Evaluates host scope depth (.object note entries) s (.node depth :: events)
        (outcome.map fun values => .object (Fields.ofList ((entries.map Prod.fst).zip values))) s'
  | name {depth : Nat} {note : α} {n : String} {value : Value} {s : σ} (hget : scope.get? n = some value) :
      Evaluates host scope depth (.name note n) s [.node depth] (.ok value) s
  | undefined {depth : Nat} {note : α} {n : String} {s : σ} (hget : scope.get? n = none) :
      Evaluates host scope depth (.name note n) s [.node depth] (.error (.undefinedReference n)) s
  | member {depth : Nat} {note : α} {target : Expr α} {key : String} {s s' : σ} {events : List Event}
      {outcome : Except EvalError Value} (htarget : Evaluates host scope (depth + 1) target s events outcome s') :
      Evaluates host scope depth (.member note target key) s (.node depth :: events)
        (outcome.bind fun value => value.member key) s'
  | index {depth : Nat} {note : α} {target key : Expr α} {s s₁ s' : σ} {events more : List Event} {value : Value}
      {outcome : Except EvalError Value} (htarget : Evaluates host scope (depth + 1) target s events (.ok value) s₁)
      (hkey : Evaluates host scope (depth + 1) key s₁ more outcome s') :
      Evaluates host scope depth (.index note target key) s (.node depth :: (events ++ more))
        (outcome.bind fun keyValue => value.element keyValue) s'
  | indexFails {depth : Nat} {note : α} {target key : Expr α} {s s' : σ} {events : List Event} {cause : EvalError}
      (htarget : Evaluates host scope (depth + 1) target s events (.error cause) s') :
      Evaluates host scope depth (.index note target key) s (.node depth :: events) (.error cause) s'
  | call {depth : Nat} {note : α} {callee : Expr α} {args : List (Expr α)} {s s₁ s₂ s' : σ}
      {events more last : List Event} {function : Value} {callable : Callable} {values : List Value}
      {outcome : Except EvalError Value}
      (hcallee : Evaluates host scope (depth + 1) callee s events (.ok function) s₁)
      (hcallable : function.callable? = some callable)
      (hargs : EvaluatesAll host scope (depth + 1) args s₁ more (.ok values) s₂)
      (happlies : host.Applies callable values s₂ last outcome s') :
      Evaluates host scope depth (.call note callee args) s (.node depth :: (events ++ (more ++ last))) outcome s'
  | argsFail {depth : Nat} {note : α} {callee : Expr α} {args : List (Expr α)} {s s₁ s' : σ}
      {events more : List Event} {function : Value} {callable : Callable} {cause : EvalError}
      (hcallee : Evaluates host scope (depth + 1) callee s events (.ok function) s₁)
      (hcallable : function.callable? = some callable)
      (hargs : EvaluatesAll host scope (depth + 1) args s₁ more (.error cause) s') :
      Evaluates host scope depth (.call note callee args) s (.node depth :: (events ++ more)) (.error cause) s'
  | notCallable {depth : Nat} {note : α} {callee : Expr α} {args : List (Expr α)} {s s' : σ} {events : List Event}
      {value : Value} (hcallee : Evaluates host scope (depth + 1) callee s events (.ok value) s')
      (hcallable : value.callable? = none) :
      Evaluates host scope depth (.call note callee args) s (.node depth :: events)
        (.error (.notCallable callee.describe)) s'
  | calleeFails {depth : Nat} {note : α} {callee : Expr α} {args : List (Expr α)} {s s' : σ} {events : List Event}
      {cause : EvalError} (hcallee : Evaluates host scope (depth + 1) callee s events (.error cause) s') :
      Evaluates host scope depth (.call note callee args) s (.node depth :: events) (.error cause) s'
  | unary {depth : Nat} {note : α} {op : UnaryOp} {operand : Expr α} {s s' : σ} {events : List Event}
      {outcome : Except EvalError Value} (hoperand : Evaluates host scope (depth + 1) operand s events outcome s') :
      Evaluates host scope depth (.unary note op operand) s (.node depth :: events)
        (outcome.map fun value => value.applyUnary op) s'
  | andTrue {depth : Nat} {note : α} {lhs rhs : Expr α} {s s₁ s' : σ} {events more : List Event} {value : Value}
      {outcome : Except EvalError Value} (hlhs : Evaluates host scope (depth + 1) lhs s events (.ok value) s₁)
      (htruth : value.isTruthy = true) (hrhs : Evaluates host scope (depth + 1) rhs s₁ more outcome s') :
      Evaluates host scope depth (.binary note .and lhs rhs) s (.node depth :: (events ++ more)) outcome s'
  | andFalse {depth : Nat} {note : α} {lhs rhs : Expr α} {s s' : σ} {events : List Event} {value : Value}
      (hlhs : Evaluates host scope (depth + 1) lhs s events (.ok value) s') (htruth : value.isTruthy = false) :
      Evaluates host scope depth (.binary note .and lhs rhs) s (.node depth :: events) (.ok value) s'
  | orTrue {depth : Nat} {note : α} {lhs rhs : Expr α} {s s' : σ} {events : List Event} {value : Value}
      (hlhs : Evaluates host scope (depth + 1) lhs s events (.ok value) s') (htruth : value.isTruthy = true) :
      Evaluates host scope depth (.binary note .or lhs rhs) s (.node depth :: events) (.ok value) s'
  | orFalse {depth : Nat} {note : α} {lhs rhs : Expr α} {s s₁ s' : σ} {events more : List Event} {value : Value}
      {outcome : Except EvalError Value} (hlhs : Evaluates host scope (depth + 1) lhs s events (.ok value) s₁)
      (htruth : value.isTruthy = false) (hrhs : Evaluates host scope (depth + 1) rhs s₁ more outcome s') :
      Evaluates host scope depth (.binary note .or lhs rhs) s (.node depth :: (events ++ more)) outcome s'
  | binary {depth : Nat} {note : α} {op : BinaryOp} {lhs rhs : Expr α} {s s₁ s' : σ} {events more : List Event}
      {left : Value} {outcome : Except EvalError Value} (hand : op ≠ .and) (hor : op ≠ .or)
      (hlhs : Evaluates host scope (depth + 1) lhs s events (.ok left) s₁)
      (hrhs : Evaluates host scope (depth + 1) rhs s₁ more outcome s') :
      Evaluates host scope depth (.binary note op lhs rhs) s (.node depth :: (events ++ more))
        (outcome.map fun right => Value.applyBinary op left right) s'
  | binaryFails {depth : Nat} {note : α} {op : BinaryOp} {lhs rhs : Expr α} {s s' : σ} {events : List Event}
      {cause : EvalError} (hlhs : Evaluates host scope (depth + 1) lhs s events (.error cause) s') :
      Evaluates host scope depth (.binary note op lhs rhs) s (.node depth :: events) (.error cause) s'
  | conditional {depth : Nat} {note : α} {test yes no : Expr α} {s s₁ s' : σ} {events more : List Event}
      {value : Value} {outcome : Except EvalError Value}
      (htest : Evaluates host scope (depth + 1) test s events (.ok value) s₁)
      (hbranch : Evaluates host scope (depth + 1) (if value.isTruthy then yes else no) s₁ more outcome s') :
      Evaluates host scope depth (.conditional note test yes no) s (.node depth :: (events ++ more)) outcome s'
  | testFails {depth : Nat} {note : α} {test yes no : Expr α} {s s' : σ} {events : List Event} {cause : EvalError}
      (htest : Evaluates host scope (depth + 1) test s events (.error cause) s') :
      Evaluates host scope depth (.conditional note test yes no) s (.node depth :: events) (.error cause) s'

-- The evaluation of some expressions from left to right, up to the first that fails.
inductive EvaluatesAll (host : Host σ) (scope : Fields Value) :
    Nat → List (Expr α) → σ → List Event → Except EvalError (List Value) → σ → Prop
  | nil {depth : Nat} {s : σ} : EvaluatesAll host scope depth [] s [] (.ok []) s
  | cons {depth : Nat} {e : Expr α} {rest : List (Expr α)} {s s₁ s' : σ} {events more : List Event} {value : Value}
      {outcome : Except EvalError (List Value)} (hfirst : Evaluates host scope depth e s events (.ok value) s₁)
      (hrest : EvaluatesAll host scope depth rest s₁ more outcome s') :
      EvaluatesAll host scope depth (e :: rest) s (events ++ more) (outcome.map fun values => value :: values) s'
  | fails {depth : Nat} {e : Expr α} {rest : List (Expr α)} {s s' : σ} {events : List Event} {cause : EvalError}
      (hfirst : Evaluates host scope depth e s events (.error cause) s') :
      EvaluatesAll host scope depth (e :: rest) s events (.error cause) s'

end

mutual

-- The number of levels below the root of an expression.
def height : Expr α → Nat
  | null _ | bool .. | number .. | string .. | name .. => 0
  | array _ items => heightOfItems items
  | object _ entries => heightOfEntries entries
  | member _ target _ => height target + 1
  | index _ target key => max (height target) (height key) + 1
  | call _ callee args => max (height callee + 1) (heightOfItems args)
  | unary _ _ operand => height operand + 1
  | binary _ _ lhs rhs => max (height lhs) (height rhs) + 1
  | conditional _ test yes no => max (height test) (max (height yes) (height no)) + 1

-- One more than the greatest height, and nothing without any expressions.
def heightOfItems : List (Expr α) → Nat
  | [] => 0
  | item :: items => max (height item + 1) (heightOfItems items)

def heightOfEntries : List (String × Expr α) → Nat
  | [] => 0
  | (_, e) :: entries => max (height e + 1) (heightOfEntries entries)

end

theorem heightOfEntries_eq (entries : List (String × Expr α)) :
    heightOfEntries entries = heightOfItems (entries.map Prod.snd) := by
  induction entries with
  | nil => rfl
  | cons entry entries ih =>
      obtain ⟨key, e⟩ := entry
      rw [heightOfEntries, List.map_cons, heightOfItems, ih]

-- Induction on the parts of an expression.
theorem byParts {P : Expr α → Prop} (null : ∀ note, P (.null note)) (bool : ∀ note b, P (.bool note b))
    (number : ∀ note x, P (.number note x)) (string : ∀ note text, P (.string note text))
    (array : ∀ note items, (∀ item ∈ items, P item) → P (.array note items))
    (object : ∀ note (entries : List (String × Expr α)), (∀ e ∈ entries.map Prod.snd, P e) →
      P (.object note entries))
    (name : ∀ note n, P (.name note n)) (member : ∀ note target key, P target → P (.member note target key))
    (index : ∀ note target key, P target → P key → P (.index note target key))
    (call : ∀ note callee args, P callee → (∀ arg ∈ args, P arg) → P (.call note callee args))
    (unary : ∀ note op operand, P operand → P (.unary note op operand))
    (binary : ∀ note op lhs rhs, P lhs → P rhs → P (.binary note op lhs rhs))
    (conditional : ∀ note test yes no, P test → P yes → P no → P (.conditional note test yes no))
    (e : Expr α) : P e := by
  refine @Expr.rec α P (fun items => ∀ item ∈ items, P item) (fun entries => ∀ e ∈ entries.map Prod.snd, P e)
    (fun entry => P entry.2) null bool number string array object name member index call unary binary conditional
    ?noItems ?items ?noEntries ?entries ?entry e
  case noItems => exact List.forall_mem_nil _
  case items => exact fun item items hitem hitems => List.forall_mem_cons.mpr ⟨hitem, hitems⟩
  case noEntries => exact List.forall_mem_nil _
  case entries => exact fun entry entries hentry hentries => List.forall_mem_cons.mpr ⟨hentry, hentries⟩
  case entry => exact fun key e h => h

section

variable {host : Host σ} {scope : Fields Value}

theorem exists_evaluatesAll {items : List (Expr α)}
    (hitems : ∀ item ∈ items, ∀ depth s, ∃ events outcome s', Evaluates host scope depth item s events outcome s')
    (depth : Nat) (s : σ) : ∃ events outcome s', EvaluatesAll host scope depth items s events outcome s' := by
  induction items generalizing s with
  | nil => exact ⟨_, _, _, .nil⟩
  | cons item items ih =>
      obtain ⟨hitem, hrest⟩ := List.forall_mem_cons.mp hitems
      obtain ⟨events, outcome, s₁, hfirst⟩ := hitem depth s
      cases outcome with
      | error cause => exact ⟨_, _, _, .fails hfirst⟩
      | ok value =>
          obtain ⟨more, outcome, s', hlater⟩ := ih hrest s₁
          exact ⟨_, _, _, .cons hfirst hlater⟩

-- Every expression has an outcome.
theorem exists_evaluates (host : Host σ) (scope : Fields Value) (depth : Nat) (e : Expr α) (s : σ) :
    ∃ events outcome s', Evaluates host scope depth e s events outcome s' := by
  induction e using byParts generalizing depth s with
  | null note => exact ⟨_, _, _, .null⟩
  | bool note b => exact ⟨_, _, _, .bool⟩
  | number note x => exact ⟨_, _, _, .number⟩
  | string note text => exact ⟨_, _, _, .string⟩
  | array note items ih =>
      obtain ⟨events, outcome, s', hitems⟩ := exists_evaluatesAll ih (depth + 1) s
      exact ⟨_, _, _, .array hitems⟩
  | object note entries ih =>
      obtain ⟨events, outcome, s', hvalues⟩ := exists_evaluatesAll ih (depth + 1) s
      exact ⟨_, _, _, .object hvalues⟩
  | name note n =>
      cases hget : scope.get? n with
      | none => exact ⟨_, _, _, .undefined hget⟩
      | some value => exact ⟨_, _, _, .name hget⟩
  | member note target key ih =>
      obtain ⟨events, outcome, s', htarget⟩ := ih (depth + 1) s
      exact ⟨_, _, _, .member htarget⟩
  | index note target key ihtarget ihkey =>
      obtain ⟨events, outcome, s₁, htarget⟩ := ihtarget (depth + 1) s
      cases outcome with
      | error cause => exact ⟨_, _, _, .indexFails htarget⟩
      | ok value =>
          obtain ⟨more, outcome, s', hkey⟩ := ihkey (depth + 1) s₁
          exact ⟨_, _, _, .index htarget hkey⟩
  | call note callee args ihcallee ihargs =>
      obtain ⟨events, outcome, s₁, hcallee⟩ := ihcallee (depth + 1) s
      cases outcome with
      | error cause => exact ⟨_, _, _, .calleeFails hcallee⟩
      | ok function =>
          cases hcallable : function.callable? with
          | none => exact ⟨_, _, _, .notCallable hcallee hcallable⟩
          | some callable =>
              obtain ⟨more, outcome, s₂, hargs⟩ := exists_evaluatesAll ihargs (depth + 1) s₁
              cases outcome with
              | error cause => exact ⟨_, _, _, .argsFail hcallee hcallable hargs⟩
              | ok values =>
                  obtain ⟨last, outcome, s', happlies⟩ := host.exists_applies callable values s₂
                  exact ⟨_, _, _, .call hcallee hcallable hargs happlies⟩
  | unary note op operand ih =>
      obtain ⟨events, outcome, s', hoperand⟩ := ih (depth + 1) s
      exact ⟨_, _, _, .unary hoperand⟩
  | binary note op lhs rhs ihlhs ihrhs =>
      obtain ⟨events, outcome, s₁, hlhs⟩ := ihlhs (depth + 1) s
      cases outcome with
      | error cause => exact ⟨_, _, _, .binaryFails hlhs⟩
      | ok value =>
          obtain ⟨more, outcome, s', hrhs⟩ := ihrhs (depth + 1) s₁
          by_cases hand : op = .and
          · subst hand
            cases htruth : value.isTruthy with
            | true => exact ⟨_, _, _, .andTrue hlhs htruth hrhs⟩
            | false => exact ⟨_, _, _, .andFalse hlhs htruth⟩
          · by_cases hor : op = .or
            · subst hor
              cases htruth : value.isTruthy with
              | true => exact ⟨_, _, _, .orTrue hlhs htruth⟩
              | false => exact ⟨_, _, _, .orFalse hlhs htruth hrhs⟩
            · exact ⟨_, _, _, .binary hand hor hlhs hrhs⟩
  | conditional note test yes no ihtest ihyes ihno =>
      obtain ⟨events, outcome, s₁, htest⟩ := ihtest (depth + 1) s
      cases outcome with
      | error cause => exact ⟨_, _, _, .testFails htest⟩
      | ok value =>
          have hbranches : ∀ s, ∃ events outcome s',
              Evaluates host scope (depth + 1) (if value.isTruthy then yes else no) s events outcome s' := by
            intro s
            cases value.isTruthy with
            | true => exact ihyes (depth + 1) s
            | false => exact ihno (depth + 1) s
          obtain ⟨more, outcome, s', hbranch⟩ := hbranches s₁
          exact ⟨_, _, _, .conditional htest hbranch⟩

theorem shallow_of_evaluatesAll {limit : Nat} {items : List (Expr α)}
    (hitems : ∀ item ∈ items, ∀ {depth s s' events outcome}, depth + item.height ≤ limit →
      Evaluates host scope depth item s events outcome s' → Shallow limit events)
    {depth : Nat} {s s' : σ} {events : List Event} {outcome : Except EvalError (List Value)}
    (hle : depth + heightOfItems items ≤ limit)
    (h : EvaluatesAll host scope (depth + 1) items s events outcome s') : Shallow limit events := by
  induction items generalizing s events outcome with
  | nil =>
      cases h
      exact .nil
  | cons item items ih =>
      obtain ⟨hitem, hrest⟩ := List.forall_mem_cons.mp hitems
      rw [heightOfItems] at hle
      cases h with
      | cons hfirst hlater =>
          exact Shallow.append_iff.mpr ⟨hitem (by omega) hfirst, ih hrest (by omega) hlater⟩
      | fails hfirst => exact hitem (by omega) hfirst

-- No node that an evaluation comes to lies deeper than the expression is high.
theorem shallow_of_evaluates {limit depth : Nat} {e : Expr α} {s s' : σ} {events : List Event}
    {outcome : Except EvalError Value} (hle : depth + e.height ≤ limit)
    (h : Evaluates host scope depth e s events outcome s') : Shallow limit events := by
  induction e using byParts generalizing depth s s' events outcome with
  | null | bool | number | string | name => cases h <;> exact Shallow.node_cons_iff.mpr ⟨by omega, .nil⟩
  | array note items ih =>
      rw [height] at hle
      cases h with
      | array hitems => exact Shallow.node_cons_iff.mpr ⟨by omega, shallow_of_evaluatesAll ih hle hitems⟩
  | object note entries ih =>
      rw [height, heightOfEntries_eq] at hle
      cases h with
      | object hvalues => exact Shallow.node_cons_iff.mpr ⟨by omega, shallow_of_evaluatesAll ih hle hvalues⟩
  | member note target key ih =>
      rw [height] at hle
      cases h with
      | member htarget => exact Shallow.node_cons_iff.mpr ⟨by omega, ih (by omega) htarget⟩
  | index note target key ihtarget ihkey =>
      rw [height] at hle
      cases h with
      | index htarget hkey =>
          have hevents := Shallow.append_iff.mpr ⟨ihtarget (by omega) htarget, ihkey (by omega) hkey⟩
          exact Shallow.node_cons_iff.mpr ⟨by omega, hevents⟩
      | indexFails htarget => exact Shallow.node_cons_iff.mpr ⟨by omega, ihtarget (by omega) htarget⟩
  | call note callee args ihcallee ihargs =>
      rw [height] at hle
      cases h with
      | call hcallee hcallable hargs happlies =>
          have hcall := Shallow.append_iff.mpr
            ⟨shallow_of_evaluatesAll ihargs (by omega) hargs, happlies.shallow limit⟩
          have hevents := Shallow.append_iff.mpr ⟨ihcallee (by omega) hcallee, hcall⟩
          exact Shallow.node_cons_iff.mpr ⟨by omega, hevents⟩
      | argsFail hcallee hcallable hargs =>
          have hevents := Shallow.append_iff.mpr
            ⟨ihcallee (by omega) hcallee, shallow_of_evaluatesAll ihargs (by omega) hargs⟩
          exact Shallow.node_cons_iff.mpr ⟨by omega, hevents⟩
      | notCallable hcallee | calleeFails hcallee =>
          exact Shallow.node_cons_iff.mpr ⟨by omega, ihcallee (by omega) hcallee⟩
  | unary note op operand ih =>
      rw [height] at hle
      cases h with
      | unary hoperand => exact Shallow.node_cons_iff.mpr ⟨by omega, ih (by omega) hoperand⟩
  | binary note op lhs rhs ihlhs ihrhs =>
      rw [height] at hle
      cases h with
      | andTrue hlhs _ hrhs | orFalse hlhs _ hrhs | binary _ _ hlhs hrhs =>
          have hevents := Shallow.append_iff.mpr ⟨ihlhs (by omega) hlhs, ihrhs (by omega) hrhs⟩
          exact Shallow.node_cons_iff.mpr ⟨by omega, hevents⟩
      | andFalse hlhs | orTrue hlhs | binaryFails hlhs =>
          exact Shallow.node_cons_iff.mpr ⟨by omega, ihlhs (by omega) hlhs⟩
  | conditional note test yes no ihtest ihyes ihno =>
      rw [height] at hle
      cases h with
      | @conditional _ _ _ _ _ _ _ _ events more value _ htest hbranch =>
          have hmore : Shallow limit more := by
            cases htruth : value.isTruthy with
            | true =>
                rw [htruth] at hbranch
                exact ihyes (by omega) hbranch
            | false =>
                rw [htruth] at hbranch
                exact ihno (by omega) hbranch
          exact Shallow.node_cons_iff.mpr ⟨by omega, Shallow.append_iff.mpr ⟨ihtest (by omega) htest, hmore⟩⟩
      | testFails htest => exact Shallow.node_cons_iff.mpr ⟨by omega, ihtest (by omega) htest⟩

end

end Expr

end JsonTemplate
