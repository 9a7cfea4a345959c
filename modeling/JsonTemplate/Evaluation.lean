import JsonTemplate.Builtin
import JsonTemplate.Expr.Parser
import JsonTemplate.Value.Access
import JsonTemplate.Value.Operators

namespace JsonTemplate

-- What surrounds the library: it runs the functions that contexts only name, and may remember
-- earlier calls.
structure Host (σ : Type) where
  call : (identity : Nat) → (name : String) → List Value → σ → Except EvalError Value × σ

-- A computation that may call the host, also before it fails.
abbrev Eval (σ : Type) := ExceptT EvalError (StateM σ)

variable {σ α : Type}

-- What a function does when it is called. Builtins and accessors do not reach the host.
inductive Callable where
  | builtin (builtin : Builtin)
  | external (identity : Nat) (name : String)
  | accessor (name : String) (items : List Value)

def Value.callable? : Value → Option Callable
  | .function (.builtin _ builtin) => some (.builtin builtin)
  | .function (.external identity name) => some (.external identity name)
  | .accessor _ name items => some (.accessor name items)
  | _ => none

def Host.apply (host : Host σ) (callable : Callable) (args : List Value) : Eval σ Value :=
  match callable with
  | .builtin builtin => ExceptT.mk (pure (builtin.apply args))
  | .external identity name => ExceptT.mk (host.call identity name args)
  | .accessor name items => ExceptT.mk (pure (Value.access name items args))

-- Whatever runs the functions that an evaluation calls: the host, or one that keeps a record of the calls
-- besides.
class Caller (κ : Type) (σ : outParam Type) where
  run : κ → (function : Value) → Callable → List Value → Eval σ Value

instance : Caller (Host σ) σ where
  run host _ callable args := host.apply callable args

namespace Expr

variable {κ : Type} [Caller κ σ]

mutual

-- The value of an expression at a depth. Operands and entries are evaluated from left to right, a
-- callee before its arguments. The right operand of a logical operator and the branches of a
-- conditional are evaluated only if they give the value.
def evalAt (caller : κ) (scope : Fields Value) (depth : Nat) (e : Expr α) : Eval σ Value :=
  if maxNesting < depth then throw .nestingTooDeep
  else
    match e with
    | null _ => pure .null
    | bool _ b => pure (.bool b)
    | number _ x => pure (.number x)
    | string _ s => pure (.string s)
    | array _ items => do
        let values ← evalItems caller scope (depth + 1) items
        return .array values
    | object _ entries => do
        let values ← evalEntries caller scope (depth + 1) entries
        return .object (Fields.ofList values)
    | name _ n =>
        match scope.get? n with
        | some value => pure value
        | none => throw (.undefinedReference n)
    | member _ target key => do
        let value ← evalAt caller scope (depth + 1) target
        ExceptT.mk (pure (value.member key))
    | index _ target key => do
        let value ← evalAt caller scope (depth + 1) target
        let keyValue ← evalAt caller scope (depth + 1) key
        ExceptT.mk (pure (value.element keyValue))
    | call _ callee args => do
        let function ← evalAt caller scope (depth + 1) callee
        match function.callable? with
        | some callable =>
            let values ← evalItems caller scope (depth + 1) args
            Caller.run caller function callable values
        | none => throw (.notCallable callee.describe)
    | unary _ op operand => do
        let value ← evalAt caller scope (depth + 1) operand
        return value.applyUnary op
    | binary _ .and lhs rhs => do
        let value ← evalAt caller scope (depth + 1) lhs
        if value.isTruthy then evalAt caller scope (depth + 1) rhs else return value
    | binary _ .or lhs rhs => do
        let value ← evalAt caller scope (depth + 1) lhs
        if value.isTruthy then return value else evalAt caller scope (depth + 1) rhs
    | binary _ op lhs rhs => do
        let left ← evalAt caller scope (depth + 1) lhs
        let right ← evalAt caller scope (depth + 1) rhs
        return Value.applyBinary op left right
    | conditional _ test yes no => do
        let value ← evalAt caller scope (depth + 1) test
        if value.isTruthy then evalAt caller scope (depth + 1) yes else evalAt caller scope (depth + 1) no

def evalItems (caller : κ) (scope : Fields Value) (depth : Nat) :
    List (Expr α) → Eval σ (List Value)
  | [] => pure []
  | item :: items => do
      let value ← evalAt caller scope depth item
      let values ← evalItems caller scope depth items
      return value :: values

def evalEntries (caller : κ) (scope : Fields Value) (depth : Nat) :
    List (String × Expr α) → Eval σ (List (String × Value))
  | [] => pure []
  | (key, e) :: entries => do
      let value ← evalAt caller scope depth e
      let values ← evalEntries caller scope depth entries
      return (key, value) :: values

end

def eval (caller : κ) (scope : Fields Value) (e : Expr α) : Eval σ Value := e.evalAt caller scope 0

end Expr

-- The value of an expression given by its source.
def evaluate (host : Host σ) (scope : Fields Value) (source : String) : Eval σ Value :=
  match parse source with
  | .error e => throw (.parse e)
  | .ok e => e.eval host scope

end JsonTemplate
