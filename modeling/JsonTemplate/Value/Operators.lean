import JsonTemplate.Expr.Basic
import JsonTemplate.Value.Equality

namespace JsonTemplate.Value

def applyUnary (operand : Value) (op : UnaryOp) : Value :=
  match op with
  | .negate => number (-operand.toNumber)
  | .plus => number operand.toNumber
  | .not => bool !operand.isTruthy

-- Whether adding the value joins texts.
def isTextual : Value → Bool
  | string _ | array _ | object _ | function _ | accessor .. => true
  | null | bool _ | number _ => false

def add (lhs rhs : Value) : Value :=
  if lhs.isTextual || rhs.isTextual then string (lhs.text ++ rhs.text)
  else number (lhs.toNumber + rhs.toNumber)

-- The order of two doubles, if neither is NaN.
def compareNumbers (x y : Float) : Option Ordering :=
  if x < y then some .lt else if y < x then some .gt else if x == y then some .eq else none

-- Texts are ordered by code points, all else as numbers.
def order (lhs rhs : Value) : Option Ordering :=
  match lhs, rhs with
  | string a, string b => some (compare a b)
  | _, _ => compareNumbers lhs.toNumber rhs.toNumber

-- The value of an operation on two known operands.
def applyBinary (op : BinaryOp) (lhs rhs : Value) : Value :=
  match op with
  | .add => add lhs rhs
  | .sub => number (lhs.toNumber - rhs.toNumber)
  | .mul => number (lhs.toNumber * rhs.toNumber)
  | .div => number (lhs.toNumber / rhs.toNumber)
  | .rem => number (Number.Binary64.remainder lhs.toNumber rhs.toNumber)
  | .less => bool (order lhs rhs == some .lt)
  | .lessOrEqual => bool (order lhs rhs == some .lt || order lhs rhs == some .eq)
  | .greater => bool (order lhs rhs == some .gt)
  | .greaterOrEqual => bool (order lhs rhs == some .gt || order lhs rhs == some .eq)
  | .eq => bool (looseEq lhs rhs)
  | .notEq => bool !looseEq lhs rhs
  | .strictEq => bool (strictEq lhs rhs)
  | .strictNotEq => bool !strictEq lhs rhs
  | .and => if lhs.isTruthy then rhs else lhs
  | .or => if lhs.isTruthy then lhs else rhs

end JsonTemplate.Value
