import JsonTemplate.Fields
import JsonTemplate.Number.Binary64

namespace JsonTemplate

-- Functions that the library itself offers to expressions.
inductive Builtin where
  | toUpper
  | toLower
  | trim
  | length
  | string
  | number
  | keys
  | join
deriving DecidableEq, Repr

def Builtin.name : Builtin → String
  | toUpper => "toUpper"
  | toLower => "toLower"
  | trim => "trim"
  | length => "length"
  | string => "string"
  | number => "number"
  | keys => "keys"
  | join => "join"

-- In the order in which they are installed.
def Builtin.all : List Builtin := [toUpper, toLower, trim, length, string, number, keys, join]

-- A function that came into a context from outside of its data. Two functions are the same only if
-- they have the same identity, whatever they do.
inductive HostFunction where
  | builtin (identity : Nat) (function : Builtin)
  | external (identity : Nat) (name : String)
deriving DecidableEq, Repr

def HostFunction.name : HostFunction → String
  | builtin _ function => function.name
  | external _ name => name

-- What expressions read and compute. An accessor is the function that a context's augmentation puts
-- beside an array: it gives out the items that the array had then.
inductive Value where
  | null
  | bool (b : Bool)
  | number (x : Float)
  | string (s : String)
  | array (items : List Value)
  | object (entries : List (String × Value))
  | function (f : HostFunction)
  | accessor (identity : Nat) (name : String) (items : List Value)
deriving Inhabited

namespace Value

-- The kind of value, as messages name it.
def kind : Value → String
  | null => "null"
  | bool _ => "boolean"
  | number _ => "number"
  | string _ => "string"
  | array _ => "array"
  | object _ => "object"
  | function _ | accessor .. => "function"

def isAccessor : Value → Bool
  | accessor .. => true
  | _ => false

-- Null, false, zero, NaN and the empty text are false, all else is true.
def isTruthy : Value → Bool
  | null => false
  | bool b => b
  | number x => x != Number.Binary64.zero false && !x.isNaN
  | string s => s ≠ ""
  | array _ | object _ | function _ | accessor .. => true

def ofNat (n : Nat) : Value := number (Number.Binary64.ofInt n)

end Value

end JsonTemplate
