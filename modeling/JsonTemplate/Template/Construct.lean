import JsonTemplate.Json.Basic
import JsonTemplate.Value.Conversion

namespace JsonTemplate

-- Objects of a template that stand for another value.
inductive Construct where
  -- One of two values, by the truth of its control expression.
  | choice
  -- The value under the key that the control expression names.
  | switch
  -- The value of the control expression.
  | eval
deriving DecidableEq, Repr

namespace Construct

-- The key of the control expression.
def key : Construct → String
  | choice => "$if"
  | switch => "$switch"
  | eval => "$eval"

def yesKey : String := "$then"

def noKey : String := "$else"

-- The construct that an object is. Of several control keys the first in this order governs.
def detect? (entries : Fields Json) : Option Construct :=
  [choice, switch, eval].find? fun construct => entries.contains construct.key

-- What the construct stands for, given the value of its control expression. A branch or a case
-- that is not there gives nothing.
def select (construct : Construct) (entries : Fields Json) (value : Value) :
    Except EvalError (Option Json) :=
  match construct with
  | choice => .ok (entries.get? (if value.isTruthy then yesKey else noKey))
  | switch => .ok (entries.get? value.text)
  | eval => value.toJson.map some

end Construct

end JsonTemplate
