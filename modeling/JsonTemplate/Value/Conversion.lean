import JsonTemplate.Json.Basic
import JsonTemplate.Number.Numeral
import JsonTemplate.Text.Basic
import JsonTemplate.Value.Basic
import JsonTemplate.Value.Error

namespace JsonTemplate.Value

mutual

-- The text that an expression's result is spliced in as. Items of an array are separated by commas.
def text : Value → String
  | null => "null"
  | bool b => if b then "true" else "false"
  | number x => Number.Style.text.write x
  | string s => s
  | array items => ",".intercalate (itemTexts items)
  | object _ => "[object Object]"
  | function f => "[function " ++ f.name ++ "]"
  | accessor _ name _ => "[function " ++ name ++ "]"

-- A null within an array leaves nothing between its commas.
def itemTexts : List Value → List String
  | [] => []
  | null :: items => "" :: itemTexts items
  | item :: items => text item :: itemTexts items

end

-- Blank text is zero, and text that is no numeral is NaN.
def numberOfText (s : String) : Float :=
  let trimmed := Text.trim s.toList
  if trimmed.isEmpty then Number.Binary64.zero false
  else (Number.Numeral.read? trimmed).getD Number.Binary64.nan

-- The number that arithmetic and comparison see.
def toNumber : Value → Float
  | null => Number.Binary64.zero false
  | bool b => Number.Binary64.ofInt (if b then 1 else 0)
  | number x => x
  | string s => numberOfText s
  | array [] => Number.Binary64.zero false
  | array [item] => numberOfText item.text
  | array _ | object _ | function _ | accessor .. => Number.Binary64.nan

-- Integers up to this size are exact as doubles.
def maxSafeInteger : Nat := Number.twoPow 53 - 1

-- Safe integers become JSON integers, so negative zero loses its sign.
def numberToJson (x : Float) : Except EvalError Json :=
  match Number.Binary64.parts x with
  | .finite .. =>
      match Number.Binary64.integer? x with
      | some n => .ok (if n.natAbs ≤ maxSafeInteger then .integer n else .double x)
      | none => .ok (.double x)
  | _ => .error (.type (.numberNotJson x))

mutual

-- The JSON value that goes into a template. Accessors among the entries of an object are left out;
-- functions elsewhere have no JSON form.
def toJson : Value → Except EvalError Json
  | null => .ok .null
  | bool b => .ok (.bool b)
  | number x => numberToJson x
  | string s => .ok (.string s)
  | array items => (itemsToJson items).map .array
  | object entries => (entriesToJson entries).map .object
  | function f => .error (.type (.functionNotJson f.name))
  | accessor _ name _ => .error (.type (.functionNotJson name))

def itemsToJson : List Value → Except EvalError (List Json)
  | [] => .ok []
  | item :: items => do
      let json ← toJson item
      let rest ← itemsToJson items
      return json :: rest

def entriesToJson : List (String × Value) → Except EvalError (List (String × Json))
  | [] => .ok []
  | (_, accessor ..) :: entries => entriesToJson entries
  | (key, value) :: entries => do
      let json ← toJson value
      let rest ← entriesToJson entries
      return (key, json) :: rest

end

mutual

-- All JSON numbers become doubles.
def ofJson : Json → Value
  | .null => null
  | .bool b => bool b
  | .integer n => number (Number.Binary64.ofInt n)
  | .double x => number x
  | .string s => string s
  | .array items => array (itemsOfJson items)
  | .object entries => object (entriesOfJson entries)

def itemsOfJson : List Json → List Value
  | [] => []
  | item :: items => ofJson item :: itemsOfJson items

def entriesOfJson : List (String × Json) → List (String × Value)
  | [] => []
  | (key, value) :: entries => (key, ofJson value) :: entriesOfJson entries

end

end JsonTemplate.Value
