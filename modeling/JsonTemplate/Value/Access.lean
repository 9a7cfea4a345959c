import JsonTemplate.Value.Conversion

namespace JsonTemplate.Value

-- The value at a position, null past the end.
def itemAt (items : List Value) (position : Nat) : Value := items[position]?.getD null

-- The value of a property. What has no such property gives null, only null itself is refused.
def member (target : Value) (key : String) : Except EvalError Value :=
  match target with
  | null => .error (.type (.propertyOfNull key))
  | object entries => .ok ((Fields.get? entries key).getD null)
  | array items =>
      if key = "length" then .ok (ofNat items.length)
      else .ok (((Number.Numeral.index? key.toList).map (itemAt items)).getD null)
  | string s => .ok (if key = "length" then ofNat s.length else null)
  | _ => .ok null

-- The value at a computed key. Arrays and texts are indexed by natural numbers, all other keys are
-- taken by their text.
def element (target key : Value) : Except EvalError Value :=
  match target, key with
  | array items, number x => .ok (((Number.Binary64.natural? x).map (itemAt items)).getD null)
  | string s, number x =>
      let char? := (Number.Binary64.natural? x).bind fun position => s.toList[position]?
      .ok ((char?.map fun c => string (String.singleton c)).getD null)
  | _, _ => member target key.text

-- What an accessor gives for its first argument.
def access (name : String) (items : List Value) (args : List Value) : Except EvalError Value :=
  match args with
  | [] => .error (.type (.indexMissing name))
  | number x :: _ =>
      match Number.Binary64.natural? x with
      | some position => .ok (itemAt items position)
      | none => .error (.type (.indexKind name "number"))
  | string s :: _ =>
      match Number.Numeral.index? s.toList with
      | some position => .ok (itemAt items position)
      | none => .error (.type (.indexText name s))
  | other :: _ => .error (.type (.indexKind name other.kind))

end JsonTemplate.Value
