import JsonTemplate.Text.Case
import JsonTemplate.Value.Conversion

namespace JsonTemplate.Builtin

-- A missing argument counts as null.
def argument (args : List Value) (position : Nat) : Value := args[position]?.getD .null

private def wrongKind (builtin : Builtin) (wanted : String) (found : Value) : Except EvalError Value :=
  .error (.function builtin.name ("expected " ++ wanted ++ ", got " ++ found.kind))

private def onText (f : List Char → List Char) (args : List Value) : Value :=
  .string (String.ofList (f (argument args 0).text.toList))

def apply (builtin : Builtin) (args : List Value) : Except EvalError Value :=
  match builtin with
  | toUpper => .ok (onText Text.toUpper args)
  | toLower => .ok (onText Text.toLower args)
  | trim => .ok (onText Text.trim args)
  | length =>
      match argument args 0 with
      | .string s => .ok (.ofNat s.length)
      | .array items => .ok (.ofNat items.length)
      | .object entries => .ok (.ofNat entries.length)
      | other => wrongKind builtin "a string, array or object" other
  | string => .ok (.string (argument args 0).text)
  | number => .ok (.number (argument args 0).toNumber)
  | keys =>
      match argument args 0 with
      | .object entries =>
          let own := entries.filter fun entry => !entry.2.isAccessor
          .ok (.array (own.map fun entry => .string entry.1))
      | other => wrongKind builtin "an object" other
  | join =>
      match argument args 0 with
      | .array items =>
          let separator := (args[1]?.map Value.text).getD ","
          .ok (.string (separator.intercalate (items.map Value.text)))
      | other => wrongKind builtin "an array" other

end JsonTemplate.Builtin
