import JsonTemplate.Json.Basic
import JsonTemplate.Template.Construct

namespace JsonTemplate

-- Why a template could not be rendered, with the slot at which that was found.
inductive RenderError where
  -- The control field of a construct is no text.
  | invalidConstruct (construct : Construct) (path : Json.Pointer)
  | evaluation (expression : String) (path : Json.Pointer) (cause : EvalError)
  -- A result that has no JSON form.
  | conversion (path : Json.Pointer) (cause : EvalError)
  | depthExceeded (path : Json.Pointer) (maxDepth : Nat)
deriving DecidableEq

namespace RenderError

def path : RenderError → Json.Pointer
  | invalidConstruct _ path | evaluation _ path _ | conversion path _ | depthExceeded path _ => path

def cause? : RenderError → Option EvalError
  | evaluation _ _ cause | conversion _ cause => some cause
  | invalidConstruct .. | depthExceeded .. => none

private def quoted (s : String) : String := "'" ++ s ++ "'"

def message : RenderError → String
  | invalidConstruct construct path =>
      "invalid " ++ construct.key ++ " construct at " ++ quoted path.text ++
        ": control field must be a string expression"
  | evaluation expression path cause =>
      "failed to evaluate " ++ quoted expression ++ " at " ++ quoted path.text ++ ": " ++ cause.message
  | conversion path cause =>
      "cannot place result at " ++ quoted path.text ++ " into the template: " ++ cause.message
  | depthExceeded path maxDepth =>
      "template nesting at " ++ quoted path.text ++ " exceeds the maximum depth of " ++ Nat.repr maxDepth

end RenderError

end JsonTemplate
