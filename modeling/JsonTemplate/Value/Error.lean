import JsonTemplate.Expr.Error

namespace JsonTemplate

-- A value that does not fit what is done with it.
inductive Mismatch where
  | propertyOfNull (key : String)
  | numberNotJson (x : Float)
  | functionNotJson (name : String)
  -- An accessor called with a text that is no index.
  | indexText (accessor : String) (text : String)
  -- An accessor called with another kind of value.
  | indexKind (accessor : String) (kind : String)
  | indexMissing (accessor : String)
  -- A complaint of a function from outside.
  | other (message : String)
deriving DecidableEq

-- Why an expression has no value.
inductive EvalError where
  | parse (error : SyntaxError)
  | undefinedReference (name : String)
  | notCallable (callee : String)
  | type (mismatch : Mismatch)
  | nestingTooDeep
  -- A function that was called gave up.
  | function (name : String) (message : String)
deriving DecidableEq

-- The deepest node that is evaluated, the root having depth zero.
def maxNesting : Nat := 256

private def expectsIndex (accessor : String) : String :=
  accessor ++ " expects a non-negative integer index, got "

def Mismatch.message : Mismatch → String
  | propertyOfNull key => "cannot read property '" ++ key ++ "' of null"
  | numberNotJson x => Number.Style.text.write x ++ " cannot be represented as JSON"
  | functionNotJson name => "function '" ++ name ++ "' cannot be represented as JSON"
  | indexText accessor text => expectsIndex accessor ++ "'" ++ text ++ "'"
  | indexKind accessor kind => expectsIndex accessor ++ kind
  | indexMissing accessor => accessor ++ " expects an index argument"
  | other message => message

def EvalError.message : EvalError → String
  | parse error => "parse errors: " ++ error.display
  | undefinedReference name => "undefined reference '" ++ name ++ "'"
  | notCallable callee => "'" ++ callee ++ "' is not a function"
  | type mismatch => "type error: " ++ mismatch.message
  | nestingTooDeep => "expression nesting exceeds " ++ Nat.repr maxNesting ++ " levels"
  | function name message => "function '" ++ name ++ "' failed: " ++ message

end JsonTemplate
