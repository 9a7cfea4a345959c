import JsonTemplate.Expr.Basic
import JsonTemplate.Expr.Token

namespace JsonTemplate

-- The greatest number of tokens in an expression.
def maxTokens : Nat := 2048

-- What could have stood at a place where the source went wrong. Literals and names are never listed.
inductive Expectation where
  | symbol (symbol : Symbol)
  | endOfInput
deriving DecidableEq, Repr

def Expectation.describe : Expectation → String
  | symbol s => s.describe
  | endOfInput => "end of input"

namespace SyntaxError

inductive Cause where
  -- Text that starts no token.
  | unknownText (text : String)
  | tooLong
  -- A token, or the end of the source, that cannot stand where it stands.
  | unexpected (found : Option Token) (expected : List Expectation)
deriving DecidableEq

end SyntaxError

structure SyntaxError where
  span : Span
  cause : SyntaxError.Cause
deriving DecidableEq

namespace SyntaxError

def message (error : SyntaxError) : String :=
  match error.cause with
  | .unknownText text => "Unexpected character sequence '" ++ text ++ "'"
  | .tooLong => "Expression is longer than " ++ Nat.repr maxTokens ++ " tokens"
  | .unexpected (some token) _ => "Unexpected " ++ token.describe
  | .unexpected none _ => "Unexpected end of input"

-- In the order of their texts.
def expected (error : SyntaxError) : List String :=
  match error.cause with
  | .unexpected _ expected => (expected.map Expectation.describe).mergeSort fun a b => decide (a ≤ b)
  | _ => []

def display (error : SyntaxError) : String :=
  "Parse error at " ++ Nat.repr error.span.start ++ ".." ++ Nat.repr error.span.stop ++ ": " ++ error.message

end SyntaxError

end JsonTemplate
