import JsonTemplate.Number.Style

namespace JsonTemplate

inductive Keyword where
  | true
  | false
  | null
  | undefined
deriving DecidableEq, Repr

-- Operators and punctuation.
inductive Symbol where
  | strictEq
  | strictNotEq
  | eq
  | notEq
  | lessOrEqual
  | greaterOrEqual
  | less
  | greater
  | and
  | or
  | not
  | plus
  | minus
  | star
  | slash
  | percent
  | parenOpen
  | parenClose
  | bracketOpen
  | bracketClose
  | braceOpen
  | braceClose
  | comma
  | colon
  | question
  | dot
deriving DecidableEq, Repr

-- The parts of an expression's source.
inductive Token where
  | name (text : String)
  | string (text : String)
  | number (x : Float)
  | keyword (word : Keyword)
  | symbol (symbol : Symbol)
deriving DecidableEq

def Keyword.text : Keyword → String
  | true => "true"
  | false => "false"
  | null => "null"
  | undefined => "undefined"

def Symbol.text : Symbol → String
  | strictEq => "==="
  | strictNotEq => "!=="
  | eq => "=="
  | notEq => "!="
  | lessOrEqual => "<="
  | greaterOrEqual => ">="
  | less => "<"
  | greater => ">"
  | and => "&&"
  | or => "||"
  | not => "!"
  | plus => "+"
  | minus => "-"
  | star => "*"
  | slash => "/"
  | percent => "%"
  | parenOpen => "("
  | parenClose => ")"
  | bracketOpen => "["
  | bracketClose => "]"
  | braceOpen => "\x7b"
  | braceClose => "\x7d"
  | comma => ","
  | colon => ":"
  | question => "?"
  | dot => "."

private def quoted (s : String) : String := "'" ++ s ++ "'"

def Symbol.describe (symbol : Symbol) : String := quoted symbol.text

-- The token as messages name it.
def Token.describe : Token → String
  | name text => "identifier " ++ quoted text
  | string text => "string " ++ quoted text
  | number x => "number " ++ Number.Style.plainly.write x
  | keyword word => "keyword " ++ quoted word.text
  | symbol s => s.describe

end JsonTemplate
