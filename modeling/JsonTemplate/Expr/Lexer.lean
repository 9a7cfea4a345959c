import JsonTemplate.Expr.Error
import JsonTemplate.Number.Numeral
import JsonTemplate.Text.Basic
import JsonTemplate.Text.Search

namespace JsonTemplate

-- A token and the bytes of the source that it takes.
structure Lexeme where
  token : Token
  span : Span
deriving DecidableEq

namespace Lexer

def isBlank (c : Char) : Bool := c = ' ' || c = '\t' || c = '\n' || c = '\r'

-- A dollar sign may begin a name.
def startsName (c : Char) : Bool := c.isAlpha || c = '_' || c = '$'

def continuesName (c : Char) : Bool := startsName c || c.isDigit

-- The longest operator or punctuation mark at the beginning of a text, and its length.
def symbol? : List Char → Option (Symbol × Nat)
  | '=' :: '=' :: '=' :: _ => some (.strictEq, 3)
  | '!' :: '=' :: '=' :: _ => some (.strictNotEq, 3)
  | '=' :: '=' :: _ => some (.eq, 2)
  | '!' :: '=' :: _ => some (.notEq, 2)
  | '<' :: '=' :: _ => some (.lessOrEqual, 2)
  | '>' :: '=' :: _ => some (.greaterOrEqual, 2)
  | '&' :: '&' :: _ => some (.and, 2)
  | '|' :: '|' :: _ => some (.or, 2)
  | '<' :: _ => some (.less, 1)
  | '>' :: _ => some (.greater, 1)
  | '!' :: _ => some (.not, 1)
  | '+' :: _ => some (.plus, 1)
  | '-' :: _ => some (.minus, 1)
  | '*' :: _ => some (.star, 1)
  | '/' :: _ => some (.slash, 1)
  | '%' :: _ => some (.percent, 1)
  | '(' :: _ => some (.parenOpen, 1)
  | ')' :: _ => some (.parenClose, 1)
  | '[' :: _ => some (.bracketOpen, 1)
  | ']' :: _ => some (.bracketClose, 1)
  | '\x7b' :: _ => some (.braceOpen, 1)
  | '\x7d' :: _ => some (.braceClose, 1)
  | ',' :: _ => some (.comma, 1)
  | ':' :: _ => some (.colon, 1)
  | '?' :: _ => some (.question, 1)
  | '.' :: _ => some (.dot, 1)
  | _ => none

def word (text : List Char) : Token :=
  if text = "true".toList then .keyword .true
  else if text = "false".toList then .keyword .false
  else if text = "null".toList then .keyword .null
  else if text = "undefined".toList then .keyword .undefined
  else .name (String.ofList text)

def digitCount (text : List Char) : Nat := (text.takeWhile Char.isDigit).length

-- The length of a point with digits after it.
def fractionLength : List Char → Nat
  | '.' :: rest => if digitCount rest = 0 then 0 else digitCount rest + 1
  | _ => 0

def isSign (c : Char) : Bool := c = '+' || c = '-'

-- The length of an exponent mark with an optional sign and digits after it.
def exponentLength : List Char → Nat
  | mark :: rest =>
      if mark = 'e' ∨ mark = 'E' then
        match rest with
        | [] => 0
        | c :: unsigned =>
            if isSign c then (if digitCount unsigned = 0 then 0 else digitCount unsigned + 2)
            else if digitCount rest = 0 then 0
            else digitCount rest + 1
      else 0
  | [] => 0

-- The length of the numeral at the beginning of a text, zero if there is none. A numeral that
-- begins with its point has no exponent.
def numeralLength (text : List Char) : Nat :=
  let whole := digitCount text
  if whole = 0 then fractionLength text
  else
    let fraction := fractionLength (text.drop whole)
    whole + fraction + exponentLength (text.drop (whole + fraction))

-- How far the characters after an opening quote go on as ordinary characters and complete escapes,
-- and whether the closing quote follows. A backslash and a line feed make no escape.
def stringExtent (quote : Char) : List Char → Nat × Bool
  | [] => (0, false)
  | '\\' :: c :: rest =>
      if c = '\n' then (0, false)
      else
        let (length, closed) := stringExtent quote rest
        (length + 2, closed)
  | c :: rest =>
      if c = quote then (0, true)
      else if c = '\\' then (0, false)
      else
        let (length, closed) := stringExtent quote rest
        (length + 1, closed)

-- The character that a code in hexadecimal names. A plus sign may stand before the digits.
def scalar? (code : List Char) : Option Char :=
  let unsigned :=
    match code with
    | '+' :: rest => rest
    | other => other
  if unsigned.isEmpty then none
  else (Text.hexNumber? 0 unsigned).bind fun n => if n.isValidChar then some (Char.ofNat n) else none

def escaped (c : Char) : Char :=
  match c with
  | 'n' => '\n'
  | 't' => '\t'
  | 'r' => '\r'
  | '0' => '\x00'
  | other => other

-- The text that stands between quotes with its escapes resolved. The code after \u is the next four
-- characters, fewer at the end.
def unescape? : List Char → Option (List Char)
  | [] => some []
  | '\\' :: 'u' :: a :: b :: c :: d :: rest => do
      let char ← scalar? [a, b, c, d]
      let text ← unescape? rest
      return char :: text
  | '\\' :: 'u' :: short => (scalar? short).map fun char => [char]
  | '\\' :: c :: rest => (unescape? rest).map (escaped c :: ·)
  | c :: rest => if c = '\\' then none else (unescape? rest).map (c :: ·)

-- What stands at the beginning of a text: its length in characters, and its token if it is one.
structure Scan where
  token : Option Token
  length : Nat

def scanString (quote : Char) (rest : List Char) : Scan :=
  let (length, closed) := stringExtent quote rest
  if closed then
    ⟨(unescape? (rest.take length)).map fun text => .string (String.ofList text), length + 2⟩
  else ⟨none, length + 1⟩

-- The longest token at the beginning of a text that does not start with a blank.
def scan (text : List Char) : Scan :=
  match text with
  | [] => ⟨none, 0⟩
  | c :: rest =>
      if startsName c then
        let name := c :: rest.takeWhile continuesName
        ⟨some (word name), name.length⟩
      else if c = '"' || c = '\'' then scanString c rest
      else if numeralLength text ≠ 0 then
        ⟨(Number.Numeral.read? (text.take (numeralLength text))).map .number, numeralLength text⟩
      else
        match symbol? text with
        | some (symbol, length) => ⟨some (.symbol symbol), length⟩
        | none => ⟨none, 1⟩

-- The tokens up to the end or to the first text that starts none. The offset is that of the text's
-- first character; a number of characters is left over from the token before and skipped.
def lexemes (offset : Nat) : (leftOver : Nat) → List Char → List Lexeme × Option SyntaxError
  | _, [] => ([], none)
  | leftOver + 1, c :: rest => lexemes (offset + c.utf8Size) leftOver rest
  | 0, c :: rest =>
      if isBlank c then lexemes (offset + c.utf8Size) 0 rest
      else
        let found := scan (c :: rest)
        let text := (c :: rest).take found.length
        let span : Span := ⟨offset, offset + Text.byteLength text⟩
        match found.token with
        | none => ([], some ⟨span, .unknownText (String.ofList text)⟩)
        | some token =>
            let (others, failure) := lexemes (offset + c.utf8Size) (found.length - 1) rest
            (⟨token, span⟩ :: others, failure)

end Lexer

-- The tokens of a source, and the failure that ended them if there was one.
def lex (source : String) : List Lexeme × Option SyntaxError := Lexer.lexemes 0 0 source.toList

end JsonTemplate
