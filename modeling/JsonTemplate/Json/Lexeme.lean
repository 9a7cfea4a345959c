import JsonTemplate.Json.Numeral
import JsonTemplate.Text.Basic

namespace JsonTemplate.Json

-- The smallest parts of JSON text that have a meaning.
inductive Lexeme where
  | arrayOpen
  | arrayClose
  | objectOpen
  | objectClose
  | comma
  | colon
  | scalar (json : Json)

namespace Lexeme

def isBlank (c : Char) : Bool := c = ' ' || c = '\n' || c = '\t' || c = '\r'

private def simpleEscape? (c : Char) : Option Char :=
  match c with
  | '"' | '\\' | '/' => some c
  | 'b' => some '\x08'
  | 'f' => some '\x0c'
  | 'n' => some '\n'
  | 'r' => some '\r'
  | 't' => some '\t'
  | _ => none

-- The code units of a string up to its closing quote, and what follows it. Units from D800 to DFFF
-- stand for halves of characters and can only come from escapes.
def units? : List Char → Option (List Nat × List Char)
  | '"' :: rest => some ([], rest)
  | '\\' :: 'u' :: a :: b :: c :: d :: rest => do
      let unit ← Text.hexNumber? 0 [a, b, c, d]
      let (units, after) ← units? rest
      return (unit :: units, after)
  | '\\' :: c :: rest => do
      let char ← simpleEscape? c
      let (units, after) ← units? rest
      return (char.toNat :: units, after)
  | c :: rest =>
      if c.toNat < 0x20 ∨ c = '\\' then none
      else do
        let (units, after) ← units? rest
        return (c.toNat :: units, after)
  | [] => none

private def isHigh (unit : Nat) : Bool := 0xD800 ≤ unit && unit < 0xDC00

private def isLow (unit : Nat) : Bool := 0xDC00 ≤ unit && unit < 0xE000

-- Two halves in a row make one character, a half by itself is refused.
def characters? : List Nat → Option (List Char)
  | [] => some []
  | [unit] => if isHigh unit || isLow unit then none else some [Char.ofNat unit]
  | first :: second :: rest =>
      if isHigh first then
        if isLow second then
          (characters? rest).map
            (Char.ofNat (0x10000 + 0x400 * (first - 0xD800) + (second - 0xDC00)) :: ·)
        else none
      else if isLow first then none
      else (characters? (second :: rest)).map (Char.ofNat first :: ·)

private def string? (text : List Char) : Option (Lexeme × List Char) := do
  let (units, rest) ← units? text
  let characters ← characters? units
  return (.scalar (.string (String.ofList characters)), rest)

-- The lexeme at the beginning of a text that does not start with a blank.
def next? (text : List Char) : Option (Lexeme × List Char) :=
  match text with
  | '[' :: rest => some (.arrayOpen, rest)
  | ']' :: rest => some (.arrayClose, rest)
  | '\x7b' :: rest => some (.objectOpen, rest)
  | '\x7d' :: rest => some (.objectClose, rest)
  | ',' :: rest => some (.comma, rest)
  | ':' :: rest => some (.colon, rest)
  | '"' :: rest => string? rest
  | 'n' :: 'u' :: 'l' :: 'l' :: rest => some (.scalar .null, rest)
  | 't' :: 'r' :: 'u' :: 'e' :: rest => some (.scalar (.bool true), rest)
  | 'f' :: 'a' :: 'l' :: 's' :: 'e' :: rest => some (.scalar (.bool false), rest)
  | _ => (Numeral.read? text).map fun (json, rest) => (.scalar json, rest)

-- Every lexeme takes at least one character, so the text's length bounds the steps.
private def all? : Nat → List Char → Option (List Lexeme)
  | 0, text => if (text.dropWhile isBlank).isEmpty then some [] else none
  | steps + 1, text =>
      match text.dropWhile isBlank with
      | [] => some []
      | unread => do
          let (lexeme, rest) ← next? unread
          let lexemes ← all? steps rest
          return lexeme :: lexemes

def ofText? (text : List Char) : Option (List Lexeme) := all? text.length text

end Lexeme

end JsonTemplate.Json
