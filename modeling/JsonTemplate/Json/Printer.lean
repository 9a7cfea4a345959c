import JsonTemplate.Json.Basic
import JsonTemplate.Number.Style

namespace JsonTemplate.Json

-- Either no blanks at all, or one item a line with two blanks for every level.
inductive Layout where
  | compact
  | indented
deriving DecidableEq, Repr

namespace Printer

def hexDigit (n : Nat) : Char := Nat.digitChar n

-- Only the quote, the backslash and the control characters below the blank are escaped.
def escape (c : Char) : List Char :=
  if c = '"' then ['\\', '"']
  else if c = '\\' then ['\\', '\\']
  else if c = '\n' then ['\\', 'n']
  else if c = '\r' then ['\\', 'r']
  else if c = '\t' then ['\\', 't']
  else if c = '\x08' then ['\\', 'b']
  else if c = '\x0c' then ['\\', 'f']
  else if c.toNat < 0x20 then ['\\', 'u', '0', '0', hexDigit (c.toNat / 16), hexDigit (c.toNat % 16)]
  else [c]

def quote (s : String) : List Char := '"' :: s.toList.flatMap escape ++ ['"']

def lineBreak : Layout → Nat → List Char
  | .compact, _ => []
  | .indented, level => '\n' :: List.replicate (2 * level) ' '

def colon : Layout → List Char
  | .compact => [':']
  | .indented => [':', ' ']

mutual

def write (layout : Layout) (level : Nat) : Json → List Char
  | null => "null".toList
  | bool b => (if b then "true" else "false").toList
  | integer n => (Int.repr n).toList
  | double x => (Number.Style.json.write x).toList
  | string s => quote s
  | array [] => ['[', ']']
  | array (item :: items) =>
      '[' :: lineBreak layout (level + 1) ++ write layout (level + 1) item ++
        writeItems layout (level + 1) items ++ lineBreak layout level ++ [']']
  | object [] => ['{', '}']
  | object ((key, value) :: entries) =>
      '{' :: lineBreak layout (level + 1) ++ quote key ++ colon layout ++
        write layout (level + 1) value ++ writeEntries layout (level + 1) entries ++
        lineBreak layout level ++ ['}']

-- Items after the first.
def writeItems (layout : Layout) (level : Nat) : List Json → List Char
  | [] => []
  | item :: items =>
      ',' :: lineBreak layout level ++ write layout level item ++ writeItems layout level items

-- Entries after the first.
def writeEntries (layout : Layout) (level : Nat) : List (String × Json) → List Char
  | [] => []
  | (key, value) :: entries =>
      ',' :: lineBreak layout level ++ quote key ++ colon layout ++ write layout level value ++
        writeEntries layout level entries

end

end Printer

def print (layout : Layout) (json : Json) : String := String.ofList (Printer.write layout 0 json)

def compact (json : Json) : String := json.print .compact

end JsonTemplate.Json
