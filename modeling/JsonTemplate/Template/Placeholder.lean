import JsonTemplate.Text.Basic
import JsonTemplate.Text.Search

namespace JsonTemplate

-- The marks around an expression within a text.
structure Delimiters where
  opening : String
  closing : String
deriving DecidableEq, Repr

-- Two braces on either side.
def Delimiters.braces : Delimiters := ⟨"\x7b\x7b", "\x7d\x7d"⟩

-- An expression within a text, and the text around it.
structure Placeholder where
  before : List Char
  -- The opening mark, the body and the closing mark.
  span : List Char
  after : List Char
  -- The body without blanks at its ends.
  expression : List Char
deriving DecidableEq

namespace Placeholder

def isWhole (placeholder : Placeholder) : Bool :=
  placeholder.before.isEmpty && placeholder.after.isEmpty

def start (placeholder : Placeholder) : Nat := Text.byteLength placeholder.before

def stop (placeholder : Placeholder) : Nat := placeholder.start + Text.byteLength placeholder.span

end Placeholder

-- The placeholder from the first opening mark to the last closing mark after it, so that closing
-- marks within the expression do not end it. The body is not empty.
def Delimiters.find? (delimiters : Delimiters) (leaf : String) : Option Placeholder := do
  let opening := delimiters.opening.toList
  let closing := delimiters.closing.toList
  let (before, rest) ← Text.splitFirst? opening leaf.toList
  let (body, after) ← Text.splitLast? closing rest
  if body.isEmpty then none
  else return ⟨before, opening ++ body ++ closing, after, Text.trim body⟩

end JsonTemplate
