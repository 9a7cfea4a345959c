import JsonTemplate.Text.Basic

namespace JsonTemplate.Toml

def isBlank (c : Char) : Bool := c = ' ' || c = '\t'

-- Characters that stand for themselves in comments and strings: no control character but the tab.
def isPlain (c : Char) : Bool := c = '\t' || (0x20 ≤ c.toNat && c.toNat ≠ 0x7f)

namespace Quoted

private def simpleEscape? (c : Char) : Option Char :=
  match c with
  | '"' | '\\' => some c
  | 'b' => some '\x08'
  | 'f' => some '\x0c'
  | 'n' => some '\n'
  | 'r' => some '\r'
  | 't' => some '\t'
  | _ => none

private def coded? (digits : List Char) : Option Char :=
  (Text.hexNumber? 0 digits).bind fun n => if n.isValidChar then some (Char.ofNat n) else none

-- Each of these readers starts after the opening quotes. It gives the text and what follows the
-- closing quotes.
abbrev Reader := List Char → Option (List Char × List Char)

private def cons (c : Char) (result : Option (List Char × List Char)) :
    Option (List Char × List Char) :=
  result.map fun (text, rest) => (c :: text, rest)

-- One line in double quotes, with escapes.
def basic? : Reader
  | '"' :: rest => some ([], rest)
  | '\\' :: 'u' :: a :: b :: c :: d :: rest => do cons (← coded? [a, b, c, d]) (basic? rest)
  | '\\' :: 'U' :: a :: b :: c :: d :: e :: f :: g :: h :: rest => do
      cons (← coded? [a, b, c, d, e, f, g, h]) (basic? rest)
  | '\\' :: c :: rest => do cons (← simpleEscape? c) (basic? rest)
  | c :: rest => if isPlain c && c ≠ '\\' then cons c (basic? rest) else none
  | [] => none

-- One line in single quotes, where every character stands for itself.
def literal? : Reader
  | '\'' :: rest => some ([], rest)
  | c :: rest => if isPlain c then cons c (literal? rest) else none
  | [] => none

-- Whether only blanks are left on the line.
private def endsLine : List Char → Bool
  | '\n' :: _ => true
  | '\r' :: '\n' :: _ => true
  | c :: rest => isBlank c && endsLine rest
  | [] => false

-- Lines in three double quotes. A backslash at the end of a line takes out the line's end with all
-- blanks and line ends after it. One or two quotes may stand before the closing ones.
private def basicLines? (trimming : Bool) : Reader
  | '\r' :: '\n' :: rest =>
      if trimming then basicLines? true rest else cons '\n' (basicLines? false rest)
  | '"' :: '"' :: '"' :: '"' :: '"' :: rest => some (['"', '"'], rest)
  | '"' :: '"' :: '"' :: '"' :: rest => some (['"'], rest)
  | '"' :: '"' :: '"' :: rest => some ([], rest)
  | '\\' :: 'u' :: a :: b :: c :: d :: rest => do
      cons (← coded? [a, b, c, d]) (basicLines? false rest)
  | '\\' :: 'U' :: a :: b :: c :: d :: e :: f :: g :: h :: rest => do
      cons (← coded? [a, b, c, d, e, f, g, h]) (basicLines? false rest)
  | '\\' :: c :: rest =>
      if endsLine (c :: rest) then basicLines? true (c :: rest)
      else do cons (← simpleEscape? c) (basicLines? false rest)
  | c :: rest =>
      if trimming && (isBlank c || c = '\n') then basicLines? true rest
      else if c = '\n' || (isPlain c && c ≠ '\\') then cons c (basicLines? false rest)
      else none
  | [] => none

-- Lines in three single quotes.
private def literalLines? : Reader
  | '\r' :: '\n' :: rest => cons '\n' (literalLines? rest)
  | '\'' :: '\'' :: '\'' :: '\'' :: '\'' :: rest => some (['\'', '\''], rest)
  | '\'' :: '\'' :: '\'' :: '\'' :: rest => some (['\''], rest)
  | '\'' :: '\'' :: '\'' :: rest => some ([], rest)
  | c :: rest => if c = '\n' || isPlain c then cons c (literalLines? rest) else none
  | [] => none

private def afterLineEnd : List Char → List Char
  | '\r' :: '\n' :: rest => rest
  | '\n' :: rest => rest
  | rest => rest

-- A string of one line.
def line? : Reader
  | '"' :: rest => basic? rest
  | '\'' :: rest => literal? rest
  | _ => none

-- A string of any form. A line end right after three opening quotes does not belong to it.
def read? : Reader
  | '"' :: '"' :: '"' :: rest => basicLines? false (afterLineEnd rest)
  | '\'' :: '\'' :: '\'' :: rest => literalLines? (afterLineEnd rest)
  | text => line? text

end Quoted

end JsonTemplate.Toml
