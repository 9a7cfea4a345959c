import JsonTemplate.Number.Binary64

namespace JsonTemplate.Number.Numeral

-- Leading digits, and what follows them.
def digits (text : List Char) : List Char × List Char :=
  (text.takeWhile Char.isDigit, text.dropWhile Char.isDigit)

def value (digits : List Char) : Nat :=
  digits.foldl (fun n c => 10 * n + (c.toNat - '0'.toNat)) 0

-- A sign, if there is one, and what follows it.
def sign : List Char → Bool × List Char
  | '-' :: rest => (true, rest)
  | '+' :: rest => (false, rest)
  | rest => (false, rest)

-- The digits after a point, if there is one, and what follows them.
def fraction : List Char → List Char × List Char
  | '.' :: rest => digits rest
  | rest => ([], rest)

-- An exponent that fills the text.
def exponent? : List Char → Option Int
  | [] => some 0
  | c :: rest =>
      if c = 'e' ∨ c = 'E' then
        let (negative, unsigned) := sign rest
        let (ds, after) := digits unsigned
        if ds.isEmpty || !after.isEmpty then none
        else some (if negative then -(value ds : Int) else value ds)
      else none

-- Digits with a point before, among or after them, at least one digit, and an exponent.
def decimal? (negative : Bool) (text : List Char) : Option Float :=
  let (whole, afterWhole) := digits text
  let (fraction, rest) := fraction afterWhole
  if whole.isEmpty && fraction.isEmpty then none
  else (exponent? rest).map fun e =>
    Binary64.ofDecimal negative (value (whole ++ fraction)) (e - fraction.length)

-- A decimal numeral or the name of an infinity or of a value that is no number, in any case of
-- letters, each with an optional sign. The result is the double nearest to the exact decimal value.
def read? (text : List Char) : Option Float :=
  let (negative, unsigned) := sign text
  let word := unsigned.map Char.toLower
  if word = "inf".toList ∨ word = "infinity".toList then some (Binary64.infinity negative)
  else if word = "nan".toList then some Binary64.nan
  else decimal? negative unsigned

-- The largest index that a key can name.
def greatestIndex : Nat := twoPow 64 - 1

-- Digits after an optional plus sign, up to the largest index.
def index? (text : List Char) : Option Nat :=
  let unsigned :=
    match text with
    | '+' :: rest => rest
    | other => other
  if unsigned.isEmpty || !unsigned.all Char.isDigit then none
  else
    let n := value unsigned
    if n ≤ greatestIndex then some n else none

end JsonTemplate.Number.Numeral
