import JsonTemplate.Number.Numeral
import JsonTemplate.Text.Basic

namespace JsonTemplate.Toml

-- Values that are written without quotes and brackets. Of fractions and times only the form counts.
inductive Scalar where
  | integer (n : Int)
  | boolean (b : Bool)
  | fraction
  | time
deriving DecidableEq, Repr

namespace Scalar

-- The digits of a text in which single underscores may stand between digits.
private def ungrouped? (isDigit : Char → Bool) : List Char → Option (List Char)
  | [] => none
  | [c] => if isDigit c then some [c] else none
  | c :: '_' :: rest => if isDigit c then (ungrouped? isDigit rest).map (c :: ·) else none
  | c :: rest => if isDigit c then (ungrouped? isDigit rest).map (c :: ·) else none

private def inRange? (n : Int) : Option Scalar :=
  if -(Number.twoPow 63 : Int) ≤ n ∧ n < (Number.twoPow 63 : Int) then some (.integer n) else none

private def inBase? (base : Nat) (digits : List Char) : Option Scalar := do
  let isDigit := fun c => ((Text.hexValue? c).map fun d => decide (d < base)).getD false
  let digits ← ungrouped? isDigit digits
  inRange? (digits.foldl (fun n c => base * n + (Text.hexValue? c).getD 0) 0)

-- Digits without a leading zero.
private def wholeDigits? (text : List Char) : Option (List Char) := do
  let digits ← ungrouped? Char.isDigit text
  if digits.length > 1 ∧ digits.head? = some '0' then none else some digits

private def integer? (negative : Bool) (unsigned : List Char) : Option Scalar := do
  let n := Number.Numeral.value (← wholeDigits? unsigned)
  inRange? (if negative then -(n : Int) else n)

private def splitAtChar (isMark : Char → Bool) (text : List Char) : List Char × Option (List Char) :=
  match text.dropWhile (fun c => !isMark c) with
  | [] => (text, none)
  | _ :: rest => (text.takeWhile (fun c => !isMark c), some rest)

-- A fraction, an exponent or both after digits. A positive number has to be finite as a double.
private def fraction? (negative : Bool) (unsigned : List Char) : Option Scalar := do
  let (mantissa, exponent?) := splitAtChar (fun c => c = 'e' || c = 'E') unsigned
  let (whole, places?) := splitAtChar (· = '.') mantissa
  if exponent?.isNone ∧ places?.isNone then none
  let wholeDigits ← wholeDigits? whole
  let places ← (places?.map (ungrouped? Char.isDigit)).getD (some [])
  let (negativeExponent, exponent) := Number.Numeral.sign (exponent?.getD ['0'])
  let size : Int := Number.Numeral.value (← ungrouped? Char.isDigit exponent)
  let scale := (if negativeExponent then -size else size) - places.length
  let x := Number.Binary64.ofDecimal negative (Number.Numeral.value (wholeDigits ++ places)) scale
  if x.isInf && !negative then none else some .fraction

private def number? (text : List Char) : Option Scalar :=
  match text with
  | '0' :: 'x' :: digits => inBase? 16 digits
  | '0' :: 'o' :: digits => inBase? 8 digits
  | '0' :: 'b' :: digits => inBase? 2 digits
  | _ =>
      let (negative, unsigned) := Number.Numeral.sign text
      if unsigned = "inf".toList ∨ unsigned = "nan".toList then some .fraction
      else (integer? negative unsigned).orElse fun _ => fraction? negative unsigned

private def twoDigits? (text : List Char) (least greatest : Nat) : Bool :=
  text.length = 2 && text.all Char.isDigit && least ≤ Number.Numeral.value text &&
    Number.Numeral.value text ≤ greatest

private def isLeap (year : Nat) : Bool := year % 4 = 0 && (year % 100 ≠ 0 || year % 400 = 0)

private def monthLength (year month : Nat) : Nat :=
  if month = 2 then (if isLeap year then 29 else 28)
  else if month = 4 ∨ month = 6 ∨ month = 9 ∨ month = 11 then 30
  else 31

-- A day, as 1979-05-27.
def isDate (text : List Char) : Bool :=
  let year := text.take 4
  let month := (text.drop 5).take 2
  text.length = 10 && year.all Char.isDigit && text[4]? = some '-' && text[7]? = some '-' &&
    twoDigits? month 1 12 &&
    twoDigits? (text.drop 8) 1 (monthLength (Number.Numeral.value year) (Number.Numeral.value month))

-- A time of day, as 07:32:00 or 07:32:00.999.
private def isTimeOfDay (text : List Char) : Bool :=
  let (seconds, places) := splitAtChar (· = '.') (text.drop 6)
  twoDigits? (text.take 2) 0 23 && text[2]? = some ':' && twoDigits? ((text.drop 3).take 2) 0 59 &&
    text[5]? = some ':' && twoDigits? seconds 0 60 &&
    (match places with
      | none => true
      | some digits => !digits.isEmpty && digits.all Char.isDigit)

private def isOffset (text : List Char) : Bool :=
  twoDigits? (text.take 2) 0 23 && text[2]? = some ':' && twoDigits? (text.drop 3) 0 59

-- A time of day, with an optional distance from universal time.
def isTimeWithOffset (text : List Char) : Bool :=
  match splitAtChar (fun c => c = 'Z' || c = 'z') text with
  | (clock, some rest) => isTimeOfDay clock && rest.isEmpty
  | (_, none) =>
      match splitAtChar (fun c => c = '+' || c = '-') text with
      | (clock, some offset) => isTimeOfDay clock && isOffset offset
      | (clock, none) => isTimeOfDay clock

private def isTime (text : List Char) : Bool :=
  isDate text || isTimeOfDay text ||
    (isDate (text.take 10) && (text[10]? = some 'T' || text[10]? = some 't') &&
      isTimeWithOffset (text.drop 11))

def isWordChar (c : Char) : Bool :=
  c.isAlphanum || c = '_' || c = '+' || c = '-' || c = '.' || c = ':'

private def word? (word : List Char) : Option Scalar :=
  if word = "true".toList then some (.boolean true)
  else if word = "false".toList then some (.boolean false)
  else if isTime word then some .time
  else number? word

-- A scalar and what follows it. A blank may stand between a day and a time.
def read? (text : List Char) : Option (Scalar × List Char) :=
  let word := text.takeWhile isWordChar
  let rest := text.dropWhile isWordChar
  match rest with
  | ' ' :: later =>
      if isDate word && isTimeWithOffset (later.takeWhile isWordChar) then
        some (.time, later.dropWhile isWordChar)
      else (word? word).map (·, rest)
  | _ => (word? word).map (·, rest)

end Scalar

end JsonTemplate.Toml
