import JsonTemplate.Json.Basic
import JsonTemplate.Number.Numeral

namespace JsonTemplate.Json.Numeral

open Number

-- The greatest significand that is kept while digits are read.
def greatestSignificand : Nat := twoPow 64 - 1

-- Takes digits into the significand while it stays in range. The digits from the first one that
-- does not fit are left.
def accumulate (significand : Nat) : List Char → Nat × List Char
  | [] => (significand, [])
  | c :: rest =>
      let next := 10 * significand + (c.toNat - '0'.toNat)
      if next ≤ greatestSignificand then accumulate next rest else (significand, c :: rest)

private def powerOfTen (n : Nat) : Float := Binary64.ofDecimal false 1 n

private def isZero (x : Float) : Bool := x == Binary64.zero false

-- Divides by the greatest power of ten that is a double, up to so many times.
private def divide (x : Float) : Nat → Float
  | 0 => x
  | times + 1 => if isZero x then x else divide (x / powerOfTen 308) times

-- x * 10 ^ exponent by one multiplication or by divisions, each of them rounded. A result that is
-- not finite is refused.
def scale (x : Float) (exponent : Int) : Option Float :=
  if exponent < 0 then
    let places := (-exponent).toNat
    let times := (places - 1) / 308
    some (divide x times / powerOfTen (places - 308 * times))
  else if exponent ≤ 308 then
    let scaled := x * powerOfTen exponent.toNat
    if scaled.isInf then none else some scaled
  else if isZero x then some x
  else none

private def double? (negative : Bool) (significand : Nat) (exponent : Int) : Option Json :=
  (scale (Binary64.ofInt significand) exponent).map fun x => .double (if negative then -x else x)

-- An exponent, zero if there is none, and what follows it.
private def exponent? : List Char → Option (Int × List Char)
  | [] => some (0, [])
  | c :: rest =>
      if c = 'e' ∨ c = 'E' then
        let (negative, unsigned) := Number.Numeral.sign rest
        let (ds, after) := Number.Numeral.digits unsigned
        if ds.isEmpty then none
        else
          let size : Int := Number.Numeral.value ds
          some (if negative then -size else size, after)
      else some (0, c :: rest)

private def integer (negative : Bool) (n : Nat) : Json :=
  if negative then
    if n = 0 ∨ twoPow 63 < n then .double (-(Binary64.ofInt n)) else .integer (-n)
  else .integer n

private def startsExponent : List Char → Bool
  | c :: _ => c = 'e' || c = 'E'
  | [] => false

private def unsigned? (negative : Bool) (text : List Char) : Option (Json × List Char) :=
  let (whole, afterWhole) := Number.Numeral.digits text
  if whole.isEmpty || (whole.length > 1 && whole.head? == some '0') then none
  else
    let (significand, left) := accumulate 0 whole
    match afterWhole with
    | '.' :: afterPoint =>
        let (fraction, afterFraction) := Number.Numeral.digits afterPoint
        if fraction.isEmpty then none
        else do
          let (significand, ignored) := accumulate significand fraction
          let (e, rest) ← exponent? afterFraction
          let places : Int := fraction.length - ignored.length
          let json ← double? negative significand (left.length - places + e)
          return (json, rest)
    | _ =>
        if startsExponent afterWhole then do
          let (e, rest) ← exponent? afterWhole
          let json ← double? negative significand (left.length + e)
          return (json, rest)
        else if left.isEmpty then some (integer negative significand, afterWhole)
        else (double? negative significand left.length).map (·, afterWhole)

-- A number at the beginning of a text, and what follows it. Without a fraction and an exponent it
-- is an integer if it fits 64 bits, signed or not; negative zero and all else are doubles.
def read? (text : List Char) : Option (Json × List Char) :=
  match text with
  | '-' :: rest => unsigned? true rest
  | _ => unsigned? false text

end JsonTemplate.Json.Numeral
