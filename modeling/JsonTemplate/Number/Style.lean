import JsonTemplate.Number.Binary64
import JsonTemplate.Number.Shortest

namespace JsonTemplate.Number

-- How a double is written.
structure Style where
  -- Between two equally close shortest decimals.
  tie : Tie
  -- Decimal exponents of the leading digit for which no exponent is written.
  plain : Int → Bool
  -- An integral value written plainly has all its digits, not only those that read back.
  exactIntegers : Bool
  -- An integral value written plainly ends in .0.
  pointZero : Bool
  -- Negative zero keeps its sign.
  signedZero : Bool
  nan : String
  infinity : String

namespace Style

def zeros (count : Nat) : List Char := List.replicate count '0'

-- Digits with the point after as many of them as asked, zeros filling up either side.
def pointAfter (digits : List Char) (places : Int) (pointZero : Bool) : List Char :=
  if digits.length ≤ places then
    digits ++ zeros (places - digits.length).toNat ++ (if pointZero then ['.', '0'] else [])
  else if 0 < places then digits.take places.toNat ++ '.' :: digits.drop places.toNat
  else '0' :: '.' :: zeros (-places).toNat ++ digits

def withExponent (digits : List Char) (exponent : Int) : List Char :=
  let mantissa :=
    match digits with
    | first :: second :: rest => first :: '.' :: second :: rest
    | short => short
  mantissa ++ 'e' :: (if 0 ≤ exponent then '+' else '-') :: (Nat.repr exponent.natAbs).toList

def withoutEndZeros (digits : List Char) : List Char :=
  (digits.reverse.dropWhile (· = '0')).reverse

def writeFinite (style : Style) (m : Nat) (q : Int) : List Char :=
  if m = 0 then pointAfter ['0'] 1 style.pointZero
  else
    let shortest := Shortest.decimal style.tie m q
    let digits := Nat.toDigits 10 shortest.digits
    let places : Int := digits.length + shortest.exponent
    if style.plain (places - 1) then
      match style.exactIntegers, Binary64.wholeOf? m q with
      | true, some whole =>
          let digits := Nat.toDigits 10 whole
          pointAfter digits digits.length style.pointZero
      | _, _ => pointAfter (withoutEndZeros digits) places style.pointZero
    else withExponent (withoutEndZeros digits) (places - 1)

def write (style : Style) (x : Float) : String :=
  match Binary64.parts x with
  | .nan => style.nan
  | .infinite negative => if negative then "-" ++ style.infinity else style.infinity
  | .finite negative m q =>
      let sign := if negative && (style.signedZero || m != 0) then ['-'] else []
      String.ofList (sign ++ style.writeFinite m q)

end Style

-- Number text that expressions see: plain from 1e-6 up to below 1e21.
def Style.text : Style where
  tie := .up
  plain := fun x => decide (-6 ≤ x ∧ x ≤ 20)
  exactIntegers := true
  pointZero := false
  signedZero := false
  nan := "NaN"
  infinity := "Infinity"

-- Numbers in the descriptions of expressions and tokens: always plain.
def Style.plainly : Style where
  tie := .up
  plain := fun _ => true
  exactIntegers := false
  pointZero := false
  signedZero := true
  nan := "NaN"
  infinity := "inf"

-- Doubles in JSON text, which has no form for other than finite ones.
def Style.json : Style where
  tie := .toEven
  plain := fun x => decide (-5 ≤ x ∧ x ≤ 15)
  exactIntegers := false
  pointZero := true
  signedZero := true
  nan := "null"
  infinity := "null"

end JsonTemplate.Number
