namespace JsonTemplate.Number

abbrev twoPow (n : Nat) : Nat := Nat.pow 2 n

abbrev fivePow (n : Nat) : Nat := Nat.pow 5 n

abbrev tenPow (n : Nat) : Nat := Nat.pow 10 n

-- What a double stands for: its sign, and significand * 2 ^ exponent when it is finite.
inductive Parts where
  | nan
  | infinite (negative : Bool)
  | finite (negative : Bool) (significand : Nat) (exponent : Int)
deriving DecidableEq, Repr

namespace Binary64

-- Finite doubles are m * 2 ^ q with m < 2 ^ 53 and q at least this.
def leastExponent : Int := -1074

-- Without the sign bit, codes of finite doubles lie below this one, which is infinity.
def infinityCode : Nat := 2047 * twoPow 52

def parts (x : Float) : Parts :=
  let code : Nat := x.toBits.toNat
  let negative := decide (twoPow 63 ≤ code)
  let magnitude : Nat := code % twoPow 63
  let field : Nat := magnitude / twoPow 52
  let fraction : Nat := magnitude % twoPow 52
  if infinityCode < magnitude then .nan
  else if magnitude = infinityCode then .infinite negative
  else if field = 0 then .finite negative fraction leastExponent
  else .finite negative (twoPow 52 + fraction) ((field : Int) - 1 + leastExponent)

def ofCode (negative : Bool) (magnitude : Nat) : Float :=
  Float.ofBits (UInt64.ofNat ((if negative then twoPow 63 else 0) + min magnitude infinityCode))

def nan : Float := Float.ofBits (UInt64.ofNat (infinityCode + twoPow 51))

def infinity (negative : Bool) : Float := ofCode negative infinityCode

def zero (negative : Bool) : Float := ofCode negative 0

-- The quotient rounded to the nearest natural number, a half to the even one.
def roundQuotient (num den : Nat) : Nat :=
  let floor := num / den
  let rest := num % den
  if 2 * rest < den then floor
  else if den < 2 * rest then floor + 1
  else floor + floor % 2

-- num / den scaled by 2 ^ (-exponent), as a quotient of natural numbers.
def scaleDown (num den : Nat) (exponent : Int) : Nat × Nat :=
  (num * twoPow (-exponent).toNat, den * twoPow exponent.toNat)

-- The exponent of the significand's last bit for a value of this size.
def lastBit (num den : Nat) : Int :=
  let guess : Int := (num.log2 : Int) - den.log2 - 52
  let (n, d) := scaleDown num den guess
  max leastExponent (if n < d * twoPow 52 then guess - 1 else guess)

-- The double nearest to num / den, a tie going to the even significand. Significands of
-- neighbouring doubles are neighbouring codes, so a significand that rounds up to 2 ^ 53 is right
-- as well, and so is one that rounds up to infinity.
def nearest (negative : Bool) (num den : Nat) : Float :=
  if num = 0 then zero negative
  else
    let exponent := lastBit num den
    let (n, d) := scaleDown num den exponent
    ofCode negative ((exponent - leastExponent).toNat * twoPow 52 + roundQuotient n d)

-- The double nearest to digits * 10 ^ exponent. A decimal exponent far outside the range of doubles
-- decides the answer, so no huge power is computed.
def ofDecimal (negative : Bool) (digits : Nat) (exponent : Int) : Float :=
  if digits = 0 then zero negative
  else if 400 < exponent then infinity negative
  else if exponent + digits.log2 < -400 then zero negative
  else nearest negative (digits * tenPow exponent.toNat) (tenPow (-exponent).toNat)

def ofInt (n : Int) : Float := nearest (decide (n < 0)) n.natAbs 1

def isNegative (x : Float) : Bool := decide (twoPow 63 ≤ x.toBits.toNat)

-- The natural number m * 2 ^ q, if it is one.
def wholeOf? (m : Nat) (q : Int) : Option Nat :=
  if 0 ≤ q then some (m * twoPow q.toNat)
  else if m % twoPow (-q).toNat = 0 then some (m / twoPow (-q).toNat)
  else none

-- The integer that a double is, if it is one.
def integer? (x : Float) : Option Int :=
  match parts x with
  | .finite negative m q => (wholeOf? m q).map fun n => if negative then -(n : Int) else n
  | _ => none

-- A double that can be a position: a natural number of any size.
def natural? (x : Float) : Option Nat :=
  match integer? x with
  | some n => if 0 ≤ n then some n.toNat else none
  | none => none

-- The remainder of the division that truncates. It is exact and has the sign of the dividend.
def remainder (x y : Float) : Float :=
  match parts x, parts y with
  | .finite negative m q, .finite _ n p =>
      if n = 0 then nan
      else
        let common := min q p
        let rest := (m * twoPow (q - common).toNat) % (n * twoPow (p - common).toNat)
        nearest negative (rest * twoPow common.toNat) (twoPow (-common).toNat)
  | .finite .., .infinite _ => x
  | _, _ => nan

end Binary64

end JsonTemplate.Number
