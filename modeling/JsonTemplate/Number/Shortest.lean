import JsonTemplate.Number.Binary64

namespace JsonTemplate.Number

-- digits * 10 ^ exponent
structure Decimal where
  digits : Nat
  exponent : Int
deriving DecidableEq, Repr

-- Which of two equally close decimals is taken.
inductive Tie where
  | up
  | toEven
deriving DecidableEq, Repr

namespace Shortest

-- The number of decimal digits, one for zero.
def decimalLength (n : Nat) : Nat := (Nat.toDigits 10 n).length

-- Compares a * 10 ^ i with n * 2 ^ j.
def compareScaled (a : Nat) (i : Int) (n : Nat) (j : Int) : Ordering :=
  compare (a * tenPow i.toNat * twoPow (-j).toNat) (n * twoPow j.toNat * tenPow (-i).toNat)

-- The gap below a power of two is half the gap above it, except among the smallest doubles.
def narrowBelow (m : Nat) (q : Int) : Bool := m == twoPow 52 && q != -1074

-- Whether the decimal lies among the reals that round to m * 2 ^ q. The ends belong to the interval
-- when m is even.
def readsBack (m : Nat) (q : Int) (d : Decimal) : Bool :=
  let low := if narrowBelow m q then 4 * m - 1 else 4 * m - 2
  let high := 4 * m + 2
  let below := compareScaled d.digits d.exponent low (q - 2)
  let above := compareScaled d.digits d.exponent high (q - 2)
  (below == .gt || (m % 2 == 0 && below == .eq)) && (above == .lt || (m % 2 == 0 && above == .eq))

-- The least k with m * 2 ^ q < 10 ^ k, for a positive m. Below one it is found from the quotient
-- that the value divides.
def scale (m : Nat) (q : Int) : Int :=
  let num := m * twoPow q.toNat
  let den := twoPow (-q).toNat
  if den ≤ num then decimalLength (num / den)
  else 1 - (decimalLength ((den + num - 1) / num - 1) : Int)

-- The largest multiple of 10 ^ exponent that is at most m * 2 ^ q.
def floorAt (m : Nat) (q exponent : Int) : Nat :=
  (m * twoPow q.toNat * tenPow (-exponent).toNat) / (twoPow (-q).toNat * tenPow exponent.toNat)

-- Of the value's two neighbours on a decimal grid the one that reads back, of two the closer.
def onGrid? (tie : Tie) (m : Nat) (q exponent : Int) : Option Decimal :=
  let floor := floorAt m q exponent
  let below : Decimal := ⟨floor, exponent⟩
  let above : Decimal := ⟨floor + 1, exponent⟩
  match readsBack m q below, readsBack m q above with
  | true, false => some below
  | false, true => some above
  | false, false => none
  | true, true =>
      match compareScaled (2 * floor + 1) exponent (2 * m) q with
      | .gt => some below
      | .lt => some above
      | .eq => if tie = .toEven ∧ floor % 2 = 0 then some below else some above

-- Grids from coarse to fine, at most this many.
def search (tie : Tie) (m : Nat) (q : Int) : Nat → Int → Option Decimal
  | 0, _ => none
  | grids + 1, exponent =>
      match onGrid? tie m q exponent with
      | some d => some d
      | none => search tie m q grids (exponent - 1)

-- The exact value, for any number of digits.
def exact (m : Nat) (q : Int) : Decimal :=
  if 0 ≤ q then ⟨m * twoPow q.toNat, 0⟩ else ⟨m * fivePow (-q).toNat, q⟩

-- The fewest digits that read back as the double m * 2 ^ q, and of those the nearest to it. There
-- may be zeros at the end. Seventeen digits are enough for every double.
def decimal (tie : Tie) (m : Nat) (q : Int) : Decimal :=
  (search tie m q 17 (scale m q - 1)).getD (exact m q)

end Shortest

end JsonTemplate.Number
