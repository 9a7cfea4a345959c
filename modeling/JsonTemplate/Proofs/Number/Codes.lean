import JsonTemplate.Number.Binary64
import Mathlib

namespace JsonTemplate.Number.Binary64

open Float.Model (Format)
open Float.Model.UnpackedFloat

-- The bits of a double by its fields.
def bits (sign : Sign) (exponent : BitVec 11) (fraction : BitVec 52) : BitVec 64 :=
  packComponents Format.binary64 sign exponent fraction

section

variable (sign : Sign) (exponent : BitVec 11) (fraction : BitVec 52)

theorem toNat_bits :
    (bits sign exponent fraction).toNat =
      sign.toBitVec.toNat * 2 ^ 63 + exponent.toNat * 2 ^ 52 + fraction.toNat := by
  simp only [bits, packComponents, BitVec.toNat_append]
  rw [← Nat.shiftLeft_add_eq_or_of_lt exponent.isLt, ← Nat.shiftLeft_add_eq_or_of_lt fraction.isLt]
  simp only [Nat.shiftLeft_eq]
  omega

-- With the other sign, bits stand for the negated double.
theorem unpack_bits_neg : unpack Format.binary64 (bits (-sign) exponent fraction) =
    (unpack Format.binary64 (bits sign exponent fraction)).neg := by
  unfold unpack
  simp only [bits, unpackSign_packComponents, unpackExponent_packComponents, unpackMantissa_packComponents,
    Sign.ofBitVec_toBitVec]
  split_ifs <;> rfl

theorem pack_unpack_bits (h : exponent = -1#11 → fraction = 0#52) :
    (unpack Format.binary64 (bits sign exponent fraction)).pack Format.binary64 = bits sign exponent fraction := by
  have hnumber : @isNaNBits Format.binary64 (bits sign exponent fraction) = false := by
    rw [isNaNBits, bits, unpackExponent_packComponents, unpackMantissa_packComponents]
    exact decide_eq_false fun hnan => hnan.2 (h hnan.1)
  rw [pack_unpack, if_neg (Bool.eq_false_iff.mp hnumber)]

end

def signOf (negative : Bool) : Sign := if negative then .negative else .positive

section

variable {code : Nat} (negative : Bool)

theorem toBitVec_code (h : code ≤ infinityCode) :
    (UInt64.ofNat ((if negative then twoPow 63 else 0) + min code infinityCode)).toBitVec =
      bits (signOf negative) (BitVec.ofNat 11 (code / twoPow 52)) (BitVec.ofNat 52 (code % twoPow 52)) := by
  refine BitVec.eq_of_toNat_eq ?_
  rw [toNat_bits, Nat.min_eq_left h]
  change _ % 2 ^ 64 = _
  rw [BitVec.toNat_ofNat, BitVec.toNat_ofNat]
  change code ≤ 2047 * 2 ^ 52 at h
  change ((if negative then 2 ^ 63 else 0) + code) % 2 ^ 64 =
    _ + code / 2 ^ 52 % 2 ^ 11 * 2 ^ 52 + code % 2 ^ 52 % 2 ^ 52
  cases negative with
  | false =>
      change (0 + code) % 2 ^ 64 = 0 * 2 ^ 63 + _ + _
      omega
  | true =>
      change (2 ^ 63 + code) % 2 ^ 64 = 1 * 2 ^ 63 + _ + _
      omega

theorem fraction_of_code (h : code ≤ infinityCode) (hexponent : BitVec.ofNat 11 (code / twoPow 52) = -1#11) :
    BitVec.ofNat 52 (code % twoPow 52) = 0#52 := by
  have hfield := congrArg BitVec.toNat hexponent
  rw [BitVec.toNat_ofNat] at hfield
  change code / 2 ^ 52 % 2 ^ 11 = 2047 at hfield
  change code ≤ 2047 * 2 ^ 52 at h
  refine BitVec.eq_of_toNat_eq ?_
  rw [BitVec.toNat_ofNat]
  change code % 2 ^ 52 % 2 ^ 52 = 0
  omega

theorem toBits_ofCode (h : code ≤ infinityCode) :
    (ofCode negative code).toBits =
      UInt64.ofNat ((if negative then twoPow 63 else 0) + min code infinityCode) := by
  refine UInt64.toBitVec_inj.mp ?_
  change (unpack Format.binary64 (UInt64.ofNat _).toBitVec).pack Format.binary64 = _
  rw [toBitVec_code negative h]
  exact pack_unpack_bits _ _ _ (fraction_of_code h)

theorem ofCode_min (code : Nat) : ofCode negative (min code infinityCode) = ofCode negative code := by
  rw [ofCode, ofCode, Nat.min_assoc, Nat.min_self]

end

-- Negation changes the sign alone.
theorem neg_ofCode (code : Nat) : -ofCode false code = ofCode true code := by
  have h : min code infinityCode ≤ infinityCode := Nat.min_le_right ..
  rw [← ofCode_min false, ← ofCode_min true]
  refine Float.toBits_inj.mp (UInt64.toBitVec_inj.mp ?_)
  change (unpack Format.binary64
    (ofCode false (min code infinityCode)).toBits.toBitVec).neg.pack Format.binary64 = _
  rw [toBits_ofCode false h, toBits_ofCode true h, toBitVec_code false h, toBitVec_code true h]
  refine (congrArg (pack Format.binary64) (unpack_bits_neg _ _ _)).symm.trans ?_
  exact pack_unpack_bits _ _ _ (fraction_of_code h)

theorem neg_nearest (num den : Nat) : -nearest false num den = nearest true num den := by
  rw [nearest, nearest]
  split <;> exact neg_ofCode _

-- The significand and the exponent of a finite double.
structure IsFinite (m : Nat) (q : Int) : Prop where
  least : leastExponent ≤ q
  greatest : q ≤ 971
  bounded : m < twoPow 53
  normal : q = leastExponent ∨ twoPow 52 ≤ m

-- The code of m * 2 ^ q.
def codeOf (m : Nat) (q : Int) : Nat := (q - leastExponent).toNat * twoPow 52 + m

-- A double that is not NaN by its sign and the rest of its bits.
theorem eq_ofCode_of_le {x : Float} (h : x.toBits.toNat % 2 ^ 63 ≤ infinityCode) :
    x = ofCode (isNegative x) (x.toBits.toNat % 2 ^ 63) := by
  have hbits : (if isNegative x then twoPow 63 else 0) + x.toBits.toNat % 2 ^ 63 = x.toBits.toNat := by
    have hsize := x.toBits.toNat_lt
    have hsign : isNegative x = true ↔ 2 ^ 63 ≤ x.toBits.toNat := decide_eq_true_iff
    change (if isNegative x then 2 ^ 63 else 0) + _ = _
    split
    · rename_i hnegative
      have := hsign.mp hnegative
      omega
    · rename_i hnegative
      have := mt hsign.mpr hnegative
      omega
  rw [ofCode, Nat.min_eq_left h, hbits, UInt64.ofNat_toNat, Float.ofBits_toBits]

-- A finite double is the one that its parts stand for.
theorem eq_ofCode_of_parts {x : Float} {negative : Bool} {m : Nat} {q : Int}
    (h : parts x = .finite negative m q) : IsFinite m q ∧ x = ofCode negative (codeOf m q) := by
  simp only [parts] at h
  change (if 2047 * 2 ^ 52 < x.toBits.toNat % 2 ^ 63 then Parts.nan
    else if x.toBits.toNat % 2 ^ 63 = 2047 * 2 ^ 52 then _
    else if x.toBits.toNat % 2 ^ 63 / 2 ^ 52 = 0 then Parts.finite _ (x.toBits.toNat % 2 ^ 63 % 2 ^ 52) _
    else Parts.finite _ (2 ^ 52 + x.toBits.toNat % 2 ^ 63 % 2 ^ 52)
      (((x.toBits.toNat % 2 ^ 63 / 2 ^ 52 : Nat) : Int) - 1 + -1074)) = _ at h
  split_ifs at h with hnan hinfinite hfield <;> cases h <;> have hx := eq_ofCode_of_le (Nat.not_lt.mp hnan)
  · have hcode : codeOf (x.toBits.toNat % 2 ^ 63 % 2 ^ 52) leastExponent = x.toBits.toNat % 2 ^ 63 := by
      rw [codeOf, Int.sub_self, Int.toNat_zero, Nat.zero_mul]
      omega
    rw [hcode]
    refine ⟨⟨Int.le_refl _, by decide, ?_, .inl rfl⟩, hx⟩
    change _ < 2 ^ 53
    omega
  · have hcode : codeOf (2 ^ 52 + x.toBits.toNat % 2 ^ 63 % 2 ^ 52)
        (((x.toBits.toNat % 2 ^ 63 / 2 ^ 52 : Nat) : Int) - 1 + -1074) = x.toBits.toNat % 2 ^ 63 := by
      rw [codeOf, leastExponent]
      change (_ : Int).toNat * 2 ^ 52 + _ = _
      omega
    rw [hcode]
    refine ⟨⟨?_, ?_, ?_, .inr (Nat.le_add_right ..)⟩, hx⟩
    · rw [leastExponent]
      omega
    · omega
    · change _ < 2 ^ 53
      omega

-- There is one double that is not a number.
theorem eq_nan_of_parts {x : Float} (h : parts x = .nan) : x = nan := by
  have hcode : 2047 * 2 ^ 52 < x.toBits.toNat % 2 ^ 63 := by
    simp only [parts] at h
    split_ifs at h with hnan
    exact hnan
  have hsize := x.toBits.toNat_lt
  have hexponent : @unpackExponent Format.binary64 x.toBits.toBitVec = -1#11 := by
    refine BitVec.eq_of_toNat_eq ?_
    simp only [unpackExponent, BitVec.toNat_cast, BitVec.extractLsb, BitVec.extractLsb'_toNat]
    change x.toBits.toNat >>> 52 % 2 ^ 11 = 2047
    rw [Nat.shiftRight_eq_div_pow]
    omega
  have hmantissa : @unpackMantissa Format.binary64 x.toBits.toBitVec ≠ 0#52 := by
    intro hzero
    have hzero := congrArg BitVec.toNat hzero
    simp only [unpackMantissa, BitVec.toNat_cast, BitVec.extractLsb, BitVec.extractLsb'_toNat] at hzero
    change x.toBits.toNat >>> 0 % 2 ^ 52 = 0 at hzero
    rw [Nat.shiftRight_zero] at hzero
    omega
  exact Float.toBits_inj.mp (UInt64.toBitVec_inj.mp (x.toModel.valid.eq_packedNaN hexponent hmantissa))

theorem eq_infinity_of_parts {x : Float} {negative : Bool} (h : parts x = .infinite negative) :
    x = infinity negative := by
  simp only [parts] at h
  change (if infinityCode < x.toBits.toNat % 2 ^ 63 then Parts.nan
    else if x.toBits.toNat % 2 ^ 63 = infinityCode then .infinite (isNegative x) else _) = _ at h
  split_ifs at h with hnan hinfinity
  · cases h
    have hx := eq_ofCode_of_le hinfinity.le
    rwa [hinfinity] at hx

end JsonTemplate.Number.Binary64
