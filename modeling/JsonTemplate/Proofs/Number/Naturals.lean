import JsonTemplate.Proofs.Number.Integers

namespace JsonTemplate.Number.Binary64

variable {m n : Nat} {q : Int} {x : Float} {negative : Bool}

-- The exact value of a finite double.
def HasValue (x : Float) (v : ℚ) : Prop :=
  ∃ negative m q, parts x = .finite negative m q ∧ v = (if negative then -1 else 1) * (m * 2 ^ q)

theorem HasValue.unique {v w : ℚ} (hv : HasValue x v) (hw : HasValue x w) : v = w := by
  obtain ⟨negative, m, q, hparts, rfl⟩ := hv
  obtain ⟨_, _, _, hparts', rfl⟩ := hw
  rw [hparts] at hparts'
  cases hparts'
  rfl

theorem hasValue_of_parts (h : parts x = .finite false m q) : HasValue x (m * 2 ^ q) :=
  ⟨false, m, q, h, by rw [if_neg Bool.false_ne_true, one_mul]⟩

theorem wholeOf?_eq_some_iff : wholeOf? m q = some n ↔ (n : ℚ) = m * 2 ^ q := by
  refine ⟨value_wholeOf?, fun h => ?_⟩
  by_cases hq : 0 ≤ q
  · obtain ⟨k, rfl⟩ := Int.eq_ofNat_of_zero_le hq
    rw [zpow_natCast] at h
    have hn : n = m * 2 ^ k := by exact_mod_cast h
    rw [wholeOf?, if_pos hq, Int.toNat_natCast, hn]
    rfl
  · obtain ⟨k, hk⟩ := Int.eq_ofNat_of_zero_le (Int.neg_nonneg.mpr (Int.le_of_not_le hq))
    obtain rfl : q = -k := by omega
    have hm : m = n * 2 ^ k := by
      rw [zpow_neg, zpow_natCast, ← div_eq_mul_inv, eq_div_iff (by positivity)] at h
      exact_mod_cast h.symm
    rw [wholeOf?, if_neg hq, neg_neg, Int.toNat_natCast, hm]
    change (if n * 2 ^ k % 2 ^ k = 0 then some (n * 2 ^ k / 2 ^ k) else none) = some n
    rw [if_pos (Nat.mul_mod_left ..), Nat.mul_div_cancel _ (by positivity)]

-- The integers among the doubles are read exactly.
theorem integer?_eq_some_iff {k : Int} : integer? x = some k ↔ HasValue x k := by
  constructor
  · intro h
    obtain ⟨negative, m, q, n, hparts, hwhole, rfl⟩ := exists_of_integer? h
    refine ⟨negative, m, q, hparts, ?_⟩
    rw [← value_wholeOf? hwhole]
    cases negative <;> simp
  · rintro ⟨negative, m, q, hparts, hvalue⟩
    have hsize : (0 : ℚ) ≤ m * 2 ^ q := by positivity
    have hwhole : wholeOf? m q = some k.natAbs := by
      rw [wholeOf?_eq_some_iff, Nat.cast_natAbs, Int.cast_abs, hvalue]
      cases negative <;> simp [abs_of_nonneg hsize]
    rw [integer?, hparts]
    simp only [hwhole]
    change some (if negative then -(k.natAbs : Int) else k.natAbs) = some k
    refine congrArg some ?_
    cases negative with
    | false =>
        rw [if_neg Bool.false_ne_true, one_mul] at hvalue
        have hk : 0 ≤ k := by exact_mod_cast hvalue ▸ hsize
        rw [if_neg Bool.false_ne_true, Int.natAbs_of_nonneg hk]
    | true =>
        rw [if_pos rfl, neg_one_mul] at hvalue
        have hk : k ≤ 0 := by
          have hk : (k : ℚ) ≤ 0 := hvalue ▸ neg_nonpos.mpr hsize
          exact_mod_cast hk
        rw [if_pos rfl, Int.ofNat_natAbs_of_nonpos hk, neg_neg]

theorem natural?_eq_some_iff : natural? x = some n ↔ HasValue x n := by
  rw [← Int.cast_natCast, ← integer?_eq_some_iff, natural?]
  cases integer? x with
  | none => simp
  | some k =>
      simp only [Option.some.injEq]
      split_ifs with hk
      · rw [Option.some.injEq]
        omega
      · refine iff_of_false nofun ?_
        omega

section

variable (h : IsFinite m q)

include h

theorem codeOf_lt : codeOf m q < infinityCode := by
  obtain ⟨hleast, hgreatest, hbounded, -⟩ := h
  change -1074 ≤ q at hleast
  change m < 2 ^ 53 at hbounded
  have hcode : codeOf m q = (q + 1074).toNat * 2 ^ 52 + m := rfl
  have hinfinity : infinityCode = 2047 * 2 ^ 52 := rfl
  omega

theorem toNat_toBits_ofCode (negative : Bool) :
    (ofCode negative (codeOf m q)).toBits.toNat = (if negative then twoPow 63 else 0) + codeOf m q := by
  have hless := codeOf_lt h
  have hinfinity : infinityCode = 2047 * 2 ^ 52 := rfl
  have hsign : twoPow 63 = 2 ^ 63 := rfl
  rw [toBits_ofCode negative hless.le, Nat.min_eq_left hless.le, UInt64.toNat_ofNat', hsign]
  split <;> omega

-- A double that is made from a code has the parts that the code is made of.
theorem parts_ofCode (negative : Bool) : parts (ofCode negative (codeOf m q)) = .finite negative m q := by
  have hless := codeOf_lt h
  have hinfinity : infinityCode = 2047 * 2 ^ 52 := rfl
  have hpower : twoPow 63 = 2 ^ 63 := rfl
  have hmagnitude : (ofCode negative (codeOf m q)).toBits.toNat % twoPow 63 = codeOf m q := by
    rw [toNat_toBits_ofCode h, hpower]
    split <;> omega
  have hsign : decide (twoPow 63 ≤ (ofCode negative (codeOf m q)).toBits.toNat) = negative := by
    rw [toNat_toBits_ofCode h, hpower]
    cases negative with
    | false => exact decide_eq_false (by rw [if_neg Bool.false_ne_true]; omega)
    | true => exact decide_eq_true (by rw [if_pos rfl]; omega)
  obtain ⟨hleast, -, hbounded, hnormal⟩ := h
  change -1074 ≤ q at hleast
  change m < 2 ^ 53 at hbounded
  change q = -1074 ∨ 2 ^ 52 ≤ m at hnormal
  have hcode : codeOf m q = (q + 1074).toNat * 2 ^ 52 + m := rfl
  simp only [parts, hmagnitude, hsign]
  rw [if_neg (Nat.not_lt.mpr hless.le), if_neg hless.ne]
  change (if codeOf m q / 2 ^ 52 = 0 then Parts.finite negative (codeOf m q % 2 ^ 52) (-1074)
    else Parts.finite negative (2 ^ 52 + codeOf m q % 2 ^ 52) (((codeOf m q / 2 ^ 52 : Nat) : Int) - 1 + -1074)) = _
  split_ifs with hfield
  · have hsmall : codeOf m q % 2 ^ 52 = m ∧ q = -1074 := by omega
    rw [hsmall.1, hsmall.2]
  · have hlarge : 2 ^ 52 + codeOf m q % 2 ^ 52 = m ∧ ((codeOf m q / 2 ^ 52 : Nat) : Int) - 1 + -1074 = q := by
      omega
    rw [hlarge.1, hlarge.2]

end

-- The bits of a small number are shifted to the top of the significand.
theorem isFinite_shifted (hn : 0 < n) (hlog : n.log2 < 53) : IsFinite (n * 2 ^ (52 - n.log2)) (n.log2 - 52) := by
  have hlow : 2 ^ n.log2 * 2 ^ (52 - n.log2) ≤ n * 2 ^ (52 - n.log2) :=
    Nat.mul_le_mul_right _ (Nat.log2_self_le hn.ne')
  have hhigh : n * 2 ^ (52 - n.log2) < 2 ^ (n.log2 + 1) * 2 ^ (52 - n.log2) :=
    Nat.mul_lt_mul_of_pos_right Nat.lt_log2_self (by positivity)
  rw [← pow_add] at hlow hhigh
  have hbottom : n.log2 + (52 - n.log2) = 52 := by omega
  have htop : n.log2 + 1 + (52 - n.log2) = 53 := by omega
  rw [hbottom] at hlow
  rw [htop] at hhigh
  refine ⟨?_, ?_, hhigh, .inr hlow⟩
  · change (-1074 : Int) ≤ _
    omega
  · omega

-- Counts are doubles up to this size.
theorem hasValue_ofInt (h : n < twoPow 53) : HasValue (ofInt n) n := by
  rcases Nat.eq_zero_or_pos n with rfl | hn
  · exact ⟨false, 0, leastExponent, by decide, by simp⟩
  · have hlog : n.log2 < 53 := (Nat.log2_lt hn.ne').mpr h
    have hfinite := isFinite_shifted hn hlog
    have hvalue : ((n * 2 ^ (52 - n.log2) : Nat) : ℚ) * 2 ^ ((n.log2 : Int) - 52) = n := by
      rw [Nat.cast_mul, Nat.cast_pow, Nat.cast_ofNat, ← zpow_natCast, mul_assoc, ← zpow_add₀ two_ne_zero]
      have hexponent : ((52 - n.log2 : Nat) : Int) + ((n.log2 : Int) - 52) = 0 := by omega
      rw [hexponent, zpow_zero, mul_one]
    have hm : 0 < n * 2 ^ (52 - n.log2) := by positivity
    have hround : Rounds (n * 2 ^ (52 - n.log2)) (n.log2 - 52) ((n : ℚ) / (1 : Nat)) := by
      rw [Nat.cast_one, div_one, ← hvalue]
      exact Shortest.rounds_exact hm
    have hsign : decide ((n : Int) < 0) = false := decide_eq_false (Int.not_lt.mpr (Int.natCast_nonneg n))
    rw [← hvalue, ofInt, hsign, Int.natAbs_natCast, nearest_eq hfinite hm hn Nat.one_pos hround]
    exact hasValue_of_parts (parts_ofCode hfinite false)

end JsonTemplate.Number.Binary64
