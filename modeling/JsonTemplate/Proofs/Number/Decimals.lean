import JsonTemplate.Proofs.Number.Nearest

namespace JsonTemplate.Number

theorem tenPow_cast (n : Nat) : ((tenPow n : Nat) : ℚ) = 10 ^ n := by
  change ((10 ^ n : Nat) : ℚ) = 10 ^ n
  push_cast
  rfl

-- What a decimal stands for.
def Decimal.value (d : Decimal) : ℚ := d.digits * 10 ^ d.exponent

namespace Binary64

variable {m : Nat} {q : Int} {v : ℚ}

-- All that rounds to a positive finite double lies in the range of doubles.
theorem Rounds.bounds (h : Rounds m q v) (hfinite : IsFinite m q) (hm : 0 < m) :
    (2 : ℚ) ^ (-1075 : Int) ≤ v ∧ v < 2 ^ (1024 : Int) := by
  have hunit : (0 : ℚ) < 2 ^ (q - 2) := zpow_pos two_pos _
  have hleast := hfinite.least
  have hgreatest := hfinite.greatest
  rw [leastExponent] at hleast
  have hone : (1 : ℚ) ≤ m := by exact_mod_cast hm
  have hbounded : (m : ℚ) + 1 ≤ 2 ^ 53 := by exact_mod_cast Nat.succ_le_of_lt hfinite.bounded
  constructor
  · calc (2 : ℚ) ^ (-1075 : Int) ≤ 2 ^ (1 + (q - 2)) := zpow_le_zpow_right₀ one_le_two (by omega)
      _ = 2 * 2 ^ (q - 2) := by rw [zpow_add₀ two_ne_zero, zpow_one]
      _ ≤ v := (le_div_iff₀ hunit).mp ((by linarith : (2 : ℚ) ≤ 4 * m - 2).trans (h.of_low hm).1)
  · calc v ≤ (4 * m + 2) * 2 ^ (q - 2) := (div_le_iff₀ hunit).mp h.high
      _ < 2 ^ (55 : Int) * 2 ^ (q - 2) := by
        gcongr
        norm_num at hbounded ⊢
        linarith
      _ = 2 ^ (55 + (q - 2)) := (zpow_add₀ two_ne_zero _ _).symm
      _ ≤ 2 ^ (1024 : Int) := zpow_le_zpow_right₀ one_le_two (by omega)

theorem two_zpow_lt_ten_zpow :
    (2 : ℚ) ^ (1024 : Int) < 10 ^ (400 : Int) ∧ (10 : ℚ) ^ (-400 : Int) < 2 ^ (-1075 : Int) := by
  have h : (2 : ℚ) ^ 1075 < 10 ^ 400 := by
    have : 2 ^ 1075 < 10 ^ 400 := by decide +kernel
    exact_mod_cast this
  constructor
  · calc (2 : ℚ) ^ (1024 : Int) ≤ 2 ^ (1075 : Int) := zpow_le_zpow_right₀ one_le_two (by decide)
      _ < 10 ^ (400 : Int) := by exact_mod_cast h
  · rw [zpow_neg, zpow_neg]
    refine inv_strictAnti₀ (by positivity) ?_
    exact_mod_cast h

theorem le_ten_zpow (n : Nat) : (n : ℚ) ≤ 10 ^ ((n.log2 : Int) + 1) := by
  have hlog : n < 2 ^ (n.log2 + 1) := Nat.lt_log2_self
  have hbase : 2 ^ (n.log2 + 1) ≤ 10 ^ (n.log2 + 1) := Nat.pow_le_pow_left (by decide) _
  rw [← Nat.cast_one, ← Nat.cast_add, zpow_natCast]
  exact_mod_cast hlog.le.trans hbase

-- Zero does not round to a positive double.
theorem Rounds.digits_pos {d : Decimal} (h : Rounds m q d.value) (hm : 0 < m) : 0 < d.digits := by
  have hpos := h.pos hm
  rw [Nat.pos_iff_ne_zero]
  intro hzero
  rw [Decimal.value, hzero, Nat.cast_zero, zero_mul] at hpos
  exact hpos.false

section

variable {digits : Nat} {exponent : Int}

-- Decimals of such exponents lie outside the range of doubles.
theorem two_zpow_lt_decimal (hdigits : 0 < digits) (h : 400 < exponent) :
    (2 : ℚ) ^ (1024 : Int) < digits * 10 ^ exponent := by
  have hpower : (0 : ℚ) < 10 ^ exponent := zpow_pos (by norm_num) _
  have hone : (1 : ℚ) ≤ digits := by exact_mod_cast hdigits
  calc (2 : ℚ) ^ (1024 : Int) < 10 ^ (400 : Int) := two_zpow_lt_ten_zpow.1
    _ ≤ 10 ^ exponent := zpow_le_zpow_right₀ (by norm_num) h.le
    _ ≤ digits * 10 ^ exponent := le_mul_of_one_le_left hpower.le hone

theorem decimal_lt_two_zpow (h : exponent + digits.log2 < -400) :
    (digits : ℚ) * 10 ^ exponent < 2 ^ (-1075 : Int) := by
  have hpower : (0 : ℚ) < 10 ^ exponent := zpow_pos (by norm_num) _
  calc (digits : ℚ) * 10 ^ exponent ≤ 10 ^ ((digits.log2 : Int) + 1) * 10 ^ exponent :=
        mul_le_mul_of_nonneg_right (le_ten_zpow digits) hpower.le
    _ = 10 ^ ((digits.log2 : Int) + 1 + exponent) := (zpow_add₀ (by norm_num) _ _).symm
    _ ≤ 10 ^ (-400 : Int) := zpow_le_zpow_right₀ (by norm_num) (by omega)
    _ < 2 ^ (-1075 : Int) := two_zpow_lt_ten_zpow.2

theorem decimal_eq_div (digits : Nat) (exponent : Int) : (digits : ℚ) * 10 ^ exponent =
    ((digits * tenPow exponent.toNat : Nat) : ℚ) / (tenPow (-exponent).toNat : Nat) := by
  rw [zpow_eq_div (by norm_num), Nat.cast_mul, tenPow_cast, tenPow_cast, mul_div_assoc]

theorem ofDecimal_eq (hfinite : IsFinite m q) (hm : 0 < m) (h : Rounds m q (digits * 10 ^ exponent))
    (negative : Bool) : ofDecimal negative digits exponent = ofCode negative (codeOf m q) := by
  obtain ⟨hlow, hhigh⟩ := h.bounds hfinite hm
  have hdigits : 0 < digits := Rounds.digits_pos (d := ⟨digits, exponent⟩) h hm
  have hlarge : ¬400 < exponent := fun hlt => absurd hhigh (not_lt.mpr (two_zpow_lt_decimal hdigits hlt).le)
  have hsmall : ¬exponent + digits.log2 < -400 := fun hlt => absurd hlow (not_le.mpr (decimal_lt_two_zpow hlt))
  rw [decimal_eq_div] at h
  rw [ofDecimal, if_neg hdigits.ne', if_neg hlarge, if_neg hsmall]
  exact nearest_eq hfinite hm (Nat.mul_pos hdigits (Nat.pow_pos (by decide))) (Nat.pow_pos (by decide)) h negative

end

theorem two_zpow_quarters (q : Int) : (2 : ℚ) ^ q = 4 * 2 ^ (q - 2) := by
  rw [zpow_sub₀ two_ne_zero]
  field_simp
  norm_num

theorem div_quarters (v : ℚ) (q : Int) : v / 2 ^ (q - 2) = 4 * (v / 2 ^ q) := by
  rw [two_zpow_quarters q]
  field_simp

theorem lowEnd_lt (hm : 0 < m) : (lowEnd m q : ℚ) < 4 * m := by
  rw [lowEnd_cast hm]
  split <;> linarith

end Binary64

namespace Shortest

open Binary64

section

variable (a n : Nat) (i j : Int)

-- Both sides of a comparison are taken by the same factor.
theorem exists_compareScaled : ∃ factor : ℚ, 0 < factor ∧
    ((a * tenPow i.toNat * twoPow (-j).toNat : Nat) : ℚ) = a * 10 ^ i * factor ∧
    ((n * twoPow j.toNat * tenPow (-i).toNat : Nat) : ℚ) = n * 2 ^ j * factor := by
  refine ⟨10 ^ (-i).toNat * 2 ^ (-j).toNat, by positivity, ?_, ?_⟩
  · rw [zpow_eq_div (by norm_num : (10 : ℚ) ≠ 0) i]
    push_cast [tenPow_cast, twoPow_cast]
    field_simp
  · rw [zpow_eq_div two_ne_zero j]
    push_cast [tenPow_cast, twoPow_cast]
    field_simp

variable {a n i j}

theorem compareScaled_eq_lt : compareScaled a i n j = .lt ↔ (a : ℚ) * 10 ^ i < n * 2 ^ j := by
  obtain ⟨factor, hpos, ha, hn⟩ := exists_compareScaled a n i j
  rw [compareScaled, Nat.compare_eq_lt, ← @Nat.cast_lt ℚ, ha, hn, mul_lt_mul_iff_left₀ hpos]

theorem compareScaled_eq_gt : compareScaled a i n j = .gt ↔ (n : ℚ) * 2 ^ j < a * 10 ^ i := by
  obtain ⟨factor, hpos, ha, hn⟩ := exists_compareScaled a n i j
  rw [compareScaled, Nat.compare_eq_gt, ← @Nat.cast_lt ℚ, ha, hn, mul_lt_mul_iff_left₀ hpos]

theorem compareScaled_eq_eq : compareScaled a i n j = .eq ↔ (a : ℚ) * 10 ^ i = n * 2 ^ j := by
  obtain ⟨factor, hpos, ha, hn⟩ := exists_compareScaled a n i j
  rw [compareScaled, Nat.compare_eq_eq, ← @Nat.cast_inj ℚ, ha, hn, mul_left_inj' hpos.ne']

end

variable {m : Nat} {q : Int}

-- A decimal reads back just if it rounds to the double.
theorem readsBack_iff {d : Decimal} : readsBack m q d = true ↔ Rounds m q d.value := by
  have hunit : (0 : ℚ) < 2 ^ (q - 2) := zpow_pos two_pos _
  have hform : readsBack m q d = true ↔
      ((lowEnd m q : ℚ) < d.value / 2 ^ (q - 2) ∨ m % 2 = 0 ∧ d.value / 2 ^ (q - 2) = lowEnd m q) ∧
        (d.value / 2 ^ (q - 2) < (4 * m + 2 : Nat) ∨ m % 2 = 0 ∧ d.value / 2 ^ (q - 2) = (4 * m + 2 : Nat)) := by
    rw [lt_div_iff₀ hunit, div_eq_iff hunit.ne', div_lt_iff₀ hunit, div_eq_iff hunit.ne']
    simp only [readsBack, Bool.and_eq_true, Bool.or_eq_true, beq_iff_eq]
    change (compareScaled _ _ (lowEnd m q) _ = _ ∨ _ ∧ compareScaled _ _ (lowEnd m q) _ = _) ∧ _ ↔ _
    rw [compareScaled_eq_gt, compareScaled_eq_eq, compareScaled_eq_lt, compareScaled_eq_eq]
    rfl
  rw [hform]
  push_cast
  constructor
  · rintro ⟨hlow, hhigh⟩
    refine ⟨?_, ?_, ?_⟩
    · exact hlow.elim le_of_lt fun h => h.2.ge
    · exact hhigh.elim le_of_lt fun h => h.2.le
    · rintro (heq | heq)
      · exact (hlow.resolve_left fun hlt => hlt.ne' heq).1
      · exact (hhigh.resolve_left fun hlt => hlt.ne heq).1
  · rintro ⟨hlow, hhigh, htie⟩
    constructor
    · exact hlow.lt_or_eq.imp_right fun heq => ⟨htie (.inl heq.symm), heq.symm⟩
    · exact hhigh.lt_or_eq.imp_right fun heq => ⟨htie (.inr heq), heq⟩

-- A decimal that is found on a grid is one of the value's neighbours there, and reads back.
theorem of_onGrid? {tie : Tie} {exponent : Int} {d : Decimal} (h : onGrid? tie m q exponent = some d) :
    (d = ⟨floorAt m q exponent, exponent⟩ ∨ d = ⟨floorAt m q exponent + 1, exponent⟩) ∧ readsBack m q d = true := by
  rw [onGrid?] at h
  split at h
  · rename_i hbelow _
    cases h
    exact ⟨.inl rfl, hbelow⟩
  · rename_i _ habove
    cases h
    exact ⟨.inr rfl, habove⟩
  · cases h
  · rename_i hbelow habove
    split at h
    · cases h
      exact ⟨.inl rfl, hbelow⟩
    · cases h
      exact ⟨.inr rfl, habove⟩
    · split at h
      · cases h
        exact ⟨.inl rfl, hbelow⟩
      · cases h
        exact ⟨.inr rfl, habove⟩

theorem readsBack_of_search {tie : Tie} {grids : Nat} {exponent : Int} {d : Decimal}
    (h : search tie m q grids exponent = some d) : readsBack m q d = true := by
  induction grids generalizing exponent with
  | zero => cases h
  | succ grids ih =>
      rw [search] at h
      split at h
      · rename_i hgrid
        cases h
        exact (of_onGrid? hgrid).2
      · exact ih h

theorem value_exact (m : Nat) (q : Int) : (exact m q).value = m * 2 ^ q := by
  rw [exact]
  split_ifs with h
  · obtain ⟨n, rfl⟩ := Int.eq_ofNat_of_zero_le h
    change ((m * twoPow n : Nat) : ℚ) * 10 ^ (0 : Int) = m * 2 ^ (n : Int)
    push_cast [twoPow_cast]
    rw [mul_one, zpow_natCast]
  · obtain ⟨n, hn⟩ := Int.eq_ofNat_of_zero_le (Int.neg_nonneg.mpr (le_of_not_ge h))
    obtain rfl : q = -n := by omega
    have hten : (10 : ℚ) ^ n = 5 ^ n * 2 ^ n := by rw [← mul_pow]; norm_num
    change ((m * 5 ^ (- -(n : Int)).toNat : Nat) : ℚ) * 10 ^ (-(n : Int)) = m * 2 ^ (-(n : Int))
    rw [neg_neg, Int.toNat_natCast, zpow_neg, zpow_neg, zpow_natCast, zpow_natCast, hten]
    push_cast
    field_simp

theorem rounds_exact (hm : 0 < m) : Rounds m q ((m : ℚ) * 2 ^ q) := by
  have hquarters : (m : ℚ) * 2 ^ q / 2 ^ (q - 2) = 4 * m := by
    rw [div_quarters, mul_div_cancel_right₀ _ (zpow_ne_zero q two_ne_zero)]
  have hlow := lowEnd_lt (q := q) hm
  refine ⟨?_, ?_, ?_⟩ <;> rw [hquarters]
  · exact hlow.le
  · linarith
  · rintro (heq | heq)
    · exact absurd heq hlow.ne'
    · linarith

-- The decimal that is written for a double rounds to it.
theorem rounds_decimal (tie : Tie) (hm : 0 < m) : Rounds m q (decimal tie m q).value := by
  rw [decimal]
  cases hsearch : search tie m q 17 (scale m q - 1) with
  | some d => exact readsBack_iff.mp (readsBack_of_search hsearch)
  | none =>
      rw [Option.getD_none, value_exact]
      exact rounds_exact hm

theorem decimal_digits_pos (tie : Tie) (hm : 0 < m) : 0 < (decimal tie m q).digits :=
  (rounds_decimal tie hm).digits_pos hm

end Shortest

end JsonTemplate.Number
