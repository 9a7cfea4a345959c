import JsonTemplate.Proofs.Number.Naturals

namespace JsonTemplate.Number.Binary64

variable {m m' num den code : Nat} {q q' : Int} {v : ℚ} {negative : Bool}

-- What a double counts as when numbers are rounded to it. Infinity counts as the power of two that would be the
-- next double.
inductive Counts (x : Float) : ℚ → Prop
  | finite {negative : Bool} {m : Nat} {q : Int} (h : parts x = .finite negative m q) :
      Counts x ((if negative then -1 else 1) * (m * 2 ^ q))
  | infinite {negative : Bool} (h : parts x = .infinite negative) :
      Counts x ((if negative then -1 else 1) * 2 ^ (1024 : Int))

-- No double is closer to the number. If another one is equally close, the last bit is zero.
def IsNearest (x : Float) (v : ℚ) : Prop :=
  ∃ w, Counts x w ∧ ∀ y u, Counts y u →
    |v - w| ≤ |v - u| ∧ (|v - w| = |v - u| → u = w ∨ x.toBits.toNat % 2 = 0)

-- What a non-negative number rounds to, as a code without the sign.
inductive RoundsTo (v : ℚ) : Nat → Prop
  | zero (h : v ≤ 2 ^ (-1075 : Int)) : RoundsTo v 0
  | finite {m : Nat} {q : Int} (hfinite : IsFinite m q) (hm : 0 < m) (h : Rounds m q v) : RoundsTo v (codeOf m q)
  | infinite (h : (2 ^ 54 - 1) * 2 ^ (970 : Int) ≤ v) : RoundsTo v infinityCode

theorem roundQuotient_bounds (num : Nat) (hden : 0 < den) :
    2 * (roundQuotient num den * den) ≤ 2 * num + den ∧ 2 * num ≤ 2 * (roundQuotient num den * den) + den ∧
      (2 * (roundQuotient num den * den) = 2 * num + den ∨ 2 * num = 2 * (roundQuotient num den * den) + den →
        roundQuotient num den % 2 = 0) := by
  have hnum := Nat.div_add_mod num den
  have hrest := Nat.mod_lt num hden
  rw [roundQuotient]
  generalize num / den = floor at hnum ⊢
  generalize num % den = rest at hnum hrest ⊢
  have hfloor : floor * den = den * floor := Nat.mul_comm ..
  have hnext : (floor + 1) * den = den * floor + den := by ring
  split_ifs with hless hmore
  · omega
  · omega
  · rcases Nat.mod_two_eq_zero_or_one floor with heven | hodd
    · rw [heven, Nat.add_zero]
      omega
    · rw [hodd]
      omega

theorem roundQuotient_near (num : Nat) (hden : 0 < den) :
    (roundQuotient num den : ℚ) - 1 / 2 ≤ num / den ∧ (num : ℚ) / den ≤ roundQuotient num den + 1 / 2 ∧
      ((num : ℚ) / den = roundQuotient num den - 1 / 2 ∨ (num : ℚ) / den = roundQuotient num den + 1 / 2 →
        roundQuotient num den % 2 = 0) := by
  have hden' : (0 : ℚ) < den := Nat.cast_pos.mpr hden
  obtain ⟨hlow, hhigh, htie⟩ := roundQuotient_bounds num hden
  generalize roundQuotient num den = r at hlow hhigh htie ⊢
  rw [le_div_iff₀ hden', div_le_iff₀ hden', div_eq_iff hden'.ne', div_eq_iff hden'.ne']
  refine ⟨?_, ?_, fun h => htie (h.imp (fun h => ?_) fun h => ?_)⟩ <;> qify at *
  · linarith
  · linarith
  · linarith
  · linarith

section

variable (hnum : 0 < num) (hden : 0 < den)

include hnum hden

-- The value of a quotient in its last bit.
theorem lastBit_bounds : (num : ℚ) / den / 2 ^ lastBit num den < 2 ^ 53 ∧
    (lastBit num den ≠ leastExponent → (2 : ℚ) ^ 52 ≤ (num : ℚ) / den / 2 ^ lastBit num den) := by
  have hpos : (0 : ℚ) < (num : ℚ) / den := div_pos (Nat.cast_pos.mpr hnum) (Nat.cast_pos.mpr hden)
  have hlast := lastBit_eq hnum hden
  constructor
  · rw [← log_lt_iff hpos]
    push_cast
    omega
  · intro hne
    rw [← le_log_iff hpos]
    push_cast
    omega

-- The significand of a quotient, before it is seen whether it has become too long.
theorem exists_significand : ∃ r, r = roundQuotient (scaleDown num den (lastBit num den)).1
      (scaleDown num den (lastBit num den)).2 ∧ r ≤ 2 ^ 53 ∧ (lastBit num den ≠ leastExponent → 2 ^ 52 ≤ r) ∧
      (r : ℚ) - 1 / 2 ≤ (num : ℚ) / den / 2 ^ lastBit num den ∧
      (num : ℚ) / den / 2 ^ lastBit num den ≤ r + 1 / 2 ∧
      ((num : ℚ) / den / 2 ^ lastBit num den = r - 1 / 2 ∨ (num : ℚ) / den / 2 ^ lastBit num den = r + 1 / 2 →
        r % 2 = 0) := by
  obtain ⟨hless, hlarge⟩ := lastBit_bounds hnum hden
  have hdown : 0 < (scaleDown num den (lastBit num den)).2 := scaleDown_pos hden _
  have hnear := roundQuotient_near (scaleDown num den (lastBit num den)).1 hdown
  rw [scaleDown_eq] at hnear
  obtain ⟨hlow, hhigh, htie⟩ := hnear
  refine ⟨_, rfl, ?_, fun hne => ?_, hlow, hhigh, htie⟩
  · have hcast : (roundQuotient (scaleDown num den (lastBit num den)).1 (scaleDown num den (lastBit num den)).2 : ℚ) <
        (2 ^ 53 + 1 : Nat) := by
      push_cast
      linarith
    exact Nat.lt_succ_iff.mp (by exact_mod_cast hcast)
  · have hcast : ((2 ^ 52 : Nat) : ℚ) <
        (roundQuotient (scaleDown num den (lastBit num den)).1 (scaleDown num den (lastBit num den)).2 + 1 : Nat) := by
      have := hlarge hne
      push_cast
      linarith
    exact Nat.lt_succ_iff.mp (by exact_mod_cast hcast)

end

-- A significand of at most 53 bits is that of the double that the number rounds to.
theorem rounds_of_near {r : Nat} {e : Int} (hr : 0 < r) (hlarge : e ≠ leastExponent → (2 : ℚ) ^ 52 ≤ v / 2 ^ e)
    (hlow : (r : ℚ) - 1 / 2 ≤ v / 2 ^ e) (hhigh : v / 2 ^ e ≤ r + 1 / 2)
    (htie : v / 2 ^ e = r - 1 / 2 ∨ v / 2 ^ e = r + 1 / 2 → r % 2 = 0) : Rounds r e v := by
  have hquarters := div_quarters v e
  have hhalf : (4 : ℚ) * (v / 2 ^ e) = 4 * r + 2 → r % 2 = 0 := fun h => htie (.inr (by linarith))
  by_cases hnarrow : Shortest.narrowBelow r e = true
  · -- The number does not lie below the power of two.
    obtain ⟨rfl, he⟩ := narrowBelow_iff.mp hnarrow
    have := hlarge he
    have hless : (lowEnd (2 ^ 52) e : ℚ) < 4 * (v / 2 ^ e) := by
      rw [lowEnd_cast hr, if_pos hnarrow]
      push_cast
      linarith
    refine ⟨?_, ?_, fun _ => rfl⟩ <;> rw [hquarters]
    · exact hless.le
    · linarith
  · have hend : (lowEnd r e : ℚ) = 4 * r - 2 := by rw [lowEnd_cast hr, if_neg hnarrow]
    refine ⟨?_, ?_, ?_⟩ <;> rw [hquarters]
    · rw [hend]
      linarith
    · linarith
    · rintro (h | h)
      · rw [hend] at h
        exact htie (.inl (by linarith))
      · exact hhalf h

-- A significand that has become too long is that of the next power of two.
theorem rounds_of_overlong {e : Int} (he : leastExponent ≤ e) (hless : v / 2 ^ e < 2 ^ 53)
    (hlow : (2 : ℚ) ^ 53 - 1 / 2 ≤ v / 2 ^ e) : Rounds (2 ^ 52) (e + 1) v := by
  have hnarrow : Shortest.narrowBelow (2 ^ 52) (e + 1) = true := narrowBelow_iff.mpr ⟨rfl, by omega⟩
  have hhalves : v / 2 ^ (e + 1 - 2) = 2 * (v / 2 ^ e) := by
    rw [div_quarters, zpow_add₀ two_ne_zero, zpow_one]
    ring
  refine ⟨?_, ?_, fun _ => rfl⟩ <;> rw [hhalves]
  · rw [lowEnd_cast (by decide), if_pos hnarrow]
    push_cast
    linarith
  · push_cast
    linarith

theorem two_zpow_succ (e : Int) : (2 : ℚ) ^ (e + 1) = 2 * 2 ^ e := by rw [zpow_add_one₀ two_ne_zero, mul_comm]

-- What lies above the greatest double by half of its last bit or more rounds to infinity.
theorem overflows_of_large {e : Int} (he : 971 < e) (h : (2 : ℚ) ^ 52 ≤ v / 2 ^ e) :
    ((2 : ℚ) ^ 54 - 1) * 2 ^ (970 : Int) ≤ v := by
  rw [le_div_iff₀ (zpow_pos two_pos e)] at h
  calc ((2 : ℚ) ^ 54 - 1) * 2 ^ (970 : Int) ≤ 2 ^ 54 * 2 ^ (970 : Int) := by
        gcongr
        norm_num
    _ = 2 ^ 52 * 2 ^ (970 + 1 + 1 : Int) := by
        rw [two_zpow_succ, two_zpow_succ]
        ring
    _ ≤ 2 ^ 52 * 2 ^ e := by
        gcongr
        · exact one_le_two
        · omega
    _ ≤ v := h

theorem overflows_of_overlong (h : (2 : ℚ) ^ 53 - 1 / 2 ≤ v / 2 ^ (971 : Int)) :
    ((2 : ℚ) ^ 54 - 1) * 2 ^ (970 : Int) ≤ v := by
  rw [le_div_iff₀ (zpow_pos two_pos _)] at h
  calc ((2 : ℚ) ^ 54 - 1) * 2 ^ (970 : Int) = (2 ^ 53 - 1 / 2) * 2 ^ (970 + 1 : Int) := by
        rw [two_zpow_succ]
        ring
    _ ≤ v := h

-- Less than half of the least double, or just half of it.
theorem le_half_least (h : v / 2 ^ leastExponent ≤ 1 / 2) : v ≤ 2 ^ (-1075 : Int) := by
  have hleast : leastExponent = -1075 + 1 := by decide
  rw [div_le_iff₀ (zpow_pos two_pos _), hleast, two_zpow_succ] at h
  linarith

theorem infinityCode_le_codeOf {r : Nat} {e : Int} (he : 971 < e) (hr : 2 ^ 52 ≤ r) : infinityCode ≤ codeOf r e := by
  change 2047 * 2 ^ 52 ≤ (e + 1074).toNat * 2 ^ 52 + r
  omega

-- A significand that has become too long carries into the exponent.
theorem codeOf_overlong {e : Int} (he : leastExponent ≤ e) : codeOf (2 ^ 53) e = codeOf (2 ^ 52) (e + 1) := by
  rw [leastExponent] at he
  change (e + 1074).toNat * 2 ^ 52 + 2 ^ 53 = (e + 1 + 1074).toNat * 2 ^ 52 + 2 ^ 52
  omega

section

variable {r : Nat} {e : Int} (hnormal : e ≠ leastExponent → 2 ^ 52 ≤ r)
  (hlarge : e ≠ leastExponent → (2 : ℚ) ^ 52 ≤ v / 2 ^ e)

include hnormal hlarge

-- The double of a significand and an exponent, which may turn out to lie above all finite ones.
theorem exists_roundsTo (hleast : leastExponent ≤ e) (hlong : r ≤ 2 ^ 53) (hless : v / 2 ^ e < 2 ^ 53)
    (hlow : (r : ℚ) - 1 / 2 ≤ v / 2 ^ e) (hhigh : v / 2 ^ e ≤ r + 1 / 2)
    (htie : v / 2 ^ e = r - 1 / 2 ∨ v / 2 ^ e = r + 1 / 2 → r % 2 = 0) :
    ∃ code, RoundsTo v code ∧ ∀ negative, ofCode negative (codeOf r e) = ofCode negative code := by
  by_cases he : 971 < e
  · have hne : e ≠ leastExponent := by
      rw [leastExponent]
      omega
    refine ⟨infinityCode, .infinite (overflows_of_large he (hlarge hne)), fun _ => ?_⟩
    rw [← ofCode_min, Nat.min_eq_right (infinityCode_le_codeOf he (hnormal hne))]
  · rcases Nat.lt_or_ge r (2 ^ 53) with hshort | hover
    · rcases Nat.eq_zero_or_pos r with rfl | hpos
      · obtain rfl : e = leastExponent := by
          by_contra hne
          exact absurd (hnormal hne) (by decide)
        rw [Nat.cast_zero, zero_add] at hhigh
        exact ⟨0, .zero (le_half_least hhigh), fun _ => rfl⟩
      · have hfinite : IsFinite r e :=
          ⟨hleast, not_lt.mp he, hshort, (eq_or_ne e leastExponent).imp_right hnormal⟩
        exact ⟨codeOf r e, .finite hfinite hpos (rounds_of_near hpos hlarge hlow hhigh htie), fun _ => rfl⟩
    · obtain rfl : r = 2 ^ 53 := le_antisymm hlong hover
      push_cast at hlow
      by_cases hlast : e = 971
      · subst hlast
        exact ⟨infinityCode, .infinite (overflows_of_overlong hlow), fun _ => rfl⟩
      · have hfinite : IsFinite (2 ^ 52) (e + 1) := ⟨by omega, by omega, by decide, .inr (Nat.le_refl _)⟩
        refine ⟨codeOf (2 ^ 52) (e + 1), .finite hfinite (by decide) (rounds_of_overlong hleast hless hlow), ?_⟩
        exact fun _ => by rw [codeOf_overlong hleast]

end

theorem exists_roundsTo_nearest (num : Nat) (hden : 0 < den) :
    ∃ code, RoundsTo ((num : ℚ) / den) code ∧ ∀ negative, nearest negative num den = ofCode negative code := by
  rcases Nat.eq_zero_or_pos num with rfl | hnum
  · refine ⟨0, .zero ?_, fun _ => rfl⟩
    rw [Nat.cast_zero, zero_div]
    positivity
  · obtain ⟨hless, hlarge⟩ := lastBit_bounds hnum hden
    obtain ⟨r, hr, hlong, hnormal, hlow, hhigh, htie⟩ := exists_significand hnum hden
    have hleast : leastExponent ≤ lastBit num den := by
      rw [lastBit_eq hnum hden]
      exact le_max_left _ _
    have hnearest (negative : Bool) : nearest negative num den = ofCode negative (codeOf r (lastBit num den)) := by
      rw [nearest, if_neg hnum.ne', codeOf, hr]
    simp only [hnearest]
    exact exists_roundsTo hnormal hlarge hleast hlong hless hlow hhigh htie

-- Exponents far outside the range of doubles decide the answer.
theorem exists_roundsTo_ofDecimal (digits : Nat) (exponent : Int) :
    ∃ code, RoundsTo ((digits : ℚ) * 10 ^ exponent) code ∧
      ∀ negative, ofDecimal negative digits exponent = ofCode negative code := by
  simp only [ofDecimal]
  split_ifs with hzero hlarge hsmall
  · subst hzero
    refine ⟨0, .zero ?_, fun _ => rfl⟩
    rw [Nat.cast_zero, zero_mul]
    positivity
  · refine ⟨infinityCode, .infinite ?_, fun _ => rfl⟩
    calc ((2 : ℚ) ^ 54 - 1) * 2 ^ (970 : Int) ≤ 2 ^ (54 : Int) * 2 ^ (970 : Int) := by
          gcongr
          norm_num
      _ = 2 ^ (1024 : Int) := by rw [← zpow_add₀ two_ne_zero]; norm_num
      _ ≤ digits * 10 ^ exponent := (two_zpow_lt_decimal (Nat.pos_of_ne_zero hzero) hlarge).le
  · exact ⟨0, .zero (decimal_lt_two_zpow hsmall).le, fun _ => rfl⟩
  · rw [decimal_eq_div]
    exact exists_roundsTo_nearest _ (Nat.pow_pos (by decide))

-- A finite double by its significand and its exponent, or what comes after all of them.
structure OnGrid (m : Nat) (q : Int) : Prop where
  least : leastExponent ≤ q
  bounded : m < 2 ^ 53
  normal : q = leastExponent ∨ 2 ^ 52 ≤ m

theorem IsFinite.onGrid (h : IsFinite m q) : OnGrid m q := ⟨h.least, h.bounded, h.normal⟩

theorem onGrid_zero : OnGrid 0 leastExponent := ⟨le_rfl, by decide, .inl rfl⟩

theorem onGrid_infinity : OnGrid (2 ^ 52) 972 := ⟨by decide, by decide, .inr (Nat.le_refl _)⟩

theorem infinity_zpow : ((2 ^ 52 : Nat) : ℚ) * 2 ^ (972 : Int) = 2 ^ (1024 : Int) := by
  rw [Nat.cast_pow, Nat.cast_ofNat, ← zpow_natCast, ← zpow_add₀ two_ne_zero]
  rfl

-- Counted in a smaller unit, a multiple of the larger one stays a natural number.
theorem zpow_eq_mul {e : Int} (h : e ≤ q) : ∃ k : Nat, (2 : ℚ) ^ q = (2 ^ k : Nat) * 2 ^ e ∧ (k : Int) = q - e := by
  obtain ⟨k, hk⟩ := Int.eq_ofNat_of_zero_le (Int.sub_nonneg.mpr h)
  refine ⟨k, ?_, hk.symm⟩
  push_cast
  rw [← zpow_natCast, ← zpow_add₀ two_ne_zero]
  congr 1
  omega

section

variable (h : OnGrid m q) (h' : OnGrid m' q')

include h h'

-- The next double lies a last bit higher.
theorem OnGrid.add_le (hlt : (m : ℚ) * 2 ^ q < m' * 2 ^ q') : ((m : ℚ) + 1) * 2 ^ q ≤ m' * 2 ^ q' := by
  have hunit : (0 : ℚ) < 2 ^ q := zpow_pos two_pos q
  rcases le_or_gt q q' with hle | hgt
  · obtain ⟨k, hk, -⟩ := zpow_eq_mul hle
    rw [hk, ← mul_assoc] at hlt ⊢
    have hless : m < m' * 2 ^ k := by exact_mod_cast lt_of_mul_lt_mul_right hlt hunit.le
    have hnext : m + 1 ≤ m' * 2 ^ k := hless
    exact mul_le_mul_of_nonneg_right (by exact_mod_cast hnext) hunit.le
  · -- A double of a lower exponent is smaller.
    exfalso
    have hleast := h'.least
    have hnormal := h.normal.resolve_left (by omega)
    obtain ⟨k, hk, hkq⟩ := zpow_eq_mul hgt.le
    rw [hk, ← mul_assoc] at hlt
    have hless : m * 2 ^ k < m' := by exact_mod_cast lt_of_mul_lt_mul_right hlt (zpow_pos two_pos q').le
    have hbounded := h'.bounded
    have htwo : 2 ≤ 2 ^ k := Nat.le_self_pow (by omega) 2
    have := Nat.mul_le_mul hnormal htwo
    omega

-- The double before lies a last bit lower, or half of one below a power of two.
theorem OnGrid.le_sub (hlt : (m' : ℚ) * 2 ^ q' < m * 2 ^ q) :
    (m' : ℚ) * 2 ^ q' / 2 ^ (q - 2) ≤ 2 * lowEnd m q - 4 * m := by
  have hunit : (0 : ℚ) < 2 ^ (q - 2) := zpow_pos two_pos _
  have hm : 0 < m := by
    rcases Nat.eq_zero_or_pos m with rfl | hpos
    · rw [Nat.cast_zero, zero_mul] at hlt
      exact absurd hlt (not_lt.mpr (by positivity))
    · exact hpos
  have hquarters := two_zpow_quarters q
  rw [lowEnd_cast hm]
  rcases le_or_gt q q' with hle | hgt
  · -- A multiple of the last bit.
    obtain ⟨k, hk, -⟩ := zpow_eq_mul hle
    rw [hk, ← mul_assoc] at hlt ⊢
    have hless : m' * 2 ^ k < m := by exact_mod_cast lt_of_mul_lt_mul_right hlt (zpow_pos two_pos q).le
    have hcast : ((m' : ℚ) * (2 ^ k : Nat)) + 1 ≤ m := by exact_mod_cast hless
    have hwhole : (m' : ℚ) * (2 ^ k : Nat) * 2 ^ q / 2 ^ (q - 2) = 4 * (m' * (2 ^ k : Nat)) := by
      rw [hquarters]
      field_simp
    rw [hwhole]
    split_ifs <;> linarith
  · have hleast := h'.least
    have hne : q ≠ leastExponent := by omega
    have hnormal : (2 : ℚ) ^ 52 ≤ m := by exact_mod_cast h.normal.resolve_left hne
    have hbounded : (m' : ℚ) + 1 ≤ 2 ^ 53 := by exact_mod_cast Nat.succ_le_of_lt h'.bounded
    have hhalf : (2 : ℚ) ^ q' ≤ 2 * 2 ^ (q - 2) := by
      rw [← two_zpow_succ]
      exact zpow_le_zpow_right₀ one_le_two (by omega)
    have hbelow : (m' : ℚ) * 2 ^ q' / 2 ^ (q - 2) ≤ 2 * (2 ^ 53 - 1) := by
      rw [div_le_iff₀ hunit]
      calc (m' : ℚ) * 2 ^ q' ≤ (2 ^ 53 - 1) * (2 * 2 ^ (q - 2)) :=
            mul_le_mul (by linarith) hhalf (by positivity) (by norm_num)
        _ = 2 * (2 ^ 53 - 1) * 2 ^ (q - 2) := by ring
    split_ifs with hnarrow
    · linarith
    · have hmore : (2 : ℚ) ^ 52 + 1 ≤ m := by
        have hlarge : 2 ^ 52 < m := by
          refine lt_of_le_of_ne (by exact_mod_cast hnormal) fun heq => hnarrow ?_
          exact narrowBelow_iff.mpr ⟨heq.symm, hne⟩
        exact_mod_cast hlarge
      linarith

end

theorem closest_of_bounds {v a b : ℚ} (low high : ℚ) (hlow : b < a → low ≤ v ∧ b ≤ 2 * low - a)
    (hhigh : a < b → v ≤ high ∧ 2 * high - a ≤ b) :
    |v - a| ≤ |v - b| ∧ (|v - a| = |v - b| → b = a ∨ v = low ∨ v = high) := by
  rcases lt_trichotomy b a with hlt | rfl | hgt
  · obtain ⟨hlow, hb⟩ := hlow hlt
    rw [abs_of_pos (by linarith : 0 < v - b)]
    refine ⟨abs_le.mpr ⟨by linarith, by linarith⟩, fun heq => .inr (.inl ?_)⟩
    rcases abs_eq_abs.mp (heq.trans (abs_of_pos (by linarith : 0 < v - b)).symm) with h | h <;> linarith
  · exact ⟨le_rfl, fun _ => .inl rfl⟩
  · obtain ⟨hhigh, hb⟩ := hhigh hgt
    rw [abs_of_neg (by linarith : v - b < 0)]
    refine ⟨abs_le.mpr ⟨by linarith, by linarith⟩, fun heq => .inr (.inr ?_)⟩
    rcases abs_eq_abs.mp (heq.trans (abs_of_neg (by linarith : v - b < 0)).symm) with h | h <;> linarith

-- A number is closest to what it rounds to.
theorem Rounds.closest (h : Rounds m q v) (hgrid : OnGrid m q) (hgrid' : OnGrid m' q') :
    |v - m * 2 ^ q| ≤ |v - m' * 2 ^ q'| ∧
      (|v - m * 2 ^ q| = |v - m' * 2 ^ q'| → (m' : ℚ) * 2 ^ q' = m * 2 ^ q ∨ m % 2 = 0) := by
  have hunit : (0 : ℚ) < 2 ^ (q - 2) := zpow_pos two_pos _
  have hquarters := two_zpow_quarters q
  have hbounds := closest_of_bounds (v := v) (a := m * 2 ^ q) (b := m' * 2 ^ q') (lowEnd m q * 2 ^ (q - 2))
    ((4 * m + 2) * 2 ^ (q - 2)) ?_ ?_
  · refine ⟨hbounds.1, fun heq => (hbounds.2 heq).imp_right fun hend => h.tie ?_⟩
    exact hend.imp (fun heq => by rw [heq, mul_div_cancel_right₀ _ hunit.ne'])
      fun heq => by rw [heq, mul_div_cancel_right₀ _ hunit.ne']
  · intro hlt
    have hbelow := hgrid.le_sub hgrid' hlt
    refine ⟨(le_div_iff₀ hunit).mp h.low, ((div_le_iff₀ hunit).mp hbelow).trans_eq ?_⟩
    rw [hquarters]
    ring
  · intro hlt
    refine ⟨(div_le_iff₀ hunit).mp h.high, le_of_eq_of_le ?_ (hgrid.add_le hgrid' hlt)⟩
    rw [hquarters]
    ring

theorem Counts.exists_onGrid {x : Float} {u : ℚ} (h : Counts x u) :
    ∃ (negative : Bool) (m : Nat) (q : Int), OnGrid m q ∧
    (m : ℚ) * 2 ^ q ≤ 2 ^ (1024 : Int) ∧ u = (if negative then -1 else 1) * ((m : ℚ) * 2 ^ q) := by
  cases h with
  | @finite negative m q hparts =>
      obtain ⟨hfinite, -⟩ := eq_ofCode_of_parts hparts
      refine ⟨negative, m, q, hfinite.onGrid, ?_, rfl⟩
      have hbounded : (m : ℚ) ≤ 2 ^ (53 : Int) := by exact_mod_cast hfinite.bounded.le
      calc (m : ℚ) * 2 ^ q ≤ 2 ^ (53 : Int) * 2 ^ q := by gcongr
        _ = 2 ^ (53 + q) := (zpow_add₀ two_ne_zero _ _).symm
        _ ≤ 2 ^ (1024 : Int) := zpow_le_zpow_right₀ one_le_two (by have := hfinite.greatest; omega)
  | @infinite negative hparts =>
      exact ⟨negative, 2 ^ 52, 972, onGrid_infinity, infinity_zpow.le, by rw [infinity_zpow]⟩

theorem parts_zero (negative : Bool) : parts (ofCode negative 0) = .finite negative 0 leastExponent := by
  cases negative <;> decide

theorem parts_infinity (negative : Bool) : parts (ofCode negative infinityCode) = .infinite negative := by
  cases negative <;> decide

theorem toBits_ofCode_mod_two (negative : Bool) (h : code ≤ infinityCode) :
    (ofCode negative code).toBits.toNat % 2 = code % 2 := by
  have hinfinity : infinityCode = 2047 * 2 ^ 52 := rfl
  have hsign : twoPow 63 = 2 ^ 63 := rfl
  rw [toBits_ofCode negative h, Nat.min_eq_left h, UInt64.toNat_ofNat', hsign]
  split <;> omega

-- What is smaller than half of the least double is closest to zero.
theorem closest_zero (h : v ≤ 2 ^ (-1075 : Int)) (hgrid : OnGrid m q) : |v - 0| ≤ |v - m * 2 ^ q| := by
  refine (closest_of_bounds v (2 ^ (-1075 : Int)) (fun hlt => ?_) fun hlt => ⟨h, ?_⟩).1
  · exact absurd hlt (not_lt.mpr (mul_nonneg m.cast_nonneg (zpow_nonneg zero_le_two q)))
  · have hleast : leastExponent = -1075 + 1 := by decide
    have hnext := onGrid_zero.add_le hgrid (by rwa [Nat.cast_zero, zero_mul])
    rw [hleast, two_zpow_succ, Nat.cast_zero] at hnext
    linarith

theorem closest_infinity (h : (2 ^ 54 - 1) * 2 ^ (970 : Int) ≤ v) (hgrid : OnGrid m q)
    (hle : (m : ℚ) * 2 ^ q ≤ 2 ^ (1024 : Int)) : |v - 2 ^ (1024 : Int)| ≤ |v - m * 2 ^ q| := by
  refine (closest_of_bounds ((2 ^ 54 - 1) * 2 ^ (970 : Int)) v (fun hlt => ⟨h, ?_⟩) fun hlt => ?_).1
  · have hunit : (0 : ℚ) < 2 ^ (972 - 2 : Int) := zpow_pos two_pos _
    have hnarrow : Shortest.narrowBelow (2 ^ 52) 972 = true := by decide
    rw [← infinity_zpow] at hlt ⊢
    have hbelow := onGrid_infinity.le_sub hgrid hlt
    rw [lowEnd_cast (by decide), if_pos hnarrow, div_le_iff₀ hunit] at hbelow
    have hquarters := two_zpow_quarters 972
    change _ ≤ _ * (2 : ℚ) ^ (970 : Int) at hbelow
    change (2 : ℚ) ^ (972 : Int) = 4 * 2 ^ (970 : Int) at hquarters
    rw [hquarters]
    generalize (2 : ℚ) ^ (970 : Int) = unit at hbelow
    refine hbelow.trans_eq ?_
    push_cast
    ring
  · exact absurd hle (not_le.mpr hlt)

-- What a number rounds to is closest to it, of all that doubles without a sign count as.
theorem RoundsTo.exists_closest (h : RoundsTo v code) : code ≤ infinityCode ∧ ∃ a, 0 ≤ a ∧
    (∀ negative, Counts (ofCode negative code) ((if negative then -1 else 1) * a)) ∧
    ∀ m q, OnGrid m q → (m : ℚ) * 2 ^ q ≤ 2 ^ (1024 : Int) →
      |v - a| ≤ |v - m * 2 ^ q| ∧ (|v - a| = |v - m * 2 ^ q| → (m : ℚ) * 2 ^ q = a ∨ code % 2 = 0) := by
  cases h with
  | zero hsmall =>
      refine ⟨Nat.zero_le _, 0, le_rfl, fun negative => ?_, fun m q hgrid _ => ?_⟩
      · have hcounts := Counts.finite (parts_zero negative)
        rwa [Nat.cast_zero, zero_mul] at hcounts
      · exact ⟨closest_zero hsmall hgrid, fun _ => .inr rfl⟩
  | @finite m q hfinite hm hrounds =>
      refine ⟨(codeOf_lt hfinite).le, m * 2 ^ q, by positivity, fun negative => .finite (parts_ofCode hfinite negative),
        fun m' q' hgrid _ => ?_⟩
      have hclosest := hrounds.closest hfinite.onGrid hgrid
      have hparity : codeOf m q % 2 = m % 2 := by
        change ((q - leastExponent).toNat * 2 ^ 52 + m) % 2 = m % 2
        omega
      rwa [hparity]
  | infinite hlarge =>
      exact ⟨le_rfl, 2 ^ (1024 : Int), zpow_nonneg zero_le_two _, fun negative => .infinite (parts_infinity negative),
        fun m q hgrid hle => ⟨closest_infinity hlarge hgrid hle, fun _ => .inr (by decide)⟩⟩

theorem abs_signed_sub (negative : Bool) (v a : ℚ) :
    |(if negative then -1 else 1) * v - (if negative then -1 else 1) * a| = |v - a| := by
  cases negative with
  | false => simp
  | true => rw [if_pos rfl, ← mul_sub, neg_one_mul, abs_neg]

-- A number and a double of the other sign are as far from each other as from zero together.
theorem abs_signed_sub_of_ne {negative negative' : Bool} {v b : ℚ} (hne : negative' ≠ negative) (hv : 0 ≤ v)
    (hb : 0 ≤ b) : |(if negative then -1 else 1) * v - (if negative' then -1 else 1) * b| = v + b := by
  obtain rfl : negative' = !negative := Bool.eq_not.mpr hne
  cases negative with
  | false =>
      rw [if_neg Bool.false_ne_true, Bool.not_false, if_pos rfl, abs_of_nonneg (by linarith)]
      ring
  | true =>
      rw [if_pos rfl, Bool.not_true, if_neg Bool.false_ne_true, abs_of_nonpos (by linarith)]
      ring

theorem RoundsTo.isNearest (h : RoundsTo v code) (hv : 0 ≤ v) (negative : Bool) :
    IsNearest (ofCode negative code) ((if negative then -1 else 1) * v) := by
  obtain ⟨hcode, a, ha, hcounts, hclosest⟩ := h.exists_closest
  refine ⟨_, hcounts negative, fun y u hu => ?_⟩
  obtain ⟨negative', m, q, hgrid, hle, rfl⟩ := hu.exists_onGrid
  have hb : (0 : ℚ) ≤ m * 2 ^ q := mul_nonneg m.cast_nonneg (zpow_nonneg zero_le_two q)
  rw [abs_signed_sub, toBits_ofCode_mod_two negative hcode]
  by_cases hsign : negative' = negative
  · subst hsign
    obtain ⟨hclose, htie⟩ := hclosest m q hgrid hle
    rw [abs_signed_sub]
    exact ⟨hclose, fun heq => (htie heq).imp_left (congrArg _)⟩
  · -- Zero is at least as close.
    obtain ⟨hclose, htie⟩ := hclosest 0 leastExponent onGrid_zero
      (by rw [Nat.cast_zero, zero_mul]; exact zpow_nonneg zero_le_two _)
    rw [Nat.cast_zero, zero_mul, sub_zero, abs_of_nonneg hv] at hclose htie
    rw [abs_signed_sub_of_ne hsign hv hb]
    refine ⟨by linarith, fun heq => (htie (by linarith)).imp_left fun hzero => ?_⟩
    rw [← hzero, (by linarith : (m : ℚ) * 2 ^ q = 0), mul_zero, mul_zero]

-- A decimal is read as the double nearest to it, with its sign.
theorem ofDecimal_isNearest (negative : Bool) (digits : Nat) (exponent : Int) :
    IsNearest (ofDecimal negative digits exponent)
      ((if negative then -1 else 1) * (digits * 10 ^ exponent)) := by
  obtain ⟨code, hround, heq⟩ := exists_roundsTo_ofDecimal digits exponent
  rw [heq]
  exact hround.isNearest (by positivity) negative

theorem RoundsTo.code_le (h : RoundsTo v code) : code ≤ infinityCode := h.exists_closest.1

theorem isNegative_ofCode (negative : Bool) (h : code ≤ infinityCode) :
    isNegative (ofCode negative code) = negative := by
  have hinfinity : infinityCode = 2047 * 2 ^ 52 := rfl
  have hsign : twoPow 63 = 2 ^ 63 := rfl
  rw [isNegative, toBits_ofCode negative h, Nat.min_eq_left h, UInt64.toNat_ofNat', hsign]
  cases negative with
  | false => exact decide_eq_false (by rw [if_neg Bool.false_ne_true]; omega)
  | true => exact decide_eq_true (by rw [if_pos rfl]; omega)

theorem isNegative_ofDecimal (negative : Bool) (digits : Nat) (exponent : Int) :
    isNegative (ofDecimal negative digits exponent) = negative := by
  obtain ⟨code, hround, heq⟩ := exists_roundsTo_ofDecimal digits exponent
  rw [heq, isNegative_ofCode negative hround.code_le]

-- Only the reals that round to a finite double are read as it.
theorem rounds_of_ofDecimal {digits : Nat} {exponent : Int} (hfinite : IsFinite m q) (hm : 0 < m)
    (h : ofDecimal negative digits exponent = ofCode negative (codeOf m q)) :
    Rounds m q (digits * 10 ^ exponent) := by
  obtain ⟨code, hround, heq⟩ := exists_roundsTo_ofDecimal digits exponent
  have hparts := parts_ofCode hfinite negative
  rw [← h, heq] at hparts
  cases hround with
  | zero hsmall =>
      rw [parts_zero] at hparts
      cases hparts
      exact absurd hm (Nat.lt_irrefl 0)
  | finite hfinite' _ hrounds =>
      rw [parts_ofCode hfinite'] at hparts
      cases hparts
      exact hrounds
  | infinite hlarge =>
      rw [parts_infinity] at hparts
      cases hparts

end JsonTemplate.Number.Binary64
