import JsonTemplate.Proofs.Number.Forms
import JsonTemplate.Proofs.Number.Rounding

namespace JsonTemplate.Number

namespace Binary64

variable {m m' : Nat} {q q' : Int} {v w u : ℚ}

-- With two numbers all between them round to a double.
theorem Rounds.between (hv : Rounds m q v) (hw : Rounds m q w) (hvu : v ≤ u) (huw : u ≤ w) : Rounds m q u := by
  have hunit : (0 : ℚ) < 2 ^ (q - 2) := zpow_pos two_pos _
  have hlow : v / 2 ^ (q - 2) ≤ u / 2 ^ (q - 2) := div_le_div_of_nonneg_right hvu hunit.le
  have hhigh : u / 2 ^ (q - 2) ≤ w / 2 ^ (q - 2) := div_le_div_of_nonneg_right huw hunit.le
  refine ⟨hv.low.trans hlow, hhigh.trans hw.high, ?_⟩
  rintro (heq | heq)
  · exact hv.tie (.inl (le_antisymm (hlow.trans_eq heq) hv.low))
  · exact hw.tie (.inr (le_antisymm hw.high (heq.symm.le.trans hhigh)))

-- Zeros move from the digits of a decimal to its exponent.
theorem mul_pow_mul_zpow (c t : Nat) (e : Int) : ((c * 10 ^ t : Nat) : ℚ) * 10 ^ e = c * 10 ^ (t + e) := by
  rw [zpow_add₀ (by norm_num), zpow_natCast]
  push_cast
  ring

-- A decimal lies on each finer grid.
theorem Rounds.exists_finer {c : Nat} {e e' : Int} (h : Rounds m q (c * 10 ^ e)) (he : e' ≤ e) :
    ∃ k : Nat, Rounds m q (k * 10 ^ e') := by
  obtain ⟨t, ht⟩ := Int.eq_ofNat_of_zero_le (Int.sub_nonneg.mpr he)
  obtain rfl : e = t + e' := by omega
  exact ⟨c * 10 ^ t, by rwa [mul_pow_mul_zpow]⟩

section

variable (hfinite : IsFinite m q) (hfinite' : IsFinite m' q') (hm : 0 < m) (hm' : 0 < m')

include hfinite hfinite' hm hm'

theorem Rounds.unique (h : Rounds m q v) (h' : Rounds m' q' v) : m = m' ∧ q = q' := by
  have hpos : 0 < v.num := Rat.num_pos.mpr (h.pos hm)
  obtain ⟨num, hnum⟩ := Int.eq_ofNat_of_zero_le hpos.le
  have hquotient : v = (num : ℚ) / v.den := by
    have hsplit := (Rat.num_div_den v).symm
    rwa [hnum, Int.cast_natCast] at hsplit
  have hnumPos : 0 < num := by omega
  rw [hquotient] at h h'
  have heq := (nearest_eq hfinite hm hnumPos v.den_pos h false).symm.trans
    (nearest_eq hfinite' hm' hnumPos v.den_pos h' false)
  have hparts := congrArg parts heq
  rw [parts_ofCode hfinite, parts_ofCode hfinite'] at hparts
  cases hparts
  exact ⟨rfl, rfl⟩

-- Numbers are in the order of the doubles that they round to.
theorem Rounds.lt_of_lt (h : Rounds m q w) (h' : Rounds m' q' v) (hlt : (m : ℚ) * 2 ^ q < m' * 2 ^ q') : w < v := by
  by_contra hge
  have hexact : Rounds m q (m * 2 ^ q) := Shortest.rounds_exact hm
  have hexact' : Rounds m' q' (m' * 2 ^ q') := Shortest.rounds_exact hm'
  have hne {u : ℚ} (hu : Rounds m q u) : ¬Rounds m' q' u := by
    intro hu'
    obtain ⟨rfl, rfl⟩ := hu.unique hfinite hfinite' hm hm' hu'
    exact hlt.false
  rcases le_or_gt ((m : ℚ) * 2 ^ q) v with hle | hgt
  · exact hne (hexact.between h hle (not_lt.mp hge)) h'
  · exact hne hexact (h'.between hexact' hgt.le hlt.le)

end

end Binary64

namespace Shortest

open Binary64

variable {m : Nat} {q : Int} {tie : Tie}

theorem floorAt_bounds (m : Nat) (q e : Int) :
    (floorAt m q e : ℚ) * 10 ^ e ≤ m * 2 ^ q ∧ (m : ℚ) * 2 ^ q < (floorAt m q e + 1 : Nat) * 10 ^ e := by
  have hten : (0 : ℚ) < 10 ^ e := zpow_pos (by norm_num) _
  have hquotient : ((m * twoPow q.toNat * tenPow (-e).toNat : Nat) : ℚ) / (twoPow (-q).toNat * tenPow e.toNat : Nat) =
      m * 2 ^ q / 10 ^ e := by
    rw [zpow_eq_div two_ne_zero q, zpow_eq_div (by norm_num : (10 : ℚ) ≠ 0) e]
    push_cast [twoPow_cast, tenPow_cast]
    field_simp
  have hfloor : floorAt m q e = ⌊(m : ℚ) * 2 ^ q / 10 ^ e⌋₊ := by
    rw [← hquotient, Nat.floor_div_eq_div]
    rfl
  rw [← le_div_iff₀ hten, ← div_lt_iff₀ hten, hfloor]
  refine ⟨Nat.floor_le (by positivity), ?_⟩
  push_cast
  exact Nat.lt_floor_add_one _

theorem exists_onGrid? {e : Int} {c : Nat} (hm : 0 < m) (h : Rounds m q (c * 10 ^ e)) :
    ∃ d, onGrid? tie m q e = some d := by
  have hten : (0 : ℚ) < 10 ^ e := zpow_pos (by norm_num) _
  have hexact : Rounds m q (m * 2 ^ q) := rounds_exact hm
  obtain ⟨hlow, hhigh⟩ := floorAt_bounds m q e
  have hfound : readsBack m q ⟨floorAt m q e, e⟩ = true ∨ readsBack m q ⟨floorAt m q e + 1, e⟩ = true := by
    simp only [readsBack_iff, Decimal.value]
    rcases Nat.lt_or_ge (floorAt m q e) c with hlt | hge
    · have hle : ((floorAt m q e + 1 : Nat) : ℚ) * 10 ^ e ≤ c * 10 ^ e :=
        mul_le_mul_of_nonneg_right (by exact_mod_cast hlt) hten.le
      exact .inr (hexact.between h hhigh.le hle)
    · have hle : (c : ℚ) * 10 ^ e ≤ floorAt m q e * 10 ^ e :=
        mul_le_mul_of_nonneg_right (by exact_mod_cast hge) hten.le
      exact .inl (h.between hexact hle hlow)
  rw [onGrid?]
  generalize readsBack m q ⟨floorAt m q e, e⟩ = below at hfound ⊢
  generalize readsBack m q ⟨floorAt m q e + 1, e⟩ = above at hfound ⊢
  cases below <;> cases above
  · simp at hfound
  · exact ⟨_, rfl⟩
  · exact ⟨_, rfl⟩
  · simp only
    split
    · exact ⟨_, rfl⟩
    · exact ⟨_, rfl⟩
    · split_ifs <;> exact ⟨_, rfl⟩

-- The search ends no later than on a grid that has a decimal.
theorem exists_search {grids i : Nat} {e : Int} (hi : i < grids) (h : ∃ d, onGrid? tie m q (e - i) = some d) :
    ∃ d j, search tie m q grids e = some d ∧ j ≤ i ∧ onGrid? tie m q (e - (j : Nat)) = some d := by
  induction grids generalizing i e with
  | zero => exact absurd hi (Nat.not_lt_zero i)
  | succ grids ih =>
      rw [search]
      cases hgrid : onGrid? tie m q e with
      | some d => exact ⟨d, 0, rfl, Nat.zero_le i, by rwa [Nat.cast_zero, sub_zero]⟩
      | none =>
          cases i with
          | zero =>
              rw [Nat.cast_zero, sub_zero, hgrid] at h
              obtain ⟨d, hd⟩ := h
              cases hd
          | succ i =>
              have hnext (k : Nat) : e - (k + 1 : Nat) = e - 1 - k := by omega
              rw [hnext] at h
              obtain ⟨d, j, hsearch, hj, hd⟩ := ih (Nat.lt_of_succ_lt_succ hi) h
              exact ⟨d, j + 1, hsearch, Nat.succ_le_succ hj, by rwa [hnext]⟩

theorem decimalLength_bounds {n : Nat} (hn : 0 < n) :
    10 ^ (decimalLength n - 1) ≤ n ∧ n < 10 ^ decimalLength n ∧ 0 < decimalLength n := by
  have hlength : 0 < decimalLength n := Nat.length_toDigits_pos
  refine ⟨?_, (Nat.length_toDigits_le_iff (by decide) hlength).mp (Nat.le_refl _), hlength⟩
  by_contra hlt
  rw [not_le] at hlt
  have hmore : 0 < decimalLength n - 1 := by
    rw [Nat.pos_iff_ne_zero]
    intro hzero
    rw [hzero, pow_zero] at hlt
    omega
  have hle : decimalLength n ≤ decimalLength n - 1 := (Nat.length_toDigits_le_iff (by decide) hmore).mpr hlt
  omega

theorem value_eq_div (m : Nat) (q : Int) :
    (m : ℚ) * 2 ^ q = ((m * twoPow q.toNat : Nat) : ℚ) / (twoPow (-q).toNat : Nat) := by
  rw [zpow_eq_div two_ne_zero]
  push_cast [twoPow_cast]
  rw [mul_div_assoc]

-- The value has its leading digit just below the scale.
theorem scale_bounds (hm : 0 < m) :
    (10 : ℚ) ^ (scale m q - 1) ≤ m * 2 ^ q ∧ (m : ℚ) * 2 ^ q < 10 ^ scale m q := by
  have hnum : 0 < m * twoPow q.toNat := Nat.mul_pos hm (Nat.pow_pos (by decide))
  have hden : 0 < twoPow (-q).toNat := Nat.pow_pos (by decide)
  rw [value_eq_div, scale]
  generalize m * twoPow q.toNat = num at hnum ⊢
  generalize twoPow (-q).toNat = den at hden ⊢
  have hden' : (0 : ℚ) < den := Nat.cast_pos.mpr hden
  have hnum' : (0 : ℚ) < num := Nat.cast_pos.mpr hnum
  split_ifs with hle
  · obtain ⟨hlow, hhigh, hlength⟩ := decimalLength_bounds (Nat.div_pos hle hden)
    generalize decimalLength (num / den) = length at hlow hhigh hlength
    rw [Nat.le_div_iff_mul_le hden] at hlow
    rw [Nat.div_lt_iff_lt_mul hden] at hhigh
    rw [le_div_iff₀ hden', div_lt_iff₀ hden', ← Nat.cast_one, ← Nat.cast_sub hlength, zpow_natCast, zpow_natCast]
    exact ⟨by exact_mod_cast hlow, by exact_mod_cast hhigh⟩
  · -- The quotient that the value divides lies above one.
    have hquotient : (den + num - 1) / num - 1 = (den - 1) / num := by
      rw [Nat.sub_add_comm hden, Nat.add_div_right _ hnum, Nat.succ_sub_one]
    have hpos : 0 < (den - 1) / num := Nat.div_pos (by omega) hnum
    obtain ⟨hlow, hhigh, hlength⟩ := decimalLength_bounds hpos
    rw [hquotient]
    generalize decimalLength ((den - 1) / num) = length at hlow hhigh hlength
    rw [Nat.le_div_iff_mul_le hnum] at hlow
    rw [Nat.div_lt_iff_lt_mul hnum] at hhigh
    have hleft : (1 : Int) - length - 1 = -(length : Int) := by ring
    have hright : (1 : Int) - length = -((length - 1 : Nat) : Int) := by omega
    rw [hleft, hright, zpow_neg, zpow_neg, zpow_natCast, zpow_natCast, inv_le_comm₀ (by positivity) (by positivity),
      lt_inv_comm₀ (by positivity) (by positivity), inv_div, div_le_iff₀ hnum', lt_div_iff₀ hnum']
    have hle : den ≤ 10 ^ length * num := by omega
    have hlt : 10 ^ (length - 1) * num < den := by omega
    exact ⟨by exact_mod_cast hle, by exact_mod_cast hlt⟩

theorem pos_of_rounds {c s : Nat} {e : Int} (hm : 0 < m) (hc : c < 10 ^ s) (h : Rounds m q (c * 10 ^ e)) : 0 < s := by
  have hdigits : 0 < c := Rounds.digits_pos (d := ⟨c, e⟩) h hm
  rw [Nat.pos_iff_ne_zero]
  rintro rfl
  rw [pow_zero] at hc
  omega

section

variable (hm : 0 < m)

include hm

-- Where a decimal with so many digits reads back, one does on the grid for so many digits of the double.
theorem exists_multiple {c s : Nat} {e : Int} (hc : c < 10 ^ s) (h : Rounds m q (c * 10 ^ e)) :
    ∃ k : Nat, Rounds m q (k * 10 ^ (scale m q - (s : Nat))) := by
  obtain ⟨hlow, hhigh⟩ := scale_bounds (q := q) hm
  have hexact : Rounds m q (m * 2 ^ q) := rounds_exact hm
  have hs := pos_of_rounds hm hc h
  -- A power of ten is a decimal with one digit.
  have hpower {power : Int} (h : Rounds m q (10 ^ power)) : Rounds m q ((1 : Nat) * 10 ^ power) := by
    rwa [Nat.cast_one, one_mul]
  rcases le_or_gt ((10 : ℚ) ^ scale m q) (c * 10 ^ e) with hlarge | hless
  · exact (hpower (hexact.between h hhigh.le hlarge)).exists_finer (by omega)
  rcases lt_or_ge ((c : ℚ) * 10 ^ e) (10 ^ (scale m q - 1)) with hsmall | hmore
  · exact (hpower (h.between hexact hsmall.le hlow)).exists_finer (by omega)
  · have hgrid : scale m q - 1 < s + e := by
      have hlt : (10 : ℚ) ^ (scale m q - 1) < 10 ^ ((s : Int) + e) := by
        rw [zpow_add₀ (by norm_num), zpow_natCast]
        refine hmore.trans_lt (mul_lt_mul_of_pos_right ?_ (zpow_pos (by norm_num) e))
        exact_mod_cast hc
      exact (zpow_lt_zpow_iff_right₀ (by norm_num)).mp hlt
    exact h.exists_finer (by omega)

-- The reals that round to the double reach over more than a step of the grid for seventeen digits.
theorem step_lt (hbounded : m < 2 ^ 53) :
    (10 : ℚ) ^ (scale m q - (17 : Nat)) < (4 * m + 2 - lowEnd m q) * 2 ^ (q - 2) := by
  have hunit : (0 : ℚ) < 2 ^ (q - 2) := zpow_pos two_pos _
  have hsplit : (10 : ℚ) ^ (scale m q - 1) = 10 ^ 16 * 10 ^ (scale m q - (17 : Nat)) := by
    rw [← zpow_natCast, ← zpow_add₀ (by norm_num)]
    congr 1
    omega
  have hlow := (scale_bounds (q := q) hm).1
  rw [hsplit, two_zpow_quarters] at hlow
  rw [lowEnd_cast hm]
  generalize (10 : ℚ) ^ (scale m q - (17 : Nat)) = step at hlow ⊢
  split_ifs with hnarrow
  · obtain ⟨rfl, -⟩ := narrowBelow_iff.mp hnarrow
    push_cast at hlow ⊢
    linarith
  · have hless : (m : ℚ) < 2 ^ 53 := by exact_mod_cast hbounded
    have := mul_lt_mul_of_pos_right hless hunit
    linarith

theorem exists_seventeen (hbounded : m < 2 ^ 53) : ∃ k : Nat, Rounds m q (k * 10 ^ (scale m q - (17 : Nat))) := by
  have hunit : (0 : ℚ) < 2 ^ (q - 2) := zpow_pos two_pos _
  have hstep := step_lt (q := q) hm hbounded
  have hlowEnd := mul_lt_mul_of_pos_right (lowEnd_lt (q := q) hm) hunit
  obtain ⟨hlow, hhigh⟩ := floorAt_bounds m q (scale m q - (17 : Nat))
  generalize scale m q - (17 : Nat) = e at hstep hlow hhigh ⊢
  rw [two_zpow_quarters] at hlow hhigh
  push_cast at hhigh
  have hrounds {v : ℚ} (hv : lowEnd m q * 2 ^ (q - 2) < v) (hv' : v < (4 * m + 2) * 2 ^ (q - 2)) : Rounds m q v := by
    rw [← lt_div_iff₀ hunit] at hv
    rw [← div_lt_iff₀ hunit] at hv'
    exact ⟨hv.le, hv'.le, fun h => (h.elim hv.ne' hv'.ne).elim⟩
  rcases lt_or_ge ((lowEnd m q : ℚ) * 2 ^ (q - 2)) (floorAt m q e * 10 ^ e) with hlt | hge
  · exact ⟨floorAt m q e, hrounds hlt (by linarith)⟩
  · refine ⟨floorAt m q e + 1, hrounds ?_ ?_⟩
    · push_cast
      linarith
    · push_cast
      linarith

end

-- A number of at most so many digits, zeros at its end not counted.
def Significant (n s : Nat) : Prop := ∃ c t, n = c * 10 ^ t ∧ c < 10 ^ s

theorem Significant.mono {n s s' : Nat} (h : Significant n s) (hs : s ≤ s') : Significant n s' := by
  obtain ⟨c, t, hn, hc⟩ := h
  exact ⟨c, t, hn, hc.trans_le (Nat.pow_le_pow_right (by decide) hs)⟩

theorem significant_of_le {n s : Nat} (hs : 0 < s) (h : n ≤ 10 ^ s) : Significant n s := by
  rcases h.lt_or_eq with hlt | heq
  · exact ⟨n, 0, by simp, hlt⟩
  · exact ⟨1, s, by simp [heq], Nat.one_lt_pow hs.ne' (by decide)⟩

theorem floorAt_lt (hm : 0 < m) (j : Nat) : floorAt m q (scale m q - 1 - j) < 10 ^ (j + 1) := by
  have hten : (0 : ℚ) < 10 ^ (scale m q - 1 - j) := zpow_pos (by norm_num) _
  have hlow := (floorAt_bounds m q (scale m q - 1 - j)).1
  have hsplit : (10 : ℚ) ^ scale m q = 10 ^ (j + 1) * 10 ^ (scale m q - 1 - j) := by
    rw [← zpow_natCast, ← zpow_add₀ (by norm_num)]
    congr 1
    push_cast
    ring
  have hlt := hlow.trans_lt (scale_bounds (q := q) hm).2
  rw [hsplit] at hlt
  exact_mod_cast lt_of_mul_lt_mul_right hlt hten.le

-- No decimal that reads back has fewer digits than the one that is written.
theorem significant_decimal (tie : Tie) (hm : 0 < m) (hbounded : m < 2 ^ 53) {c s : Nat} {e : Int} (hc : c < 10 ^ s)
    (h : Rounds m q (c * 10 ^ e)) : Significant (decimal tie m q).digits s := by
  obtain ⟨k, hk⟩ : ∃ k : Nat, Rounds m q (k * 10 ^ (scale m q - (min s 17 : Nat))) := by
    rcases le_total s 17 with hle | hge
    · rw [Nat.min_eq_left hle]
      exact exists_multiple hm hc h
    · rw [Nat.min_eq_right hge]
      exact exists_seventeen hm hbounded
  have hs := pos_of_rounds hm hc h
  have hgrid : scale m q - (min s 17 : Nat) = scale m q - 1 - (min s 17 - 1 : Nat) := by omega
  rw [hgrid] at hk
  have hless : min s 17 - 1 < 17 := by omega
  have hfound : ∃ d, onGrid? tie m q (scale m q - 1 - (min s 17 - 1 : Nat)) = some d := exists_onGrid? hm hk
  obtain ⟨d, j, hsearch, hj, hd⟩ := exists_search hless hfound
  have hdecimal : decimal tie m q = d := by rw [decimal, hsearch, Option.getD_some]
  have hdigits : d.digits ≤ 10 ^ (j + 1) := by
    have hfloor := floorAt_lt (q := q) hm j
    rcases (of_onGrid? hd).1 with rfl | rfl
    · exact hfloor.le
    · exact hfloor
  rw [hdecimal]
  exact (significant_of_le j.succ_pos hdigits).mono (by omega)

-- A power of ten, which is the shortest decimal of a double, divides the doubles as it divides their decimals.
theorem ten_zpow_le_decimal_iff {power : Int} (hfinite : IsFinite m q) (hm : 0 < m) (hfinite' : IsFinite m' q')
    (hm' : 0 < m') (hpower : (decimal tie m' q').value = 10 ^ power) :
    (10 : ℚ) ^ power ≤ (decimal tie m q).value ↔ (m' : ℚ) * 2 ^ q' ≤ m * 2 ^ q := by
  have hround := rounds_decimal tie (q := q) hm
  have hround' := rounds_decimal tie (q := q') hm'
  rw [hpower] at hround'
  constructor
  · intro hle
    by_contra hlt
    exact absurd (hround.lt_of_lt hfinite hfinite' hm hm' hround' (not_le.mp hlt)) (not_lt.mpr hle)
  · intro hle
    rcases hle.lt_or_eq with hlt | heq
    · exact (hround'.lt_of_lt hfinite' hfinite hm' hm hround hlt).le
    · have hexact' : Rounds m' q' (m' * 2 ^ q') := rounds_exact hm'
      rw [heq] at hexact'
      obtain ⟨rfl, rfl⟩ := hexact'.unique hfinite' hfinite hm' hm (rounds_exact hm)
      exact hpower.ge

-- Among doubles that are a last bit of at most one apart, only an integer itself rounds to it.
theorem eq_of_rounds_natural {n : Nat} (hq : q ≤ 0) (hm : 0 < m) (h : Rounds m q n) : (n : ℚ) = m * 2 ^ q := by
  obtain ⟨k, hk⟩ := Int.eq_ofNat_of_zero_le (Int.neg_nonneg.mpr hq)
  obtain rfl : q = -k := by omega
  have hunit : (2 : ℚ) ^ (-(k : Int)) = 1 / 2 ^ k := by rw [zpow_neg, zpow_natCast, one_div]
  have hquarters : (n : ℚ) / 2 ^ (-(k : Int) - 2) = 4 * (n * 2 ^ k : Nat) := by
    rw [div_quarters, hunit]
    push_cast
    field_simp
  have hlow := (h.of_low hm).1
  have hhigh := h.high
  rw [hquarters] at hlow hhigh
  have hlow : 4 * m ≤ 4 * (n * 2 ^ k) + 2 := by
    qify
    push_cast at hlow
    linarith
  have hhigh : 4 * (n * 2 ^ k) ≤ 4 * m + 2 := by
    qify
    push_cast at hhigh
    linarith
  have hm : m = n * 2 ^ k := by omega
  rw [hm, hunit]
  push_cast
  field_simp

-- No decimal has fewer digits than an integer whose last bit is at most one.
theorem significant_integer {n c s : Nat} {e : Int} (hq : q ≤ 0) (hm : 0 < m) (hn : (n : ℚ) = m * 2 ^ q)
    (hc : c < 10 ^ s) (h : Rounds m q (c * 10 ^ e)) : Significant n s := by
  obtain ⟨k, hk⟩ := exists_multiple hm hc h
  have hless := (scale_bounds (q := q) hm).2
  rw [← hn] at hless
  rcases le_or_gt (scale m q) s with hle | hgt
  · refine ⟨n, 0, by simp, ?_⟩
    have hlt : (n : ℚ) < 10 ^ (s : Int) := hless.trans_le (zpow_le_zpow_right₀ (by norm_num) hle)
    exact_mod_cast hlt
  · obtain ⟨t, ht⟩ := Int.eq_ofNat_of_zero_le (Int.sub_nonneg.mpr hgt.le)
    have hscale : scale m q = (s + t : Nat) := by omega
    rw [ht, zpow_natCast] at hk
    have hmultiple : ((k * 10 ^ t : Nat) : ℚ) = n := by
      rw [hn]
      refine eq_of_rounds_natural hq hm ?_
      push_cast
      exact hk
    have heq : k * 10 ^ t = n := by exact_mod_cast hmultiple
    rw [hscale, zpow_natCast, ← heq] at hless
    refine ⟨k, t, heq.symm, ?_⟩
    rw [pow_add] at hless
    have hlt : k * 10 ^ t < 10 ^ s * 10 ^ t := by exact_mod_cast hless
    exact lt_of_mul_lt_mul_right hlt (Nat.zero_le _)

end Shortest

namespace Style

open Numeral Shortest

theorem toDigits_mul_pow {c : Nat} (hc : 0 < c) (t : Nat) :
    Nat.toDigits 10 (c * 10 ^ t) = Nat.toDigits 10 c ++ zeros t := by
  induction t with
  | zero => simp [zeros]
  | succ t ih =>
      have happend := Nat.toDigits_append_toDigits (b := 10) (n := c * 10 ^ t) (d := 0) (by decide) (by positivity)
        (by decide)
      rw [ih, Nat.add_zero, Nat.toDigits_zero] at happend
      rw [pow_succ, ← Nat.mul_assoc, Nat.mul_comm _ 10, ← happend, List.append_assoc, zeros, zeros,
        List.replicate_succ']

theorem dropWhile_zeros_append (count : Nat) (ds : List Char) :
    (zeros count ++ ds).dropWhile (· = '0') = ds.dropWhile (· = '0') :=
  List.dropWhile_append_of_pos fun _ hc => decide_eq_true (List.eq_of_mem_replicate hc)

theorem withoutEndZeros_append (ds : List Char) (t : Nat) : withoutEndZeros (ds ++ zeros t) = withoutEndZeros ds := by
  have hreverse : (zeros t).reverse = zeros t := List.reverse_replicate ..
  rw [withoutEndZeros, List.reverse_append, hreverse, dropWhile_zeros_append, withoutEndZeros]

theorem withoutEndZeros_self (ds : List Char) : withoutEndZeros (withoutEndZeros ds) = withoutEndZeros ds := by
  obtain ⟨count, hcount⟩ := exists_zeros ds
  calc withoutEndZeros (withoutEndZeros ds) = withoutEndZeros (withoutEndZeros ds ++ zeros count) :=
        (withoutEndZeros_append _ count).symm
    _ = withoutEndZeros ds := by rw [← hcount]

theorem length_withoutEndZeros_le (ds : List Char) : (withoutEndZeros ds).length ≤ ds.length := by
  obtain ⟨count, hcount⟩ := exists_zeros ds
  have hlength := congrArg List.length hcount
  rw [List.length_append] at hlength
  omega

-- The digits that are left when the zeros at the end are left out.
theorem significant_iff {n s : Nat} (hn : 0 < n) :
    Significant n s ↔ (withoutEndZeros (Nat.toDigits 10 n)).length ≤ s := by
  constructor
  · rintro ⟨c, t, rfl, hlt⟩
    have hc : 0 < c := Nat.pos_of_mul_pos_right hn
    have hs : 0 < s := by
      rw [Nat.pos_iff_ne_zero]
      rintro rfl
      omega
    rw [toDigits_mul_pow hc, withoutEndZeros_append]
    exact (length_withoutEndZeros_le _).trans ((Nat.length_toDigits_le_iff (by decide) hs).mpr hlt)
  · intro hlength
    obtain ⟨count, hcount⟩ := exists_zeros (Nat.toDigits 10 n)
    have hvalue := congrArg value hcount
    rw [value_toDigits, value_append_zeros, Nat.mul_comm] at hvalue
    refine ⟨_, count, hvalue, (value_lt (isDigit_withoutEndZeros n)).trans_le ?_⟩
    exact Nat.pow_le_pow_right (by decide) hlength

end Style

end JsonTemplate.Number
