import JsonTemplate.Number.Shortest
import JsonTemplate.Proofs.Number.Codes

namespace JsonTemplate.Number.Binary64

-- A quotient rounds to a number that is at most half off, to an even one if it is exactly half off.
theorem roundQuotient_eq {num den r : Nat} (hden : 0 < den) (hlow : 2 * (r * den) ≤ 2 * num + den)
    (hhigh : 2 * num ≤ 2 * (r * den) + den)
    (htie : 2 * (r * den) = 2 * num + den ∨ 2 * num = 2 * (r * den) + den → r % 2 = 0) :
    roundQuotient num den = r := by
  have hnum := Nat.div_add_mod num den
  have hrest := Nat.mod_lt num hden
  rw [roundQuotient]
  generalize num / den = floor at hnum ⊢
  generalize num % den = rest at hnum hrest ⊢
  rcases Nat.lt_trichotomy floor r with hlt | rfl | hgt
  · obtain ⟨k, rfl⟩ := Nat.exists_eq_add_of_lt hlt
    have hk : k = 0 := by
      by_contra hk
      have : den ≤ k * den := Nat.le_mul_of_pos_left den (Nat.pos_of_ne_zero hk)
      have : (floor + k + 1) * den = den * floor + k * den + den := by ring
      omega
    subst hk
    have : (floor + 0 + 1) * den = den * floor + den := by ring
    split_ifs <;> omega
  · have : floor * den = den * floor := Nat.mul_comm ..
    split_ifs <;> omega
  · obtain ⟨k, rfl⟩ := Nat.exists_eq_add_of_lt hgt
    have : den * (r + k + 1) = r * den + k * den + den := by ring
    omega

theorem roundQuotient_of_rat {num den r : Nat} (hden : 0 < den) (hlow : (r : ℚ) - 1 / 2 ≤ num / den)
    (hhigh : (num : ℚ) / den ≤ r + 1 / 2)
    (htie : (num : ℚ) / den = r - 1 / 2 ∨ (num : ℚ) / den = r + 1 / 2 → r % 2 = 0) :
    roundQuotient num den = r := by
  have hden' : (0 : ℚ) < den := Nat.cast_pos.mpr hden
  rw [le_div_iff₀ hden'] at hlow
  rw [div_le_iff₀ hden'] at hhigh
  rw [div_eq_iff hden'.ne', div_eq_iff hden'.ne'] at htie
  refine roundQuotient_eq hden ?_ ?_ fun h => htie ?_
  · qify
    linarith
  · qify
    linarith
  · qify at h
    exact h.imp (fun h => by linarith) (fun h => by linarith)

theorem twoPow_cast (n : Nat) : ((twoPow n : Nat) : ℚ) = 2 ^ n := by
  change ((2 ^ n : Nat) : ℚ) = 2 ^ n
  push_cast
  rfl

theorem zpow_eq_div {base : ℚ} (hbase : base ≠ 0) (n : Int) : base ^ n = base ^ n.toNat / base ^ (-n).toNat := by
  rw [← zpow_natCast, ← zpow_natCast, ← zpow_sub₀ hbase]
  congr 1
  omega

variable {num den : Nat}

theorem scaleDown_pos (hden : 0 < den) (exponent : Int) : 0 < (scaleDown num den exponent).2 :=
  Nat.mul_pos hden (Nat.pow_pos (by decide))

theorem scaleDown_eq (num den : Nat) (exponent : Int) :
    ((scaleDown num den exponent).1 : ℚ) / (scaleDown num den exponent).2 = num / den / 2 ^ exponent := by
  rw [scaleDown, zpow_eq_div two_ne_zero, ← twoPow_cast, ← twoPow_cast]
  push_cast
  rw [div_div_div_eq]

theorem log_bounds (hnum : 0 < num) (hden : 0 < den) :
    (num.log2 : Int) - den.log2 - 1 ≤ Int.log 2 ((num : ℚ) / den) ∧
      Int.log 2 ((num : ℚ) / den) ≤ (num.log2 : Int) - den.log2 := by
  have hnum' : (0 : ℚ) < num := Nat.cast_pos.mpr hnum
  have hden' : (0 : ℚ) < den := Nat.cast_pos.mpr hden
  have hnumLow : (2 : ℚ) ^ (num.log2 : Int) ≤ num := by
    rw [zpow_natCast]
    exact_mod_cast Nat.log2_self_le hnum.ne'
  have hnumHigh : (num : ℚ) < 2 ^ ((num.log2 : Int) + 1) := by
    rw [← Nat.cast_one, ← Nat.cast_add, zpow_natCast]
    exact_mod_cast Nat.lt_log2_self
  have hdenLow : (2 : ℚ) ^ (den.log2 : Int) ≤ den := by
    rw [zpow_natCast]
    exact_mod_cast Nat.log2_self_le hden.ne'
  have hdenHigh : (den : ℚ) < 2 ^ ((den.log2 : Int) + 1) := by
    rw [← Nat.cast_one, ← Nat.cast_add, zpow_natCast]
    exact_mod_cast Nat.lt_log2_self
  constructor
  · refine (Int.zpow_le_iff_le_log (by decide) (div_pos hnum' hden')).mp ?_
    rw [le_div_iff₀ hden']
    calc (2 : ℚ) ^ ((num.log2 : Int) - den.log2 - 1) * den
        ≤ 2 ^ ((num.log2 : Int) - den.log2 - 1) * 2 ^ ((den.log2 : Int) + 1) := by gcongr
      _ = 2 ^ (num.log2 : Int) := by rw [← zpow_add₀ two_ne_zero]; ring_nf
      _ ≤ num := hnumLow
  · refine Int.lt_add_one_iff.mp ((Int.lt_zpow_iff_log_lt (by decide) (div_pos hnum' hden')).mp ?_)
    rw [div_lt_iff₀ hden']
    calc (num : ℚ) < 2 ^ ((num.log2 : Int) + 1) := hnumHigh
      _ = 2 ^ ((num.log2 : Int) - den.log2 + 1) * 2 ^ (den.log2 : Int) := by
        rw [← zpow_add₀ two_ne_zero]; ring_nf
      _ ≤ 2 ^ ((num.log2 : Int) - den.log2 + 1) * den := by gcongr

-- The last bit of a significand of 53 bits, or the least one there is.
theorem lastBit_eq (hnum : 0 < num) (hden : 0 < den) :
    lastBit num den = max leastExponent (Int.log 2 ((num : ℚ) / den) - 52) := by
  obtain ⟨hlow, hhigh⟩ := log_bounds hnum hden
  have hpos : (0 : ℚ) < (num : ℚ) / den := div_pos (Nat.cast_pos.mpr hnum) (Nat.cast_pos.mpr hden)
  generalize hguess : (num.log2 : Int) - den.log2 - 52 = guess at *
  have hscaled : (scaleDown num den guess).1 < (scaleDown num den guess).2 * twoPow 52 ↔
      Int.log 2 ((num : ℚ) / den) < guess + 52 := by
    have hdown : (0 : ℚ) < (scaleDown num den guess).2 := Nat.cast_pos.mpr (scaleDown_pos hden guess)
    rw [← Int.lt_zpow_iff_log_lt (by decide) hpos, Nat.cast_ofNat, add_comm guess 52, zpow_add₀ two_ne_zero,
      ← div_lt_iff₀ (zpow_pos two_pos guess), ← scaleDown_eq, div_lt_iff₀ hdown, mul_comm]
    rw [← @Nat.cast_lt ℚ, Nat.cast_mul, twoPow_cast]
    rfl
  rw [lastBit, hguess]
  simp only
  split_ifs with h
  · rw [hscaled] at h
    congr 1
    omega
  · rw [hscaled] at h
    congr 1
    omega

-- Counted in a unit of 2 ^ exponent, a number has so many binary digits.
theorem le_log_iff {v : ℚ} (hv : 0 < v) (exponent : Int) (digits : Nat) :
    exponent + digits ≤ Int.log 2 v ↔ 2 ^ digits ≤ v / 2 ^ exponent := by
  rw [← Int.zpow_le_iff_le_log (by decide) hv, Nat.cast_ofNat, add_comm, zpow_add₀ two_ne_zero,
    le_div_iff₀ (zpow_pos two_pos exponent), zpow_natCast]

theorem log_lt_iff {v : ℚ} (hv : 0 < v) (exponent : Int) (digits : Nat) :
    Int.log 2 v < exponent + digits ↔ v / 2 ^ exponent < 2 ^ digits := by
  rw [← not_le, le_log_iff hv, not_le]

-- The lower end of the reals that round to m * 2 ^ q, in quarters of the last bit.
def lowEnd (m : Nat) (q : Int) : Nat := if Shortest.narrowBelow m q then 4 * m - 1 else 4 * m - 2

-- The reals that round to m * 2 ^ q. The ends belong to them when m is even.
structure Rounds (m : Nat) (q : Int) (v : ℚ) : Prop where
  low : (lowEnd m q : ℚ) ≤ v / 2 ^ (q - 2)
  high : v / 2 ^ (q - 2) ≤ 4 * m + 2
  tie : v / 2 ^ (q - 2) = lowEnd m q ∨ v / 2 ^ (q - 2) = 4 * m + 2 → m % 2 = 0

theorem narrowBelow_iff {m : Nat} {q : Int} :
    Shortest.narrowBelow m q = true ↔ m = 2 ^ 52 ∧ q ≠ leastExponent := by
  rw [Shortest.narrowBelow, Bool.and_eq_true, beq_iff_eq, bne_iff_ne]
  rfl

theorem lowEnd_cast {m : Nat} {q : Int} (hm : 0 < m) :
    (lowEnd m q : ℚ) = 4 * m - if Shortest.narrowBelow m q then 1 else 2 := by
  rw [lowEnd]
  split
  · rw [Nat.cast_sub (by omega)]
    push_cast
    rfl
  · rw [Nat.cast_sub (by omega)]
    push_cast
    rfl

theorem Rounds.of_low {m : Nat} {q : Int} {v : ℚ} (h : Rounds m q v) (hm : 0 < m) :
    (4 : ℚ) * m - 2 ≤ v / 2 ^ (q - 2) ∧ (v / 2 ^ (q - 2) = 4 * m - 2 → m % 2 = 0) := by
  have hlow := h.low
  have htie := h.tie
  rw [lowEnd_cast hm] at hlow htie
  split_ifs at hlow htie with hnarrow
  · refine ⟨by linarith, fun _ => ?_⟩
    rw [(narrowBelow_iff.mp hnarrow).1]
    rfl
  · exact ⟨hlow, fun heq => htie (.inl heq)⟩

theorem Rounds.pos {m : Nat} {q : Int} {v : ℚ} (h : Rounds m q v) (hm : 0 < m) : 0 < v := by
  have hone : (1 : ℚ) ≤ m := by exact_mod_cast hm
  have hquarters := (h.of_low hm).1
  have : (0 : ℚ) < v / 2 ^ (q - 2) := by linarith
  exact (div_pos_iff_of_pos_right (zpow_pos two_pos _)).mp this

theorem scaleDown_quarters (num den : Nat) (q : Int) (k : Nat) :
    ((scaleDown num den (q - 2 + k)).1 : ℚ) / (scaleDown num den (q - 2 + k)).2 =
      (num : ℚ) / den / 2 ^ (q - 2) / 2 ^ k := by
  rw [scaleDown_eq, zpow_add₀ two_ne_zero, zpow_natCast, div_div ((num : ℚ) / den)]

-- Counted in the last bit of a double that it rounds to, a quotient rounds to the significand.
theorem Rounds.roundQuotient_scaleDown {m : Nat} {q : Int} (h : Rounds m q ((num : ℚ) / den)) (hm : 0 < m)
    (hden : 0 < den) : roundQuotient (scaleDown num den q).1 (scaleDown num den q).2 = m := by
  have hquarters := scaleDown_quarters num den q 2
  rw [Nat.cast_ofNat, sub_add_cancel] at hquarters
  obtain ⟨hlow, hlowTie⟩ := h.of_low hm
  have hhigh := h.high
  refine roundQuotient_of_rat (scaleDown_pos hden q) ?_ ?_ ?_ <;> rw [hquarters]
  · linarith
  · linarith
  · rintro (heq | heq)
    · exact hlowTie (by linarith)
    · exact h.tie (.inr (by linarith))

-- What rounds to a double without having its last bit lies just below the power of two that it
-- rounds to.
theorem Rounds.below_power {m : Nat} {q : Int} {v : ℚ} (h : Rounds m q v) (hfinite : IsFinite m q) (hm : 0 < m)
    (hlast : max leastExponent (Int.log 2 v - 52) ≠ q) :
    m = 2 ^ 52 ∧ q ≠ leastExponent ∧ v / 2 ^ (q - 2) < 2 ^ 54 := by
  have hpos := h.pos hm
  have hleast := hfinite.least
  have hbounded : (m : ℚ) + 1 ≤ 2 ^ 53 := by exact_mod_cast Nat.succ_le_of_lt hfinite.bounded
  have hbelow : Int.log 2 v < q - 2 + (55 : Nat) := by
    rw [log_lt_iff hpos]
    have := h.high
    linarith
  push_cast at hbelow
  have hq : q ≠ leastExponent := by omega
  have hsmall : v / 2 ^ (q - 2) < 2 ^ 54 := by
    rw [← log_lt_iff hpos]
    push_cast
    omega
  refine ⟨Nat.le_antisymm (Nat.lt_succ_iff.mp ?_) (hfinite.normal.resolve_left hq), hq, hsmall⟩
  have hlow := (h.of_low hm).1
  have : (m : ℚ) < (2 ^ 52 + 1 : Nat) := by
    push_cast
    linarith
  exact_mod_cast this

theorem Rounds.quarters_le {q : Int} {v : ℚ} (h : Rounds (2 ^ 52) q v) (hq : q ≠ leastExponent) :
    (2 : ℚ) ^ 54 - 1 ≤ v / 2 ^ (q - 2) := by
  have hlow := h.low
  rw [lowEnd_cast (by decide), if_pos (narrowBelow_iff.mpr ⟨rfl, hq⟩)] at hlow
  push_cast at hlow
  linarith

theorem nearest_eq {m : Nat} {q : Int} (hfinite : IsFinite m q) (hm : 0 < m) (hnum : 0 < num) (hden : 0 < den)
    (h : Rounds m q ((num : ℚ) / den)) (negative : Bool) :
    nearest negative num den = ofCode negative (codeOf m q) := by
  rw [nearest, if_neg hnum.ne', lastBit_eq hnum hden]
  simp only
  by_cases hlast : max leastExponent (Int.log 2 ((num : ℚ) / den) - 52) = q
  · rw [hlast, h.roundQuotient_scaleDown hm hden, codeOf]
  · -- The last bit is one lower, and the significand rounds up to 2 ^ 53.
    have hpos := h.pos hm
    have hleast := hfinite.least
    obtain ⟨rfl, hq, hsmall⟩ := h.below_power hfinite hm hlast
    have hnear := h.quarters_le hq
    have hlower : max leastExponent (Int.log 2 ((num : ℚ) / den) - 52) = q - 1 := by
      have hlarge : q - 2 + (53 : Nat) ≤ Int.log 2 ((num : ℚ) / den) := by
        rw [le_log_iff hpos]
        linarith
      have hless : Int.log 2 ((num : ℚ) / den) < q - 2 + (54 : Nat) := (log_lt_iff hpos _ _).mpr hsmall
      push_cast at hlarge hless
      omega
    have hround : roundQuotient (scaleDown num den (q - 1)).1 (scaleDown num den (q - 1)).2 = 2 ^ 53 := by
      have hhalves := scaleDown_quarters num den q 1
      rw [Nat.cast_one, show q - 2 + 1 = q - 1 by ring] at hhalves
      refine roundQuotient_of_rat (scaleDown_pos hden _) ?_ ?_ fun _ => rfl
      · rw [hhalves]
        push_cast
        linarith
      · rw [hhalves]
        push_cast
        linarith
    have hstep : (q - leastExponent).toNat = (q - 1 - leastExponent).toNat + 1 := by omega
    rw [hlower, hround, codeOf, hstep, Nat.succ_mul, Nat.add_assoc]
    rfl

end JsonTemplate.Number.Binary64
