import JsonTemplate.Proofs.Number.Decimals

namespace JsonTemplate.Number.Binary64

variable {m k : Nat} {q : Int} {x : Float} {negative : Bool}

theorem value_wholeOf? (h : wholeOf? m q = some k) : (k : ℚ) = m * 2 ^ q := by
  rw [wholeOf?] at h
  split_ifs at h with hq hexact
  · obtain ⟨n, rfl⟩ := Int.eq_ofNat_of_zero_le hq
    cases h
    push_cast [Int.toNat_natCast, twoPow_cast]
    rw [zpow_natCast]
  · obtain ⟨n, hn⟩ := Int.eq_ofNat_of_zero_le (Int.neg_nonneg.mpr (Int.le_of_not_le hq))
    obtain rfl : q = -n := by omega
    cases h
    rw [neg_neg, Int.toNat_natCast] at hexact ⊢
    rw [Nat.cast_div (Nat.dvd_of_mod_eq_zero hexact) (by rw [twoPow_cast]; positivity), twoPow_cast, zpow_neg,
      zpow_natCast, div_eq_mul_inv]

theorem pos_of_value (hm : 0 < m) (hk : (k : ℚ) = m * 2 ^ q) : 0 < k := by
  have hpos : (0 : ℚ) < k := hk ▸ mul_pos (Nat.cast_pos.mpr hm) (zpow_pos two_pos q)
  exact_mod_cast hpos

theorem ne_nan_of_parts {m : Nat} (h : parts x = .finite negative m q) : x ≠ Float.nan := by
  rintro rfl
  have hnan : parts Float.nan = .nan := by decide
  rw [hnan] at h
  cases h

theorem exists_of_integer? {n : Int} (h : integer? x = some n) : ∃ negative m q k,
    parts x = .finite negative m q ∧ wholeOf? m q = some k ∧ n = if negative then -(k : Int) else k := by
  rw [integer?] at h
  split at h
  · rename_i negative m q hparts
    cases hwhole : wholeOf? m q with
    | none =>
        rw [hwhole] at h
        cases h
    | some k =>
        rw [hwhole] at h
        exact ⟨negative, m, q, k, hparts, hwhole, (Option.some.inj h).symm⟩
  · cases h

-- The integer that a double is becomes a double again that is equal to it. Negative zero becomes positive
-- zero, all other doubles become themselves.
theorem ofInt_beq_of_integer? {n : Int} (h : integer? x = some n) : (ofInt n == x) = true := by
  obtain ⟨negative, m, q, k, hparts, hwhole, rfl⟩ := exists_of_integer? h
  have hnumber := ne_nan_of_parts hparts
  obtain ⟨hfinite, rfl⟩ := eq_ofCode_of_parts hparts
  have hvalue := value_wholeOf? hwhole
  rcases Nat.eq_zero_or_pos m with rfl | hm
  · obtain rfl : q = leastExponent := hfinite.normal.resolve_right (by decide)
    obtain rfl : k = 0 := by
      rw [Nat.cast_zero, zero_mul] at hvalue
      exact_mod_cast hvalue
    cases negative <;> decide
  · have hk := pos_of_value hm hvalue
    have hround : Rounds m q ((k : ℚ) / (1 : Nat)) := by
      rw [Nat.cast_one, div_one, hvalue]
      exact Shortest.rounds_exact hm
    have hsign : decide ((if negative then -(k : Int) else k) < 0) = negative := by
      cases negative with
      | false => exact decide_eq_false (by simp)
      | true => exact decide_eq_true (by simpa using hk)
    have hsize : (if negative then -(k : Int) else k).natAbs = k := by cases negative <;> simp
    rw [ofInt, hsign, hsize, nearest_eq hfinite hm hk Nat.one_pos hround, Float.beq_self_iff]
    exact hnumber

end JsonTemplate.Number.Binary64
