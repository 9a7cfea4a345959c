import JsonTemplate.Proofs.Number.Indices
import JsonTemplate.Proofs.Number.Shortest
import JsonTemplate.Value.Conversion

namespace JsonTemplate.Number

namespace Style

open Numeral Binary64

variable {ds text : List Char} {m : Nat} {q : Int}

-- The digits of a text before its exponent, from the first that is not zero.
def leadingDigits (text : List Char) : List Char :=
  ((text.takeWhile (· ≠ 'e')).filter Char.isDigit).dropWhile (· = '0')

-- Digits that do not begin with a zero.
structure Leads (ds : List Char) : Prop where
  digits : ∀ c ∈ ds, c.isDigit = true
  head : ∃ c rest, ds = c :: rest ∧ c ≠ '0'

theorem leads_toDigits {n : Nat} (hn : 0 < n) : Leads (Nat.toDigits 10 n) := by
  obtain ⟨c, rest, heq⟩ := List.exists_cons_of_ne_nil (Nat.toDigits_ne_nil (b := 10) (n := n))
  refine ⟨isDigit_toDigits n, c, rest, heq, ?_⟩
  rintro rfl
  exact head?_toDigits_ne hn (by rw [heq]; rfl)

theorem leads_withoutEndZeros {n : Nat} (hn : 0 < n) : Leads (withoutEndZeros (Nat.toDigits 10 n)) := by
  refine ⟨isDigit_withoutEndZeros n, ?_⟩
  obtain ⟨c, rest, heq, hc⟩ := (leads_toDigits hn).head
  obtain ⟨count, hcount⟩ := exists_zeros (Nat.toDigits 10 n)
  obtain ⟨d, rest', hds⟩ := List.exists_cons_of_ne_nil (withoutEndZeros_ne_nil hn)
  rw [hds, heq] at hcount
  exact ⟨d, rest', hds, (List.cons.inj hcount).1 ▸ hc⟩

theorem Leads.dropWhile (h : Leads ds) (rest : List Char) : (ds ++ rest).dropWhile (· = '0') = ds ++ rest := by
  obtain ⟨c, tail, rfl, hc⟩ := h.head
  rw [List.cons_append, List.dropWhile_cons, if_neg (by simpa using hc)]

theorem Leads.dropWhile_self (h : Leads ds) : ds.dropWhile (· = '0') = ds := by
  have hself := h.dropWhile []
  rwa [List.append_nil] at hself

theorem e_not_mem_digits (h : ∀ c ∈ ds, c.isDigit = true) : 'e' ∉ ds := fun hmem => by cases h 'e' hmem

theorem filter_isDigit (h : ∀ c ∈ ds, c.isDigit = true) : ds.filter Char.isDigit = ds := List.filter_eq_self.mpr h

theorem leadingDigits_of_e_not_mem (h : 'e' ∉ text) :
    leadingDigits text = (text.filter Char.isDigit).dropWhile (· = '0') := by
  have htext : ∀ c ∈ text, decide (c ≠ 'e') = true := fun c hc => decide_eq_true fun heq => h (heq ▸ hc)
  rw [leadingDigits, List.takeWhile_eq_self_iff.mpr htext]

-- The exponent does not count.
theorem leadingDigits_append (h : 'e' ∉ text) (rest : List Char) :
    leadingDigits (text ++ 'e' :: rest) = leadingDigits text := by
  have htext : ∀ c ∈ text, decide (c ≠ 'e') = true := fun c hc => decide_eq_true fun heq => h (heq ▸ hc)
  have hmark : ('e' :: rest).takeWhile (· ≠ 'e') = [] := by simp
  rw [leadingDigits_of_e_not_mem h, leadingDigits, List.takeWhile_append_of_pos htext, hmark, List.append_nil]

theorem e_not_mem_pointAfter (h : ∀ c ∈ ds, c.isDigit = true) (places : Int) : 'e' ∉ pointAfter ds places false := by
  have hds := e_not_mem_digits h
  have hzeros (count : Nat) := e_not_mem_digits (isDigit_zeros count)
  have htake (count : Nat) : 'e' ∉ ds.take count := fun hmem => hds (List.mem_of_mem_take hmem)
  have hdrop (count : Nat) : 'e' ∉ ds.drop count := fun hmem => hds (List.mem_of_mem_drop hmem)
  rw [pointAfter]
  simp only [Bool.false_eq_true, if_false, List.append_nil]
  split_ifs
  · simp [hds, hzeros]
  · simp [htake, hdrop]
  · simp [hds, hzeros]

-- The zeros that stand before the digits do not count, those that stand after them do.
theorem leadingDigits_pointAfter (h : Leads ds) (places : Int) :
    leadingDigits (pointAfter ds places false) = ds ++ zeros (places - ds.length).toNat := by
  rw [leadingDigits_of_e_not_mem (e_not_mem_pointAfter h.digits places), pointAfter]
  simp only [Bool.false_eq_true, if_false, List.append_nil]
  have hself := h.dropWhile_self
  split_ifs with hlong hinside
  · rw [filter_isDigit (List.forall_mem_append.mpr ⟨h.digits, isDigit_zeros _⟩), h.dropWhile]
  · have hzero : (places - ds.length).toNat = 0 := by omega
    have htake : ∀ c ∈ ds.take places.toNat, c.isDigit = true := fun c hc => h.digits c (List.mem_of_mem_take hc)
    have hdrop : ∀ c ∈ ds.drop places.toNat, c.isDigit = true := fun c hc => h.digits c (List.mem_of_mem_drop hc)
    have hpoint : ('.' :: ds.drop places.toNat).filter Char.isDigit = ds.drop places.toNat := filter_isDigit hdrop
    rw [List.filter_append, filter_isDigit htake, hpoint, List.take_append_drop, hself, hzero, zeros,
      List.replicate_zero, List.append_nil]
  · have hzero : (places - ds.length).toNat = 0 := by omega
    have hfilter : ('0' :: '.' :: zeros (-places).toNat ++ ds).filter Char.isDigit =
        zeros ((-places).toNat + 1) ++ ds :=
      congrArg _ (filter_isDigit (List.forall_mem_append.mpr ⟨isDigit_zeros _, h.digits⟩))
    rw [hfilter, dropWhile_zeros_append, hself, hzero, zeros, List.replicate_zero, List.append_nil]

theorem leadingDigits_withExponent (h : Leads ds) (exponent : Int) : leadingDigits (withExponent ds exponent) = ds := by
  obtain ⟨mantissa, marks, htext, he, hfilter⟩ : ∃ mantissa marks, withExponent ds exponent = mantissa ++ 'e' :: marks ∧
      'e' ∉ mantissa ∧ mantissa.filter Char.isDigit = ds := by
    have he := e_not_mem_digits h.digits
    have hdigits := filter_isDigit h.digits
    rcases ds with _ | ⟨first, _ | ⟨second, rest⟩⟩
    · exact ⟨_, _, rfl, he, hdigits⟩
    · exact ⟨_, _, rfl, he, hdigits⟩
    · refine ⟨first :: '.' :: second :: rest, _, rfl, by simpa using he, ?_⟩
      rw [List.filter_cons, if_pos (h.digits first List.mem_cons_self)] at hdigits ⊢
      exact hdigits
  rw [htext, leadingDigits_append he, leadingDigits_of_e_not_mem he, hfilter, h.dropWhile_self]

theorem e_mem_withExponent (ds : List Char) (exponent : Int) : 'e' ∈ withExponent ds exponent := by
  simp [withExponent]

-- How many digits of a decimal stand before its point, below zero how many zeros stand after it.
def places (d : Decimal) : Int := (Nat.toDigits 10 d.digits).length + d.exponent

theorem value_bounds {d : Decimal} (hd : 0 < d.digits) :
    (10 : ℚ) ^ (places d - 1) ≤ d.value ∧ d.value < 10 ^ places d := by
  obtain ⟨hlow, hhigh, hlength⟩ := Shortest.decimalLength_bounds hd
  have hpower : (0 : ℚ) < 10 ^ d.exponent := zpow_pos (by norm_num) _
  have hsplit : (10 : ℚ) ^ places d = 10 ^ Shortest.decimalLength d.digits * 10 ^ d.exponent := by
    rw [places, zpow_add₀ (by norm_num), zpow_natCast]
    rfl
  have hsplit' : (10 : ℚ) ^ (places d - 1) = 10 ^ (Shortest.decimalLength d.digits - 1) * 10 ^ d.exponent := by
    rw [← zpow_natCast, ← zpow_add₀ (by norm_num), places, Nat.cast_sub hlength, Shortest.decimalLength]
    congr 1
    push_cast
    ring
  rw [hsplit, hsplit', Decimal.value]
  exact ⟨mul_le_mul_of_nonneg_right (by exact_mod_cast hlow) hpower.le,
    mul_lt_mul_of_pos_right (by exact_mod_cast hhigh) hpower⟩

theorem plain_iff {d : Decimal} (hd : 0 < d.digits) :
    Style.text.plain (places d - 1) = true ↔ (10 : ℚ) ^ (-6 : Int) ≤ d.value ∧ d.value < 10 ^ (21 : Int) := by
  obtain ⟨hlow, hhigh⟩ := value_bounds hd
  have hplain : Style.text.plain (places d - 1) = true ↔ -6 ≤ places d - 1 ∧ places d ≤ 21 := by
    change decide (-6 ≤ places d - 1 ∧ places d - 1 ≤ 20) = true ↔ _
    rw [decide_eq_true_iff]
    omega
  have hten : (1 : ℚ) < 10 := by norm_num
  rw [hplain]
  refine and_congr ⟨fun h => ?_, fun h => ?_⟩ ⟨fun h => ?_, fun h => ?_⟩
  · exact (zpow_le_zpow_right₀ hten.le h).trans hlow
  · have := (zpow_lt_zpow_iff_right₀ hten).mp (h.trans_lt hhigh)
    omega
  · exact hhigh.trans_le (zpow_le_zpow_right₀ hten.le h)
  · have := (zpow_lt_zpow_iff_right₀ hten).mp (hlow.trans_lt h)
    omega

section

variable (hm : 0 < m)

include hm

theorem writeFinite_whole {n : Nat} (hplain : Style.text.plain (places (Shortest.decimal .up m q) - 1) = true)
    (hwhole : wholeOf? m q = some n) : Style.text.writeFinite m q = Nat.toDigits 10 n := by
  have hself : pointAfter (Nat.toDigits 10 n) (Nat.toDigits 10 n).length false = Nat.toDigits 10 n := by
    simp [pointAfter, zeros]
  rw [writeFinite, if_neg hm.ne']
  refine (if_pos hplain).trans ?_
  rw [hwhole]
  exact hself

theorem writeFinite_broken (hplain : Style.text.plain (places (Shortest.decimal .up m q) - 1) = true)
    (hwhole : wholeOf? m q = none) : Style.text.writeFinite m q =
      pointAfter (withoutEndZeros (Nat.toDigits 10 (Shortest.decimal .up m q).digits))
        (places (Shortest.decimal .up m q)) false := by
  rw [writeFinite, if_neg hm.ne']
  refine (if_pos hplain).trans ?_
  rw [hwhole]
  rfl

theorem writeFinite_exponent (hplain : ¬Style.text.plain (places (Shortest.decimal .up m q) - 1) = true) :
    Style.text.writeFinite m q =
      withExponent (withoutEndZeros (Nat.toDigits 10 (Shortest.decimal .up m q).digits))
        (places (Shortest.decimal .up m q) - 1) := by
  rw [writeFinite, if_neg hm.ne']
  exact if_neg hplain

theorem e_not_mem_writeFinite_iff :
    'e' ∉ Style.text.writeFinite m q ↔ Style.text.plain (places (Shortest.decimal .up m q) - 1) = true := by
  constructor
  · intro h
    by_contra hplain
    rw [writeFinite_exponent hm hplain] at h
    exact h (e_mem_withExponent _ _)
  · intro hplain
    cases hwhole : wholeOf? m q with
    | some n =>
        rw [writeFinite_whole hm hplain hwhole]
        exact e_not_mem_digits (isDigit_toDigits n)
    | none =>
        rw [writeFinite_broken hm hplain hwhole]
        exact e_not_mem_pointAfter (isDigit_withoutEndZeros _) _

-- The shortest decimal of a double that is no integer is none either, so no zeros fill it up.
theorem places_lt (hwhole : wholeOf? m q = none) : places (Shortest.decimal .up m q) <
    (withoutEndZeros (Nat.toDigits 10 (Shortest.decimal .up m q).digits)).length := by
  by_contra hle
  have hround := Shortest.rounds_decimal .up (q := q) hm
  rw [value_eq_withoutEndZeros] at hround
  change Rounds m q (_ * 10 ^ (places _ - _)) at hround
  obtain ⟨t, ht⟩ := Int.eq_ofNat_of_zero_le (Int.sub_nonneg.mpr (not_lt.mp hle))
  rw [ht, zpow_natCast] at hround
  have hq : q ≤ 0 := by
    by_contra hq
    rw [wholeOf?, if_pos (by omega)] at hwhole
    cases hwhole
  have hnatural := Shortest.eq_of_rounds_natural (n := value _ * 10 ^ t) hq hm (by push_cast; exact hround)
  rw [wholeOf?_eq_some_iff.mpr hnatural] at hwhole
  cases hwhole

theorem leadingDigits_whole {n : Nat} (hplain : 'e' ∉ Style.text.writeFinite m q) (hwhole : wholeOf? m q = some n) :
    leadingDigits (Style.text.writeFinite m q) = Nat.toDigits 10 n := by
  have hleads := leads_toDigits (pos_of_value hm (value_wholeOf? hwhole))
  rw [writeFinite_whole hm ((e_not_mem_writeFinite_iff hm).mp hplain) hwhole,
    leadingDigits_of_e_not_mem (e_not_mem_digits hleads.digits), filter_isDigit hleads.digits, hleads.dropWhile_self]

-- Except in integers without an exponent, the digits are those of the shortest decimal.
theorem leadingDigits_shortest (h : 'e' ∈ Style.text.writeFinite m q ∨ wholeOf? m q = none) :
    leadingDigits (Style.text.writeFinite m q) =
      withoutEndZeros (Nat.toDigits 10 (Shortest.decimal .up m q).digits) := by
  have hleads := leads_withoutEndZeros (Shortest.decimal_digits_pos .up (q := q) hm)
  by_cases hplain : Style.text.plain (places (Shortest.decimal .up m q) - 1) = true
  · have hwhole := h.resolve_left ((e_not_mem_writeFinite_iff hm).mpr hplain)
    have hplaces := places_lt hm hwhole
    rw [writeFinite_broken hm hplain hwhole, leadingDigits_pointAfter hleads, Int.toNat_eq_zero.mpr (by omega), zeros,
      List.replicate_zero, List.append_nil]
  · rw [writeFinite_exponent hm hplain, leadingDigits_withExponent hleads]

end

end Style

-- How many digits a decimal has, without zeros at either end.
def Decimal.size (d : Decimal) : Nat := (Style.withoutEndZeros (Nat.toDigits 10 d.digits)).length

-- The decimal, with the sign of the double, is read as it.
def Decimal.ReadsAs (d : Decimal) (x : Float) : Prop :=
  Binary64.ofDecimal (Binary64.isNegative x) d.digits d.exponent = x

end JsonTemplate.Number

namespace JsonTemplate.Value

open Number Number.Binary64 Number.Style

variable {x : Float} {negative : Bool} {m : Nat} {q : Int} {d : Decimal}

-- The digits that are printed for a number, from the first that is not zero. In integers the zeros at the end do
-- not count.
def significantDigits (x : Float) : List Char :=
  let digits := leadingDigits (number x).text.toList
  if (integer? x).isSome then withoutEndZeros digits else digits

-- No decimal that is read as the number has fewer digits.
def PrintsFewestDigits (x : Float) : Prop := ∀ d : Decimal, d.ReadsAs x → (significantDigits x).length ≤ d.size

-- No exponent is printed for the doubles from 1e-6 up to below 1e21, and one is printed for all others.
def PrintsPlainlyInRange (x : Float) : Prop :=
  ∃ v low high, HasValue x v ∧ HasValue (ofDecimal false 1 (-6)) low ∧ HasValue (ofDecimal false 1 21) high ∧
    ('e' ∉ (number x).text.toList ↔ low ≤ |v| ∧ |v| < high)

theorem size_le_iff {s : Nat} (hd : 0 < d.digits) : d.size ≤ s ↔ Shortest.Significant d.digits s :=
  (significant_iff hd).symm

section

variable (hparts : parts x = .finite negative m q) (hm : 0 < m)

include hparts hm

theorem readsAs_iff : d.ReadsAs x ↔ Rounds m q d.value := by
  obtain ⟨hfinite, rfl⟩ := eq_ofCode_of_parts hparts
  rw [Decimal.ReadsAs, isNegative_ofCode negative (codeOf_lt hfinite).le]
  exact ⟨rounds_of_ofDecimal hfinite hm, fun h => ofDecimal_eq hfinite hm h negative⟩

theorem toList_text : (number x).text.toList = (if negative then ['-'] else []) ++ Style.text.writeFinite m q := by
  have hwrite : (number x).text = Style.text.write x := rfl
  have hsign : (negative && (Style.text.signedZero || m != 0)) = negative := by
    rw [bne_iff_ne.mpr hm.ne', Bool.or_true, Bool.and_true]
  rw [hwrite, Style.write, hparts]
  simp only [String.toList_ofList, hsign]

theorem e_not_mem_text_iff : 'e' ∉ (number x).text.toList ↔ 'e' ∉ Style.text.writeFinite m q := by
  rw [toList_text hparts hm]
  cases negative <;> simp

theorem leadingDigits_text : leadingDigits (number x).text.toList = leadingDigits (Style.text.writeFinite m q) := by
  rw [toList_text hparts hm]
  cases negative <;> rfl

theorem significantDigits_whole {n : Nat} (hplain : 'e' ∉ (number x).text.toList) (hwhole : wholeOf? m q = some n) :
    (significantDigits x).length = (⟨n, 0⟩ : Decimal).size := by
  have hinteger : (integer? x).isSome = true := by simp [integer?, hparts, hwhole]
  rw [e_not_mem_text_iff hparts hm] at hplain
  rw [significantDigits]
  simp only [hinteger, if_true]
  rw [leadingDigits_text hparts hm, leadingDigits_whole hm hplain hwhole, Decimal.size]

theorem significantDigits_shortest (h : 'e' ∈ (number x).text.toList ∨ wholeOf? m q = none) :
    (significantDigits x).length = (Shortest.decimal .up m q).size := by
  have hform : 'e' ∈ Style.text.writeFinite m q ∨ wholeOf? m q = none :=
    h.imp_left fun hmem => not_not.mp (mt (e_not_mem_text_iff hparts hm).mpr (not_not.mpr hmem))
  rw [significantDigits, leadingDigits_text hparts hm, leadingDigits_shortest hm hform, Decimal.size]
  split_ifs
  · rw [withoutEndZeros_self]
  · rfl

end

-- The double that is nearest to a power of ten, if this power is the shortest decimal that it has.
theorem hasValue_power {power : Int} (hfinite : IsFinite m q) (hm : 0 < m)
    (hpower : (Shortest.decimal .up m q).value = 10 ^ power) : HasValue (ofDecimal false 1 power) (m * 2 ^ q) := by
  have hround := Shortest.rounds_decimal .up (q := q) hm
  rw [hpower, ← one_mul ((10 : ℚ) ^ power), ← Nat.cast_one] at hround
  rw [ofDecimal_eq hfinite hm hround]
  exact hasValue_of_parts (parts_ofCode hfinite false)

-- The double lies below the real number, but has it for its shortest decimal.
theorem decimal_millionth : (Shortest.decimal .up 4722366482869645 (-72)).value = 10 ^ (-6 : Int) := by
  have hdecimal : Shortest.decimal .up 4722366482869645 (-72) = ⟨10, -7⟩ := by decide +kernel
  rw [hdecimal, Decimal.value]
  norm_num

theorem decimal_trilliard : (Shortest.decimal .up 7629394531250000 17).value = 10 ^ (21 : Int) := by
  have hdecimal : Shortest.decimal .up 7629394531250000 17 = ⟨1, 21⟩ := by decide +kernel
  rw [hdecimal, Decimal.value, Nat.cast_one, one_mul]

theorem isFinite_millionth : IsFinite 4722366482869645 (-72) := ⟨by decide, by decide, by decide, .inr (by decide)⟩

theorem isFinite_trilliard : IsFinite 7629394531250000 17 := ⟨by decide, by decide, by decide, .inr (by decide)⟩

theorem e_not_mem_text_iff_value (hparts : parts x = .finite negative m q) (hm : 0 < m) :
    'e' ∉ (number x).text.toList ↔
      ((4722366482869645 : Nat) : ℚ) * 2 ^ (-72 : Int) ≤ m * 2 ^ q ∧
        (m : ℚ) * 2 ^ q < ((7629394531250000 : Nat) : ℚ) * 2 ^ (17 : Int) := by
  have hfinite := (eq_ofCode_of_parts hparts).1
  rw [e_not_mem_text_iff hparts hm, e_not_mem_writeFinite_iff hm, plain_iff (Shortest.decimal_digits_pos .up hm),
    Shortest.ten_zpow_le_decimal_iff hfinite hm isFinite_millionth (by decide) decimal_millionth, ← not_le,
    Shortest.ten_zpow_le_decimal_iff hfinite hm isFinite_trilliard (by decide) decimal_trilliard, not_le]

theorem abs_signed {v : ℚ} (hv : 0 ≤ v) (negative : Bool) : |(if negative then -1 else 1) * v| = v := by
  cases negative <;> simp [abs_of_nonneg hv]

theorem natAbs_signed (negative : Bool) (k : Nat) : (if negative then -(k : Int) else k).natAbs = k := by
  cases negative <;> simp

theorem printsPlainlyInRange (hparts : parts x = .finite negative m q) (hm : 0 < m) : PrintsPlainlyInRange x := by
  refine ⟨_, _, _, ⟨negative, m, q, hparts, rfl⟩, hasValue_power isFinite_millionth (by decide) decimal_millionth,
    hasValue_power isFinite_trilliard (by decide) decimal_trilliard, ?_⟩
  rw [abs_signed (by positivity)]
  exact e_not_mem_text_iff_value hparts hm

-- Integers up to this size have a last bit of at most one.
theorem exponent_le_of_small {n : Nat} (hfinite : IsFinite m q) (hn : (n : ℚ) = m * 2 ^ q) (hsmall : n < 2 ^ 53) :
    q ≤ 0 := by
  by_contra hq
  have hleast : q ≠ leastExponent := by
    rw [leastExponent]
    omega
  have hnormal : 2 ^ 52 ≤ m := hfinite.normal.resolve_left hleast
  obtain ⟨k, hk⟩ := Int.eq_ofNat_of_zero_le (not_le.mp hq).le
  subst hk
  rw [zpow_natCast] at hn
  have heq : n = m * 2 ^ k := by exact_mod_cast hn
  have htwo : 2 ≤ 2 ^ k := Nat.le_self_pow (by omega) 2
  have := Nat.mul_le_mul hnormal htwo
  omega

section

variable (hparts : parts x = .finite negative m q) (hm : 0 < m)

include hparts hm

-- Integers are printed without an exponent below 1e21.
theorem e_not_mem_text_iff_lt {k : Nat} (hk : (k : ℚ) = m * 2 ^ q) :
    'e' ∉ (number x).text.toList ↔ k < 10 ^ 21 := by
  have hone : (1 : ℚ) ≤ k := by exact_mod_cast pos_of_value hm hk
  have hlow : ((4722366482869645 : Nat) : ℚ) * 2 ^ (-72 : Int) ≤ 1 := by norm_num
  have hhigh : ((7629394531250000 : Nat) : ℚ) * 2 ^ (17 : Int) = (10 ^ 21 : Nat) := by norm_num
  rw [e_not_mem_text_iff_value hparts hm, ← hk, hhigh, Nat.cast_lt]
  exact and_iff_right (hlow.trans hone)

-- The digits of a decimal that is read as the double, without the zeros at their end.
theorem exists_rounds_of_readsAs (hd : d.ReadsAs x) :
    ∃ (c : Nat) (e : Int), c < 10 ^ d.size ∧ Rounds m q (c * 10 ^ e) := by
  have hround := (readsAs_iff hparts hm).mp hd
  obtain ⟨c, t, heq, hc⟩ := (size_le_iff (hround.digits_pos hm)).mp (Nat.le_refl _)
  rw [Decimal.value, heq, mul_pow_mul_zpow] at hround
  exact ⟨c, t + d.exponent, hc, hround⟩

theorem size_shortest_le (hd : d.ReadsAs x) : (Shortest.decimal .up m q).size ≤ d.size := by
  obtain ⟨c, e, hc, hround⟩ := exists_rounds_of_readsAs hparts hm hd
  have hbounded := (eq_ofCode_of_parts hparts).1.bounded
  exact (size_le_iff (Shortest.decimal_digits_pos .up hm)).mpr
    (Shortest.significant_decimal .up hm hbounded hc hround)

theorem size_whole_le {k : Nat} (hk : (k : ℚ) = m * 2 ^ q) (hsmall : k < 2 ^ 53) (hd : d.ReadsAs x) :
    (⟨k, 0⟩ : Decimal).size ≤ d.size := by
  obtain ⟨c, e, hc, hround⟩ := exists_rounds_of_readsAs hparts hm hd
  have hq := exponent_le_of_small (eq_ofCode_of_parts hparts).1 hk hsmall
  exact (size_le_iff (pos_of_value hm hk)).mpr (Shortest.significant_integer hq hm hk hc hround)

end

-- The digits that are printed are the fewest, unless the number is an integer below 1e21. Of such an integer all
-- digits are printed, which are not the fewest just if another decimal that is read as the integer has fewer. No
-- integer below 2^53 has such a decimal.
theorem number_text_shortest_iff (x : Float) (v : ℚ) (hvalue : HasValue x v) (hv : v ≠ 0) :
    PrintsPlainlyInRange x ∧
      (PrintsFewestDigits x ↔ ∀ (n : Int) (d : Decimal), integer? x = some n → 2 ^ 53 ≤ n.natAbs →
        n.natAbs < 10 ^ 21 → d.ReadsAs x → (⟨n.natAbs, 0⟩ : Decimal).size ≤ d.size) := by
  obtain ⟨negative, m, q, hparts, rfl⟩ := hvalue
  have hm : 0 < m := by
    rw [Nat.pos_iff_ne_zero]
    rintro rfl
    simp at hv
  refine ⟨printsPlainlyInRange hparts hm, fun hfewest n d hinteger hlarge hsmall hd => ?_, fun hcond d hd => ?_⟩
  · obtain ⟨_, _, _, k, hparts', hwhole, rfl⟩ := exists_of_integer? hinteger
    rw [hparts] at hparts'
    cases hparts'
    rw [natAbs_signed] at hsmall ⊢
    have hplain := (e_not_mem_text_iff_lt hparts hm (value_wholeOf? hwhole)).mpr hsmall
    rw [← significantDigits_whole hparts hm hplain hwhole]
    exact hfewest d hd
  · by_cases hform : 'e' ∈ (number x).text.toList ∨ wholeOf? m q = none
    · rw [significantDigits_shortest hparts hm hform]
      exact size_shortest_le hparts hm hd
    · rw [not_or] at hform
      obtain ⟨hplain, hwhole⟩ := hform
      obtain ⟨k, hwhole⟩ := Option.ne_none_iff_exists'.mp hwhole
      have hk := value_wholeOf? hwhole
      rw [significantDigits_whole hparts hm hplain hwhole]
      rcases Nat.lt_or_ge k (2 ^ 53) with hsmall | hlarge
      · exact size_whole_le hparts hm hk hsmall hd
      · have hinteger : integer? x = some (if negative then -(k : Int) else k) := by simp [integer?, hparts, hwhole]
        have hfewest := hcond _ d hinteger
        rw [natAbs_signed] at hfewest
        exact hfewest hlarge ((e_not_mem_text_iff_lt hparts hm hk).mp hplain) hd

-- The least positive double.
theorem number_text_shortest_of_least :
    HasValue (ofCode false 1) ((1 : Nat) * 2 ^ leastExponent) ∧ ((1 : Nat) : ℚ) * 2 ^ leastExponent ≠ 0 ∧
      PrintsPlainlyInRange (ofCode false 1) ∧ PrintsFewestDigits (ofCode false 1) := by
  have hvalue : HasValue (ofCode false 1) ((1 : Nat) * 2 ^ leastExponent) :=
    hasValue_of_parts (by decide)
  have hne : ((1 : Nat) : ℚ) * 2 ^ leastExponent ≠ 0 :=
    mul_ne_zero (by norm_num) (zpow_ne_zero _ two_ne_zero)
  have hinteger : integer? (ofCode false 1) = none := by decide +kernel
  obtain ⟨hplain, hfewest⟩ := number_text_shortest_iff (ofCode false 1) _ hvalue hne
  refine ⟨hvalue, hne, hplain, hfewest.mpr fun n d hn => ?_⟩
  rw [hinteger] at hn
  cases hn

-- All 19 digits of 2^60 are printed, where 16 of them and three zeros are read as it.
theorem not_forall_number_text_shortest :
    ¬∀ x v, HasValue x v → v ≠ 0 → PrintsPlainlyInRange x ∧ PrintsFewestDigits x := by
  intro h
  have hfinite : IsFinite (2 ^ 52) 8 := ⟨by decide, by decide, by decide, .inr (by decide)⟩
  have hparts := parts_ofCode hfinite false
  have hm : 0 < 2 ^ 52 := by decide
  have hvalue : ((2 ^ 60 : Nat) : ℚ) = (2 ^ 52 : Nat) * 2 ^ (8 : Int) := by norm_num
  have hplain := (e_not_mem_text_iff_lt hparts hm hvalue).mpr (by decide)
  have hprinted := significantDigits_whole hparts hm hplain (wholeOf?_eq_some_iff.mpr hvalue)
  have hread : (⟨1152921504606847, 3⟩ : Decimal).ReadsAs (ofCode false (codeOf (2 ^ 52) 8)) :=
    (readsAs_iff hparts hm).mpr (Shortest.readsBack_iff.mp (by decide +kernel))
  have hsize : (⟨2 ^ 60, 0⟩ : Decimal).size = 19 := by decide +kernel
  have hsize' : (⟨1152921504606847, 3⟩ : Decimal).size = 16 := by decide +kernel
  have hnonzero : (if false then -1 else 1) * (((2 ^ 52 : Nat) : ℚ) * 2 ^ (8 : Int)) ≠ 0 := by norm_num
  have hfewest := (h _ _ ⟨false, 2 ^ 52, 8, hparts, rfl⟩ hnonzero).2 _ hread
  rw [hprinted, hsize, hsize'] at hfewest
  exact absurd hfewest (by decide)

end JsonTemplate.Value
