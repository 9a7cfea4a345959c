import JsonTemplate.Number.Style
import JsonTemplate.Proofs.Number.Integers
import JsonTemplate.Proofs.Number.Notation

namespace JsonTemplate.Number.Numeral

-- A numeral without a sign: digits, a point and further digits if there are any, and an exponent.
structure Form where
  whole : List Char
  fraction : List Char
  exponent : Option Int

namespace Form

def fractionText (form : Form) : List Char := if form.fraction = [] then [] else '.' :: form.fraction

def exponentText (form : Form) : List Char :=
  match form.exponent with
  | none => []
  | some e => 'e' :: (if 0 ≤ e then '+' else '-') :: (Nat.repr e.natAbs).toList

def text (form : Form) : List Char := form.whole ++ form.fractionText ++ form.exponentText

structure WellFormed (form : Form) : Prop where
  nonempty : form.whole ≠ []
  whole : ∀ c ∈ form.whole, c.isDigit = true
  fraction : ∀ c ∈ form.fraction, c.isDigit = true

-- The decimal that the numeral names.
def decimal (form : Form) : Decimal :=
  ⟨Numeral.value (form.whole ++ form.fraction), form.exponent.getD 0 - form.fraction.length⟩

end Form

namespace Form

theorem endsDigits_exponentText (form : Form) {rest : List Char} (hrest : EndsDigits rest) :
    EndsDigits (form.exponentText ++ rest) := by
  unfold exponentText
  split
  · exact hrest
  · exact endsDigits_cons rfl

theorem endsDigits_fractionText (form : Form) {rest : List Char} (hrest : EndsDigits rest) :
    EndsDigits (form.fractionText ++ (form.exponentText ++ rest)) := by
  rw [fractionText]
  split
  · exact form.endsDigits_exponentText hrest
  · exact endsDigits_cons rfl

theorem isExponent_exponentText (form : Form) : IsExponent form.exponentText (form.exponent.getD 0) := by
  unfold exponentText
  cases form.exponent with
  | none => exact .absent
  | some e =>
      have hdigits : IsDigits (Nat.toDigits 10 e.natAbs) := ⟨Nat.toDigits_ne_nil, isDigit_toDigits _⟩
      simp only [Nat.toList_repr, Option.getD_some]
      by_cases he : 0 ≤ e
      · have h := IsExponent.present (.inl rfl) .plus hdigits
        rw [value_toDigits, if_neg Bool.false_ne_true, Int.natAbs_of_nonneg he] at h
        rwa [if_pos he]
      · have h := IsExponent.present (.inl rfl) .minus hdigits
        rw [value_toDigits, if_pos rfl, Int.ofNat_natAbs_of_nonpos (by omega), neg_neg] at h
        rwa [if_neg he]

theorem denotes_text {form : Form} (h : form.WellFormed) : Denotes form.text form.decimal := by
  have hwhole : IsDigits form.whole := ⟨h.nonempty, h.whole⟩
  refine .intro ?_ form.isExponent_exponentText
  rw [fractionText]
  split_ifs with hfraction
  · rw [hfraction, List.append_nil]
    exact .whole hwhole
  · exact .point hwhole h.fraction

end Form

theorem read?_text {form : Form} (h : form.WellFormed) :
    read? form.text = some (Binary64.ofDecimal false form.decimal.digits form.decimal.exponent) := by
  have hread := read?_of_denotes .absent (Form.denotes_text h)
  rwa [List.nil_append] at hread

theorem ofDecimal_natural (n : Nat) : Binary64.ofDecimal false n 0 = Binary64.ofInt n := by
  have hsign : decide ((n : Int) < 0) = false := decide_eq_false (Int.not_lt.mpr (Int.natCast_nonneg n))
  rw [Binary64.ofInt, hsign, Int.natAbs_natCast]
  rcases Nat.eq_zero_or_pos n with rfl | hn
  · rfl
  · rw [Binary64.ofDecimal, if_neg hn.ne', if_neg (by decide), if_neg (by omega)]
    change Binary64.nearest false (n * 1) 1 = _
    rw [Nat.mul_one]

namespace Form

-- A natural number by its digits.
def natural (n : Nat) : Form := ⟨Nat.toDigits 10 n, [], none⟩

theorem wellFormed_natural (n : Nat) : (natural n).WellFormed :=
  ⟨Nat.toDigits_ne_nil, isDigit_toDigits n, List.forall_mem_nil _⟩

theorem text_natural (n : Nat) : (natural n).text = (Nat.repr n).toList := by
  rw [Nat.toList_repr, natural, text]
  simp [fractionText, exponentText]

theorem read?_natural (n : Nat) : read? (natural n).text = some (Binary64.ofInt n) := by
  have hdecimal : (natural n).decimal = ⟨n, 0⟩ := by
    rw [decimal, natural, List.append_nil, value_toDigits]
    rfl
  rw [read?_text (wellFormed_natural n), hdecimal, ofDecimal_natural]

end Form

end JsonTemplate.Number.Numeral

namespace JsonTemplate.Number.Style

open Numeral

-- A numeral that is written as a text and names a number.
def Spells (text : List Char) (v : ℚ) : Prop :=
  ∃ form : Form, form.WellFormed ∧ form.text = text ∧ form.decimal.value = v

theorem isDigit_zeros (count : Nat) : ∀ c ∈ zeros count, c.isDigit = true := by
  intro c hc
  rw [List.eq_of_mem_replicate hc]
  rfl

theorem isDigits_zero : IsDigits (zeros 1) := ⟨List.cons_ne_nil '0' [], isDigit_zeros 1⟩

theorem value_append_zeros (ds : List Char) (count : Nat) : value (ds ++ zeros count) = 10 ^ count * value ds := by
  rw [value_append, zeros, value_zeros, List.length_replicate, Nat.add_zero]

theorem value_zeros_append (ds : List Char) (count : Nat) : value (zeros count ++ ds) = value ds := by
  rw [value_append, zeros, value_zeros, Nat.mul_zero, Nat.zero_add]

section

variable {ds fraction : List Char} (hds : IsDigits ds)

include hds

theorem isDigits_append_zeros (count : Nat) : IsDigits (ds ++ zeros count) :=
  ⟨by simp [hds.nonempty], List.forall_mem_append.mpr ⟨hds.digits, isDigit_zeros count⟩⟩

theorem spells_whole : Spells ds (value ds) := by
  refine ⟨⟨ds, [], none⟩, ⟨hds.nonempty, hds.digits, List.forall_mem_nil _⟩, ?_, ?_⟩
  · simp [Form.text, Form.fractionText, Form.exponentText]
  · change (value (ds ++ []) : ℚ) * 10 ^ (0 - ((0 : Nat) : Int)) = _
    rw [List.append_nil, Nat.cast_zero, sub_zero, zpow_zero, mul_one]

theorem spells_point (hfraction : IsDigits fraction) :
    Spells (ds ++ '.' :: fraction) (value (ds ++ fraction) * 10 ^ (0 - (fraction.length : Int))) := by
  refine ⟨⟨ds, fraction, none⟩, ⟨hds.nonempty, hds.digits, hfraction.digits⟩, ?_, rfl⟩
  simp [Form.text, Form.fractionText, Form.exponentText, hfraction.nonempty]

theorem spells_pointAfter (places : Int) (pointZero : Bool) :
    Spells (pointAfter ds places pointZero) (value ds * 10 ^ (places - ds.length)) := by
  rw [pointAfter]
  split_ifs with hlong hzero hinside
  · obtain ⟨count, hcount⟩ := Int.eq_ofNat_of_zero_le (Int.sub_nonneg.mpr hlong)
    have h := spells_point (isDigits_append_zeros hds count) isDigits_zero
    have hvalue : (value (ds ++ zeros count ++ zeros 1) : ℚ) * 10 ^ (0 - ((zeros 1).length : Int)) =
        value ds * 10 ^ count := by
      rw [value_append_zeros, value_append_zeros, zeros, List.length_replicate]
      push_cast
      norm_num
      ring
    rw [hvalue] at h
    rw [hcount, Int.toNat_natCast, zpow_natCast]
    exact h
  · obtain ⟨count, hcount⟩ := Int.eq_ofNat_of_zero_le (Int.sub_nonneg.mpr hlong)
    have h := spells_whole (isDigits_append_zeros hds count)
    rw [value_append_zeros, Nat.cast_mul, Nat.cast_pow, Nat.cast_ofNat, mul_comm] at h
    rw [hcount, Int.toNat_natCast, zpow_natCast, List.append_nil]
    exact h
  · obtain ⟨count, rfl⟩ := Int.eq_ofNat_of_zero_le hinside.le
    rw [Int.toNat_natCast]
    have hpos : count ≠ 0 := by omega
    have hless : count < ds.length := by omega
    have htake : IsDigits (ds.take count) :=
      ⟨by simp [hds.nonempty, hpos], fun c hc => hds.digits c (List.mem_of_mem_take hc)⟩
    have hdrop : IsDigits (ds.drop count) :=
      ⟨by simpa using hless, fun c hc => hds.digits c (List.mem_of_mem_drop hc)⟩
    have hlength : (count : Int) - ds.length = 0 - (ds.drop count).length := by
      rw [List.length_drop]
      omega
    have h := spells_point htake hdrop
    rwa [List.take_append_drop, ← hlength] at h
  · have hdigits : IsDigits (zeros (-places).toNat ++ ds) :=
      ⟨by simp [hds.nonempty], List.forall_mem_append.mpr ⟨isDigit_zeros _, hds.digits⟩⟩
    have hlength : places - ds.length = 0 - (zeros (-places).toNat ++ ds).length := by
      rw [List.length_append, zeros, List.length_replicate]
      omega
    have h := spells_point isDigits_zero hdigits
    rwa [value_zeros_append, value_zeros_append, ← hlength] at h

theorem spells_withExponent (exponent : Int) :
    Spells (withExponent ds exponent) (value ds * 10 ^ (exponent + 1 - ds.length)) := by
  obtain ⟨first, rest, rfl⟩ := List.exists_cons_of_ne_nil hds.nonempty
  refine ⟨⟨[first], rest, some exponent⟩, ⟨by simp, ?_, ?_⟩, ?_, ?_⟩
  · exact fun c hc => hds.digits c (by rw [List.mem_singleton.mp hc]; exact List.mem_cons_self)
  · exact fun c hc => hds.digits c (List.mem_cons_of_mem _ hc)
  · cases rest <;> rfl
  · change (value ([first] ++ rest) : ℚ) * 10 ^ (exponent - (rest.length : Int)) = _
    rw [List.singleton_append, List.length_cons]
    congr 2
    push_cast
    ring

end

theorem exists_zeros (digits : List Char) : ∃ count, digits = withoutEndZeros digits ++ zeros count := by
  obtain ⟨count, hzeros⟩ : ∃ count, digits.reverse.takeWhile (· = '0') = zeros count := by
    have hall := List.all_eq_true.mp (@List.all_takeWhile _ (· = '0') digits.reverse)
    exact ⟨_, List.eq_replicate_of_mem fun c hc => of_decide_eq_true (hall c hc)⟩
  refine ⟨count, ?_⟩
  calc digits = (digits.reverse.takeWhile (· = '0') ++ digits.reverse.dropWhile (· = '0')).reverse := by
        rw [List.takeWhile_append_dropWhile, List.reverse_reverse]
    _ = withoutEndZeros digits ++ zeros count := by
        rw [List.reverse_append, hzeros, zeros, List.reverse_replicate, withoutEndZeros]

theorem isDigit_withoutEndZeros (n : Nat) : ∀ c ∈ withoutEndZeros (Nat.toDigits 10 n), c.isDigit = true := by
  obtain ⟨count, hcount⟩ := exists_zeros (Nat.toDigits 10 n)
  intro c hc
  refine isDigit_toDigits n c ?_
  rw [hcount]
  exact List.mem_append_left _ hc

-- A decimal is the same number without the zeros at the end of its digits.
theorem value_eq_withoutEndZeros (d : Decimal) :
    d.value = value (withoutEndZeros (Nat.toDigits 10 d.digits)) * 10 ^
      (((Nat.toDigits 10 d.digits).length : Int) + d.exponent -
        (withoutEndZeros (Nat.toDigits 10 d.digits)).length) := by
  obtain ⟨count, hcount⟩ := exists_zeros (Nat.toDigits 10 d.digits)
  have hvalue := congrArg value hcount
  rw [value_toDigits, value_append_zeros] at hvalue
  have hlength := congrArg List.length hcount
  rw [List.length_append, zeros, List.length_replicate] at hlength
  generalize withoutEndZeros (Nat.toDigits 10 d.digits) = ds at hvalue hlength
  have hexponent : ((Nat.toDigits 10 d.digits).length : Int) + d.exponent - ds.length = count + d.exponent := by omega
  rw [hexponent, Decimal.value, hvalue, zpow_add₀ (by norm_num), zpow_natCast]
  push_cast
  ring

theorem withoutEndZeros_ne_nil {n : Nat} (hn : 0 < n) : withoutEndZeros (Nat.toDigits 10 n) ≠ [] := by
  intro hnil
  obtain ⟨count, hcount⟩ := exists_zeros (Nat.toDigits 10 n)
  have hvalue := congrArg value hcount
  rw [value_toDigits, value_append_zeros, hnil] at hvalue
  simp [value] at hvalue
  omega

-- A decimal is written with the zeros at its end left out, in either form.
theorem spells_decimal (d : Decimal) (hd : 0 < d.digits) (pointZero : Bool) :
    Spells (pointAfter (withoutEndZeros (Nat.toDigits 10 d.digits)) ((Nat.toDigits 10 d.digits).length + d.exponent)
      pointZero) d.value ∧
    Spells (withExponent (withoutEndZeros (Nat.toDigits 10 d.digits))
      ((Nat.toDigits 10 d.digits).length + d.exponent - 1)) d.value := by
  rw [value_eq_withoutEndZeros d]
  have hdigits : IsDigits (withoutEndZeros (Nat.toDigits 10 d.digits)) :=
    ⟨withoutEndZeros_ne_nil hd, isDigit_withoutEndZeros d.digits⟩
  refine ⟨spells_pointAfter hdigits _ pointZero, ?_⟩
  have h := spells_withExponent hdigits ((Nat.toDigits 10 d.digits).length + d.exponent - 1)
  rwa [Int.sub_add_cancel] at h

-- A positive double is written as a decimal that rounds to it, the exact one or the shortest.
theorem exists_spells_writeFinite (style : Style) {m : Nat} (q : Int) (hm : 0 < m) :
    ∃ v, Spells (style.writeFinite m q) v ∧ Binary64.Rounds m q v := by
  have hround := Shortest.rounds_decimal style.tie (q := q) hm
  have hdigits := Shortest.decimal_digits_pos style.tie (q := q) hm
  rw [writeFinite, if_neg hm.ne']
  dsimp only
  split_ifs
  · split
    · rename_i whole _ hwhole
      refine ⟨m * 2 ^ q, ?_, Shortest.rounds_exact hm⟩
      have h := spells_pointAfter ⟨Nat.toDigits_ne_nil, isDigit_toDigits whole⟩ (Nat.toDigits 10 whole).length
        style.pointZero
      rwa [value_toDigits, sub_self, zpow_zero, mul_one, Binary64.value_wholeOf? hwhole] at h
    · exact ⟨_, (spells_decimal _ hdigits style.pointZero).1, hround⟩
  · exact ⟨_, (spells_decimal _ hdigits style.pointZero).2, hround⟩

-- What is written for a finite double is read as that double.
theorem exists_form_writeFinite (style : Style) {m : Nat} {q : Int} (hfinite : Binary64.IsFinite m q) :
    ∃ form : Form, form.WellFormed ∧ form.text = style.writeFinite m q ∧
      ∀ negative, Binary64.ofDecimal negative form.decimal.digits form.decimal.exponent =
        Binary64.ofCode negative (Binary64.codeOf m q) := by
  rcases Nat.eq_zero_or_pos m with rfl | hm
  · obtain rfl : q = Binary64.leastExponent := hfinite.normal.resolve_right (by decide)
    obtain ⟨form, hform, htext, hvalue⟩ := spells_pointAfter isDigits_zero 1 style.pointZero
    have hzero : form.decimal.digits = 0 := by
      have hpower : (10 : ℚ) ^ form.decimal.exponent ≠ 0 := zpow_ne_zero _ (by norm_num)
      have hvalue : (form.decimal.digits : ℚ) * 10 ^ form.decimal.exponent = 0 := by
        rw [← Decimal.value, hvalue, zeros, value_zeros, Nat.cast_zero, zero_mul]
      exact_mod_cast (mul_eq_zero.mp hvalue).resolve_right hpower
    exact ⟨form, hform, htext, fun negative => by rw [Binary64.ofDecimal, if_pos hzero]; rfl⟩
  · obtain ⟨v, ⟨form, hform, htext, rfl⟩, hround⟩ := exists_spells_writeFinite style q hm
    exact ⟨form, hform, htext, Binary64.ofDecimal_eq hfinite hm hround⟩

end JsonTemplate.Number.Style
