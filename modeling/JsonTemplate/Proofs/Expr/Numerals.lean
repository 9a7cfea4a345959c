import JsonTemplate.Proofs.Expr.Rules
import JsonTemplate.Proofs.Number.Forms

namespace JsonTemplate.Lexer

open Number.Numeral

variable {text ds part fraction exponent : List Char}

theorem digitCount_digits (hds : ∀ c ∈ ds, c.isDigit = true) (rest : List Char) :
    digitCount (ds ++ rest) = ds.length + digitCount rest := by
  rw [digitCount, List.takeWhile_append_of_pos hds, List.length_append]
  rfl

theorem digitCount_of_endsDigits (h : EndsDigits text) : digitCount text = 0 := by
  cases text with
  | nil => rfl
  | cons c text => rw [digitCount, List.takeWhile_cons, h c rfl]; rfl

theorem take_digitCount (text : List Char) : text.take (digitCount text) = text.takeWhile Char.isDigit :=
  (List.prefix_iff_eq_take.mp (List.takeWhile_prefix _)).symm

theorem take_digitCount_mem (h : digitCount text ≠ 0) : text.take (digitCount text) ∈ digitTexts := by
  rw [take_digitCount, mem_digitTexts_iff]
  refine ⟨fun hnil => h ?_, fun c hc => List.mem_takeWhile_imp hc⟩
  rw [digitCount, hnil]
  rfl

theorem length_le_digitCount (hds : ds ∈ digitTexts) (rest : List Char) : ds.length ≤ digitCount (ds ++ rest) := by
  rw [digitCount_digits (mem_digitTexts_iff.mp hds).2]
  exact Nat.le_add_right _ _

theorem length_pos_of_mem_digitTexts (hds : ds ∈ digitTexts) : 0 < ds.length :=
  List.length_pos_iff.mpr (mem_digitTexts_iff.mp hds).1

theorem mem_optional_iff {l : Language Char} : text ∈ 1 + l ↔ text = [] ∨ text ∈ l := by
  rw [Language.mem_add, Language.mem_one]

theorem endsDigits_fractions (h : fraction ∈ fractions) (rest : List Char) : EndsDigits (fraction ++ rest) := by
  obtain ⟨ds, -, rfl⟩ := mem_fractions_iff.mp h
  exact endsDigits_cons rfl

theorem endsDigits_exponents (h : exponent ∈ exponents) (rest : List Char) : EndsDigits (exponent ++ rest) := by
  obtain ⟨mark, sign, ds, rfl | rfl, -, -, rfl⟩ := mem_exponents_iff.mp h <;> exact endsDigits_cons rfl

-- A point with digits, no matter what follows.
theorem fractionLength_point (ds : List Char) :
    fractionLength ('.' :: ds) = if digitCount ds = 0 then 0 else digitCount ds + 1 := rfl

theorem length_le_fractionLength (h : fraction ∈ fractions) (rest : List Char) :
    fraction.length ≤ fractionLength (fraction ++ rest) := by
  obtain ⟨ds, hds, rfl⟩ := mem_fractions_iff.mp h
  have hle := length_le_digitCount hds rest
  have hpos := length_pos_of_mem_digitTexts hds
  rw [List.cons_append, fractionLength_point, if_neg (by omega), List.length_cons]
  omega

-- An exponent behind a fraction ends it.
theorem fractionLength_of_exponent (h : fraction ∈ 1 + fractions) (hexponent : exponent ∈ exponents)
    (rest : List Char) : fractionLength (fraction ++ (exponent ++ rest)) = fraction.length := by
  rcases mem_optional_iff.mp h with rfl | h
  · obtain ⟨mark, sign, ds, rfl | rfl, -, -, rfl⟩ := mem_exponents_iff.mp hexponent <;> rfl
  · obtain ⟨ds, hds, rfl⟩ := mem_fractions_iff.mp h
    have hpos := length_pos_of_mem_digitTexts hds
    have hcount : digitCount (ds ++ (exponent ++ rest)) = ds.length := by
      rw [digitCount_digits (mem_digitTexts_iff.mp hds).2, 
        digitCount_of_endsDigits (endsDigits_exponents hexponent rest), Nat.add_zero]
    rw [List.cons_append, fractionLength_point, hcount, if_neg (by omega), List.length_cons]

section

variable {mark c : Char} (hmark : mark = 'e' ∨ mark = 'E')

include hmark

theorem exponentLength_signed (hsign : isSign c = true) (ds : List Char) :
    exponentLength (mark :: c :: ds) = if digitCount ds = 0 then 0 else digitCount ds + 2 := by
  rw [exponentLength, if_pos hmark, if_pos hsign]

theorem exponentLength_unsigned (hsign : isSign c = false) (ds : List Char) :
    exponentLength (mark :: c :: ds) = if digitCount (c :: ds) = 0 then 0 else digitCount (c :: ds) + 1 := by
  rw [exponentLength, if_pos hmark]
  simp only [hsign, Bool.false_eq_true, if_false]

end

theorem isSign_of_isDigit {c : Char} (h : c.isDigit = true) : isSign c = false := by
  rw [isSign, Bool.or_eq_false_iff, decide_eq_false_iff_not, decide_eq_false_iff_not]
  constructor <;> rintro rfl <;> cases h

theorem length_le_exponentLength (h : exponent ∈ exponents) (rest : List Char) :
    exponent.length ≤ exponentLength (exponent ++ rest) := by
  obtain ⟨mark, sign, ds, hmark, hsign, hds, rfl⟩ := mem_exponents_iff.mp h
  have hle := length_le_digitCount hds rest
  have hpos := length_pos_of_mem_digitTexts hds
  have hsigned {c : Char} (hc : isSign c = true) :
      (mark :: ([c] ++ ds)).length ≤ exponentLength (mark :: ([c] ++ ds) ++ rest) := by
    rw [List.singleton_append, List.cons_append, List.cons_append, exponentLength_signed hmark hc,
      if_neg (by omega), List.length_cons, List.length_cons]
    omega
  rcases hsign with rfl | rfl | rfl
  · obtain ⟨hne, hdigits⟩ := mem_digitTexts_iff.mp hds
    obtain ⟨d, ds, rfl⟩ := List.exists_cons_of_ne_nil hne
    have hd := isSign_of_isDigit (hdigits d List.mem_cons_self)
    rw [List.cons_append] at hle
    rw [List.nil_append, List.cons_append, List.cons_append, exponentLength_unsigned hmark hd, if_neg (by omega),
      List.length_cons]
    omega
  · exact hsigned rfl
  · exact hsigned rfl

theorem mem_numeral_iff :
    text ∈ Rule.numeral.language ↔ ∃ whole ∈ digitTexts, ∃ fraction ∈ 1 + fractions, ∃ exponent ∈ 1 + exponents,
      text = whole ++ (fraction ++ exponent) := by
  simp only [Rule.language, Language.mem_mul]
  constructor
  · rintro ⟨whole, hwhole, _, ⟨fraction, hfraction, exponent, hexponent, rfl⟩, rfl⟩
    exact ⟨whole, hwhole, fraction, hfraction, exponent, hexponent, rfl⟩
  · rintro ⟨whole, hwhole, fraction, hfraction, exponent, hexponent, rfl⟩
    exact ⟨whole, hwhole, _, ⟨fraction, hfraction, exponent, hexponent, rfl⟩, rfl⟩

-- The parts of a numeral behind its digits.
theorem numeralLength_digits {whole : List Char} (hwhole : whole ∈ digitTexts) (hrest : EndsDigits text) :
    numeralLength (whole ++ text) =
      whole.length + fractionLength text + exponentLength (text.drop (fractionLength text)) := by
  have hcount : digitCount (whole ++ text) = whole.length := by
    rw [digitCount_digits (mem_digitTexts_iff.mp hwhole).2, digitCount_of_endsDigits hrest, Nat.add_zero]
  have hpos := length_pos_of_mem_digitTexts hwhole
  have hdrop (n : Nat) : (whole ++ text).drop (whole.length + n) = text.drop n := by
    rw [← List.drop_drop, List.drop_left]
  rw [numeralLength, hcount]
  simp only [if_neg hpos.ne', List.drop_left, hdrop]

-- No numeral at the beginning of a text is longer.
theorem length_le_numeralLength (h : part ∈ Rule.numeral.language) (rest : List Char) :
    part.length ≤ numeralLength (part ++ rest) := by
  obtain ⟨whole, hwhole, fraction, hfraction, exponent, hexponent, rfl⟩ := mem_numeral_iff.mp h
  simp only [List.append_assoc, List.length_append]
  rcases mem_optional_iff.mp hexponent with rfl | hexponent
  · rcases mem_optional_iff.mp hfraction with rfl | hfraction
    · have hle := length_le_digitCount hwhole rest
      have hpos := length_pos_of_mem_digitTexts hwhole
      simp only [List.nil_append, List.length_nil, numeralLength]
      rw [if_neg (by omega)]
      omega
    · have hle := length_le_fractionLength hfraction rest
      rw [List.nil_append, numeralLength_digits hwhole (endsDigits_fractions hfraction rest), List.length_nil]
      omega
  · have hends : EndsDigits (fraction ++ (exponent ++ rest)) := by
      rcases mem_optional_iff.mp hfraction with rfl | hfraction
      · exact endsDigits_exponents hexponent rest
      · exact endsDigits_fractions hfraction _
    have hle := length_le_exponentLength hexponent rest
    rw [numeralLength_digits hwhole hends, fractionLength_of_exponent hfraction hexponent, List.drop_left]
    omega

theorem length_le_numeralLength_of_pointed (h : part ∈ Rule.pointed.language) (rest : List Char) :
    part.length ≤ numeralLength (part ++ rest) := by
  have hzero := digitCount_of_endsDigits (endsDigits_fractions h rest)
  simp only [numeralLength, hzero, if_true]
  exact length_le_fractionLength h rest

theorem take_fractionLength_mem (text : List Char) : text.take (fractionLength text) ∈ 1 + fractions := by
  rw [mem_optional_iff]
  unfold fractionLength
  split
  · rename_i ds
    split_ifs with hcount
    · exact .inl rfl
    · exact .inr (mem_fractions_iff.mpr ⟨_, take_digitCount_mem hcount, rfl⟩)
  · exact .inl rfl

theorem take_exponentLength_mem (text : List Char) : text.take (exponentLength text) ∈ 1 + exponents := by
  rw [mem_optional_iff]
  rcases text with _ | ⟨mark, _ | ⟨c, ds⟩⟩
  · exact .inl rfl
  · exact .inl (by simp [exponentLength])
  by_cases hmark : mark = 'e' ∨ mark = 'E'
  · cases hsign : isSign c with
    | true =>
        rw [exponentLength_signed hmark hsign]
        split_ifs with hcount
        · exact .inl rfl
        · have hc : c = '+' ∨ c = '-' := by simpa [isSign] using hsign
          refine .inr (mem_exponents_iff.mpr ⟨mark, [c], _, hmark, ?_, take_digitCount_mem hcount, rfl⟩)
          rcases hc with rfl | rfl
          · exact .inr (.inl rfl)
          · exact .inr (.inr rfl)
    | false =>
        rw [exponentLength_unsigned hmark hsign]
        split_ifs with hcount
        · exact .inl rfl
        · exact .inr (mem_exponents_iff.mpr ⟨mark, [], _, hmark, .inl rfl, take_digitCount_mem hcount, rfl⟩)
  · rw [exponentLength, if_neg hmark]
    exact .inl rfl

theorem take_numeralLength_mem (h : numeralLength text ≠ 0) :
    text.take (numeralLength text) ∈ Rule.numeral.language ∨
      text.take (numeralLength text) ∈ Rule.pointed.language := by
  by_cases hwhole : digitCount text = 0
  · have hlength : numeralLength text = fractionLength text := by
      rw [numeralLength]
      exact if_pos hwhole
    rw [hlength] at h ⊢
    refine .inr ((mem_optional_iff.mp (take_fractionLength_mem text)).resolve_left fun hnil => ?_)
    rcases List.take_eq_nil_iff.mp hnil with hzero | rfl
    · exact h hzero
    · exact h rfl
  · have hlength : numeralLength text = digitCount text + (fractionLength (text.drop (digitCount text)) +
        exponentLength ((text.drop (digitCount text)).drop (fractionLength (text.drop (digitCount text))))) := by
      rw [numeralLength]
      simp only [if_neg hwhole, List.drop_drop, Nat.add_assoc]
    rw [hlength, List.take_add, List.take_add]
    exact .inl (mem_numeral_iff.mpr ⟨_, take_digitCount_mem hwhole, _, take_fractionLength_mem _, _,
      take_exponentLength_mem _, rfl⟩)

theorem isDigits_of_mem (h : ds ∈ digitTexts) : IsDigits ds :=
  ⟨(mem_digitTexts_iff.mp h).1, (mem_digitTexts_iff.mp h).2⟩

theorem exists_isExponent_of_mem (h : exponent ∈ 1 + exponents) : ∃ e, IsExponent exponent e := by
  rcases mem_optional_iff.mp h with rfl | h
  · exact ⟨0, .absent⟩
  · obtain ⟨mark, sign, ds, hmark, hsign, hds, rfl⟩ := mem_exponents_iff.mp h
    have hdigits := isDigits_of_mem hds
    rcases hsign with rfl | rfl | rfl
    · exact ⟨_, .present hmark .absent hdigits⟩
    · exact ⟨_, .present hmark .plus hdigits⟩
    · exact ⟨_, .present hmark .minus hdigits⟩

theorem exists_denotes_of_mem (h : text ∈ Rule.numeral.language ∨ text ∈ Rule.pointed.language) :
    ∃ d, Denotes text d := by
  rcases h with h | h
  · obtain ⟨whole, hwhole, fraction, hfraction, exponent, hexponent, rfl⟩ := mem_numeral_iff.mp h
    obtain ⟨e, he⟩ := exists_isExponent_of_mem hexponent
    have hdigits := isDigits_of_mem hwhole
    rw [← List.append_assoc]
    rcases mem_optional_iff.mp hfraction with rfl | hfraction
    · rw [List.append_nil]
      exact ⟨_, .intro (.whole hdigits) he⟩
    · obtain ⟨ds, hds, rfl⟩ := mem_fractions_iff.mp hfraction
      exact ⟨_, .intro (.point hdigits (isDigits_of_mem hds).digits) he⟩
  · have hfraction : text ∈ fractions := h
    obtain ⟨ds, hds, rfl⟩ := mem_fractions_iff.mp hfraction
    have hdenotes := Denotes.intro (.leading (isDigits_of_mem hds)) .absent
    rw [List.append_nil] at hdenotes
    exact ⟨_, hdenotes⟩

-- Every numeral has a value.
theorem exists_read?_of_mem (h : text ∈ Rule.numeral.language ∨ text ∈ Rule.pointed.language) :
    ∃ x, read? text = some x := by
  obtain ⟨d, hd⟩ := exists_denotes_of_mem h
  have hread := read?_of_denotes .absent hd
  exact ⟨_, hread⟩

end JsonTemplate.Lexer
