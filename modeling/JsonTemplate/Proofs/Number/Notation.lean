import JsonTemplate.Number.Numeral
import JsonTemplate.Number.Shortest
import Mathlib

namespace JsonTemplate.Number.Numeral

variable {text ds marks : List Char} {negative : Bool} {e : Int} {d : Decimal} {x : Float}

-- One or more digits.
structure IsDigits (ds : List Char) : Prop where
  nonempty : ds ≠ []
  digits : ∀ c ∈ ds, c.isDigit = true

-- A sign or none, and whether it is a minus sign.
inductive IsSign : List Char → Bool → Prop
  | absent : IsSign [] false
  | plus : IsSign ['+'] false
  | minus : IsSign ['-'] true

-- Digits, which may have a point after or among them, or a point with digits after it. All the digits, and how
-- many of them stand behind the point.
inductive IsMantissa : List Char → List Char → Nat → Prop
  | whole {ds : List Char} (h : IsDigits ds) : IsMantissa ds ds 0
  | point {ds fraction : List Char} (h : IsDigits ds) (hfraction : ∀ c ∈ fraction, c.isDigit = true) :
      IsMantissa (ds ++ '.' :: fraction) (ds ++ fraction) fraction.length
  | leading {fraction : List Char} (h : IsDigits fraction) : IsMantissa ('.' :: fraction) fraction fraction.length

inductive IsExponent : List Char → Int → Prop
  | absent : IsExponent [] 0
  | present {mark : Char} {marks ds : List Char} {negative : Bool} (hmark : mark = 'e' ∨ mark = 'E')
      (hsign : IsSign marks negative) (hdigits : IsDigits ds) :
      IsExponent (mark :: (marks ++ ds)) (if negative then -(value ds : Int) else value ds)

-- A decimal numeral without a sign, and the decimal that it stands for.
inductive Denotes : List Char → Decimal → Prop
  | intro {mantissa exponent ds : List Char} {places : Nat} {e : Int} (hmantissa : IsMantissa mantissa ds places)
      (hexponent : IsExponent exponent e) : Denotes (mantissa ++ exponent) ⟨value ds, e - places⟩

-- The text does not go on with a digit.
def EndsDigits (rest : List Char) : Prop := ∀ c ∈ rest.head?, c.isDigit = false

theorem endsDigits_nil : EndsDigits [] := fun _ h => by cases h

theorem endsDigits_cons {c : Char} {rest : List Char} (h : c.isDigit = false) : EndsDigits (c :: rest) :=
  fun _ hc => by
    cases hc
    exact h

theorem digits_append {ds rest : List Char} (hdigits : ∀ c ∈ ds, c.isDigit = true) (hrest : EndsDigits rest) :
    digits (ds ++ rest) = (ds, rest) := by
  rw [digits, List.takeWhile_append_of_pos hdigits, List.dropWhile_append_of_pos hdigits]
  cases rest with
  | nil => simp
  | cons c rest => simp [hrest c rfl]

theorem digits_self {ds : List Char} (hdigits : ∀ c ∈ ds, c.isDigit = true) : digits ds = (ds, []) := by
  have h := digits_append hdigits endsDigits_nil
  rwa [List.append_nil] at h

theorem value_toDigits (n : Nat) : value (Nat.toDigits 10 n) = n := Nat.ofDigitChars_ten_toDigits

theorem isDigit_toDigits (n : Nat) : ∀ c ∈ Nat.toDigits 10 n, c.isDigit = true :=
  fun _ hc => Nat.isDigit_of_mem_toDigits (by decide) (by decide) hc

theorem value_append (ds es : List Char) : value (ds ++ es) = 10 ^ es.length * value ds + value es :=
  (Nat.ofDigitChars_append 0).trans Nat.ofDigitChars_eq_ofDigitChars_zero

theorem value_zeros (count : Nat) : value (List.replicate count '0') = 0 :=
  Nat.ofDigitChars_replicate_zero.trans (Nat.mul_zero _)

theorem digit_lt_ten {c : Char} (h : c.isDigit = true) : c.toNat - '0'.toNat < 10 := by
  have hbounds := Char.isDigit_iff_toNat.mp h
  change 48 ≤ c.toNat ∧ c.toNat ≤ 57 at hbounds
  change c.toNat - 48 < 10
  omega

theorem value_lt {ds : List Char} (hdigits : ∀ c ∈ ds, c.isDigit = true) : value ds < 10 ^ ds.length := by
  induction ds using List.reverseRecOn with
  | nil => decide
  | append_singleton ds c ih =>
      have hlast := digit_lt_ten (hdigits c (by simp))
      have hless := ih fun d hd => hdigits d (List.mem_append_left _ hd)
      have hc : value [c] = c.toNat - '0'.toNat := by simp [value]
      rw [value_append, hc, List.length_append, List.length_singleton, pow_succ]
      omega

theorem toLower_of_isDigit {c : Char} (h : c.isDigit = true) : c.toLower = c := by
  rw [Char.toLower, dif_neg]
  simp only [Char.isDigit, Bool.and_eq_true, decide_eq_true_eq] at h
  intro hupper
  have := UInt32.le_iff_toNat_le.mp h.2
  have := UInt32.le_iff_toNat_le.mp hupper.1
  have : ('9' : Char).val.toNat = 57 := rfl
  have : ('A' : Char).val.toNat = 65 := rfl
  omega

theorem sign_append (h : IsSign marks negative) (htext : ∀ c ∈ text.head?, c ≠ '+' ∧ c ≠ '-') :
    sign (marks ++ text) = (negative, text) := by
  cases h with
  | plus | minus => rfl
  | absent =>
      rw [List.nil_append]
      unfold sign
      split
      · exact absurd rfl (htext '-' rfl).2
      · exact absurd rfl (htext '+' rfl).1
      · rfl

theorem exists_of_sign (text : List Char) : ∃ marks, IsSign marks (sign text).1 ∧ text = marks ++ (sign text).2 := by
  unfold sign
  split
  · exact ⟨_, .minus, rfl⟩
  · exact ⟨_, .plus, rfl⟩
  · exact ⟨_, .absent, rfl⟩

theorem ne_sign_of_isDigit {c : Char} (h : c.isDigit = true) : c ≠ '+' ∧ c ≠ '-' := by
  constructor <;> rintro rfl <;> cases h

theorem IsDigits.head (h : IsDigits ds) : ∃ c rest, ds = c :: rest ∧ c.isDigit = true := by
  obtain ⟨c, rest, rfl⟩ := List.exists_cons_of_ne_nil h.nonempty
  exact ⟨c, rest, rfl, h.digits c List.mem_cons_self⟩

theorem isDigits_of_digits (h : (digits text).1 ≠ []) : IsDigits (digits text).1 :=
  ⟨h, fun _ hc => List.mem_takeWhile_imp hc⟩

theorem digits_eq (text : List Char) : text = (digits text).1 ++ (digits text).2 :=
  List.takeWhile_append_dropWhile.symm

theorem exponent?_of_isExponent (h : IsExponent text e) : exponent? text = some e := by
  cases h with
  | absent => rfl
  | @present mark marks ds negative hmark hsign hdigits =>
      obtain ⟨c, rest, rfl, hc⟩ := hdigits.head
      have hhead : ∀ d ∈ (c :: rest).head?, d ≠ '+' ∧ d ≠ '-' := by
        rintro _ ⟨⟩
        exact ne_sign_of_isDigit hc
      rw [exponent?, if_pos hmark, sign_append hsign hhead]
      simp only [digits_self hdigits.digits]
      rfl

theorem isExponent_of_exponent? (h : exponent? text = some e) : IsExponent text e := by
  cases text with
  | nil =>
      cases h
      exact .absent
  | cons mark rest =>
      rw [exponent?] at h
      split_ifs at h with hmark
      change (if (digits (sign rest).2).1.isEmpty || !(digits (sign rest).2).2.isEmpty then none
        else some (if (sign rest).1 then -(value (digits (sign rest).2).1 : Int)
          else value (digits (sign rest).2).1)) = _ at h
      obtain ⟨marks, hsign, hrest⟩ := exists_of_sign rest
      have hsplit := digits_eq (sign rest).2
      by_cases hform : ((digits (sign rest).2).1.isEmpty || !(digits (sign rest).2).2.isEmpty) = true
      · rw [if_pos hform] at h
        cases h
      · rw [if_neg hform, Option.some.injEq] at h
        rw [Bool.or_eq_true, not_or, Bool.not_eq_true, List.isEmpty_eq_false_iff, Bool.not_eq_true',
          Bool.not_eq_false, List.isEmpty_iff] at hform
        rw [hform.2, List.append_nil] at hsplit
        rw [hrest, hsplit, ← h]
        exact .present hmark hsign (isDigits_of_digits hform.1)

-- An exponent begins with its mark.
theorem IsExponent.endsDigits (h : IsExponent text e) : EndsDigits text ∧ ∀ rest, text ≠ '.' :: rest := by
  cases h with
  | absent => exact ⟨endsDigits_nil, fun _ h => by cases h⟩
  | present hmark => rcases hmark with rfl | rfl <;> exact ⟨endsDigits_cons rfl, fun _ h => by cases h⟩

theorem fraction_of_ne (h : ∀ rest, text ≠ '.' :: rest) : fraction text = ([], text) := by
  unfold fraction
  split
  · exact absurd rfl (h _)
  · rfl

theorem decimal?_of_denotes (negative : Bool) (h : Denotes text d) :
    decimal? negative text = some (Binary64.ofDecimal negative d.digits d.exponent) := by
  obtain ⟨hmantissa, hexponent⟩ := h
  obtain ⟨hends, hpoint⟩ := hexponent.endsDigits
  have hread := exponent?_of_isExponent hexponent
  rw [decimal?]
  cases hmantissa with
  | whole hds =>
      rw [digits_append hds.digits hends]
      simp [fraction_of_ne hpoint, hds.nonempty, hread]
  | point hds hfraction =>
      rw [List.append_assoc, List.cons_append, digits_append hds.digits (endsDigits_cons rfl)]
      simp [fraction, digits_append hfraction hends, hds.nonempty, hread]
  | leading hds =>
      rw [List.cons_append]
      change (if (fraction ('.' :: _)).1.isEmpty then none else _) = _
      simp [fraction, digits_append hds.digits hends, hds.nonempty, hread]

theorem fraction_cases (text : List Char) : fraction text = ([], text) ∨
    ∃ ds rest, text = '.' :: (ds ++ rest) ∧ (∀ c ∈ ds, c.isDigit = true) ∧ fraction text = (ds, rest) := by
  unfold fraction
  split
  · exact .inr ⟨_, _, congrArg _ (digits_eq _), fun _ hc => List.mem_takeWhile_imp hc, rfl⟩
  · exact .inl rfl

theorem denotes_of_decimal? (h : decimal? negative text = some x) :
    ∃ d, Denotes text d ∧ x = Binary64.ofDecimal negative d.digits d.exponent := by
  rw [decimal?] at h
  have hsplit := digits_eq text
  have hdigits : (digits text).1 ≠ [] → IsDigits (digits text).1 := isDigits_of_digits
  generalize digits text = parts at h hsplit hdigits
  obtain ⟨whole, rest⟩ := parts
  change text = whole ++ rest at hsplit
  change whole ≠ [] → IsDigits whole at hdigits
  rcases fraction_cases rest with hfraction | ⟨ds, after, hrest, hds, hfraction⟩
  · simp only [hfraction] at h
    split_ifs at h with hempty
    obtain ⟨e, hread, rfl⟩ := Option.map_eq_some_iff.mp h
    have hne : whole ≠ [] := by simpa using hempty
    refine ⟨⟨_, _⟩, ?_, rfl⟩
    rw [hsplit, List.append_nil]
    exact .intro (.whole (hdigits hne)) (isExponent_of_exponent? hread)
  · simp only [hfraction] at h
    split_ifs at h with hempty
    obtain ⟨e, hread, rfl⟩ := Option.map_eq_some_iff.mp h
    refine ⟨⟨_, _⟩, ?_, rfl⟩
    rw [hsplit, hrest]
    by_cases hwhole : whole = []
    · subst hwhole
      have hne : ds ≠ [] := by simpa using hempty
      rw [List.nil_append, List.nil_append]
      exact .intro (.leading ⟨hne, hds⟩) (isExponent_of_exponent? hread)
    · rw [← List.cons_append, ← List.append_assoc]
      exact .intro (.point (hdigits hwhole) hds) (isExponent_of_exponent? hread)

-- A numeral begins with a digit or with a point.
theorem Denotes.head (h : Denotes text d) : ∃ c rest, text = c :: rest ∧ (c.isDigit = true ∨ c = '.') := by
  obtain ⟨hmantissa, -⟩ := h
  cases hmantissa with
  | whole hds | point hds =>
      obtain ⟨c, rest, rfl, hc⟩ := hds.head
      exact ⟨c, _, rfl, .inl hc⟩
  | leading => exact ⟨'.', _, rfl, .inr rfl⟩

-- The characters of numerals.
def InNumerals (c : Char) : Prop := c.isDigit = true ∨ c ∈ ['+', '-', '.', 'e', 'E']

theorem IsDigits.inNumerals (h : IsDigits ds) : ∀ c ∈ ds, InNumerals c := fun c hc => .inl (h.digits c hc)

theorem IsSign.inNumerals (h : IsSign marks negative) : ∀ c ∈ marks, InNumerals c := by
  cases h <;> simp [InNumerals]

theorem IsMantissa.inNumerals {places : Nat} (h : IsMantissa text ds places) : ∀ c ∈ text, InNumerals c := by
  have hpoint : InNumerals '.' := .inr (by simp)
  cases h with
  | whole h => exact h.inNumerals
  | point h hfraction =>
      exact List.forall_mem_append.mpr
        ⟨h.inNumerals, List.forall_mem_cons.mpr ⟨hpoint, fun c hc => .inl (hfraction c hc)⟩⟩
  | leading h => exact List.forall_mem_cons.mpr ⟨hpoint, h.inNumerals⟩

theorem IsExponent.inNumerals (h : IsExponent text e) : ∀ c ∈ text, InNumerals c := by
  cases h with
  | absent => exact List.forall_mem_nil _
  | present hmark hsign hdigits =>
      refine List.forall_mem_cons.mpr ⟨.inr ?_, List.forall_mem_append.mpr ⟨hsign.inNumerals, hdigits.inNumerals⟩⟩
      rcases hmark with rfl | rfl <;> simp

theorem Denotes.inNumerals (h : Denotes text d) : ∀ c ∈ text, InNumerals c := by
  obtain ⟨hmantissa, hexponent⟩ := h
  exact List.forall_mem_append.mpr ⟨hmantissa.inNumerals, hexponent.inNumerals⟩

-- The names of infinity, in any case of letters.
def NamesInfinity (word : List Char) : Prop :=
  word.map Char.toLower = "inf".toList ∨ word.map Char.toLower = "infinity".toList

instance (word : List Char) : Decidable (NamesInfinity word) := inferInstanceAs (Decidable (_ ∨ _))

theorem NamesInfinity.head {word : List Char} (h : NamesInfinity word) :
    ∃ c rest, word = c :: rest ∧ c.toLower = 'i' := by
  cases word with
  | nil => rcases h with h | h <;> cases h
  | cons c rest => rcases h with h | h <;> exact ⟨c, rest, rfl, (List.cons.inj h).1⟩

theorem NamesInfinity.not_sign {word : List Char} (h : NamesInfinity word) :
    ∀ c ∈ word.head?, c ≠ '+' ∧ c ≠ '-' := by
  obtain ⟨c, rest, rfl, hc⟩ := h.head
  rintro _ ⟨⟩
  constructor <;> rintro rfl <;> cases hc

theorem Denotes.not_sign (h : Denotes text d) : ∀ c ∈ text.head?, c ≠ '+' ∧ c ≠ '-' := by
  obtain ⟨c, rest, rfl, hc⟩ := h.head
  rintro _ ⟨⟩
  rcases hc with hc | rfl
  · exact ne_sign_of_isDigit hc
  · decide

-- A numeral is no name, whatever its letters' case.
theorem Denotes.ne_name {first : Char} {name : List Char} (h : Denotes text d) (hdigit : first.isDigit = false)
    (hpoint : first ≠ '.') : text.map Char.toLower ≠ first :: name := by
  obtain ⟨c, rest, rfl, hc⟩ := h.head
  have hlower : c.toLower = c := by
    rcases hc with hc | rfl
    · exact toLower_of_isDigit hc
    · rfl
  rw [List.map_cons, hlower]
  intro heq
  obtain ⟨rfl, -⟩ := List.cons.inj heq
  rcases hc with hc | hc
  · rw [hdigit] at hc
    cases hc
  · exact hpoint hc

theorem Denotes.not_namesInfinity (h : Denotes text d) : ¬NamesInfinity text :=
  not_or.mpr ⟨h.ne_name (by decide) (by decide), h.ne_name (by decide) (by decide)⟩

theorem read?_of_namesInfinity {word : List Char} (hsign : IsSign marks negative) (hword : NamesInfinity word) :
    read? (marks ++ word) = some (Binary64.infinity negative) := by
  rw [read?, sign_append hsign hword.not_sign]
  exact if_pos hword

theorem read?_of_denotes (hsign : IsSign marks negative) (h : Denotes text d) :
    read? (marks ++ text) = some (Binary64.ofDecimal negative d.digits d.exponent) := by
  rw [read?, sign_append hsign h.not_sign, ← decimal?_of_denotes negative h]
  exact (if_neg h.not_namesInfinity).trans (if_neg (h.ne_name (by decide) (by decide)))

-- Nothing else is read, except the names of a value that is no number.
theorem exists_of_read? (h : read? text = some x) (hx : x ≠ Binary64.nan) :
    ∃ marks negative rest, IsSign marks negative ∧ text = marks ++ rest ∧
      (NamesInfinity rest ∨ ∃ d, Denotes rest d) := by
  obtain ⟨marks, hsign, htext⟩ := exists_of_sign text
  refine ⟨marks, _, _, hsign, htext, ?_⟩
  change (if NamesInfinity (sign text).2 then _ else if _ then some Binary64.nan else _) = _ at h
  split_ifs at h with hinfinity hnan
  · exact .inl hinfinity
  · exact absurd (Option.some.inj h).symm hx
  · obtain ⟨d, hd, -⟩ := denotes_of_decimal? h
    exact .inr ⟨d, hd⟩

end JsonTemplate.Number.Numeral
