import JsonTemplate.Proofs.Number.Forms

namespace JsonTemplate.Number.Numeral

-- A plus sign at the front left out.
def withoutPlus : List Char → List Char
  | '+' :: rest => rest
  | text => text

-- The text is a natural number, of any number of digits and with an optional plus sign.
structure NamesNatural (text : List Char) (n : Nat) : Prop where
  nonempty : withoutPlus text ≠ []
  digits : ∀ c ∈ withoutPlus text, c.isDigit = true
  value_eq : value (withoutPlus text) = n

variable {text : List Char} {n : Nat}

theorem NamesNatural.unique {k : Nat} (hn : NamesNatural text n) (hk : NamesNatural text k) : n = k :=
  hn.value_eq.symm.trans hk.value_eq

-- The machine's bound is the only thing that keeps such a text from being an index.
theorem index?_eq_some_iff : index? text = some n ↔ NamesNatural text n ∧ n ≤ greatestIndex := by
  have hindex : index? text =
      if (withoutPlus text).isEmpty || !(withoutPlus text).all Char.isDigit then none
      else if value (withoutPlus text) ≤ greatestIndex then some (value (withoutPlus text)) else none := rfl
  rw [hindex]
  constructor
  · intro h
    split_ifs at h with hform hbound
    cases h
    rw [Bool.or_eq_true, not_or, Bool.not_eq_true, List.isEmpty_eq_false_iff, Bool.not_eq_true',
      Bool.not_eq_false, List.all_eq_true] at hform
    exact ⟨⟨hform.1, hform.2, rfl⟩, hbound⟩
  · rintro ⟨⟨hnonempty, hdigits, rfl⟩, hbound⟩
    rw [if_neg, if_pos hbound]
    simpa [hnonempty] using hdigits

theorem NamesNatural.index?_eq (h : NamesNatural text n) :
    index? text = if n ≤ greatestIndex then some n else none := by
  split_ifs with hbound
  · exact index?_eq_some_iff.mpr ⟨h, hbound⟩
  · refine Option.eq_none_iff_forall_ne_some.mpr fun k hk => hbound ?_
    obtain ⟨hnames, hbounded⟩ := index?_eq_some_iff.mp hk
    exact h.unique hnames ▸ hbounded

theorem index?_eq_none (h : ∀ n, ¬ NamesNatural text n) : index? text = none :=
  Option.eq_none_iff_forall_ne_some.mpr fun n hn => h n (index?_eq_some_iff.mp hn).1

theorem withoutPlus_of_isDigit {c : Char} (h : c.isDigit = true) (rest : List Char) :
    withoutPlus (c :: rest) = c :: rest := by
  unfold withoutPlus
  split
  · rename_i heq
    cases heq
    cases h
  · rfl

theorem namesNatural_of_digits (hnonempty : text ≠ []) (hdigits : ∀ c ∈ text, c.isDigit = true) :
    NamesNatural text (value text) := by
  obtain ⟨c, rest, rfl⟩ := List.exists_cons_of_ne_nil hnonempty
  have hplus := withoutPlus_of_isDigit (hdigits c List.mem_cons_self) rest
  exact ⟨by rw [hplus]; exact hnonempty, by rw [hplus]; exact hdigits, by rw [hplus]⟩

-- The decimal form of a number is one of the texts that name it.
theorem namesNatural_repr (n : Nat) : NamesNatural (Nat.repr n).toList n := by
  have h := namesNatural_of_digits Nat.toDigits_ne_nil (isDigit_toDigits n)
  rwa [value_toDigits, ← Nat.toList_repr] at h

theorem digitChar_of_isDigit {c : Char} (h : c.isDigit = true) : Nat.digitChar (c.toNat - '0'.toNat) = c := by
  have hbounds := Char.isDigit_iff_toNat.mp h
  change 48 ≤ c.toNat ∧ c.toNat ≤ 57 at hbounds
  refine Char.toNat_inj.mp ?_
  rw [Nat.toNat_digitChar_of_lt_ten (digit_lt_ten h)]
  change 48 + (c.toNat - 48) = c.toNat
  omega

-- By induction from the end: the digits before the last one do not begin with a zero either, so they are the
-- decimal form of a positive number, to which the last one is appended.
theorem toDigits_value {digits : List Char} (hnonempty : digits ≠ []) (hdigits : ∀ c ∈ digits, c.isDigit = true)
    (hzero : digits.head? = some '0' → digits = ['0']) : Nat.toDigits 10 (value digits) = digits := by
  induction digits using List.reverseRecOn with
  | nil => exact absurd rfl hnonempty
  | append_singleton digits c ih =>
      have hc : c.isDigit = true := hdigits c (by simp)
      have hlast : Nat.toDigits 10 (c.toNat - '0'.toNat) = [c] := by
        rw [Nat.toDigits_of_lt_base (digit_lt_ten hc), digitChar_of_isDigit hc]
      have hvalue : value (digits ++ [c]) = 10 * value digits + (c.toNat - '0'.toNat) := by
        rw [value, List.foldl_append]
        rfl
      rw [hvalue]
      by_cases hempty : digits = []
      · subst hempty
        exact (congrArg _ (Nat.zero_add _)).trans hlast
      · have hhead : digits.head? ≠ some '0' := by
          intro h
          have hsingle := congrArg List.length (hzero ((List.head?_append_of_ne_nil _ hempty).trans h))
          rw [List.length_append] at hsingle
          exact hempty (List.length_eq_zero_iff.mp (Nat.succ.inj hsingle))
        have hform := ih hempty (fun d hd => hdigits d (List.mem_append_left _ hd)) fun h => absurd h hhead
        have hpos : 0 < value digits := by
          rw [Nat.pos_iff_ne_zero]
          intro hvalue
          rw [hvalue] at hform
          rw [← hform] at hhead
          exact hhead rfl
        rw [← Nat.toDigits_append_toDigits (by decide) hpos (digit_lt_ten hc), hform, hlast]

theorem head?_toDigits_ne (hn : 0 < n) : (Nat.toDigits 10 n).head? ≠ some '0' := by
  induction n using Nat.strong_induction_on with
  | h n ih =>
      by_cases hsmall : n < 10
      · rw [Nat.toDigits_of_lt_base hsmall]
        interval_cases n <;> decide
      · have hdigit : n % 10 < 10 := Nat.mod_lt n (by decide)
        have hless : n / 10 < n := Nat.div_lt_self hn (by decide)
        have hfront : 0 < n / 10 := Nat.div_pos (Nat.le_of_not_lt hsmall) (by decide)
        rw [← Nat.div_add_mod n 10, ← Nat.toDigits_append_toDigits (by decide) hfront hdigit,
          List.head?_append_of_ne_nil _ Nat.toDigits_ne_nil]
        exact ih (n / 10) hless hfront

-- Neither a sign nor zeros stand in front of other digits.
def IsCanonical (text : List Char) : Prop := text.head? ≠ some '+' ∧ (text.head? = some '0' → text = ['0'])

instance : Decidable (IsCanonical text) := inferInstanceAs (Decidable (_ ∧ _))

-- Of the texts that name a number, its decimal form is the canonical one.
theorem NamesNatural.isCanonical_iff (h : NamesNatural text n) : IsCanonical text ↔ text = (Nat.repr n).toList := by
  rw [Nat.toList_repr]
  constructor
  · rintro ⟨hplus, hzero⟩
    have hunsigned : withoutPlus text = text := by
      unfold withoutPlus
      split
      · exact absurd rfl hplus
      · rfl
    obtain ⟨hnonempty, hdigits, rfl⟩ := h
    rw [hunsigned] at hnonempty hdigits ⊢
    exact (toDigits_value hnonempty hdigits hzero).symm
  · rintro rfl
    constructor
    · intro hplus
      have hdigit := isDigit_toDigits n '+' (List.mem_of_mem_head? hplus)
      cases hdigit
    · intro hzero
      rcases Nat.eq_zero_or_pos n with rfl | hn
      · rfl
      · exact absurd hzero (head?_toDigits_ne hn)

end JsonTemplate.Number.Numeral
