import JsonTemplate.Proofs.Number.Forms
import JsonTemplate.Proofs.Value.Numerals
import JsonTemplate.Template.Construct

namespace JsonTemplate

namespace Text

variable {text : List Char}

theorem dropWhile_isBlank (h : ∀ c ∈ text, isBlank c = false) : text.dropWhile isBlank = text := by
  cases text with
  | nil => rfl
  | cons c text => rw [List.dropWhile_cons, h c List.mem_cons_self, if_neg Bool.false_ne_true]

theorem trim_eq_self (h : ∀ c ∈ text, isBlank c = false) : trim text = text := by
  have hreverse : ∀ c ∈ text.reverse, isBlank c = false := fun c hc => h c (List.mem_reverse.mp hc)
  rw [trim, trimStart, dropWhile_isBlank h, trimEnd, dropWhile_isBlank hreverse, List.reverse_reverse]

end Text

namespace Number

theorem Numeral.isBlank_of_inNumerals {c : Char} (h : Numeral.InNumerals c) : Text.isBlank c = false := by
  rcases h with hdigit | hmark
  · have hbounds := Char.isDigit_iff_toNat.mp hdigit
    simp only [Text.isBlank]
    change 48 ≤ c.toNat ∧ c.toNat ≤ 57 at hbounds
    simp only [Bool.or_eq_false_iff, Bool.and_eq_false_iff, decide_eq_false_iff_not, beq_eq_false_iff_ne]
    omega
  · simp only [List.mem_cons, List.not_mem_nil, or_false] at hmark
    rcases hmark with rfl | rfl | rfl | rfl | rfl <;> rfl

-- The double as a number, which knows one zero only.
def Binary64.unsignedZero (x : Float) : Float := if x = zero true then zero false else x

end Number

namespace Value

open Number Number.Numeral Number.Binary64

variable {x y : Float} {negative : Bool} {m : Nat} {q : Int}

theorem unsignedZero_of_ne (h : x ≠ zero true) : unsignedZero x = x := if_neg h

theorem numberOfText_of_denotes {marks text : List Char} {d : Decimal} (hsign : IsSign marks negative)
    (h : Denotes text d) :
    numberOfText (String.ofList (marks ++ text)) = ofDecimal negative d.digits d.exponent := by
  have htrim : Text.trim (String.ofList (marks ++ text)).toList = marks ++ text := by
    rw [String.toList_ofList]
    exact Text.trim_eq_self fun c hc => isBlank_of_inNumerals
      ((List.mem_append.mp hc).elim (hsign.inNumerals c) (h.inNumerals c))
  exact numberOfText_of_read? (by rw [htrim, read?_of_denotes hsign h])

theorem reads_back_finite (h : parts x = .finite negative m q) :
    numberOfText (Style.text.write x) = unsignedZero x := by
  obtain ⟨hfinite, rfl⟩ := eq_ofCode_of_parts h
  obtain ⟨form, hform, htext, hdecimal⟩ := Style.exists_form_writeFinite .text hfinite
  have hwrite : Style.text.write (ofCode negative (codeOf m q)) =
      String.ofList ((if negative && m != 0 then ['-'] else []) ++ form.text) := by
    rw [Style.write, h, htext]
    rfl
  have hsign : IsSign (if negative && m != 0 then ['-'] else []) (negative && m != 0) := by
    cases negative && m != 0 with
    | false => exact .absent
    | true => exact .minus
  rw [hwrite, numberOfText_of_denotes hsign (Form.denotes_text hform), hdecimal]
  rcases Nat.eq_zero_or_pos m with rfl | hm
  · obtain rfl : q = leastExponent := hfinite.normal.resolve_right (by decide)
    cases negative <;> decide
  · have hne : ofCode negative (codeOf m q) ≠ zero true := by
      intro heq
      rw [heq, zero, parts_zero] at h
      cases h
      exact hm.false
    have hpositive : (negative && m != 0) = negative := by
      rw [bne_iff_ne.mpr hm.ne', Bool.and_true]
    rw [unsignedZero_of_ne hne, hpositive]

-- What is written for a number is read as that number, in each of its forms.
theorem reads_back (x : Float) : numberOfText (Style.text.write x) = unsignedZero x := by
  cases hparts : parts x with
  | nan =>
      obtain rfl := eq_nan_of_parts hparts
      decide
  | infinite negative =>
      obtain rfl := eq_infinity_of_parts hparts
      cases negative <;> decide
  | finite negative m q => exact reads_back_finite hparts

theorem unsignedZero_beq (h : x ≠ nan) : (unsignedZero x == x) = true := by
  rw [unsignedZero]
  split_ifs with hzero
  · rw [hzero]
    decide
  · exact Float.beq_self_iff.mpr h

theorem write_unsignedZero (x : Float) : Style.text.write (unsignedZero x) = Style.text.write x := by
  rw [unsignedZero]
  split_ifs with hzero
  · rw [hzero]
    decide
  · rfl

-- The switch takes the case of this key: the case's value is selected, and without the case nothing is.
structure SelectsCase (entries : Fields Json) (value : Value) (key : String) : Prop where
  present : key ∈ entries.keys
  selected : Construct.switch.select entries value = .ok (entries.get? key)
  needed : Construct.switch.select (entries.erase key) value = .ok none

theorem SelectsCase.key_eq {entries : Fields Json} {value : Value} {key : String}
    (h : SelectsCase entries value key) : key = value.text := by
  by_contra hne
  have hselected : entries.get? value.text = entries.get? key := Except.ok.inj h.selected
  have hneeded : (entries.erase key).get? value.text = none := Except.ok.inj h.needed
  rw [Fields.get?_erase, if_neg hne, hselected, Fields.get?_eq_none_iff] at hneeded
  exact hneeded h.present

-- The text of a number is read as the double nearest to its decimal value, which is the number itself. Only the two
-- zeros share a text, so no other numbers share a case.
theorem number_text_reads_back (x : Float) :
    (string (number x).text).toNumber = unsignedZero x ∧
      (x ≠ nan → ((string (number x).text).toNumber == x) = true) ∧
      (∀ marks negative text d, IsSign marks negative → Denotes text d →
        (number x).text = String.ofList (marks ++ text) →
          IsNearest (unsignedZero x) ((if negative then -1 else 1) * d.value)) ∧
      ∀ y, ((number x).text = (number y).text ↔ unsignedZero x = unsignedZero y) ∧
        ∀ entries key, SelectsCase entries (number x) key → SelectsCase entries (number y) key →
          unsignedZero x = unsignedZero y := by
  have hread (x : Float) : (string (number x).text).toNumber = unsignedZero x := reads_back x
  have hinjective (y : Float) : (number x).text = (number y).text ↔ unsignedZero x = unsignedZero y := by
    constructor <;> intro heq
    · rw [← hread, heq, hread]
    · calc (number x).text = Style.text.write (unsignedZero x) := (write_unsignedZero x).symm
        _ = (number y).text := by rw [heq, write_unsignedZero]; rfl
  refine ⟨hread x, fun hx => ?_, fun marks negative text d hsign hd htext => ?_,
    fun y => ⟨hinjective y, fun entries key hx hy => ?_⟩⟩
  · rw [hread]
    exact unsignedZero_beq hx
  · rw [← hread x, htext, toNumber, numberOfText_of_denotes hsign hd]
    exact ofDecimal_isNearest ..
  · rw [← hinjective, ← hx.key_eq, ← hy.key_eq]

end Value

end JsonTemplate
