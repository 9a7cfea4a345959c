import JsonTemplate.Proofs.Number.Notation
import JsonTemplate.Proofs.Number.Rounding
import JsonTemplate.Value.Conversion

namespace JsonTemplate.Value

open Number (Decimal)
open Number.Numeral
open Number.Binary64 (IsNearest isNegative infinity zero nan)

variable {text marks word : List Char} {negative : Bool} {d : Decimal} {s : String}

-- The texts that are documented to be numbers.
inductive IsNumberText : List Char → Prop
  | blank : IsNumberText []
  | infinity {marks : List Char} {negative : Bool} (hsign : IsSign marks negative) :
      IsNumberText (marks ++ "Infinity".toList)
  | numeral {marks text : List Char} {negative : Bool} {d : Decimal} (hsign : IsSign marks negative)
      (h : Denotes text d) : IsNumberText (marks ++ text)

-- Only these texts are numbers, and each of them is the number that it names.
structure ConvertsAsDocumented (s : String) : Prop where
  only : (string s).toNumber ≠ nan → IsNumberText (Text.trim s.toList)
  blank : Text.trim s.toList = [] → (string s).toNumber = zero false
  infinity : ∀ marks negative, IsSign marks negative → Text.trim s.toList = marks ++ "Infinity".toList →
    (string s).toNumber = Number.Binary64.infinity negative
  nearest : ∀ marks negative text d, IsSign marks negative → Denotes text d →
    Text.trim s.toList = marks ++ text →
      IsNearest (string s).toNumber ((if negative then -1 else 1) * d.value) ∧
        isNegative (string s).toNumber = negative

-- A name of infinity that is not the documented one.
def OtherInfinity (text : List Char) : Prop :=
  ∃ marks negative word, IsSign marks negative ∧ NamesInfinity word ∧ word ≠ "Infinity".toList ∧ text = marks ++ word

theorem numberOfText_of_read? {x : Float} (hread : read? (Text.trim s.toList) = some x) : numberOfText s = x := by
  have hne : (Text.trim s.toList).isEmpty = false := by
    rw [List.isEmpty_eq_false_iff]
    rintro hempty
    rw [hempty] at hread
    cases hread
  rw [numberOfText]
  simp [hne, hread]

theorem infinity_ne_nan (negative : Bool) : infinity negative ≠ nan := by cases negative <;> decide

theorem namesInfinity_documented : NamesInfinity "Infinity".toList := .inr (by decide)

theorem numberOfText_of_namesInfinity (hsign : IsSign marks negative) (hword : NamesInfinity word)
    (htrim : Text.trim s.toList = marks ++ word) : numberOfText s = infinity negative := by
  refine numberOfText_of_read? ?_
  rw [htrim, read?_of_namesInfinity hsign hword]

theorem isNearest_numberOfText (hsign : IsSign marks negative) (h : Denotes text d)
    (htrim : Text.trim s.toList = marks ++ text) :
    IsNearest (numberOfText s) ((if negative then -1 else 1) * d.value) ∧
      isNegative (numberOfText s) = negative := by
  have hread : read? (Text.trim s.toList) = some (Number.Binary64.ofDecimal negative d.digits d.exponent) := by
    rw [htrim, read?_of_denotes hsign h]
  rw [numberOfText_of_read? hread]
  exact ⟨Number.Binary64.ofDecimal_isNearest .., Number.Binary64.isNegative_ofDecimal ..⟩

theorem isNumberText_or_otherInfinity (h : numberOfText s ≠ nan) :
    IsNumberText (Text.trim s.toList) ∨ OtherInfinity (Text.trim s.toList) := by
  by_cases hblank : Text.trim s.toList = []
  · rw [hblank]
    exact .inl .blank
  · cases hread : read? (Text.trim s.toList) with
    | none =>
        rw [numberOfText, if_neg (by simp [hblank]), hread] at h
        exact absurd rfl h
    | some x =>
        rw [numberOfText_of_read? hread] at h
        obtain ⟨marks, negative, rest, hsign, htrim, hinfinity | ⟨d, hd⟩⟩ := exists_of_read? hread h
        · rw [htrim]
          by_cases hword : rest = "Infinity".toList
          · subst hword
            exact .inl (.infinity hsign)
          · exact .inr ⟨marks, negative, rest, hsign, hinfinity, hword, rfl⟩
        · rw [htrim]
          exact .inl (.numeral hsign hd)

-- A text has one sign at most, so that the name is what follows it.
theorem OtherInfinity.not_isNumberText (h : OtherInfinity text) : ¬IsNumberText text := by
  obtain ⟨marks, negative, word, hsign, hword, hother, rfl⟩ := h
  intro hnumber
  have hsplit := sign_append hsign hword.not_sign
  generalize marks ++ word = text at hnumber hsplit
  cases hnumber with
  | blank =>
      cases hsplit
      exact absurd hword (by decide)
  | infinity hsign' =>
      rw [sign_append hsign' namesInfinity_documented.not_sign] at hsplit
      exact hother (Prod.mk.inj hsplit).2.symm
  | numeral hsign' h =>
      rw [sign_append hsign' h.not_sign] at hsplit
      obtain rfl := (Prod.mk.inj hsplit).2
      exact h.not_namesInfinity hword

-- A text is a number just as it is documented, unless it is a name of infinity that is not the documented one. Such
-- a name, "inf" or "infinity" in any case of letters, is infinity all the same.
theorem string_number_iff (s : String) :
    (∀ marks negative word, IsSign marks negative → NamesInfinity word → Text.trim s.toList = marks ++ word →
      (string s).toNumber = infinity negative) ∧
      (ConvertsAsDocumented s ↔ ¬OtherInfinity (Text.trim s.toList)) := by
  refine ⟨fun marks negative word hsign hword => numberOfText_of_namesInfinity hsign hword, fun h hother => ?_,
    fun hother => ⟨fun hnumber => ?_, fun hblank => ?_, fun marks negative hsign => ?_,
      fun marks negative text d hsign hd => isNearest_numberOfText hsign hd⟩⟩
  · obtain ⟨marks, negative, word, hsign, hword, -, htrim⟩ := id hother
    have hnumber : (string s).toNumber ≠ nan := by
      rw [toNumber, numberOfText_of_namesInfinity hsign hword htrim]
      exact infinity_ne_nan negative
    exact hother.not_isNumberText (h.only hnumber)
  · exact (isNumberText_or_otherInfinity hnumber).resolve_right hother
  · rw [toNumber, numberOfText, if_pos (by simp [hblank])]
  · exact numberOfText_of_namesInfinity hsign namesInfinity_documented

-- The name is short and in small letters.
theorem not_forall_convertsAsDocumented : ¬∀ s, ConvertsAsDocumented s := by
  intro h
  have hnumber : (string "inf").toNumber ≠ nan := by decide
  have hother : OtherInfinity (Text.trim "inf".toList) :=
    ⟨[], false, "inf".toList, .absent, .inl (by decide), by decide, by decide⟩
  exact hother.not_isNumberText ((h "inf").only hnumber)

end JsonTemplate.Value
