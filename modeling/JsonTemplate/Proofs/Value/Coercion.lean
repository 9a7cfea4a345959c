import JsonTemplate.Proofs.Value.Parts
import Mathlib

namespace JsonTemplate

variable {c : Char}

namespace Text

variable {text : List Char}

theorem mem_dropWhile {p : Char → Bool} (h : c ∈ text) (hc : p c = false) : c ∈ text.dropWhile p := by
  rw [← List.takeWhile_append_dropWhile (p := p) (l := text), List.mem_append] at h
  apply h.resolve_left
  intro hmem
  rw [List.mem_takeWhile_imp hmem] at hc
  cases hc

-- Characters that are not blank stay.
theorem mem_trim (h : c ∈ text) (hc : isBlank c = false) : c ∈ trim text := by
  have hstart : c ∈ (trimStart text).reverse := List.mem_reverse.mpr (mem_dropWhile h hc)
  exact List.mem_reverse.mpr (mem_dropWhile hstart hc)

end Text

namespace Number.Numeral

variable {text : List Char}

-- A character that is in no numeral and in no name of a special value.
structure Foreign (c : Char) : Prop where
  not_digit : c.isDigit = false
  not_mark : c ∉ ['+', '-', '.', 'e', 'E']
  not_letter : ∀ name ∈ ["inf", "infinity", "nan"], c.toLower ∉ name.toList

theorem Foreign.mem_tail {mark : Char} (hc : Foreign c) (hmark : mark ∈ ['+', '-', '.', 'e', 'E'])
    (h : c ∈ mark :: text) : c ∈ text := by
  apply (List.mem_cons.mp h).resolve_left
  rintro rfl
  exact hc.not_mark hmark

theorem mem_digits (hc : Foreign c) (h : c ∈ text) : c ∈ (digits text).2 :=
  Text.mem_dropWhile h hc.not_digit

theorem mem_sign (hc : Foreign c) (h : c ∈ text) : c ∈ (sign text).2 := by
  unfold sign
  split
  · exact hc.mem_tail (by simp) h
  · exact hc.mem_tail (by simp) h
  · exact h

theorem mem_fraction (hc : Foreign c) (h : c ∈ text) : c ∈ (fraction text).2 := by
  unfold fraction
  split
  · exact mem_digits hc (hc.mem_tail (by simp) h)
  · exact h

theorem exponent?_of_foreign (hc : Foreign c) (h : c ∈ text) : exponent? text = none := by
  cases text with
  | nil => cases h
  | cons first rest =>
      rw [exponent?]
      split
      · rename_i hfirst
        have hrest : c ∈ rest := hc.mem_tail (by rcases hfirst with rfl | rfl <;> simp) h
        have hafter := mem_digits hc (mem_sign hc hrest)
        -- The exponent's digits do not fill the text.
        have hfilled : (digits (sign rest).2).2.isEmpty = false := by
          rw [List.isEmpty_eq_false_iff]
          exact List.ne_nil_of_mem hafter
        simp [hfilled]
      · rfl

theorem decimal?_of_foreign (negative : Bool) (hc : Foreign c) (h : c ∈ text) : decimal? negative text = none := by
  have hrest := mem_fraction hc (mem_digits hc h)
  simp only [decimal?, exponent?_of_foreign hc hrest, Option.map_none, ite_self]

theorem read?_of_foreign (hc : Foreign c) (h : c ∈ text) : read? text = none := by
  have hunsigned := mem_sign hc h
  have hword : c.toLower ∈ (sign text).2.map Char.toLower := List.mem_map_of_mem hunsigned
  have hname (name : String) (hmem : name ∈ ["inf", "infinity", "nan"]) :
      (sign text).2.map Char.toLower ≠ name.toList :=
    fun heq => hc.not_letter name hmem (heq ▸ hword)
  have hinfinite := not_or.mpr ⟨hname "inf" (by simp), hname "infinity" (by simp)⟩
  have hnan := hname "nan" (by simp)
  simp only [read?, hinfinite, hnan, if_false, decimal?_of_foreign _ hc hunsigned]

theorem foreign_comma : Foreign ',' := ⟨by decide, by decide, by decide⟩

theorem foreign_bracket : Foreign '[' := ⟨by decide, by decide, by decide⟩

end Number.Numeral

namespace Value

open Number.Numeral

theorem numberOfText_of_foreign {s : String} (hc : Foreign c) (hblank : Text.isBlank c = false)
    (h : c ∈ s.toList) : numberOfText s = Number.Binary64.nan := by
  have hmem := Text.mem_trim h hblank
  have hempty : (Text.trim s.toList).isEmpty = false := by
    rw [List.isEmpty_eq_false_iff]
    exact List.ne_nil_of_mem hmem
  rw [numberOfText, if_neg (by simp [hempty]), read?_of_foreign hc hmem]
  rfl

-- Between two items there is a comma.
theorem comma_mem_text (first second : Value) (items : List Value) :
    ',' ∈ (array (first :: second :: items)).text.toList := by
  have hitem (item : Value) (rest : List Value) : ∃ t, itemTexts (item :: rest) = t :: itemTexts rest := by
    cases item <;> exact ⟨_, rfl⟩
  obtain ⟨t, ht⟩ := hitem first (second :: items)
  obtain ⟨u, hu⟩ := hitem second items
  rw [text, ht, hu, String.intercalate_cons_cons]
  simp [String.toList_append]

-- A null leaves no text within an array, any other item its own text.
theorem text_singleton {item : Value} (h : item ≠ null) : (array [item]).text = item.text := by
  have hitem : itemTexts [item] = [item.text] := by
    cases item with
    | null => exact absurd rfl h
    | _ => rfl
  rw [text, hitem, String.intercalate_singleton]

theorem numberOfText_function (name : String) :
    numberOfText ("[function " ++ name ++ "]") = Number.Binary64.nan := by
  have hmem : '[' ∈ ("[function " ++ name ++ "]").toList := by simp [String.toList_append]
  exact numberOfText_of_foreign foreign_bracket (by decide) hmem

theorem toNumber_eq_numberOfText {v : Value} (hparts : v.isScalar = false) (hnull : v ≠ array [null]) :
    v.toNumber = numberOfText v.text := by
  cases v with
  | null | bool | number | string => cases hparts
  | array items =>
      match items with
      | [] => rfl
      | [item] =>
          have hitem : item ≠ null := fun heq => hnull (by rw [heq])
          rw [text_singleton hitem]
          rfl
      | first :: second :: items =>
          exact (numberOfText_of_foreign foreign_comma (by decide) (comma_mem_text first second items)).symm
  | object entries =>
      have hmem : '[' ∈ "[object Object]".toList := by decide
      exact (numberOfText_of_foreign foreign_bracket (by decide) hmem).symm
  | function f => exact (numberOfText_function f.name).symm
  | accessor identity name items => exact (numberOfText_function name).symm

theorem order_of_parts {v : Value} (hparts : v.isScalar = false) (other : Value) :
    order v other = order (number v.toNumber) other ∧ order other v = order other (number v.toNumber) := by
  cases v <;> cases hparts <;> exact ⟨rfl, by cases other <;> rfl⟩

theorem looseEq_number {v : Value} (hparts : v.isScalar = false) (y : Float) :
    looseEq v (number y) = (numberOfText v.text == y) ∧ looseEq (number y) v = (y == numberOfText v.text) := by
  have hnan : Number.Binary64.nan = Float.nan := rfl
  cases v with
  | null | bool | number | string => cases hparts
  | array items => exact ⟨rfl, rfl⟩
  | object entries => exact ⟨rfl, rfl⟩
  | function f =>
      rw [text, numberOfText_function, hnan, Float.nan_beq_eq_false, Float.beq_nan_eq_false]
      exact ⟨rfl, rfl⟩
  | accessor identity name items =>
      rw [text, numberOfText_function, hnan, Float.nan_beq_eq_false, Float.beq_nan_eq_false]
      exact ⟨rfl, rfl⟩

end Value

-- The operators that take their operands for numbers, unless both are texts.
def BinaryOp.isNumeric : BinaryOp → Bool
  | sub | mul | div | rem | less | lessOrEqual | greater | greaterOrEqual => true
  | _ => false

namespace Value

theorem applyBinary_of_parts {v : Value} (hparts : v.isScalar = false) {op : BinaryOp} (hop : op.isNumeric = true)
    (other : Value) : applyBinary op v other = applyBinary op (number v.toNumber) other ∧
      applyBinary op other v = applyBinary op other (number v.toNumber) := by
  obtain ⟨hleft, hright⟩ := order_of_parts hparts other
  cases op with
  | sub | mul | div | rem => exact ⟨rfl, rfl⟩
  | less | lessOrEqual | greater | greaterOrEqual => simp only [applyBinary, hleft, hright, and_self]
  | add | eq | notEq | strictEq | strictNotEq | and | or => cases hop

-- An array, an object or a function counts as the number of its text, for arithmetic, for comparison
-- by size and for equality with numbers. The array of a single null is the only exception: its text
-- is empty, which is the number zero and equal to it, but as a number it is NaN.
theorem container_number_iff (v : Value) (hparts : v.isScalar = false) :
    let x := numberOfText v.text
    (v.toNumber = x ↔ v ≠ array [null]) ∧
      (v ≠ array [null] →
        (∀ op, op ≠ .not → v.applyUnary op = (number x).applyUnary op) ∧
        ∀ op : BinaryOp, op.isNumeric = true → ∀ other, applyBinary op v other = applyBinary op (number x) other ∧
          applyBinary op other v = applyBinary op other (number x)) ∧
      ∀ y, looseEq v (number y) = (x == y) ∧ looseEq (number y) v = (y == x) := by
  intro x
  refine ⟨⟨?_, toNumber_eq_numberOfText hparts⟩, fun hnull => ?_, looseEq_number hparts⟩
  · rintro heq rfl
    have hne : (array [null]).toNumber ≠ numberOfText (array [null]).text := by decide
    exact hne heq
  · have hx : v.toNumber = x := toNumber_eq_numberOfText hparts hnull
    rw [← hx]
    refine ⟨fun op hop => ?_, fun op hop other => applyBinary_of_parts hparts hop other⟩
    cases op with
    | negate | plus => rfl
    | not => exact absurd rfl hop

-- The only item is written as it is by itself, not as it is within the array.
theorem not_forall_container_number :
    ¬∀ v : Value, v.isScalar = false → v.toNumber = numberOfText v.text := by
  intro h
  exact absurd (h (array [null]) rfl) (by decide)

-- Nested arrays of one item, the innermost with a null beside another item.
theorem container_number_of_nested :
    (array [array [array [null, null]]]).toNumber = numberOfText "," ∧
      looseEq (array [array [null]]) (number (Number.Binary64.zero true)) = true := by
  have hpair := (container_number_iff (array [array [array [null, null]]]) rfl).1.mpr (by simp)
  have hequal := ((container_number_iff (array [array [null]]) rfl).2.2 (Number.Binary64.zero true)).1
  exact ⟨hpair, hequal.trans (by decide)⟩

end Value

end JsonTemplate
