namespace JsonTemplate.Text

-- Bytes that a text takes in UTF-8.
def byteLength : List Char → Nat
  | [] => 0
  | c :: text => c.utf8Size + byteLength text

theorem byteLength_append (a b : List Char) : byteLength (a ++ b) = byteLength a + byteLength b := by
  induction a with
  | nil => simp [byteLength]
  | cons c a ih => simp [byteLength, ih, Nat.add_assoc]

-- What follows a text's beginning, if it begins so.
def dropPrefix? : List Char → List Char → Option (List Char)
  | [], text => some text
  | _ :: _, [] => none
  | p :: pattern, c :: text => if p = c then dropPrefix? pattern text else none

theorem dropPrefix?_eq_some_iff {pattern text rest : List Char} :
    dropPrefix? pattern text = some rest ↔ text = pattern ++ rest := by
  induction pattern generalizing text with
  | nil => simp [dropPrefix?, eq_comm]
  | cons p pattern ih =>
      cases text with
      | nil => simp [dropPrefix?]
      | cons c text =>
          by_cases h : p = c
          · simp [dropPrefix?, h, ih]
          · simp [dropPrefix?, h, Ne.symm h]

-- The text before and after the first place at which the pattern stands.
def splitFirst? (pattern : List Char) : List Char → Option (List Char × List Char)
  | [] => (dropPrefix? pattern []).map ([], ·)
  | c :: text =>
      match dropPrefix? pattern (c :: text) with
      | some rest => some ([], rest)
      | none => (splitFirst? pattern text).map fun (before, rest) => (c :: before, rest)

-- The text before and after the last place at which the pattern stands. The empty pattern stands at
-- the end of every text.
def splitLast? (pattern : List Char) : List Char → Option (List Char × List Char)
  | [] => (dropPrefix? pattern []).map ([], ·)
  | c :: text =>
      match splitLast? pattern text with
      | some (before, rest) => some (c :: before, rest)
      | none => (dropPrefix? pattern (c :: text)).map ([], ·)

private def replaceFrom (pattern replacement : List Char) : Nat → List Char → List Char
  | _, [] => []
  | skipped + 1, _ :: text => replaceFrom pattern replacement skipped text
  | 0, c :: text =>
      if (dropPrefix? pattern (c :: text)).isSome then
        replacement ++ replaceFrom pattern replacement (pattern.length - 1) text
      else c :: replaceFrom pattern replacement 0 text

-- Writes the replacement for every occurrence of a non-empty pattern, from the left and without
-- overlaps.
def replaceAll (pattern replacement text : List Char) : List Char :=
  if pattern.isEmpty then text else replaceFrom pattern replacement 0 text

variable {pattern replacement text : List Char}

private theorem replaceFrom_append (skipped rest : List Char) :
    replaceFrom pattern replacement skipped.length (skipped ++ rest) =
      replaceFrom pattern replacement 0 rest := by
  induction skipped with
  | nil => rfl
  | cons c skipped ih => exact ih

@[simp] theorem replaceAll_nil : replaceAll pattern replacement [] = [] := by
  cases pattern <;> rfl

theorem replaceAll_append (h : pattern ≠ []) :
    replaceAll pattern replacement (pattern ++ text) = replacement ++ replaceAll pattern replacement text := by
  cases pattern with
  | nil => exact absurd rfl h
  | cons p pattern =>
      have hdrop : dropPrefix? (p :: pattern) (p :: (pattern ++ text)) = some text :=
        dropPrefix?_eq_some_iff.mpr rfl
      simp only [replaceAll, List.isEmpty_cons, Bool.false_eq_true, ite_false, List.cons_append, replaceFrom,
        hdrop, Option.isSome_some, ite_true, List.length_cons, Nat.add_sub_cancel, replaceFrom_append]

theorem replaceAll_cons {c : Char} (h : dropPrefix? pattern (c :: text) = none) :
    replaceAll pattern replacement (c :: text) = c :: replaceAll pattern replacement text := by
  cases pattern with
  | nil => cases h
  | cons p pattern =>
      simp only [replaceAll, List.isEmpty_cons, Bool.false_eq_true, ite_false, replaceFrom, h,
        Option.isSome_none]

end JsonTemplate.Text
