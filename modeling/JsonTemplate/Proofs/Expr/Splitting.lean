import JsonTemplate.Proofs.Expr.Tokenization

namespace JsonTemplate

-- The same range of a text that is placed otherwise.
def Span.map (f : Nat → Nat) (span : Span) : Span := ⟨f span.start, f span.stop⟩

def Lexeme.map (f : Nat → Nat) (lexeme : Lexeme) : Lexeme := ⟨lexeme.token, lexeme.span.map f⟩

namespace Lexer

open Text (byteLength byteLength_append)

section

variable {c : Char}

theorem eq_of_isBlank (h : isBlank c = true) : c = ' ' ∨ c = '\t' ∨ c = '\n' ∨ c = '\r' := by
  simpa [isBlank, or_assoc] using h

theorem utf8Size_of_isBlank (h : isBlank c = true) : c.utf8Size = 1 := by
  rcases eq_of_isBlank h with rfl | rfl | rfl | rfl <;> rfl

theorem isBlank_of_continuesName (h : continuesName c = true) : isBlank c = false := by
  by_contra hblank
  rw [Bool.not_eq_false] at hblank
  rcases eq_of_isBlank hblank with rfl | rfl | rfl | rfl <;> cases h

theorem isBlank_of_isDigit (h : c.isDigit = true) : isBlank c = false := (digit_starts_numeral h).1

theorem isBlank_of_opens {rule : Rule} (h : rule.Opens c) : isBlank c = false := by
  cases rule with
  | keyword | name =>
      have hname : startsName c = true := h
      exact isBlank_of_continuesName (by rw [continuesName, hname, Bool.true_or])
  | symbol s => cases s <;> cases h <;> rfl
  | string quote =>
      cases h
      cases quote <;> rfl
  | numeral => exact isBlank_of_isDigit h
  | pointed =>
      cases h
      rfl

end

-- The first token of a text is the longest match at its beginning.
theorem lexemes_of_longestMatch {slice after : List Char} {rule : Rule} {token : Token}
    (h : LongestMatch (slice ++ after) rule slice) (htoken : rule.token? slice = some token) (offset : Nat) :
    lexemes offset 0 (slice ++ after) =
      (⟨token, offset, offset + byteLength slice⟩ :: (lexemes (offset + byteLength slice) 0 after).1,
        (lexemes (offset + byteLength slice) 0 after).2) := by
  obtain ⟨c, rest, rfl, hopens⟩ := exists_cons_of_mem h.mem
  cases scanned c (rest ++ after) with
  | unmatched hnone => exact absurd h.mem (hnone rule _ h.begins)
  | @matched rule' hmatch hscan =>
      have hslice := hmatch.slice_eq h
      rw [hslice] at hmatch hscan
      rw [hmatch.rule_eq h, htoken] at hscan
      exact lexemes_cons_of_token (isBlank_of_opens hopens) hscan hslice (List.cons_ne_nil c rest) rfl offset

-- A text that begins at the offset falls into lexemes. Each one is the longest match in front of it, and
-- nothing but blanks stands between them.
inductive Splits : Nat → List Char → List Lexeme → Prop
  | nil (offset : Nat) : Splits offset [] []
  | blank {offset : Nat} {c : Char} {text : List Char} {lexemes : List Lexeme} (hblank : isBlank c = true)
      (h : Splits (offset + c.utf8Size) text lexemes) : Splits offset (c :: text) lexemes
  | token {offset : Nat} {slice after : List Char} {rule : Rule} {token : Token} {lexemes : List Lexeme}
      (hmatch : LongestMatch (slice ++ after) rule slice) (htoken : rule.token? slice = some token)
      (h : Splits (offset + byteLength slice) after lexemes) :
      Splits offset (slice ++ after) (⟨token, offset, offset + byteLength slice⟩ :: lexemes)

variable {offset : Nat} {text : List Char} {found : List Lexeme}

theorem lexemes_of_splits (h : Splits offset text found) : lexemes offset 0 text = (found, none) := by
  induction h with
  | nil => rfl
  | blank hblank _ ih => rw [lexemes_cons_of_blank hblank, ih]
  | token hmatch htoken _ ih => rw [lexemes_of_longestMatch hmatch htoken, ih]

theorem splits_lexemes (h : (lexemes offset 0 text).2 = none) : Splits offset text (lexemes offset 0 text).1 := by
  induction offset, text using lexemes_induction with
  | nil offset => exact .nil offset
  | blank offset c rest hblank ih => exact .blank hblank (ih h)
  | stuck => cases h
  | token offset slice after rule token hmatch htoken ih => exact .token hmatch htoken (ih h)

theorem splits_of_lexemes (h : lexemes offset 0 text = (found, none)) : Splits offset text found := by
  have hsplits := splits_lexemes (congrArg Prod.snd h)
  rwa [h] at hsplits

-- A match stays the longest one when there is less behind it.
theorem LongestMatch.shorten {slice part after : List Char} {rule : Rule}
    (h : LongestMatch (slice ++ (part ++ after)) rule slice) : LongestMatch (slice ++ part) rule slice where
  begins := List.prefix_append _ _
  mem := h.mem
  keyword := h.keyword
  longest other piece hbegins hmem := by
    refine h.longest other piece (hbegins.trans ?_) hmem
    rw [← List.append_assoc]
    exact List.prefix_append _ _

namespace Splits

-- The text from the beginning of a lexeme on.
theorem drop {front rest : List Lexeme} {first : Lexeme} (h : Splits offset text (front ++ first :: rest)) :
    ∃ before behind, text = before ++ behind ∧ first.span.start = offset + byteLength before ∧
      Splits first.span.start behind (first :: rest) := by
  generalize hfound : front ++ first :: rest = found at h
  induction h generalizing front with
  | nil => exact absurd hfound (List.append_ne_nil_of_right_ne_nil _ (List.cons_ne_nil _ _))
  | @blank offset c text lexemes hblank _ ih =>
      obtain ⟨before, behind, rfl, hstart, hsplits⟩ := ih hfound
      refine ⟨c :: before, behind, rfl, ?_, hsplits⟩
      rw [hstart, byteLength, Nat.add_assoc]
  | @token offset slice after rule token lexemes hmatch htoken h ih =>
      cases front with
      | nil =>
          cases hfound
          exact ⟨[], _, rfl, rfl, .token hmatch htoken h⟩
      | cons lexeme front =>
          cases hfound
          obtain ⟨before, behind, rfl, hstart, hsplits⟩ := ih rfl
          refine ⟨slice ++ before, behind, (List.append_assoc ..).symm, ?_, hsplits⟩
          rw [hstart, byteLength_append, Nat.add_assoc]

-- The text to the end of a lexeme.
theorem take {front rest : List Lexeme} {last : Lexeme} (h : Splits offset text (front ++ last :: rest)) :
    ∃ part after, text = part ++ after ∧ last.span.stop = offset + byteLength part ∧
      Splits offset part (front ++ [last]) := by
  generalize hfound : front ++ last :: rest = found at h
  induction h generalizing front with
  | nil => exact absurd hfound (List.append_ne_nil_of_right_ne_nil _ (List.cons_ne_nil _ _))
  | @blank offset c text lexemes hblank _ ih =>
      obtain ⟨part, after, rfl, hstop, hsplits⟩ := ih hfound
      refine ⟨c :: part, after, rfl, ?_, .blank hblank hsplits⟩
      rw [hstop, byteLength, Nat.add_assoc]
  | @token offset slice after rule token lexemes hmatch htoken h ih =>
      cases front with
      | nil =>
          cases hfound
          refine ⟨slice, after, rfl, rfl, ?_⟩
          have hshort : LongestMatch (slice ++ []) rule slice := hmatch.shorten
          have hlast := Splits.token hshort htoken (.nil (offset + byteLength slice))
          rwa [List.append_nil] at hlast
      | cons lexeme front =>
          cases hfound
          obtain ⟨part, rest, rfl, hstop, hsplits⟩ := ih rfl
          refine ⟨slice ++ part, rest, (List.append_assoc ..).symm, ?_, .token hmatch.shorten htoken hsplits⟩
          rw [hstop, byteLength_append, Nat.add_assoc]

-- The text falls into the same lexemes wherever it begins.
theorem map_sub {start place : Nat} (h : Splits place text found) (offset : Nat) (hplace : start + offset = place) :
    Splits offset text (found.map (Lexeme.map (· - start))) := by
  induction h generalizing offset with
  | nil => exact .nil offset
  | blank hblank _ ih => exact .blank hblank (ih _ (by rw [← hplace, Nat.add_assoc]))
  | @token place slice after rule token lexemes hmatch htoken _ ih =>
      have hlater := ih (offset + byteLength slice) (by rw [← hplace, Nat.add_assoc])
      have hspan : (⟨token, place, place + byteLength slice⟩ : Lexeme).map (· - start) =
          ⟨token, offset, offset + byteLength slice⟩ := by
        subst hplace
        simp [Lexeme.map, Span.map, Nat.add_assoc]
      rw [List.map_cons, hspan]
      exact .token hmatch htoken hlater

end Splits

end Lexer

end JsonTemplate
