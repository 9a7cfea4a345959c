import JsonTemplate.Proofs.Expr.Scanning
import JsonTemplate.Proofs.Expr.Spans

namespace JsonTemplate.Lexer

open Text (byteLength byteLength_append)

theorem ne_nil_of_mem {rule : Rule} {text : List Char} (h : text ∈ rule.language) : text ≠ [] := by
  obtain ⟨c, rest, rfl, -⟩ := exists_cons_of_mem h
  exact List.cons_ne_nil c rest

theorem byteLength_pos {text : List Char} (h : text ≠ []) : 0 < byteLength text := by
  obtain ⟨c, rest, rfl⟩ := List.exists_cons_of_ne_nil h
  exact Nat.lt_of_lt_of_le c.utf8Size_pos (Nat.le_add_right _ _)

-- What a text that begins at the offset falls into, up to its end or to a failure.
structure Tokenized (offset : Nat) (text : List Char) (lexemes : List Lexeme) (failure : Option SyntaxError) :
    Prop where
  token : ∀ lexeme ∈ lexemes, ∃ before slice after rule, text = before ++ (slice ++ after) ∧
    lexeme.span.start = offset + byteLength before ∧ lexeme.span.stop = lexeme.span.start + byteLength slice ∧
      LongestMatch (slice ++ after) rule slice ∧ rule.token? slice = some lexeme.token
  ordered : lexemes.Pairwise fun lexeme later => lexeme.span.stop ≤ later.span.start
  failed : ∀ error ∈ failure, ∃ before c after, text = before ++ c :: after ∧
    error.span.start = offset + byteLength before ∧ isBlank c = false ∧ Stuck (c :: after) ∧
      ∀ lexeme ∈ lexemes, lexeme.span.stop ≤ error.span.start
  -- What belongs to no token and stands before the failure is blank.
  blank : ∀ before c after, text = before ++ c :: after →
    (∀ lexeme ∈ lexemes, lexeme.span.start ≤ offset + byteLength before →
      lexeme.span.stop ≤ offset + byteLength before) →
    (∀ error ∈ failure, offset + byteLength before < error.span.start) → isBlank c = true

section

variable {offset : Nat} {skipped text after : List Char} {lexemes : List Lexeme} {failure : Option SyntaxError}

theorem tokenized_nil : Tokenized offset [] [] none where
  token := by simp
  ordered := .nil
  failed := by simp
  blank := by simp

theorem tokenized_stuck {error : SyntaxError} {c : Char} (hstart : error.span.start = offset)
    (hblank : isBlank c = false) (h : Stuck (c :: text)) : Tokenized offset (c :: text) [] (some error) where
  token := by simp
  ordered := .nil
  failed := by
    rintro _ ⟨⟩
    exact ⟨[], c, text, rfl, hstart, hblank, h, by simp⟩
  blank := by
    intro before c after _ _ herror
    have := herror error rfl
    omega

-- A character of a text stands in its beginning or behind that.
theorem mem_or_behind {before rest : List Char} {c : Char} (h : skipped ++ after = before ++ c :: rest) :
    (∃ inner, skipped = before ++ c :: inner) ∨
      ∃ between, before = skipped ++ between ∧ after = between ++ c :: rest := by
  rcases List.append_eq_append_iff.mp h with ⟨between, rfl, rfl⟩ | ⟨_ | ⟨d, inner⟩, rfl, hrest⟩
  · exact .inr ⟨between, rfl, rfl⟩
  · exact .inr ⟨[], by simp, hrest.symm⟩
  · cases hrest
    exact .inl ⟨inner, rfl⟩

namespace Tokenized

section

variable (h : Tokenized (offset + byteLength skipped) after lexemes failure)

include h

theorem token_append : ∀ lexeme ∈ lexemes, ∃ before slice rest rule, skipped ++ after = before ++ (slice ++ rest) ∧
    lexeme.span.start = offset + byteLength before ∧ lexeme.span.stop = lexeme.span.start + byteLength slice ∧
      LongestMatch (slice ++ rest) rule slice ∧ rule.token? slice = some lexeme.token := by
  intro lexeme hmem
  obtain ⟨before, slice, rest, rule, rfl, hstart, hslice⟩ := h.token lexeme hmem
  refine ⟨skipped ++ before, slice, rest, rule, (List.append_assoc ..).symm, ?_, hslice⟩
  rw [hstart, byteLength_append, Nat.add_assoc]

theorem failed_append : ∀ error ∈ failure, ∃ before c rest, skipped ++ after = before ++ c :: rest ∧
    error.span.start = offset + byteLength before ∧ isBlank c = false ∧ Stuck (c :: rest) ∧
      ∀ lexeme ∈ lexemes, lexeme.span.stop ≤ error.span.start := by
  intro error hmem
  obtain ⟨before, c, rest, rfl, hstart, hstuck⟩ := h.failed error hmem
  refine ⟨skipped ++ before, c, rest, (List.append_assoc ..).symm, ?_, hstuck⟩
  rw [hstart, byteLength_append, Nat.add_assoc]

theorem blank_behind {between rest : List Char} {c : Char} (hafter : after = between ++ c :: rest)
    (hlexemes : ∀ lexeme ∈ lexemes, lexeme.span.start ≤ offset + byteLength (skipped ++ between) →
      lexeme.span.stop ≤ offset + byteLength (skipped ++ between))
    (herror : ∀ error ∈ failure, offset + byteLength (skipped ++ between) < error.span.start) :
    isBlank c = true := by
  rw [byteLength_append, ← Nat.add_assoc] at hlexemes herror
  exact h.blank between c rest hafter hlexemes herror

-- Blanks before a text.
theorem append_blanks (hblank : ∀ c ∈ skipped, isBlank c = true) :
    Tokenized offset (skipped ++ after) lexemes failure where
  token := h.token_append
  ordered := h.ordered
  failed := h.failed_append
  blank := by
    intro before c rest heq hlexemes herror
    rcases mem_or_behind heq with ⟨inner, rfl⟩ | ⟨between, rfl, hafter⟩
    · exact hblank c (List.mem_append_right _ List.mem_cons_self)
    · exact h.blank_behind hafter hlexemes herror

-- A token before a text.
theorem append_token {rule : Rule} {token : Token} (hmatch : LongestMatch (skipped ++ after) rule skipped)
    (htoken : rule.token? skipped = some token) :
    Tokenized offset (skipped ++ after) (⟨token, offset, offset + byteLength skipped⟩ :: lexemes) failure where
  token := by
    refine List.forall_mem_cons.mpr ⟨?_, h.token_append⟩
    exact ⟨[], skipped, after, rule, rfl, rfl, rfl, hmatch, htoken⟩
  ordered := by
    refine List.pairwise_cons.mpr ⟨fun lexeme hmem => ?_, h.ordered⟩
    obtain ⟨before, slice, rest, rule, -, hstart, -⟩ := h.token lexeme hmem
    rw [hstart]
    exact Nat.le_add_right _ _
  failed := by
    intro error hmem
    obtain ⟨before, c, rest, heq, hstart, hblank, hstuck, hlexemes⟩ := h.failed_append error hmem
    obtain ⟨before', -, -, -, hstart', -⟩ := h.failed error hmem
    refine ⟨before, c, rest, heq, hstart, hblank, hstuck, List.forall_mem_cons.mpr ⟨?_, hlexemes⟩⟩
    rw [hstart']
    exact Nat.le_add_right _ _
  blank := by
    intro before c rest heq hlexemes herror
    obtain ⟨hfirst, hothers⟩ := List.forall_mem_cons.mp hlexemes
    rcases mem_or_behind heq with ⟨inner, hinner⟩ | ⟨between, rfl, hafter⟩
    · have hpos : 0 < byteLength (c :: inner) := byteLength_pos (List.cons_ne_nil c inner)
      have hstop := hfirst (Nat.le_add_right _ _)
      rw [hinner, byteLength_append] at hstop
      dsimp only at hstop
      omega
    · exact h.blank_behind hafter hothers herror

end

end Tokenized

end

-- The characters left over from a token are skipped.
theorem lexemes_skip (offset leftOver : Nat) (text : List Char) :
    lexemes offset leftOver text = lexemes (offset + byteLength (text.take leftOver)) 0 (text.drop leftOver) := by
  induction text generalizing offset leftOver with
  | nil => simp [lexemes]
  | cons c rest ih =>
      cases leftOver with
      | zero => rfl
      | succ leftOver =>
          rw [lexemes, ih, List.take_succ_cons, List.drop_succ_cons, byteLength, Nat.add_assoc]

theorem lexemes_cons_of_blank {c : Char} (h : isBlank c = true) (offset : Nat) (rest : List Char) :
    lexemes offset 0 (c :: rest) = lexemes (offset + c.utf8Size) 0 rest := by
  rw [lexemes, if_pos h]

theorem lexemes_cons_of_stuck {c : Char} {rest : List Char} (hblank : isBlank c = false)
    (h : (scan (c :: rest)).token = none) (offset : Nat) :
    ∃ error, lexemes offset 0 (c :: rest) = ([], some error) ∧ error.span.start = offset := by
  rw [lexemes, if_neg (by simp [hblank])]
  dsimp only
  rw [h]
  exact ⟨_, rfl, rfl⟩

-- Behind a token the text goes on.
theorem lexemes_cons_of_token {c : Char} {rest slice after : List Char} {token : Token}
    (hblank : isBlank c = false) (htoken : (scan (c :: rest)).token = some token)
    (hslice : (c :: rest).take (scan (c :: rest)).length = slice) (hne : slice ≠ [])
    (hafter : c :: rest = slice ++ after) (offset : Nat) :
    lexemes offset 0 (c :: rest) =
      (⟨token, offset, offset + byteLength slice⟩ :: (lexemes (offset + byteLength slice) 0 after).1,
        (lexemes (offset + byteLength slice) 0 after).2) := by
  have hdrop : (c :: rest).drop (scan (c :: rest)).length = after := by
    have happend : slice ++ (c :: rest).drop (scan (c :: rest)).length = slice ++ after := by
      rw [← hafter, ← hslice, List.take_append_drop]
    exact List.append_cancel_left happend
  rw [lexemes, if_neg (by simp [hblank])]
  dsimp only
  rw [htoken, hslice]
  cases hlength : (scan (c :: rest)).length with
  | zero =>
      rw [hlength] at hslice
      exact absurd hslice.symm hne
  | succ length =>
      rw [hlength, List.take_succ_cons] at hslice
      rw [hlength, List.drop_succ_cons] at hdrop
      rw [Nat.add_sub_cancel, lexemes_skip, hdrop, ← hslice, byteLength, Nat.add_assoc]

-- By the length of the text: the lexer goes on behind a blank or behind the longest match, or it stops.
theorem lexemes_induction {motive : Nat → List Char → List Lexeme × Option SyntaxError → Prop}
    (nil : ∀ offset, motive offset [] ([], none))
    (blank : ∀ offset c rest, isBlank c = true →
      motive (offset + c.utf8Size) rest (lexemes (offset + c.utf8Size) 0 rest) →
      motive offset (c :: rest) (lexemes (offset + c.utf8Size) 0 rest))
    (stuck : ∀ offset c rest error, isBlank c = false → Stuck (c :: rest) → error.span.start = offset →
      motive offset (c :: rest) ([], some error))
    (token : ∀ offset slice after rule token, LongestMatch (slice ++ after) rule slice →
      rule.token? slice = some token →
      motive (offset + byteLength slice) after (lexemes (offset + byteLength slice) 0 after) →
      motive offset (slice ++ after)
        (⟨token, offset, offset + byteLength slice⟩ :: (lexemes (offset + byteLength slice) 0 after).1,
          (lexemes (offset + byteLength slice) 0 after).2))
    (offset : Nat) (text : List Char) : motive offset text (lexemes offset 0 text) := by
  induction hlength : text.length using Nat.strong_induction_on generalizing offset text with
  | _ length ih =>
      subst hlength
      cases text with
      | nil => exact nil offset
      | cons c rest =>
          cases hblank : isBlank c with
          | true =>
              rw [lexemes_cons_of_blank hblank]
              exact blank offset c rest hblank (ih _ (Nat.lt_succ_self _) _ rest rfl)
          | false =>
              cases htoken : (scan (c :: rest)).token with
              | none =>
                  obtain ⟨error, heq, hstart⟩ := lexemes_cons_of_stuck hblank htoken offset
                  rw [heq]
                  exact stuck offset c rest error hblank ((token_scan_eq_none_iff c rest).mp htoken) hstart
              | some found =>
                  cases scanned c rest with
                  | unmatched _ hnone => cases htoken.symm.trans hnone
                  | @matched rule hmatch hrule =>
                      obtain ⟨slice, hslice⟩ :
                          ∃ slice, (c :: rest).take (scan (c :: rest)).length = slice := ⟨_, rfl⟩
                      rw [hslice] at hmatch hrule
                      obtain ⟨after, hafter⟩ := hmatch.begins
                      have hne : slice ≠ [] := ne_nil_of_mem hmatch.mem
                      have hshorter : after.length < (c :: rest).length := by
                        rw [← hafter, List.length_append]
                        exact Nat.lt_add_of_pos_left (List.length_pos_of_ne_nil hne)
                      rw [lexemes_cons_of_token hblank htoken hslice hne hafter.symm]
                      rw [← hafter] at hmatch ⊢
                      exact token offset slice after rule found hmatch (hrule.symm.trans htoken)
                        (ih _ hshorter _ after rfl)

theorem tokenized_lexemes (offset : Nat) (text : List Char) :
    Tokenized offset text (lexemes offset 0 text).1 (lexemes offset 0 text).2 := by
  induction offset, text using lexemes_induction with
  | nil offset => exact tokenized_nil
  | blank offset c rest hblank ih =>
      have hone : Tokenized (offset + byteLength [c]) rest _ _ := ih
      exact hone.append_blanks (List.forall_mem_singleton.mpr hblank)
  | stuck offset c rest error hblank hstuck hstart => exact tokenized_stuck hstart hblank hstuck
  | token offset slice after rule token hmatch htoken ih => exact ih.append_token hmatch htoken

-- Two beginnings of a text that are equally long in bytes.
theorem eq_of_byteLength_eq {before before' after after' : List Char} (h : before ++ after = before' ++ after')
    (hlength : byteLength before = byteLength before') : before = before' ∧ after = after' := by
  have hnil {between : List Char} (hzero : byteLength between = 0) : between = [] := by
    by_contra hne
    exact (byteLength_pos hne).ne' hzero
  rcases List.append_eq_append_iff.mp h with ⟨between, rfl, rfl⟩ | ⟨between, rfl, rfl⟩
  · rw [byteLength_append, Nat.left_eq_add] at hlength
    simp [hnil hlength]
  · rw [byteLength_append, Nat.add_eq_left] at hlength
    simp [hnil hlength]

-- The failure stands where no token can begin. A place that counts is not blank, in no token and not
-- behind the failure.
theorem Tokenized.failed_iff {offset : Nat} {text before after : List Char} {lexemes : List Lexeme}
    {failure : Option SyntaxError} {c : Char} (h : Tokenized offset text lexemes failure)
    (htext : text = before ++ c :: after) (hblank : isBlank c = false)
    (hlexemes : ∀ lexeme ∈ lexemes, lexeme.span.start < offset + byteLength before →
      lexeme.span.stop ≤ offset + byteLength before)
    (hfailure : ∀ error ∈ failure, offset + byteLength before ≤ error.span.start) :
    (∃ error ∈ failure, error.span.start = offset + byteLength before) ↔ Stuck (c :: after) := by
  constructor
  · rintro ⟨error, hmem, hstart⟩
    obtain ⟨before', c', after', htext', hstart', -, hstuck, -⟩ := h.failed error hmem
    have hlength := Nat.add_left_cancel (hstart.symm.trans hstart')
    obtain ⟨-, heq⟩ := eq_of_byteLength_eq (htext.symm.trans htext') hlength
    rw [heq]
    exact hstuck
  · intro hstuck
    by_contra hnone
    -- The place is in a token then, and so at its beginning.
    have hcovered : ∃ lexeme ∈ lexemes, lexeme.span.start = offset + byteLength before := by
      by_contra hno
      have hblank' : isBlank c = true := by
        refine h.blank before c after htext (fun lexeme hmem hle => ?_) fun error hmem => ?_
        · exact hlexemes lexeme hmem (lt_of_le_of_ne hle fun heq => hno ⟨lexeme, hmem, heq⟩)
        · exact lt_of_le_of_ne (hfailure error hmem) fun heq => hnone ⟨error, hmem, heq.symm⟩
      rw [hblank'] at hblank
      cases hblank
    obtain ⟨lexeme, hmem, hstart⟩ := hcovered
    obtain ⟨before', slice, after', rule, htext', hstart', -, hmatch, htoken⟩ := h.token lexeme hmem
    have hlength := Nat.add_left_cancel (hstart.symm.trans hstart')
    obtain ⟨-, heq⟩ := eq_of_byteLength_eq (htext.symm.trans htext') hlength
    rw [← heq] at hmatch
    rw [hmatch.token?_eq_none_iff.mpr hstuck] at htoken
    cases htoken

theorem byteLength_quoted (quote : Quote) (body : List Char) :
    byteLength (quote.char :: (body ++ [quote.char])) = 1 + byteLength body + 1 := by
  have hsize : quote.char.utf8Size = 1 := by cases quote <;> rfl
  rw [byteLength, byteLength_append, byteLength, byteLength, hsize, Nat.add_assoc]

-- The tokens of a source up to its end or to its failure.
structure Tokenization (source : String) (lexemes : List Lexeme) (failure : Option SyntaxError) : Prop
    extends Tokenized 0 source.toList lexemes failure where
  within : ∀ lexeme ∈ lexemes, lexeme.span.Within source ∧ lexeme.span.start < lexeme.span.stop
  -- A place that is not blank, in no token and not behind the failure is that of the failure exactly if
  -- no token can begin there.
  failed_iff : ∀ before c after, source.toList = before ++ c :: after → isBlank c = false →
    (∀ lexeme ∈ lexemes, lexeme.span.start < byteLength before → lexeme.span.stop ≤ byteLength before) →
    (∀ error ∈ failure, byteLength before ≤ error.span.start) →
    ((∃ error ∈ failure, error.span.start = byteLength before) ↔ Stuck (c :: after))
  -- The text whose escapes are resolved stands between the two quotes, each of one byte.
  quoted : ∀ before after quote slice, source.toList = before ++ after →
    LongestMatch after (.string quote) slice → ∃ body, slice = quote.char :: (body ++ [quote.char]) ∧
      byteLength slice = 1 + byteLength body + 1 ∧
        (Rule.string quote).token? slice = (unescape? body).map fun text => .string (String.ofList text)

end JsonTemplate.Lexer

namespace JsonTemplate

-- The lexer takes the longest match at every place and leaves nothing out but blanks.
theorem tokenization_lex (source : String) : Lexer.Tokenization source (lex source).1 (lex source).2 := by
  have h := Lexer.tokenized_lexemes 0 source.toList
  refine { h with within := ?_, failed_iff := ?_, quoted := ?_ }
  · intro lexeme hmem
    obtain ⟨before, slice, after, rule, -, hstart, hstop, hmatch, -⟩ := h.token lexeme hmem
    refine ⟨within_of_mem_lex hmem, ?_⟩
    rw [hstop]
    exact Nat.lt_add_of_pos_right (Lexer.byteLength_pos (Lexer.ne_nil_of_mem hmatch.mem))
  · intro before c after htext hblank
    have hiff := h.failed_iff htext hblank
    rw [Nat.zero_add] at hiff
    exact hiff
  · intro before after quote slice _ hmatch
    obtain ⟨body, -, rfl⟩ := Lexer.mem_string_iff.mp hmatch.mem
    refine ⟨body, rfl, Lexer.byteLength_quoted quote body, ?_⟩
    simp [Lexer.Rule.token?]

-- A point without digits and an exponent mark without them belong to no numeral.
example : (lex "1. .5e3 2e").1.map (fun lexeme => (lexeme.span.start, lexeme.span.stop)) =
    [(0, 1), (1, 2), (3, 5), (5, 7), (8, 9), (9, 10)] := by rfl

end JsonTemplate
