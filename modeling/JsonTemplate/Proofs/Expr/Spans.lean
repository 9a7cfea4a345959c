import JsonTemplate.Proofs.Expr.Diagnosis

namespace JsonTemplate

namespace Text

theorem utf8ByteSize_ofList (text : List Char) : (String.ofList text).utf8ByteSize = byteLength text := by
  induction text with
  | nil => rfl
  | cons c text ih =>
      rw [String.ofList_cons, String.utf8ByteSize_append, String.utf8ByteSize_singleton, ih, byteLength]

end Text

namespace Span

-- Both ends of the span lie between characters of the source, the second not before the first.
structure Within (span : Span) (source : String) : Prop where
  ordered : span.start ≤ span.stop
  bounded : span.stop ≤ source.utf8ByteSize
  start_valid : String.Pos.Raw.IsValid source ⟨span.start⟩
  stop_valid : String.Pos.Raw.IsValid source ⟨span.stop⟩

-- The span takes a part of a text that begins at the offset.
def PartOf (span : Span) (offset : Nat) (text : List Char) : Prop :=
  ∃ before part after, text = before ++ part ++ after ∧
    span.start = offset + Text.byteLength before ∧ span.stop = span.start + Text.byteLength part

theorem PartOf.cons {span : Span} {offset : Nat} {text : List Char} (c : Char)
    (h : span.PartOf (offset + c.utf8Size) text) : span.PartOf offset (c :: text) := by
  obtain ⟨before, part, after, rfl, hstart, hstop⟩ := h
  refine ⟨c :: before, part, after, rfl, ?_, hstop⟩
  rw [hstart, Text.byteLength, Nat.add_assoc]

-- The part that begins with the text itself.
theorem partOf_take (offset length : Nat) (text : List Char) :
    (⟨offset, offset + Text.byteLength (text.take length)⟩ : Span).PartOf offset text :=
  ⟨[], text.take length, text.drop length, (List.take_append_drop length text).symm, rfl, rfl⟩

theorem valid_of_prefix {source : String} {before after : List Char} (h : source.toList = before ++ after) :
    String.Pos.Raw.IsValid source ⟨Text.byteLength before⟩ := by
  have hsource : source = String.ofList before ++ String.ofList after := by
    rw [← String.ofList_append, ← h, String.ofList_toList]
  refine String.Pos.Raw.isValid_iff_exists_append.mpr ⟨_, _, hsource, ?_⟩
  rw [← Text.utf8ByteSize_ofList]
  rfl

-- The empty span at the end of the source.
theorem within_end (source : String) : (⟨source.utf8ByteSize, source.utf8ByteSize⟩ : Span).Within source where
  ordered := Nat.le_refl _
  bounded := Nat.le_refl _
  start_valid := String.Pos.Raw.isValid_rawEndPos
  stop_valid := String.Pos.Raw.isValid_rawEndPos

theorem PartOf.within {span : Span} {source : String} (h : span.PartOf 0 source.toList) :
    span.Within source := by
  obtain ⟨before, part, after, hsource, hstart, hstop⟩ := h
  rw [Nat.zero_add] at hstart
  have hstop' : span.stop = Text.byteLength (before ++ part) := by
    rw [hstop, hstart, Text.byteLength_append]
  have hsize : source.utf8ByteSize = Text.byteLength (before ++ part) + Text.byteLength after := by
    rw [← Text.byteLength_append, ← hsource, ← Text.utf8ByteSize_ofList, String.ofList_toList]
  refine ⟨?_, ?_, ?_, ?_⟩
  · omega
  · omega
  · rw [hstart]
    exact valid_of_prefix (hsource.trans (List.append_assoc ..))
  · rw [hstop']
    exact valid_of_prefix hsource

end Span

namespace Lexer

-- Every token takes a part of the text, and so does the text that starts no token.
theorem partOf_of_lexemes (offset leftOver : Nat) (text : List Char) :
    (∀ lexeme ∈ (lexemes offset leftOver text).1, lexeme.span.PartOf offset text) ∧
      ∀ failure ∈ (lexemes offset leftOver text).2,
        failure.span.PartOf offset text ∧ ∃ unknown, failure.cause = .unknownText unknown := by
  induction text generalizing offset leftOver with
  | nil => simp [lexemes]
  | cons c rest ih =>
      have hlater (leftOver : Nat) :
          (∀ lexeme ∈ (lexemes (offset + c.utf8Size) leftOver rest).1, lexeme.span.PartOf offset (c :: rest)) ∧
            ∀ failure ∈ (lexemes (offset + c.utf8Size) leftOver rest).2,
              failure.span.PartOf offset (c :: rest) ∧ ∃ unknown, failure.cause = .unknownText unknown := by
        obtain ⟨hlexemes, hfailure⟩ := ih (offset + c.utf8Size) leftOver
        exact ⟨fun lexeme hmem => (hlexemes lexeme hmem).cons c,
          fun failure hmem => (hfailure failure hmem).imp_left (.cons c)⟩
      cases leftOver with
      | succ leftOver =>
          rw [lexemes]
          exact hlater leftOver
      | zero =>
          rw [lexemes]
          split
          · exact hlater 0
          · have hfirst := Span.partOf_take offset (scan (c :: rest)).length (c :: rest)
            dsimp only
            split
            · simpa using hfirst
            · obtain ⟨hothers, hfailure⟩ := hlater ((scan (c :: rest)).length - 1)
              exact ⟨List.forall_mem_cons.mpr ⟨hfirst, hothers⟩, hfailure⟩

end Lexer

theorem within_of_mem_lex {source : String} {lexeme : Lexeme} (h : lexeme ∈ (lex source).1) :
    lexeme.span.Within source :=
  ((Lexer.partOf_of_lexemes 0 0 source.toList).1 lexeme h).within

-- An error has a place in the source, unless something is missing at the source's end.
theorem within_or_end_of_parse_error {source : String} {error : SyntaxError} (h : parse source = .error error) :
    (error.span.Within source ∧ ∀ expected, error.cause ≠ .unexpected none expected) ∨
      (∃ expected, error.cause = .unexpected none expected) ∧
        error.span = ⟨source.utf8ByteSize,
          ((lex source).1.getLast?.map fun lexeme => lexeme.span.stop).getD source.utf8ByteSize⟩ := by
  rw [parse] at h
  split at h
  · rename_i failure hlex
    cases h
    have hfailure : error ∈ (Lexer.lexemes 0 0 source.toList).2 := by
      rw [← lex, hlex]
      rfl
    obtain ⟨hpart, unknown, hcause⟩ := (Lexer.partOf_of_lexemes 0 0 source.toList).2 error hfailure
    refine .inl ⟨hpart.within, fun expected hexpected => ?_⟩
    cases hcause.symm.trans hexpected
  · rename_i lexemes hlex
    have hmem {lexeme : Lexeme} (h : lexeme ∈ lexemes) : lexeme.span.Within source :=
      within_of_mem_lex (by rw [hlex]; exact h)
    split at h
    · rename_i lexeme hlexeme
      cases h
      exact .inl ⟨hmem (List.mem_of_getElem? hlexeme), fun expected hcause => by cases hcause⟩
    · obtain ⟨before, state, -, ⟨lexeme, after, rfl, -, rfl⟩ | ⟨rfl, -, rfl⟩⟩ :=
        Parser.exists_stop_of_run h
      · exact .inl ⟨hmem (List.mem_append_right _ List.mem_cons_self), fun expected hcause => by cases hcause⟩
      · refine .inr ⟨⟨_, rfl⟩, ?_⟩
        rw [hlex]

-- An error marks a range of its source, unless the source ends where something is missing and goes on
-- behind its last token: the range then begins at the source's end and stops before that.
theorem within_of_parse_error_iff (source : String) (error : SyntaxError) (h : parse source = .error error) :
    error.span.Within source ↔
      ¬((∃ expected, error.cause = .unexpected none expected) ∧
        ∃ last, (lex source).1.getLast? = some last ∧ last.span.stop < source.utf8ByteSize) := by
  obtain ⟨hwithin, hcause⟩ | ⟨hcause, hspan⟩ := within_or_end_of_parse_error h
  · exact iff_of_true hwithin fun ⟨⟨expected, hexpected⟩, _⟩ => hcause expected hexpected
  · constructor
    · rintro hwithin ⟨-, last, hlast, hstop⟩
      have hordered := hwithin.ordered
      rw [hspan, hlast] at hordered
      exact absurd hordered (Nat.not_le.mpr hstop)
    · intro hnone
      cases hlast : (lex source).1.getLast? with
      | none =>
          rw [hspan, hlast]
          exact Span.within_end source
      | some last =>
          -- The last token ends where the source does, so that the range is empty.
          have hwithin := within_of_mem_lex (List.mem_of_getLast? hlast)
          have hstop : last.span.stop = source.utf8ByteSize :=
            Nat.le_antisymm hwithin.bounded (Nat.not_lt.mp fun hlt => hnone ⟨hcause, last, hlast, hlt⟩)
          rw [hspan, hlast, Option.map_some, Option.getD_some, hstop]
          exact Span.within_end source

-- A sum whose second summand is missing: the range of the error runs backwards if a blank follows
-- the operator.
theorem not_forall_parse_error_within :
    ¬∀ source error, parse source = .error error → error.span.Within source := by
  intro h
  have herror : ∃ error, parse "a + " = .error error ∧ error.span = ⟨4, 3⟩ := ⟨_, rfl, rfl⟩
  obtain ⟨error, hparse, hspan⟩ := herror
  have hordered := (h "a + " error hparse).ordered
  rw [hspan] at hordered
  exact absurd hordered (by decide)

-- Without the blank the range is the empty one at the end.
theorem within_of_missing_summand :
    ∃ error, parse "a +" = .error error ∧ error.span.Within "a +" := by
  have herror : ∃ error, parse "a +" = .error error := ⟨_, rfl⟩
  obtain ⟨error, hparse⟩ := herror
  refine ⟨error, hparse, (within_of_parse_error_iff "a +" error hparse).mpr ?_⟩
  rintro ⟨-, last, hlast, hstop⟩
  have hlex : (lex "a +").1.getLast? = some ⟨.symbol .plus, ⟨2, 3⟩⟩ := by rfl
  rw [hlex] at hlast
  cases hlast
  exact absurd hstop (by decide)

end JsonTemplate
