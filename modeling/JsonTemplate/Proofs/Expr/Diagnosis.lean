import JsonTemplate.Proofs.Expr.Viability

namespace JsonTemplate

open Grammar

namespace Parser

-- A reading that fails stops in front of the first lexeme that cannot stand there, or at the end of the
-- source, which is placed between the source's end and that of the last lexeme.
theorem exists_stop_of_run {sourceEnd lastEnd : Nat} {state : State} {lexemes : List Lexeme}
    {error : SyntaxError} (h : run sourceEnd lastEnd state lexemes = .error error) :
    ∃ before last, reads state before = some last ∧
      ((∃ lexeme after, lexemes = before ++ lexeme :: after ∧ step last lexeme = none ∧
          error = ⟨lexeme.span, .unexpected (some lexeme.token) (expected last)⟩) ∨
        lexemes = before ∧ finish? last = none ∧
          error = ⟨⟨sourceEnd, (lexemes.getLast?.map fun lexeme => lexeme.span.stop).getD lastEnd⟩,
            .unexpected none (expected last)⟩) := by
  induction lexemes generalizing state lastEnd with
  | nil =>
      rw [run] at h
      split at h
      · cases h
      · rename_i hfinish
        cases h
        exact ⟨[], state, rfl, .inr ⟨rfl, hfinish, rfl⟩⟩
  | cons lexeme rest ih =>
      rw [run] at h
      split at h
      · rename_i next hstep
        obtain ⟨before, last, hreads, hstop⟩ := ih h
        refine ⟨lexeme :: before, last, (reads_of_step hstep before).trans hreads, ?_⟩
        rcases hstop with ⟨found, after, rfl, hfound, herror⟩ | ⟨rfl, hfinish, herror⟩
        · exact .inl ⟨found, after, rfl, hfound, herror⟩
        · refine .inr ⟨rfl, hfinish, ?_⟩
          rw [herror, List.getLast?_cons]
          cases rest.getLast? <;> rfl
      · rename_i hstep
        cases h
        exact ⟨[], state, rfl, .inl ⟨lexeme, rest, rfl, hstep, rfl⟩⟩

-- What a state expects, in words.
theorem exists_expected_iff {lexemes : List Lexeme} {state : State} (h : reads initial lexemes = some state)
    (text : String) :
    (∃ expectation ∈ expected state, expectation.describe = text) ↔
      (∃ symbol : Symbol, Viable (lexemes.map Lexeme.token ++ [.symbol symbol]) ∧ text = symbol.describe) ∨
        text = "end of input" ∧ Sentence (lexemes.map Lexeme.token) := by
  have hsymbol (symbol : Symbol) : .symbol symbol ∈ expected state ↔
      Viable (lexemes.map Lexeme.token ++ [.symbol symbol]) :=
    (isSome_step_symbol state symbol ⟨0, 0⟩).symm.trans (viable_concat_iff h ⟨.symbol symbol, ⟨0, 0⟩⟩).symm
  have hend : .endOfInput ∈ expected state ↔ Sentence (lexemes.map Lexeme.token) := by
    rw [← isSome_finish?, sentence_iff, h]
    simp
  constructor
  · rintro ⟨expectation, hmem, rfl⟩
    cases expectation with
    | symbol symbol => exact .inl ⟨symbol, (hsymbol symbol).mp hmem, rfl⟩
    | endOfInput => exact .inr ⟨rfl, hend.mp hmem⟩
  · rintro (⟨symbol, hviable, rfl⟩ | ⟨rfl, hsentence⟩)
    · exact ⟨.symbol symbol, (hsymbol symbol).mpr hviable, rfl⟩
    · exact ⟨.endOfInput, hend.mpr hsentence, rfl⟩

end Parser

theorem SyntaxError.mem_expected_iff (span : Span) (found : Option Token) (expectations : List Expectation)
    (text : String) : text ∈ SyntaxError.expected ⟨span, .unexpected found expectations⟩ ↔
      ∃ expectation ∈ expectations, expectation.describe = text := by
  rw [SyntaxError.expected, List.mem_mergeSort, List.mem_map]

theorem parse_of_lex {source : String} {lexemes : List Lexeme} (hlex : lex source = (lexemes, none))
    (hlength : lexemes.length ≤ maxTokens) :
    parse source = Parser.run source.utf8ByteSize source.utf8ByteSize Parser.initial lexemes := by
  rw [parse, hlex]
  simp only [List.getElem?_eq_none hlength]

-- Tokens that are no sentence are refused where they stop being the beginning of one, and what is
-- expected there is what could have stood there. An error is located where its span starts.
theorem parse_refuses_at_first_misfit (source : String) (lexemes : List Lexeme)
    (hlex : lex source = (lexemes, none)) (hlength : lexemes.length ≤ 2048)
    (hnone : ¬Sentence (lexemes.map Lexeme.token)) :
    ∃ error before, parse source = .error error ∧ Viable (before.map Lexeme.token) ∧
      ((∃ lexeme after, lexemes = before ++ lexeme :: after ∧
          ¬Viable (before.map Lexeme.token ++ [lexeme.token]) ∧ error.span = lexeme.span ∧
          error.message = "Unexpected " ++ lexeme.token.describe) ∨
        lexemes = before ∧ error.span.start = source.utf8ByteSize ∧
          error.message = "Unexpected end of input") ∧
      ∀ text, text ∈ error.expected ↔
        (∃ symbol : Symbol, Viable (before.map Lexeme.token ++ [.symbol symbol]) ∧ text = symbol.describe) ∨
          text = "end of input" ∧ Sentence (before.map Lexeme.token) := by
  have hparse := parse_of_lex hlex hlength
  cases hrun : Parser.run source.utf8ByteSize source.utf8ByteSize Parser.initial lexemes with
  | ok e =>
      obtain ⟨last, hreads, hfinish⟩ := Parser.run_eq_ok_iff.mp hrun
      have hsome : (Parser.finish? last).isSome := Option.isSome_iff_exists.mpr ⟨e, hfinish⟩
      exact absurd ((Parser.sentence_iff lexemes).mpr ⟨last, hreads, hsome⟩) hnone
  | error error =>
      obtain ⟨before, last, hreads, hstop⟩ := Parser.exists_stop_of_run hrun
      have hviable := (Parser.viable_iff before).mpr (Option.isSome_iff_exists.mpr ⟨last, hreads⟩)
      have hexpected := Parser.exists_expected_iff hreads
      refine ⟨error, before, hparse.trans hrun, hviable, ?_, fun text => ?_⟩
      · rcases hstop with ⟨lexeme, after, hsplit, hstep, rfl⟩ | ⟨hsplit, -, rfl⟩
        · refine .inl ⟨lexeme, after, hsplit, ?_, rfl, rfl⟩
          rw [Parser.viable_concat_iff hreads lexeme, hstep]
          exact Bool.false_ne_true
        · exact .inr ⟨hsplit, rfl, rfl⟩
      · rw [← hexpected]
        rcases hstop with ⟨lexeme, after, -, -, rfl⟩ | ⟨-, -, rfl⟩ <;> exact SyntaxError.mem_expected_iff ..

def openCall : List Lexeme :=
  [⟨.name "f", ⟨0, 1⟩⟩, ⟨.symbol .parenOpen, ⟨1, 2⟩⟩, ⟨.name "a", ⟨2, 3⟩⟩]

def crossedCall : List Lexeme :=
  openCall ++ [⟨.symbol .bracketClose, ⟨3, 4⟩⟩]

-- An open call can be closed by its own bracket, by no other, and not by the end of the source.
theorem parse_refuses_other_bracket :
    lex "f(a]" = (crossedCall, none) ∧ ¬Sentence (crossedCall.map Lexeme.token) ∧
      ∃ error, parse "f(a]" = .error error ∧ error.span = ⟨3, 4⟩ ∧ "')'" ∈ error.expected ∧
        "end of input" ∉ error.expected := by
  have hlex : lex "f(a]" = (crossedCall, none) := by rfl
  have hnone : ¬Sentence (crossedCall.map Lexeme.token) := by
    rw [Parser.sentence_iff]
    rintro ⟨last, hreads, -⟩
    cases hreads
  refine ⟨hlex, hnone, ?_⟩
  obtain ⟨error, before, hparse, hviable, hplace, hexpected⟩ :=
    parse_refuses_at_first_misfit "f(a]" crossedCall hlex (by decide) hnone
  have hopen : Viable (openCall.map Lexeme.token ++ [.symbol .parenClose]) :=
    (Parser.viable_iff (openCall ++ [(⟨.symbol .parenClose, ⟨3, 4⟩⟩ : Lexeme)])).mpr rfl
  have hend : ¬Sentence (openCall.map Lexeme.token) := by
    rw [Parser.sentence_iff]
    rintro ⟨last, hreads, hfinish⟩
    cases hreads
    cases hfinish
  have hspan : error.span = ⟨3, 4⟩ := by
    have herror : ∃ found, parse "f(a]" = .error found ∧ found.span = ⟨3, 4⟩ := ⟨_, rfl, rfl⟩
    obtain ⟨found, hfound, hspan⟩ := herror
    rw [hparse] at hfound
    cases hfound
    exact hspan
  -- Of the four tokens only the last one stands where the error is.
  have hbefore : before = openCall := by
    rcases hplace with ⟨lexeme, after, hsplit, -, hplace, -⟩ | ⟨-, hplace, -⟩
    · rw [hspan] at hplace
      simp only [crossedCall, openCall, List.cons_append, List.nil_append] at hsplit
      obtain _ | ⟨_, _ | ⟨_, _ | ⟨_, _ | ⟨_, rest⟩⟩⟩⟩ := before
      case cons.cons.cons.nil => cases hsplit; rfl
      case cons.cons.cons.cons => simp at hsplit
      all_goals cases hsplit; cases hplace
    · rw [hspan] at hplace
      cases hplace
  subst hbefore
  refine ⟨error, hparse, hspan, (hexpected _).mpr (.inl ⟨.parenClose, hopen, rfl⟩), fun hmem => ?_⟩
  rcases (hexpected _).mp hmem with ⟨symbol, -, htext⟩ | ⟨-, hsentence⟩
  · revert htext
    cases symbol <;> decide
  · exact hend hsentence

end JsonTemplate
