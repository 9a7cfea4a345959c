import JsonTemplate.Proofs.Expr.Language

namespace JsonTemplate

namespace Grammar

def Sentence (tokens : List Token) : Prop := ∃ tree, Derives .expression tokens tree

-- Some more tokens make a sentence of these.
def Viable (tokens : List Token) : Prop := ∃ rest, Sentence (tokens ++ rest)

end Grammar

open Grammar

namespace Parser

-- A symbol can stand behind an operand that it does not continue if it closes what is open around it.
theorem isSome_endOperand (stack : List Frame) (operand : Located) (span : Span) (symbol : Symbol) :
    (endOperand stack operand span symbol).isSome ↔ .symbol symbol ∈ closers stack := by
  induction stack generalizing operand with
  | nil => cases symbol <;> simp [endOperand, close, closers]
  | cons frame stack ih =>
      cases frame with
      | unary op start => exact ih (unary op start operand)
      | binary op lhs => exact ih (binary op lhs operand)
      | no test yes => exact ih (conditional test yes operand)
      | _ => cases symbol <;> simp [endOperand, close, closers, complete]

theorem isSome_afterOperand (stack : List Frame) (operand : Located) (span : Span) (symbol : Symbol) :
    (afterOperand stack operand span symbol).isSome ↔
      .symbol symbol ∈ continuations.map Expectation.symbol ++ closers stack := by
  by_cases hsymbol : symbol ∈ continuations
  · have hmem : Expectation.symbol symbol ∈ continuations.map Expectation.symbol ++ closers stack :=
      List.mem_append_left _ (List.mem_map_of_mem hsymbol)
    refine ⟨fun _ => hmem, fun _ => ?_⟩
    cases symbol <;> first | rfl | exact absurd hsymbol (by decide)
  · have hend : afterOperand stack operand span symbol = endOperand stack operand span symbol := by
      cases symbol <;> first | rfl | exact absurd (by decide) hsymbol
    rw [hend, isSome_endOperand]
    simp [hsymbol]

theorem isSome_startOperand (stack : List Frame) (span : Span) (symbol : Symbol) :
    (startOperand stack span symbol).isSome ↔ .symbol symbol ∈ expected ⟨stack, .operand⟩ := by
  cases stack with
  | nil => cases symbol <;> simp [startOperand, prefixOp?, expected]
  | cons frame stack =>
      cases frame <;> cases symbol <;> simp [startOperand, prefixOp?, expected, complete]

-- The symbols that are expected are those that can stand here.
theorem isSome_step_symbol (state : State) (symbol : Symbol) (span : Span) :
    (step state ⟨.symbol symbol, span⟩).isSome ↔ .symbol symbol ∈ expected state := by
  obtain ⟨stack, mode⟩ := state
  cases mode with
  | operand => exact isSome_startOperand stack span symbol
  | operator operand => exact isSome_afterOperand stack operand span symbol
  | memberName target => cases symbol <;> simp [step, expected]
  | key start entries => cases symbol <;> simp [step, expected, complete]
  | colon start entries key => cases symbol <;> simp [step, expected]

theorem isSome_finish? (state : State) : (finish? state).isSome ↔ .endOfInput ∈ expected state := by
  obtain ⟨stack, mode⟩ := state
  cases mode with
  | operator operand =>
      have hclosers : .endOfInput ∈ expected ⟨stack, .operator operand⟩ ↔ .endOfInput ∈ closers stack := by
        simp [expected]
      rw [hclosers]
      induction stack generalizing operand with
      | nil => simp [finish?, close, closers]
      | cons frame stack ih =>
          cases frame with
          | unary op start => exact ih (unary op start operand) (by simp [expected])
          | binary op lhs => exact ih (binary op lhs operand) (by simp [expected])
          | no test yes => exact ih (conditional test yes operand) (by simp [expected])
          | _ => simp [finish?, close, closers]
  | operand =>
      cases stack with
      | nil => simp [finish?, expected]
      | cons frame stack => cases frame <;> simp [finish?, expected]
  | _ => simp [finish?, expected]

-- Some lexemes lead from the state to the end of an expression.
def Finishes (state : State) : Prop :=
  ∃ lexemes last, reads state lexemes = some last ∧ (finish? last).isSome

theorem Finishes.of_step {state next : State} (lexeme : Lexeme) (h : step state lexeme = some next)
    (hnext : Finishes next) : Finishes state := by
  obtain ⟨lexemes, last, hreads, hfinish⟩ := hnext
  exact ⟨lexeme :: lexemes, last, (reads_of_step h lexemes).trans hreads, hfinish⟩

-- By induction on the stack: pending frames are completed together with what is before them, a bracket
-- and a question mark are answered by their own symbol, and the colon leaves one more pending frame.
theorem finishes_operator (stack : List Frame) {frames : List Frame}
    (hframes : ∀ frame ∈ frames, frame.IsPending) (operand : Located) :
    Finishes ⟨frames ++ stack, .operator operand⟩ := by
  induction stack generalizing frames operand with
  | nil =>
      refine ⟨[], _, rfl, ?_⟩
      simp only [finish?, close_append hframes, close]
      rfl
  | cons frame stack ih =>
      have hpending (hframe : frame.IsPending) : Finishes ⟨frames ++ frame :: stack, .operator operand⟩ := by
        have hmore := ih (List.forall_mem_append.mpr ⟨hframes, List.forall_mem_singleton.mpr hframe⟩) operand
        rwa [List.append_assoc] at hmore
      have hanswered (symbol : Symbol) {next : State}
          (hsymbol : symbol ∈ [.colon, .comma, .parenClose, .bracketClose, .braceClose])
          (hend : endOperand (frame :: stack) (enclose frames operand) ⟨0, 0⟩ symbol = some next)
          (hnext : Finishes next) : Finishes ⟨frames ++ frame :: stack, .operator operand⟩ :=
        .of_step _ ((step_end hframes hsymbol operand _).trans hend) hnext
      have hoperator (operand : Located) : Finishes ⟨stack, .operator operand⟩ :=
        ih (List.forall_mem_nil _) operand
      cases frame with
      | unary op start => exact hpending (.inl (Nat.le_add_left 1 6))
      | binary op lhs => exact hpending (.inl (level_bounds op).1)
      | no test yes => exact hpending (.inr ⟨test, yes, rfl⟩)
      | yes test =>
          have hno : ∀ frame ∈ [Frame.no test (enclose frames operand)], frame.IsPending :=
            List.forall_mem_singleton.mpr (.inr ⟨_, _, rfl⟩)
          have hname : Finishes ⟨.no test (enclose frames operand) :: stack, .operand⟩ :=
            .of_step ⟨.name "", ⟨0, 0⟩⟩ rfl (ih hno _)
          exact hanswered .colon (by decide) rfl hname
      | group | call callee args =>
          exact hanswered .parenClose (by decide) rfl (hoperator _)
      | array start items | index target =>
          exact hanswered .bracketClose (by decide) rfl (hoperator _)
      | entry start entries key =>
          exact hanswered .braceClose (by decide) rfl (hoperator _)

-- No state is a dead end.
theorem finishes (state : State) : Finishes state := by
  obtain ⟨stack, mode⟩ := state
  have hoperator (stack : List Frame) (operand : Located) : Finishes ⟨stack, .operator operand⟩ :=
    finishes_operator stack (List.forall_mem_nil _) operand
  have hoperand (stack : List Frame) : Finishes ⟨stack, .operand⟩ :=
    .of_step ⟨.name "", ⟨0, 0⟩⟩ rfl (hoperator stack _)
  cases mode with
  | operand => exact hoperand stack
  | operator operand => exact hoperator stack operand
  | memberName target => exact .of_step ⟨.name "", ⟨0, 0⟩⟩ rfl (hoperator stack _)
  | key start entries => exact .of_step ⟨.symbol .braceClose, ⟨0, 0⟩⟩ rfl (hoperator stack _)
  | colon start entries key => exact .of_step ⟨.symbol .colon, ⟨0, 0⟩⟩ rfl (hoperand _)

theorem sentence_iff (lexemes : List Lexeme) : Sentence (lexemes.map Lexeme.token) ↔
    ∃ last, reads initial lexemes = some last ∧ (finish? last).isSome := by
  constructor
  · rintro ⟨tree, hderives⟩
    obtain ⟨last, e, hreads, hfinish, -⟩ := exists_finish_of_derives hderives
    exact ⟨last, hreads, Option.isSome_iff_exists.mpr ⟨e, hfinish⟩⟩
  · rintro ⟨last, hreads, hsome⟩
    obtain ⟨e, hfinish⟩ := Option.isSome_iff_exists.mp hsome
    exact ⟨e.erase, derives_of_finish hreads hfinish⟩

-- The reader goes on as long as what it has read is the beginning of an expression, and no longer.
theorem viable_iff (lexemes : List Lexeme) :
    Viable (lexemes.map Lexeme.token) ↔ (reads initial lexemes).isSome := by
  constructor
  · rintro ⟨rest, hsentence⟩
    obtain ⟨others, rfl⟩ := exists_lexemes rest
    rw [← List.map_append, sentence_iff] at hsentence
    obtain ⟨last, hreads, -⟩ := hsentence
    rw [reads, List.foldlM_append, ← reads] at hreads
    obtain ⟨middle, hmiddle, -⟩ := Option.bind_eq_some_iff.mp hreads
    exact Option.isSome_iff_exists.mpr ⟨middle, hmiddle⟩
  · intro hsome
    obtain ⟨state, hstate⟩ := Option.isSome_iff_exists.mp hsome
    obtain ⟨others, last, hreads, hfinish⟩ := finishes state
    refine ⟨others.map Lexeme.token, ?_⟩
    rw [← List.map_append, sentence_iff]
    exact ⟨last, (reads_of_reads hstate others).trans hreads, hfinish⟩

theorem viable_concat_iff {lexemes : List Lexeme} {state : State} (h : reads initial lexemes = some state)
    (lexeme : Lexeme) :
    Viable (lexemes.map Lexeme.token ++ [lexeme.token]) ↔ (step state lexeme).isSome := by
  have hconcat : lexemes.map Lexeme.token ++ [lexeme.token] = (lexemes ++ [lexeme]).map Lexeme.token := by simp
  have hreads : reads initial (lexemes ++ [lexeme]) = step state lexeme := by
    rw [reads_of_reads h]
    exact bind_pure _
  rw [hconcat, viable_iff, hreads]

end Parser

end JsonTemplate
