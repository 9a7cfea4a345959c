import JsonTemplate.Expr.Parser
import JsonTemplate.Proofs.Expr.Nodes

namespace JsonTemplate.Parser

-- The state after some more tokens, if all of them can stand here.
def reads (state : State) (lexemes : List Lexeme) : Option State := lexemes.foldlM step state

theorem reads_of_step {state next : State} {lexeme : Lexeme} (h : step state lexeme = some next)
    (rest : List Lexeme) : reads state (lexeme :: rest) = reads next rest := by
  rw [reads, List.foldlM_cons, h]
  rfl

theorem reads_of_reads {state next : State} {lexemes : List Lexeme} (h : reads state lexemes = some next)
    (rest : List Lexeme) : reads state (lexemes ++ rest) = reads next rest := by
  rw [reads, List.foldlM_append, ← reads, h]
  rfl

theorem run_eq_ok_iff {sourceEnd lastEnd : Nat} {state : State} {lexemes : List Lexeme} {e : Located} :
    run sourceEnd lastEnd state lexemes = .ok e ↔
      ∃ last, reads state lexemes = some last ∧ finish? last = some e := by
  induction lexemes generalizing state lastEnd with
  | nil =>
      rw [run]
      cases hfinish : finish? state with
      | none => simp [reads, hfinish]
      | some whole => simp [reads, hfinish]
  | cons lexeme rest ih =>
      rw [run]
      cases hstep : step state lexeme with
      | none => simp [reads, hstep]
      | some next =>
          rw [reads_of_step hstep]
          exact ih

-- The node that a frame makes when the operand behind it is complete.
def Frame.around : Frame → Located → Located
  | unary op start, operand => Parser.unary op start operand
  | binary op lhs, operand => Parser.binary op lhs operand
  | no test first, operand => conditional test first operand
  | _, operand => operand

def enclose (frames : List Frame) (operand : Located) : Located :=
  frames.foldl (fun operand frame => frame.around operand) operand

-- How tight a frame holds the operand behind it. Sign and negation hold it tighter than all binary
-- operators, brackets and conditionals do not hold it.
def Frame.hold : Frame → Nat
  | unary .. => 7
  | binary op _ => op.level
  | _ => 0

-- An operator of the level leaves the frames before its left operand alone.
def Apart (level : Nat) (stack : List Frame) : Prop := ∀ frame ∈ stack.head?, frame.hold < level

theorem apart_nil {level : Nat} : Apart level [] := nofun

theorem apart_cons {level : Nat} {frame : Frame} {stack : List Frame} :
    Apart level (frame :: stack) ↔ frame.hold < level := by
  simp [Apart]

theorem Apart.of_le {m n : Nat} {stack : List Frame} (h : Apart m stack) (hle : m ≤ n) : Apart n stack :=
  fun frame hframe => Nat.lt_of_lt_of_le (h frame hframe) hle

theorem settle_append {level : Nat} (hlevel : 1 ≤ level) {frames : List Frame}
    (h : ∀ frame ∈ frames, level ≤ frame.hold) (stack : List Frame) (operand : Located) :
    settle level (frames ++ stack) operand = settle level stack (enclose frames operand) := by
  induction frames generalizing operand with
  | nil => rfl
  | cons frame rest ih =>
      obtain ⟨hframe, hrest⟩ := List.forall_mem_cons.mp h
      cases frame with
      | unary op start => exact ih hrest (unary op start operand)
      | binary op lhs =>
          have hop : level ≤ op.level := hframe
          rw [List.cons_append, settle, if_pos hop]
          exact ih hrest (binary op lhs operand)
      | _ =>
          have hzero : level ≤ 0 := hframe
          omega

theorem settle_of_apart {level : Nat} (hlevel : level ≤ 7) {stack : List Frame} (h : Apart level stack)
    (operand : Located) : settle level stack operand = (stack, operand) := by
  cases stack with
  | nil => rfl
  | cons frame stack =>
      have hframe := apart_cons.mp h
      cases frame with
      | unary op start =>
          have hunary : 7 < level := hframe
          omega
      | binary op lhs => exact if_neg (Nat.not_le_of_lt hframe)
      | _ => rfl

-- A question mark and an or complete the same operators.
theorem settle_zero (stack : List Frame) (operand : Located) :
    settle 0 stack operand = settle 1 stack operand := by
  induction stack generalizing operand with
  | nil => rfl
  | cons frame stack ih =>
      cases frame with
      | unary op start => exact ih (unary op start operand)
      | binary op lhs =>
          have hlevel : 1 ≤ op.level := by cases op <;> decide
          rw [settle, settle, if_pos (Nat.zero_le _), if_pos hlevel]
          exact ih (binary op lhs operand)
      | _ => rfl

-- The end of an expression completes the frame.
def Frame.IsPending (frame : Frame) : Prop := 1 ≤ frame.hold ∨ ∃ test yes, frame = .no test yes

theorem close_append {frames : List Frame} (h : ∀ frame ∈ frames, frame.IsPending) (stack : List Frame)
    (operand : Located) : close (frames ++ stack) operand = close stack (enclose frames operand) := by
  induction frames generalizing operand with
  | nil => rfl
  | cons frame rest ih =>
      obtain ⟨hframe, hrest⟩ := List.forall_mem_cons.mp h
      cases frame with
      | unary op start => exact ih hrest (unary op start operand)
      | binary op lhs => exact ih hrest (binary op lhs operand)
      | no test yes => exact ih hrest (conditional test yes operand)
      | _ =>
          rcases hframe with hhold | ⟨_, _, he⟩
          · cases hhold
          · cases he

end JsonTemplate.Parser
