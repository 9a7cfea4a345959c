import JsonTemplate.Proofs.Expr.Escapes
import JsonTemplate.Proofs.Text.Slice

namespace JsonTemplate

namespace Lexer

-- A character between quotes. A backslash stands before one that would not stand for itself there.
def Quote.guard (quote : Quote) (c : Char) : List Char := if c = '\\' ∨ c = quote.char then ['\\', c] else [c]

-- The literal for a text.
def Quote.write (quote : Quote) (s : String) : String :=
  String.ofList (quote.literal (s.toList.flatMap quote.guard))

variable (quote : Quote) (c : Char)

theorem guard_append_mem_bodies {text : List Char} (htext : text ∈ bodies quote.char) :
    quote.guard c ++ text ∈ bodies quote.char := by
  unfold Quote.guard
  split_ifs with hguarded
  · have hfeed : c ≠ '\n' := by
      rintro rfl
      cases quote <;> exact absurd hguarded (by decide)
    exact mem_bodies_iff.mpr (.inr (.inr ⟨c, text, hfeed, htext, rfl⟩))
  · obtain ⟨hbackslash, hquote⟩ := not_or.mp hguarded
    exact mem_bodies_iff.mpr (.inr (.inl ⟨c, text, ⟨hquote, hbackslash⟩, htext, rfl⟩))

theorem unescape?_guard_append (text : List Char) :
    unescape? (quote.guard c ++ text) = (unescape? text).map (c :: ·) := by
  unfold Quote.guard
  split_ifs with hguarded
  · have hself : c ≠ 'u' ∧ escaped c = c := by
      rcases hguarded with rfl | rfl
      · exact ⟨by decide, rfl⟩
      · cases quote <;> exact ⟨by decide, rfl⟩
    rw [List.cons_append, List.singleton_append, unescape?_escaped hself.1, hself.2]
  · exact unescape?_plain (not_or.mp hguarded).1 text

-- By the text: its guarded characters stand between quotes, and are read as what they were.
theorem guarded_mem_bodies (text : List Char) : text.flatMap quote.guard ∈ bodies quote.char := by
  induction text with
  | nil => exact mem_bodies_iff.mpr (.inl rfl)
  | cons c text ih => exact guard_append_mem_bodies quote c ih

theorem unescape?_guarded (text : List Char) : unescape? (text.flatMap quote.guard) = some text := by
  induction text with
  | nil => rfl
  | cons c text ih => rw [List.flatMap_cons, unescape?_guard_append, ih, Option.map_some]

-- Wherever the literal stands and whatever follows it, the lexer reads its text and goes on behind it.
theorem accepts_guarded (offset : Nat) (text after : List Char) :
    Accepts offset quote (text.flatMap quote.guard) after text :=
  accepts_of_unescape? (guarded_mem_bodies quote text) offset after (unescape?_guarded quote text)

end Lexer

open Lexer

-- Every text has a literal in quotes of either kind, and this literal is one token.
theorem lex_write (quote : Quote) (s : String) :
    lex (quote.write s) = ([⟨.string s, 0, (quote.write s).utf8ByteSize⟩], none) := by
  have hliteral : (quote.write s).toList = quote.literal (s.toList.flatMap quote.guard) := String.toList_ofList
  have haccepts := accepts_guarded quote 0 s.toList []
  rw [Accepts, List.append_nil, ← hliteral, Text.byteLength_toList, Nat.zero_add, String.ofList_toList] at haccepts
  exact haccepts

end JsonTemplate
