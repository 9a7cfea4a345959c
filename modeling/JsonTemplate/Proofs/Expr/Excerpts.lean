import JsonTemplate.Proofs.Expr.Extents
import JsonTemplate.Proofs.Expr.Parentheses
import JsonTemplate.Proofs.Expr.Splitting
import JsonTemplate.Proofs.Text.Slice

namespace JsonTemplate

namespace Grammar

variable {lexemes before behind within : List Lexeme} {node : Located} {span first last : Span}

section

variable (f : Nat → Nat)

theorem map_conditional (test yes no : Located) :
    (Parser.conditional test yes no).map (Span.map f) =
      Parser.conditional (test.map (Span.map f)) (yes.map (Span.map f)) (no.map (Span.map f)) := by
  simp only [Parser.conditional, Parser.spanOf, Expr.map, Expr.note_map, Span.map]

theorem map_binary (op : BinaryOp) (lhs rhs : Located) :
    (Parser.binary op lhs rhs).map (Span.map f) =
      Parser.binary op (lhs.map (Span.map f)) (rhs.map (Span.map f)) := by
  simp only [Parser.binary, Parser.spanOf, Expr.map, Expr.note_map, Span.map]

theorem map_unary (op : UnaryOp) (start : Nat) (operand : Located) :
    (Parser.unary op start operand).map (Span.map f) =
      Parser.unary op (f start) (operand.map (Span.map f)) := by
  simp only [Parser.unary, Expr.map, Expr.note_map, Span.map]

theorem map_literal {lexeme : Lexeme} (h : Parser.literal? lexeme.span lexeme.token = some node) :
    Parser.literal? (lexeme.map f).span (lexeme.map f).token = some (node.map (Span.map f)) := by
  obtain ⟨token, span⟩ := lexeme
  cases token with
  | symbol symbol => cases h
  | keyword word => cases word <;> cases h <;> rfl
  | _ =>
      cases h
      rfl

def Passage.map (passage : Passage) : Passage :=
  ⟨passage.lexemes.map (Lexeme.map f), passage.node.map (Span.map f)⟩

def Entry.map (entry : Entry) : Entry :=
  ⟨entry.label.map f, entry.colon.map f, entry.key, entry.value.map f⟩

theorem Separated.map {α : Type} {parts : List α} {lexemesOf : α → List Lexeme} {move : α → α}
    (hmove : ∀ part, lexemesOf (move part) = (lexemesOf part).map (Lexeme.map f))
    (h : Separated lexemesOf parts within) :
    Separated lexemesOf (parts.map move) (within.map (Lexeme.map f)) := by
  induction h with
  | none => exact .none
  | last part =>
      rw [← hmove]
      exact .last _
  | more part comma _ ih =>
      rw [List.map_append, ← hmove]
      exact .more _ (comma.map f) ih

-- The same lexemes at other places make the same nodes at other places.
theorem Spells.map {category : Category} (h : Spells category lexemes node) :
    Spells category (lexemes.map (Lexeme.map f)) (node.map (Span.map f)) := by
  induction h with
  | simple _ ih => exact .simple ih
  | conditional question colon _ _ _ ihTest ihYes ihNo =>
      rw [map_conditional, List.map_append, List.map_append]
      exact .conditional (question.map f) (colon.map f) ihTest ihYes ihNo
  | link _ ih => exact .link ih
  | binary sign _ hop _ ihLeft ihRight =>
      rw [map_binary, List.map_append]
      exact .binary (sign.map f) ihLeft hop ihRight
  | plain _ ih => exact .plain ih
  | unary sign hop _ ih =>
      rw [map_unary]
      exact .unary (sign.map f) hop ih
  | bare _ ih => exact .bare ih
  | member _ dot key label ih =>
      rw [Expr.map, List.map_append]
      have hmember := ih.member (dot.map f) key (label.map f)
      rwa [Expr.note_map] at hmember
  | index bracket close _ _ ihTarget ihKey =>
      rw [Expr.map, List.map_append, List.map_append]
      have hindex := Spells.index (bracket.map f) (close.map f) ihTarget ihKey
      rwa [Expr.note_map] at hindex
  | @call _ _ _ args bracket close _ _ hlist ihCallee ihArgs =>
      have hargs : ∀ arg ∈ args.map (Passage.map f), Spells .expression arg.lexemes arg.node :=
        List.forall_mem_map.mpr ihArgs
      have hcall := Spells.call (bracket.map f) (close.map f) ihCallee hargs (hlist.map f fun _ => rfl)
      rw [Expr.note_map, List.map_map] at hcall
      rwa [Expr.map, Expr.mapItems_eq_map, List.map_map, List.map_append, List.map_append]
  | literal h => exact .literal (map_literal f h)
  | @array _ items bracket close _ hlist ih =>
      have hitems : ∀ item ∈ items.map (Passage.map f), Spells .expression item.lexemes item.node :=
        List.forall_mem_map.mpr ih
      have harray := Spells.array (bracket.map f) (close.map f) hitems (hlist.map f fun _ => rfl)
      rw [List.map_map] at harray
      rwa [Expr.map, Expr.mapItems_eq_map, List.map_map, List.map_append]
  | @object _ entries brace close hlabels _ hlist ih =>
      have hlabels' : ∀ entry ∈ entries.map (Entry.map f), Label entry.label.token entry.key :=
        List.forall_mem_map.mpr hlabels
      have hvalues : ∀ entry ∈ entries.map (Entry.map f), Spells .expression entry.value.lexemes entry.value.node :=
        List.forall_mem_map.mpr ih
      have hobject := Spells.object (brace.map f) (close.map f) hlabels' hvalues (hlist.map f fun _ => rfl)
      rw [List.map_map] at hobject
      rwa [Expr.map, Expr.mapEntries_eq_map, List.map_map, List.map_append]
  | group bracket close _ ih =>
      rw [List.map_append]
      exact .group (bracket.map f) (close.map f) ih

end

theorem matched_map_iff (f : Nat → Nat) (lexemes : List Lexeme) :
    Matched (lexemes.map (Lexeme.map f)) ↔ Matched lexemes := by
  rw [Matched, openParens, List.foldlM_map]
  rfl

-- Without the parentheses around them, the lexemes begin where the span begins and end where it ends.
def Trims (lexemes : List Lexeme) (span : Span) : Prop :=
  ∃ opens core closes, lexemes = opens ++ core ++ closes ∧
    (∀ lexeme ∈ opens, lexeme.token = .symbol .parenOpen) ∧ (∀ lexeme ∈ closes, lexeme.token = .symbol .parenClose) ∧
      core.head?.map (·.span.start) = some span.start ∧ core.getLast?.map (·.span.stop) = some span.stop

theorem trims_lexeme (lexeme : Lexeme) : Trims [lexeme] lexeme.span :=
  ⟨[], [lexeme], [], rfl, List.forall_mem_nil _, List.forall_mem_nil _, rfl, rfl⟩

theorem Trims.join (h : Trims before first) (between : List Lexeme) (h' : Trims behind last) :
    Trims (before ++ between ++ behind) ⟨first.start, last.stop⟩ := by
  obtain ⟨opens, core, closes, rfl, hopens, -, hstart, -⟩ := h
  obtain ⟨opens', core', closes', rfl, -, hcloses', -, hstop⟩ := h'
  obtain ⟨lexeme, hhead, hstart⟩ := Option.map_eq_some_iff.mp hstart
  obtain ⟨lexeme', hlast, hstop⟩ := Option.map_eq_some_iff.mp hstop
  refine ⟨opens, core ++ (closes ++ between ++ opens' ++ core'), closes', by simp, hopens, hcloses', ?_, ?_⟩
  · rw [List.head?_append, hhead]
    exact congrArg some hstart
  · rw [← List.append_assoc, List.getLast?_append, hlast]
    exact congrArg some hstop

theorem Trims.parens (h : Trims within span) (bracket close : Span) :
    Trims (⟨.symbol .parenOpen, bracket⟩ :: within ++ [⟨.symbol .parenClose, close⟩]) span := by
  obtain ⟨opens, core, closes, rfl, hopens, hcloses, hspan⟩ := h
  refine ⟨⟨.symbol .parenOpen, bracket⟩ :: opens, core, closes ++ [⟨.symbol .parenClose, close⟩], by simp, ?_, ?_,
    hspan⟩
  · exact List.forall_mem_cons.mpr ⟨rfl, hopens⟩
  · exact List.forall_mem_append.mpr ⟨hcloses, List.forall_mem_singleton.mpr rfl⟩

-- Parentheses at the edges of a node's first and last parts are outside its span, and there are no others.
theorem Spells.trims {category : Category} (h : Spells category lexemes node) : Trims lexemes node.note := by
  induction h with
  | simple _ ih | link _ ih | plain _ ih | bare _ ih => exact ih
  | @conditional _ between _ test yes no question colon _ _ _ ihTest _ ihNo =>
      have hjoin : Trims _ (Parser.conditional test yes no).note :=
        ihTest.join (⟨.symbol .question, question⟩ :: between ++ [⟨.symbol .colon, colon⟩]) ihNo
      simpa using hjoin
  | @binary _ _ _ symbol _ _ _ sign _ _ _ ihLeft ihRight =>
      have hjoin := ihLeft.join [⟨.symbol symbol, sign⟩] ihRight
      rwa [List.append_assoc] at hjoin
  | @unary _ symbol _ _ sign _ _ ih => exact (trims_lexeme ⟨.symbol symbol, sign⟩).join [] ih
  | member _ dot key label ih =>
      have hjoin := ih.join [⟨.symbol .dot, dot⟩] (trims_lexeme ⟨.name key, label⟩)
      rwa [List.append_assoc] at hjoin
  | index bracket close _ _ ihTarget => exact ihTarget.join _ (trims_lexeme ⟨.symbol .bracketClose, close⟩)
  | call bracket close _ _ _ ihCallee => exact ihCallee.join _ (trims_lexeme ⟨.symbol .parenClose, close⟩)
  | @literal lexeme _ h =>
      rw [(children_literal h).1]
      exact trims_lexeme lexeme
  | array bracket close =>
      exact (trims_lexeme ⟨.symbol .bracketOpen, bracket⟩).join _ (trims_lexeme ⟨.symbol .bracketClose, close⟩)
  | object brace close =>
      exact (trims_lexeme ⟨.symbol .braceOpen, brace⟩).join _ (trims_lexeme ⟨.symbol .braceClose, close⟩)
  | group bracket close _ ih => exact ih.parens bracket close

end Grammar

open Grammar

-- A part of a source from the beginning of a lexeme to the end of a lexeme falls into the same lexemes.
theorem lex_slice {source : String} {lexemes core : List Lexeme} {span : Span} (hlex : lex source = (lexemes, none))
    (hcore : core <:+: lexemes) (hstart : core.head?.map (·.span.start) = some span.start)
    (hstop : core.getLast?.map (·.span.stop) = some span.stop) :
    lex (Text.slice source span.start span.stop) = (core.map (Lexeme.map (· - span.start)), none) := by
  obtain ⟨first, hfirst, hstart⟩ := Option.map_eq_some_iff.mp hstart
  obtain ⟨last, hlast, hstop⟩ := Option.map_eq_some_iff.mp hstop
  obtain ⟨more, hmore⟩ := List.head?_eq_some_iff.mp hfirst
  obtain ⟨front, hfront⟩ := List.getLast?_eq_some_iff.mp hlast
  obtain ⟨before, behind, rfl⟩ := hcore
  have hsplits := Lexer.splits_of_lexemes hlex
  rw [List.append_assoc, hmore, List.cons_append] at hsplits
  obtain ⟨blanks, text, htext, hoffset, hrest⟩ := hsplits.drop
  rw [← List.cons_append, ← hmore, hfront, List.append_assoc] at hrest
  obtain ⟨part, after, rfl, hend, hpart⟩ := hrest.take
  rw [← hfront, hstart] at hpart
  rw [hstart, Nat.zero_add] at hoffset
  rw [hstart, hstop] at hend
  have hslice : Text.slice source span.start span.stop = String.ofList part := by
    rw [hend, hoffset]
    exact Text.slice_of_parts (htext.trans (List.append_assoc ..).symm)
  rw [hslice, lex, String.toList_ofList]
  exact Lexer.lexemes_of_splits (hpart.map_sub 0 (Nat.add_zero _))

-- The text of a source that a node's span marks.
def excerpt (source : String) (node : Located) : String := Text.slice source node.note.start node.note.stop

-- The text of a node has the node itself as its tree if the parentheses in it are matched, and else it has no
-- tree: a group is no node, so that the spans around it begin or end within its parentheses.
theorem parse_excerpt (source : String) (e node : Located) (h : parse source = .ok e) (hnode : e.HasNode node) :
    (Matched (lex (excerpt source node)).1 →
      parse (excerpt source node) = .ok (node.map (Span.map (· - node.note.start)))) ∧
    (¬Matched (lex (excerpt source node)).1 → ∃ error, parse (excerpt source node) = .error error) := by
  obtain ⟨lexemes, hlex, hlength, hspells⟩ := parse_eq_ok_iff_spells.mp h
  obtain ⟨part, hpart, hinner⟩ := hspells.exists_part hnode
  obtain ⟨opens, core, closes, rfl, hopens, hcloses, hstart, hstop⟩ := hinner.trims
  have hcore : core <:+: lexemes := List.IsInfix.trans ⟨opens, closes, rfl⟩ hpart
  have hexcerpt : lex (excerpt source node) = (core.map (Lexeme.map (· - node.note.start)), none) :=
    lex_slice hlex hcore hstart hstop
  constructor
  · intro hmatched
    rw [hexcerpt, matched_map_iff] at hmatched
    refine parse_eq_ok_iff_spells.mpr ⟨_, hexcerpt, ?_, (hinner.of_nested hopens hcloses hmatched).map _⟩
    rw [List.length_map]
    exact Nat.le_trans hcore.length_le hlength
  · intro hunmatched
    cases hparse : parse (excerpt source node) with
    | error error => exact ⟨error, rfl⟩
    | ok e' =>
        obtain ⟨others, hothers, -, hspells'⟩ := parse_eq_ok_iff_spells.mp hparse
        rw [hothers] at hunmatched
        exact absurd hspells'.matched hunmatched

-- The access begins within the parentheses that stand around its target.
theorem not_forall_parse_excerpt :
    ¬∀ source e node, parse source = .ok e → e.HasNode node →
      parse (excerpt source node) = .ok (node.map (Span.map (· - node.note.start))) := by
  intro h
  have hparse : parse "(a).b" = .ok (.member ⟨1, 5⟩ (.name ⟨1, 2⟩ "a") "b") := by rfl
  have hexcerpt : ∃ error, parse "a).b" = .error error := ⟨_, rfl⟩
  obtain ⟨error, herror⟩ := hexcerpt
  cases herror.symm.trans (h "(a).b" _ _ hparse .root)

def groupedAccess : Located := .member ⟨2, 6⟩ (.name ⟨2, 3⟩ "a") "b"

def groupedCall : Located := .call ⟨9, 15⟩ (.name ⟨9, 10⟩ "f") [.name ⟨12, 13⟩ "c"]

def groupedSum : Located := .binary ⟨0, 15⟩ .add (.unary ⟨0, 6⟩ .negate groupedAccess) groupedCall

-- The parentheses of the call and those within it belong to its text, those of the access do so in part.
theorem parse_excerpt_of_sum :
    parse "-(a).b + f((c))" = .ok groupedSum ∧ groupedSum.HasNode groupedCall ∧ groupedSum.HasNode groupedAccess ∧
      Matched (lex "f((c))").1 ∧ parse "f((c))" = .ok (.call ⟨0, 6⟩ (.name ⟨0, 1⟩ "f") [.name ⟨3, 4⟩ "c"]) ∧
      ¬Matched (lex "a).b").1 ∧ ∃ error, parse "a).b" = .error error := by
  have hparse : parse "-(a).b + f((c))" = .ok groupedSum := by rfl
  have hcall : groupedSum.HasNode groupedCall := .inside (List.mem_cons_of_mem _ (List.mem_singleton_self _)) .root
  have haccess : groupedSum.HasNode groupedAccess :=
    .inside List.mem_cons_self (.inside (List.mem_singleton_self _) .root)
  have hcallText : excerpt "-(a).b + f((c))" groupedCall = "f((c))" := by rfl
  have haccessText : excerpt "-(a).b + f((c))" groupedAccess = "a).b" := by rfl
  have hmatched : Matched (lex "f((c))").1 := by decide
  have hunmatched : ¬Matched (lex "a).b").1 := by decide
  obtain ⟨htree, -⟩ := parse_excerpt _ _ _ hparse hcall
  obtain ⟨-, herror⟩ := parse_excerpt _ _ _ hparse haccess
  rw [hcallText] at htree
  rw [haccessText] at herror
  exact ⟨hparse, hcall, haccess, hmatched, htree hmatched, hunmatched, herror hunmatched⟩

end JsonTemplate
