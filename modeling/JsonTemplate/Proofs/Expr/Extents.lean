import JsonTemplate.Proofs.Expr.Language
import JsonTemplate.Proofs.Expr.Nodes
import JsonTemplate.Proofs.Expr.Tokenization

namespace JsonTemplate

-- No span is empty, and the next one begins behind it.
structure InOrder (spans : List Span) : Prop where
  nonempty : ∀ span ∈ spans, span.start < span.stop
  apart : spans.Pairwise fun span later => span.stop ≤ later.start

namespace InOrder

variable {first last : Span} {spans others : List Span}

theorem of_sublist (h : InOrder spans) (hsub : others.Sublist spans) : InOrder others :=
  ⟨fun span hmem => h.nonempty span (hsub.subset hmem), h.apart.sublist hsub⟩

theorem append (h : InOrder spans) (hothers : InOrder others)
    (hbetween : ∀ span ∈ spans, ∀ later ∈ others, span.stop ≤ later.start) : InOrder (spans ++ others) :=
  ⟨List.forall_mem_append.mpr ⟨h.nonempty, hothers.nonempty⟩,
    List.pairwise_append.mpr ⟨h.apart, hothers.apart, hbetween⟩⟩

theorem start_le (h : InOrder (first :: spans)) : ∀ span ∈ first :: spans, first.start ≤ span.start := by
  have hfirst := h.nonempty first List.mem_cons_self
  refine List.forall_mem_cons.mpr ⟨Nat.le_refl _, fun span hmem => ?_⟩
  have hbehind := (List.pairwise_cons.mp h.apart).1 span hmem
  omega

theorem le_stop (h : InOrder (spans ++ [last])) : ∀ span ∈ spans ++ [last], span.stop ≤ last.stop := by
  have hlast := h.nonempty last List.mem_concat_self
  refine List.forall_mem_append.mpr ⟨fun span hmem => ?_, List.forall_mem_singleton.mpr (Nat.le_refl _)⟩
  have hbehind := (List.pairwise_append.mp h.apart).2.2 span hmem last (List.mem_singleton_self last)
  omega

end InOrder

theorem inOrder_lex (source : String) : InOrder ((lex source).1.map Lexeme.span) := by
  have h := Lexer.tokenized_lexemes 0 source.toList
  refine ⟨List.forall_mem_map.mpr fun lexeme hmem => ?_, List.pairwise_map.mpr h.ordered⟩
  obtain ⟨before, slice, after, rule, -, -, hstop, hmatch, -⟩ := h.token lexeme hmem
  have hpos := Lexer.byteLength_pos (Lexer.ne_nil_of_mem hmatch.mem)
  omega

-- The span begins where a lexeme begins and ends where a lexeme ends.
structure Aligned (lexemes : List Lexeme) (span : Span) : Prop where
  nonempty : span.start < span.stop
  starts : ∃ lexeme ∈ lexemes, lexeme.span.start = span.start
  stops : ∃ lexeme ∈ lexemes, lexeme.span.stop = span.stop

theorem Aligned.mono {lexemes others : List Lexeme} {span : Span} (h : Aligned lexemes span)
    (hsubset : lexemes ⊆ others) : Aligned others span :=
  ⟨h.nonempty, h.starts.imp fun _ => And.imp_left (hsubset ·), h.stops.imp fun _ => And.imp_left (hsubset ·)⟩

-- The node takes whole lexemes, and its parts take disjoint ranges of its own range, one behind the other.
structure WellNested (lexemes : List Lexeme) (node : Located) : Prop where
  aligned : Aligned lexemes node.note
  within : ∀ child ∈ node.children, node.note.start ≤ child.note.start ∧ child.note.stop ≤ node.note.stop
  apart : node.children.Pairwise fun child later => child.note.stop ≤ later.note.start

theorem WellNested.mono {lexemes others : List Lexeme} {node : Located} (h : WellNested lexemes node)
    (hsubset : lexemes ⊆ others) : WellNested others node :=
  ⟨h.aligned.mono hsubset, h.within, h.apart⟩

namespace Grammar

variable {lexemes before behind : List Lexeme} {spans others : List Span} {node : Located}

-- The spans stand in order and are aligned if the lexemes are in order.
def Spread (lexemes : List Lexeme) (spans : List Span) : Prop :=
  InOrder (lexemes.map Lexeme.span) → InOrder spans ∧ ∀ span ∈ spans, Aligned lexemes span

theorem spread_nil (lexemes : List Lexeme) : Spread lexemes [] :=
  fun _ => ⟨⟨nofun, .nil⟩, nofun⟩

theorem spread_lexeme (lexeme : Lexeme) : Spread [lexeme] [lexeme.span] := by
  intro hordered
  refine ⟨hordered, List.forall_mem_singleton.mpr ⟨?_, ⟨lexeme, ?_, rfl⟩, ⟨lexeme, ?_, rfl⟩⟩⟩
  · exact hordered.nonempty _ (List.mem_singleton_self _)
  · exact List.mem_singleton_self lexeme
  · exact List.mem_singleton_self lexeme

theorem Spread.append (h : Spread before spans) (h' : Spread behind others) :
    Spread (before ++ behind) (spans ++ others) := by
  intro hordered
  rw [List.map_append] at hordered
  obtain ⟨hspans, haligned⟩ := h (hordered.of_sublist (List.sublist_append_left _ _))
  obtain ⟨hothers, haligned'⟩ := h' (hordered.of_sublist (List.sublist_append_right _ _))
  refine ⟨hspans.append hothers fun span hmem later hlater => ?_, List.forall_mem_append.mpr ⟨?_, ?_⟩⟩
  · obtain ⟨lexeme, hlexeme, hstop⟩ := (haligned span hmem).stops
    obtain ⟨lexeme', hlexeme', hstart⟩ := (haligned' later hlater).starts
    rw [← hstop, ← hstart]
    exact (List.pairwise_append.mp hordered.apart).2.2 _ (List.mem_map_of_mem hlexeme) _
      (List.mem_map_of_mem hlexeme')
  · exact fun span hmem => (haligned span hmem).mono (List.subset_append_left _ _)
  · exact fun span hmem => (haligned' span hmem).mono (List.subset_append_right _ _)

-- The lexeme before the others is passed over.
theorem Spread.past (h : Spread lexemes spans) (lexeme : Lexeme) : Spread (lexeme :: lexemes) spans :=
  (spread_nil [lexeme]).append h

theorem spread_separated {α : Type} {parts : List α} {lexemesOf : α → List Lexeme} {span : α → Span}
    (hparts : ∀ part ∈ parts, Spread (lexemesOf part) [span part]) {within : List Lexeme}
    (hlist : Separated lexemesOf parts within) : Spread within (parts.map span) := by
  induction hlist with
  | none => exact spread_nil []
  | last part => exact hparts part (List.mem_singleton_self part)
  | more part comma _ ih =>
      obtain ⟨hpart, hothers⟩ := List.forall_mem_cons.mp hparts
      exact hpart.append ((ih hothers).past _)

-- Spans of which the first begins where the node begins and the last ends where it ends. Those of its
-- parts are among them.
structure Outline (lexemes : List Lexeme) (node : Located) (spans : List Span) : Prop where
  spread : Spread lexemes spans
  starts : spans.head?.map Span.start = some node.note.start
  stops : spans.getLast?.map Span.stop = some node.note.stop
  children : (node.children.map Expr.note).Sublist spans

theorem Outline.wellNested (h : Outline lexemes node spans) (hordered : InOrder (lexemes.map Lexeme.span)) :
    WellNested lexemes node := by
  obtain ⟨hspans, haligned⟩ := h.spread hordered
  obtain ⟨first, hfirst, hstart⟩ := Option.map_eq_some_iff.mp h.starts
  obtain ⟨last, hlast, hstop⟩ := Option.map_eq_some_iff.mp h.stops
  obtain ⟨behind, hbehind⟩ := List.head?_eq_some_iff.mp hfirst
  obtain ⟨before, hbefore⟩ := List.getLast?_eq_some_iff.mp hlast
  have hfrom : ∀ span ∈ spans, node.note.start ≤ span.start := by
    rw [← hstart, hbehind]
    exact (hbehind ▸ hspans).start_le
  have hto : ∀ span ∈ spans, span.stop ≤ node.note.stop := by
    rw [← hstop, hbefore]
    exact (hbefore ▸ hspans).le_stop
  have hmem : first ∈ spans := List.mem_of_head? hfirst
  refine ⟨⟨?_, ?_, ?_⟩, fun child hchild => ?_, ?_⟩
  · rw [← hstart]
    exact Nat.lt_of_lt_of_le (hspans.nonempty first hmem) (hto first hmem)
  · rw [← hstart]
    exact (haligned first hmem).starts
  · rw [← hstop]
    exact (haligned last (List.mem_of_getLast? hlast)).stops
  · have hnote := h.children.subset (List.mem_map_of_mem hchild)
    exact ⟨hfrom _ hnote, hto _ hnote⟩
  · exact List.pairwise_map.mp (hspans.apart.sublist h.children)

theorem spread_note (h : ∃ spans, Outline lexemes node spans) : Spread lexemes [node.note] := by
  obtain ⟨spans, houtline⟩ := h
  intro hordered
  have haligned := (houtline.wellNested hordered).aligned
  exact ⟨⟨List.forall_mem_singleton.mpr haligned.nonempty, List.pairwise_singleton _ _⟩,
    List.forall_mem_singleton.mpr haligned⟩

theorem children_literal {span : Span} {token : Token} (h : Parser.literal? span token = some node) :
    node.note = span ∧ node.children = [] := by
  unfold Parser.literal? at h
  split at h <;> cases h <;> exact ⟨rfl, rfl⟩

-- A node is outlined by its parts and by the lexemes that it begins or ends with itself.
theorem Spells.exists_outline {category : Category} (h : Spells category lexemes node) :
    ∃ spans, Outline lexemes node spans := by
  induction h with
  | simple _ ih | link _ ih | plain _ ih | bare _ ih => exact ih
  | @conditional _ _ _ test yes no question colon _ _ _ ihTest ihYes ihNo =>
      have hspread := ((spread_note ihTest).append ((spread_note ihYes).past ⟨.symbol .question, question⟩)).append
        ((spread_note ihNo).past ⟨.symbol .colon, colon⟩)
      exact ⟨[test.note, yes.note, no.note], hspread, rfl, rfl, .refl _⟩
  | @binary _ _ _ symbol _ lhs rhs sign _ _ _ ihLeft ihRight =>
      have hspread := (spread_note ihLeft).append ((spread_note ihRight).past ⟨.symbol symbol, sign⟩)
      exact ⟨[lhs.note, rhs.note], hspread, rfl, rfl, .refl _⟩
  | @unary _ symbol _ operand sign _ _ ih =>
      have hspread := (spread_lexeme ⟨.symbol symbol, sign⟩).append (spread_note ih)
      exact ⟨[sign, operand.note], hspread, rfl, rfl, List.sublist_cons_self _ _⟩
  | @member _ target _ dot key label ih =>
      have hspread := (spread_note ih).append ((spread_lexeme ⟨.name key, label⟩).past ⟨.symbol .dot, dot⟩)
      exact ⟨[target.note, label], hspread, rfl, rfl, List.sublist_append_left [target.note] [label]⟩
  | @index _ _ target key bracket close _ _ ihTarget ihKey =>
      have hspread := ((spread_note ihTarget).append ((spread_note ihKey).past ⟨.symbol .bracketOpen, bracket⟩)).append
        (spread_lexeme ⟨.symbol .bracketClose, close⟩)
      exact ⟨[target.note, key.note, close], hspread, rfl, rfl,
        List.sublist_append_left [target.note, key.note] [close]⟩
  | @call _ _ callee args bracket close _ _ hlist ihCallee ihArgs =>
      have hargs := spread_separated (fun arg hmem => spread_note (ihArgs arg hmem)) hlist
      have hspread := ((spread_note ihCallee).append (hargs.past ⟨.symbol .parenOpen, bracket⟩)).append
        (spread_lexeme ⟨.symbol .parenClose, close⟩)
      refine ⟨_, hspread, rfl, congrArg _ List.getLast?_concat, ?_⟩
      rw [Expr.children, List.map_cons, List.map_map]
      exact List.sublist_append_left _ _
  | @literal lexeme _ h =>
      obtain ⟨hnote, hleaf⟩ := children_literal h
      refine ⟨[lexeme.span], spread_lexeme lexeme, ?_, ?_, ?_⟩
      · rw [hnote]
        rfl
      · rw [hnote]
        rfl
      · rw [hleaf]
        exact List.nil_sublist _
  | @array _ items bracket close _ hlist ih =>
      have hitems := spread_separated (fun item hmem => spread_note (ih item hmem)) hlist
      have hspread := ((spread_lexeme ⟨.symbol .bracketOpen, bracket⟩).append hitems).append
        (spread_lexeme ⟨.symbol .bracketClose, close⟩)
      refine ⟨_, hspread, rfl, congrArg _ List.getLast?_concat, ?_⟩
      rw [Expr.children, List.map_map]
      exact (List.sublist_cons_self _ _).trans (List.sublist_append_left _ _)
  | @object _ entries brace close _ _ hlist ih =>
      have hvalues := spread_separated
        (fun entry hmem => ((spread_note (ih entry hmem)).past ⟨.symbol .colon, entry.colon⟩).past entry.label) hlist
      have hspread := ((spread_lexeme ⟨.symbol .braceOpen, brace⟩).append hvalues).append
        (spread_lexeme ⟨.symbol .braceClose, close⟩)
      refine ⟨_, hspread, rfl, congrArg _ List.getLast?_concat, ?_⟩
      rw [Expr.children, List.map_map, List.map_map]
      exact (List.sublist_cons_self _ _).trans (List.sublist_append_left _ _)
  | @group _ _ bracket close _ ih =>
      obtain ⟨spans, houtline⟩ := ih
      have hspread := (houtline.spread.past ⟨.symbol .parenOpen, bracket⟩).append
        (spread_nil [⟨.symbol .parenClose, close⟩])
      rw [List.append_nil] at hspread
      exact ⟨spans, { houtline with spread := hspread }⟩

theorem infix_behind (before : List Lexeme) (lexeme : Lexeme) (behind : List Lexeme) :
    behind <:+: before ++ lexeme :: behind :=
  ((List.suffix_cons _ _).trans (List.suffix_append _ _)).isInfix

theorem infix_bracketed (before : List Lexeme) (bracket close : Lexeme) (within : List Lexeme) :
    within <:+: before ++ bracket :: within ++ [close] :=
  ⟨before ++ [bracket], [close], by simp⟩

theorem infix_before (before between behind : List Lexeme) : before <:+: before ++ between ++ behind :=
  ⟨[], between ++ behind, by simp⟩

theorem Separated.infix {α : Type} {parts : List α} {lexemesOf : α → List Lexeme} {within : List Lexeme}
    (h : Separated lexemesOf parts within) : ∀ part ∈ parts, lexemesOf part <:+: within := by
  induction h with
  | none => exact List.forall_mem_nil _
  | last part => exact List.forall_mem_singleton.mpr List.infix_rfl
  | more part comma _ ih =>
      refine List.forall_mem_cons.mpr ⟨(List.prefix_append _ _).isInfix, fun other hother => ?_⟩
      exact (ih other hother).trans (infix_behind _ _ _)

-- The parts of a node have their own lexemes among its lexemes.
theorem Spells.exists_child {category : Category} (h : Spells category lexemes node) {child : Located}
    (hchild : child ∈ node.children) : ∃ part, part <:+: lexemes ∧ Spells .expression part child := by
  induction h with
  | simple _ ih | link _ ih | plain _ ih | bare _ ih => exact ih hchild
  | @conditional before between behind test yes no question colon htest hyes hno =>
      obtain rfl | rfl | rfl : child = test ∨ child = yes ∨ child = no := by
        simpa [Parser.conditional, Expr.children] using hchild
      · exact ⟨before, infix_before _ _ _, htest.expression⟩
      · exact ⟨between, ⟨before ++ [⟨.symbol .question, question⟩], ⟨.symbol .colon, colon⟩ :: behind, by simp⟩, hyes⟩
      · exact ⟨behind, infix_behind _ _ _, hno⟩
  | @binary chain before behind symbol op lhs rhs sign hlhs hop hrhs =>
      obtain rfl | rfl : child = lhs ∨ child = rhs := by
        simpa [Parser.binary, Expr.children] using hchild
      · exact ⟨before, (List.prefix_append _ _).isInfix, hlhs.expression⟩
      · exact ⟨behind, infix_behind _ _ _, hrhs.expression⟩
  | unary sign hop h =>
      obtain rfl := List.mem_singleton.mp hchild
      exact ⟨_, (List.suffix_cons _ _).isInfix, h.expression⟩
  | member h dot key label =>
      obtain rfl := List.mem_singleton.mp hchild
      exact ⟨_, (List.prefix_append _ _).isInfix, h.expression⟩
  | @index front within target key bracket close htarget hkey =>
      obtain rfl | rfl : child = target ∨ child = key := by
        simpa [Expr.children] using hchild
      · exact ⟨front, infix_before _ _ _, htarget.expression⟩
      · exact ⟨within, infix_bracketed _ _ _ _, hkey⟩
  | @call front within callee args bracket close hcallee hargs hlist =>
      rcases List.mem_cons.mp hchild with rfl | hmem
      · exact ⟨front, infix_before _ _ _, hcallee.expression⟩
      · obtain ⟨arg, harg, rfl⟩ := List.mem_map.mp hmem
        have hpart := hlist.infix arg harg
        exact ⟨arg.lexemes, hpart.trans (infix_bracketed _ _ _ _), hargs arg harg⟩
  | literal h =>
      rw [(children_literal h).2] at hchild
      cases hchild
  | array bracket close hitems hlist =>
      obtain ⟨item, hitem, rfl⟩ := List.mem_map.mp hchild
      have hpart := hlist.infix item hitem
      exact ⟨item.lexemes, hpart.trans (infix_bracketed [] _ _ _), hitems item hitem⟩
  | object brace close hlabels hvalues hlist =>
      obtain ⟨field, hfield, rfl⟩ := List.mem_map.mp hchild
      obtain ⟨entry, hentry, rfl⟩ := List.mem_map.mp hfield
      have hpart := hlist.infix entry hentry
      have hvalue : entry.value.lexemes <:+: entry.lexemes := infix_behind [_] _ _
      exact ⟨_, (hvalue.trans hpart).trans (infix_bracketed [] _ _ _), hvalues entry hentry⟩
  | @group within node bracket close h ih =>
      obtain ⟨part, hpart, hspells⟩ := ih hchild
      exact ⟨part, hpart.trans (infix_bracketed [] _ _ _), hspells⟩

-- Every node of an expression has its own lexemes among those of the expression.
theorem Spells.exists_part (h : Spells .expression lexemes node) {inner : Located} (hnode : node.HasNode inner) :
    ∃ part, part <:+: lexemes ∧ Spells .expression part inner := by
  induction hnode generalizing lexemes with
  | root => exact ⟨lexemes, List.infix_rfl, h⟩
  | inside hchild _ ih =>
      obtain ⟨middle, hmiddle, hspells⟩ := h.exists_child hchild
      obtain ⟨part, hpart, hinner⟩ := ih hspells
      exact ⟨part, hpart.trans hmiddle, hinner⟩

end Grammar

-- Every node of a source's tree takes whole tokens of the source, within the range of the node around it and
-- apart from those beside it.
theorem wellNested_of_parse (source : String) (e : Located) (h : parse source = .ok e) :
    ∀ node, e.HasNode node → WellNested (lex source).1 node := by
  intro node hnode
  obtain ⟨lexemes, hlex, -, hspells⟩ := parse_eq_ok_iff_spells.mp h
  have hordered := inOrder_lex source
  rw [hlex] at hordered ⊢
  obtain ⟨part, hpart, hinner⟩ := hspells.exists_part hnode
  obtain ⟨spans, houtline⟩ := hinner.exists_outline
  have hpartOrdered := hordered.of_sublist (hpart.sublist.map Lexeme.span)
  exact (houtline.wellNested hpartOrdered).mono hpart.subset

-- The parentheses around the last part are outside the range of the conditional.
theorem wellNested_of_conditional :
    ∃ e, parse "f((a), [b]).c ? -x : (y)" = .ok e ∧ e.note = ⟨0, 23⟩ ∧
      e.children.map Expr.note = [⟨0, 13⟩, ⟨16, 18⟩, ⟨22, 23⟩] ∧
        ∀ node, e.HasNode node → WellNested (lex "f((a), [b]).c ? -x : (y)").1 node := by
  obtain ⟨e, hparse, hnote, hchildren⟩ : ∃ e, parse "f((a), [b]).c ? -x : (y)" = .ok e ∧ e.note = ⟨0, 23⟩ ∧
      e.children.map Expr.note = [⟨0, 13⟩, ⟨16, 18⟩, ⟨22, 23⟩] := ⟨_, rfl, rfl, rfl⟩
  exact ⟨e, hparse, hnote, hchildren, wellNested_of_parse _ e hparse⟩

end JsonTemplate
