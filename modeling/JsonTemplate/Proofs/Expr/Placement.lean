import JsonTemplate.Proofs.Expr.Grammar
import JsonTemplate.Proofs.Expr.Reading

namespace JsonTemplate.Grammar

-- Some lexemes and the node that is made of them.
structure Passage where
  lexemes : List Lexeme
  node : Located

structure Entry where
  label : Lexeme
  colon : Span
  key : String
  value : Passage

def Entry.lexemes (entry : Entry) : List Lexeme :=
  entry.label :: ⟨.symbol .colon, entry.colon⟩ :: entry.value.lexemes

def Entry.field (entry : Entry) : String × Located := (entry.key, entry.value.node)

-- Parts with a comma behind each. The comma behind the last one can be missing.
inductive Separated {α : Type} (lexemesOf : α → List Lexeme) : List α → List Lexeme → Prop
  | none : Separated lexemesOf [] []
  | last (part : α) : Separated lexemesOf [part] (lexemesOf part)
  | more (part : α) (comma : Span) {parts : List α} {behind : List Lexeme} (h : Separated lexemesOf parts behind) :
      Separated lexemesOf (part :: parts) (lexemesOf part ++ ⟨.symbol .comma, comma⟩ :: behind)

-- The nodes of the lexemes of each category: the trees of the grammar with the places of their parts.
inductive Spells : Category → List Lexeme → Located → Prop
  | simple {lexemes : List Lexeme} {node : Located} (h : Spells (.chain .or) lexemes node) :
      Spells .expression lexemes node
  | conditional {before between behind : List Lexeme} {test yes no : Located} (question colon : Span)
      (htest : Spells (.chain .or) before test) (hyes : Spells .expression between yes)
      (hno : Spells .expression behind no) :
      Spells .expression
        (before ++ ⟨.symbol .question, question⟩ :: between ++ ⟨.symbol .colon, colon⟩ :: behind)
        (Parser.conditional test yes no)
  | link {chain : Chain} {lexemes : List Lexeme} {node : Located} (h : Spells chain.operand lexemes node) :
      Spells (.chain chain) lexemes node
  | binary {chain : Chain} {before behind : List Lexeme} {symbol : Symbol} {op : BinaryOp} {lhs rhs : Located}
      (sign : Span) (hlhs : Spells (.chain chain) before lhs) (hop : (symbol, op) ∈ chain.operators)
      (hrhs : Spells chain.operand behind rhs) :
      Spells (.chain chain) (before ++ ⟨.symbol symbol, sign⟩ :: behind) (Parser.binary op lhs rhs)
  | plain {lexemes : List Lexeme} {node : Located} (h : Spells .call lexemes node) : Spells .unary lexemes node
  | unary {lexemes : List Lexeme} {symbol : Symbol} {op : UnaryOp} {operand : Located} (sign : Span)
      (hop : (symbol, op) ∈ signs) (h : Spells .unary lexemes operand) :
      Spells .unary (⟨.symbol symbol, sign⟩ :: lexemes) (Parser.unary op sign.start operand)
  | bare {lexemes : List Lexeme} {node : Located} (h : Spells .atom lexemes node) : Spells .call lexemes node
  | member {lexemes : List Lexeme} {target : Located} (h : Spells .call lexemes target) (dot : Span)
      (key : String) (label : Span) :
      Spells .call (lexemes ++ [⟨.symbol .dot, dot⟩, ⟨.name key, label⟩])
        (.member ⟨target.note.start, label.stop⟩ target key)
  | index {lexemes within : List Lexeme} {target key : Located} (bracket close : Span)
      (htarget : Spells .call lexemes target) (hkey : Spells .expression within key) :
      Spells .call (lexemes ++ ⟨.symbol .bracketOpen, bracket⟩ :: within ++ [⟨.symbol .bracketClose, close⟩])
        (.index ⟨target.note.start, close.stop⟩ target key)
  | call {lexemes within : List Lexeme} {callee : Located} {args : List Passage} (bracket close : Span)
      (hcallee : Spells .call lexemes callee) (hargs : ∀ arg ∈ args, Spells .expression arg.lexemes arg.node)
      (hlist : Separated Passage.lexemes args within) :
      Spells .call (lexemes ++ ⟨.symbol .parenOpen, bracket⟩ :: within ++ [⟨.symbol .parenClose, close⟩])
        (.call ⟨callee.note.start, close.stop⟩ callee (args.map Passage.node))
  | literal {lexeme : Lexeme} {node : Located} (h : Parser.literal? lexeme.span lexeme.token = some node) :
      Spells .atom [lexeme] node
  | array {within : List Lexeme} {items : List Passage} (bracket close : Span)
      (hitems : ∀ item ∈ items, Spells .expression item.lexemes item.node)
      (hlist : Separated Passage.lexemes items within) :
      Spells .atom (⟨.symbol .bracketOpen, bracket⟩ :: within ++ [⟨.symbol .bracketClose, close⟩])
        (.array ⟨bracket.start, close.stop⟩ (items.map Passage.node))
  | object {within : List Lexeme} {entries : List Entry} (brace close : Span)
      (hlabels : ∀ entry ∈ entries, Label entry.label.token entry.key)
      (hvalues : ∀ entry ∈ entries, Spells .expression entry.value.lexemes entry.value.node)
      (hlist : Separated Entry.lexemes entries within) :
      Spells .atom (⟨.symbol .braceOpen, brace⟩ :: within ++ [⟨.symbol .braceClose, close⟩])
        (.object ⟨brace.start, close.stop⟩ (entries.map Entry.field))
  | group {within : List Lexeme} {node : Located} (bracket close : Span) (h : Spells .expression within node) :
      Spells .atom (⟨.symbol .parenOpen, bracket⟩ :: within ++ [⟨.symbol .parenClose, close⟩]) node

variable {lexemes : List Lexeme} {node : Located}

-- What binds tighter also stands where an expression may stand.
theorem Spells.expression {category : Category} (h : Spells category lexemes node) :
    Spells .expression lexemes node := by
  have hproduct (h : Spells (.chain .product) lexemes node) : Spells .expression lexemes node :=
    .simple (.link (.link (.link (.link (.link h)))))
  cases category with
  | expression => exact h
  | chain chain =>
      cases chain with
      | or => exact .simple h
      | and => exact .simple (.link h)
      | equality => exact .simple (.link (.link h))
      | comparison => exact .simple (.link (.link (.link h)))
      | sum => exact .simple (.link (.link (.link (.link h))))
      | product => exact hproduct h
  | unary => exact hproduct (.link h)
  | call => exact hproduct (.link (.plain h))
  | atom => exact hproduct (.link (.plain (.bare h)))

variable {tokens : List Token} {tree : Expr Unit}

theorem exists_split {before behind : List Token} {token : Token}
    (h : lexemes.map Lexeme.token = before ++ token :: behind) :
    ∃ front span rest, lexemes = front ++ ⟨token, span⟩ :: rest ∧ front.map Lexeme.token = before ∧
      rest.map Lexeme.token = behind := by
  obtain ⟨front, others, rfl, hfront, hothers⟩ := List.map_eq_append_iff.mp h
  obtain ⟨⟨_, span⟩, rest, rfl, rfl, hrest⟩ := List.map_eq_cons_iff.mp hothers
  exact ⟨front, span, rest, rfl, hfront, hrest⟩

theorem exists_bracketed (before : List Token) {within : List Token} {bracket close : Symbol}
    (h : lexemes.map Lexeme.token = before ++ .symbol bracket :: within ++ [.symbol close]) :
    ∃ front opening between closing,
      lexemes = front ++ ⟨.symbol bracket, opening⟩ :: between ++ [⟨.symbol close, closing⟩] ∧
        front.map Lexeme.token = before ∧ between.map Lexeme.token = within := by
  obtain ⟨front, closing, rest, rfl, hfront, hrest⟩ := exists_split h
  obtain rfl := List.map_eq_nil_iff.mp hrest
  obtain ⟨first, opening, between, rfl, hfirst, hbetween⟩ := exists_split hfront
  exact ⟨first, opening, between, closing, rfl, hfirst, hbetween⟩

section

variable {α β γ : Type} {tokensOf : α → List Token} {tree : α → γ} {lexemesOf : β → List Lexeme} {value : β → γ}
  {good : β → Prop}

-- Wherever the tokens of the part stand, there is a good place for its tree.
def Locates (tokensOf : α → List Token) (tree : α → γ) (lexemesOf : β → List Lexeme) (value : β → γ)
    (good : β → Prop) (part : α) : Prop :=
  ∀ lexemes : List Lexeme, lexemes.map Lexeme.token = tokensOf part →
    ∃ place, lexemesOf place = lexemes ∧ good place ∧ value place = tree part

theorem exists_separated_of_intercalate {parts : List α}
    (hparts : ∀ part ∈ parts, Locates tokensOf tree lexemesOf value good part) (hne : parts ≠ [])
    {final : List Token} (hfinal : final = [] ∨ final = [.symbol .comma])
    (hlexemes : lexemes.map Lexeme.token = [.symbol .comma].intercalate (parts.map tokensOf) ++ final) :
    ∃ places : List β, Separated lexemesOf places lexemes ∧ (∀ place ∈ places, good place) ∧
      places.map value = parts.map tree := by
  induction parts generalizing lexemes with
  | nil => exact absurd rfl hne
  | cons part rest ih =>
      obtain ⟨hpart, hrest⟩ := List.forall_mem_cons.mp hparts
      cases rest with
      | nil =>
          rw [List.map_singleton, List.intercalate_singleton] at hlexemes
          obtain ⟨front, behind, rfl, hfront, hbehind⟩ := List.map_eq_append_iff.mp hlexemes
          obtain ⟨place, rfl, hgood, hvalue⟩ := hpart front hfront
          refine ⟨[place], ?_, List.forall_mem_singleton.mpr hgood, congrArg ([·]) hvalue⟩
          rcases hfinal with rfl | rfl
          · obtain rfl := List.map_eq_nil_iff.mp hbehind
            rw [List.append_nil]
            exact .last _
          · obtain ⟨⟨_, comma⟩, rfl, rfl⟩ := List.map_eq_singleton_iff.mp hbehind
            exact .more _ comma .none
      | cons second rest =>
          rw [List.map_cons, List.map_cons, List.intercalate_cons_cons, ← List.map_cons, List.append_assoc,
            List.append_assoc] at hlexemes
          obtain ⟨front, comma, behind, rfl, hfront, hbehind⟩ := exists_split hlexemes
          obtain ⟨place, rfl, hgood, hvalue⟩ := hpart front hfront
          obtain ⟨places, hseparated, hplaces, hvalues⟩ := ih hrest (List.cons_ne_nil _ _) hbehind
          refine ⟨place :: places, .more _ comma hseparated, List.forall_mem_cons.mpr ⟨hgood, hplaces⟩, ?_⟩
          rw [List.map_cons, hvalue, hvalues]
          rfl

theorem exists_separated {parts : List α}
    (hparts : ∀ part ∈ parts, Locates tokensOf tree lexemesOf value good part) {within : List Token}
    (hlist : Listed (parts.map tokensOf) within) (hlexemes : lexemes.map Lexeme.token = within) :
    ∃ places : List β, Separated lexemesOf places lexemes ∧ (∀ place ∈ places, good place) ∧
      places.map value = parts.map tree := by
  cases hlist with
  | plain =>
      by_cases hne : parts = []
      · subst hne
        obtain rfl := List.map_eq_nil_iff.mp hlexemes
        exact ⟨[], .none, List.forall_mem_nil _, rfl⟩
      · exact exists_separated_of_intercalate hparts hne (.inl rfl) (by rw [hlexemes, List.append_nil])
  | trailing hsome =>
      exact exists_separated_of_intercalate hparts (fun hnil => hsome (hnil ▸ rfl)) (.inr rfl) hlexemes

end

-- The expression can be placed wherever its tokens stand.
def Placeable (tokens : List Token) (tree : Expr Unit) : Prop :=
  ∀ {lexemes : List Lexeme}, lexemes.map Lexeme.token = tokens →
    ∃ node, Spells .expression lexemes node ∧ node.erase = tree

theorem exists_passages {items : List Phrase} (hitems : ∀ item ∈ items, Placeable item.tokens item.tree)
    {within : List Token} (hlist : Listed (items.map Phrase.tokens) within)
    (hlexemes : lexemes.map Lexeme.token = within) :
    ∃ passages : List Passage, Separated Passage.lexemes passages lexemes ∧
      (∀ passage ∈ passages, Spells .expression passage.lexemes passage.node) ∧
        passages.map (Expr.erase ∘ Passage.node) = items.map Phrase.tree := by
  refine exists_separated (fun item hmem lexemes hlexemes => ?_) hlist hlexemes
  obtain ⟨node, hnode, htree⟩ := hitems item hmem hlexemes
  exact ⟨⟨lexemes, node⟩, rfl, hnode, htree⟩

theorem exists_entries {properties : List Property}
    (hlabels : ∀ property ∈ properties, Label property.label property.key)
    (hvalues : ∀ property ∈ properties, Placeable property.value.tokens property.value.tree)
    {within : List Token} (hlist : Listed (properties.map Property.tokens) within)
    (hlexemes : lexemes.map Lexeme.token = within) :
    ∃ entries : List Entry, Separated Entry.lexemes entries lexemes ∧
      (∀ entry ∈ entries, Label entry.label.token entry.key ∧
        Spells .expression entry.value.lexemes entry.value.node) ∧
        entries.map (fun entry => (entry.key, entry.value.node.erase)) = properties.map Property.entry := by
  refine exists_separated (fun property hmem lexemes hlexemes => ?_) hlist hlexemes
  obtain ⟨label, others, rfl, hlabel, hothers⟩ := List.map_eq_cons_iff.mp hlexemes
  obtain ⟨⟨_, colon⟩, value, rfl, rfl, hvalue⟩ := List.map_eq_cons_iff.mp hothers
  obtain ⟨node, hnode, htree⟩ := hvalues property hmem hvalue
  refine ⟨⟨label, colon, property.key, value, node⟩, rfl, ⟨?_, hnode⟩, congrArg (property.key, ·) htree⟩
  rw [hlabel]
  exact hlabels property hmem

theorem exists_literal {token : Token} {tree : Expr Unit} (h : Literal token tree) (span : Span) :
    ∃ node, Parser.literal? span token = some node ∧ node.erase = tree := by
  cases h with
  | number x => exact ⟨.number span x, rfl, rfl⟩
  | string text => exact ⟨.string span text, rfl, rfl⟩
  | true => exact ⟨.bool span true, rfl, rfl⟩
  | false => exact ⟨.bool span false, rfl, rfl⟩
  | null | undefined => exact ⟨.null span, rfl, rfl⟩

-- A tree of the grammar can be placed wherever its tokens stand.
theorem exists_spells {category : Category} (h : Derives category tokens tree)
    (hlexemes : lexemes.map Lexeme.token = tokens) : ∃ node, Spells category lexemes node ∧ node.erase = tree := by
  induction h generalizing lexemes with
  | simple _ ih =>
      obtain ⟨node, hnode, rfl⟩ := ih hlexemes
      exact ⟨node, .simple hnode, rfl⟩
  | conditional _ _ _ ihTest ihYes ihNo =>
      obtain ⟨front, colon, behind, rfl, hfront, hbehind⟩ := exists_split hlexemes
      obtain ⟨before, question, between, rfl, hbefore, hbetween⟩ := exists_split hfront
      obtain ⟨test, htest, rfl⟩ := ihTest hbefore
      obtain ⟨yes, hyes, rfl⟩ := ihYes hbetween
      obtain ⟨no, hno, rfl⟩ := ihNo hbehind
      exact ⟨_, .conditional question colon htest hyes hno, rfl⟩
  | link _ ih =>
      obtain ⟨node, hnode, rfl⟩ := ih hlexemes
      exact ⟨node, .link hnode, rfl⟩
  | binary _ hop _ ihLeft ihRight =>
      obtain ⟨before, sign, behind, rfl, hbefore, hbehind⟩ := exists_split hlexemes
      obtain ⟨lhs, hlhs, rfl⟩ := ihLeft hbefore
      obtain ⟨rhs, hrhs, rfl⟩ := ihRight hbehind
      exact ⟨_, .binary sign hlhs hop hrhs, rfl⟩
  | plain _ ih =>
      obtain ⟨node, hnode, rfl⟩ := ih hlexemes
      exact ⟨node, .plain hnode, rfl⟩
  | unary hop _ ih =>
      obtain ⟨⟨_, sign⟩, rest, rfl, rfl, hrest⟩ := List.map_eq_cons_iff.mp hlexemes
      obtain ⟨operand, hoperand, rfl⟩ := ih hrest
      exact ⟨_, .unary sign hop hoperand, rfl⟩
  | bare _ ih =>
      obtain ⟨node, hnode, rfl⟩ := ih hlexemes
      exact ⟨node, .bare hnode, rfl⟩
  | member _ key ih =>
      obtain ⟨front, dot, rest, rfl, hfront, hrest⟩ := exists_split hlexemes
      obtain ⟨⟨_, label⟩, rfl, rfl⟩ := List.map_eq_singleton_iff.mp hrest
      obtain ⟨target, htarget, rfl⟩ := ih hfront
      exact ⟨_, .member htarget dot key label, rfl⟩
  | index _ _ ihTarget ihKey =>
      obtain ⟨front, bracket, within, close, rfl, hfront, hwithin⟩ := exists_bracketed _ hlexemes
      obtain ⟨target, htarget, rfl⟩ := ihTarget hfront
      obtain ⟨key, hkey, rfl⟩ := ihKey hwithin
      exact ⟨_, .index bracket close htarget hkey, rfl⟩
  | call _ _ hlist ihCallee ihArgs =>
      obtain ⟨front, bracket, within, close, rfl, hfront, hwithin⟩ := exists_bracketed _ hlexemes
      obtain ⟨callee, hcallee, rfl⟩ := ihCallee hfront
      obtain ⟨args, hseparated, hargs, htrees⟩ := exists_passages (fun arg hmem => ihArgs arg hmem) hlist hwithin
      refine ⟨_, .call bracket close hcallee hargs hseparated, ?_⟩
      rw [Expr.erase_call, List.map_map, htrees]
  | @literal token tree h =>
      obtain ⟨⟨_, span⟩, rfl, rfl⟩ := List.map_eq_singleton_iff.mp hlexemes
      obtain ⟨node, hnode, rfl⟩ := exists_literal h span
      exact ⟨node, .literal hnode, rfl⟩
  | name text =>
      obtain ⟨⟨_, span⟩, rfl, rfl⟩ := List.map_eq_singleton_iff.mp hlexemes
      exact ⟨.name span text, .literal rfl, rfl⟩
  | array _ hlist ih =>
      obtain ⟨front, bracket, within, close, rfl, hfront, hwithin⟩ := exists_bracketed [] hlexemes
      obtain rfl := List.map_eq_nil_iff.mp hfront
      obtain ⟨items, hseparated, hitems, htrees⟩ := exists_passages (fun item hmem => ih item hmem) hlist hwithin
      refine ⟨_, .array bracket close hitems hseparated, ?_⟩
      rw [Expr.erase_array, List.map_map, htrees]
  | object hlabels _ hlist ih =>
      obtain ⟨front, brace, within, close, rfl, hfront, hwithin⟩ := exists_bracketed [] hlexemes
      obtain rfl := List.map_eq_nil_iff.mp hfront
      obtain ⟨entries, hseparated, hentries, htrees⟩ :=
        exists_entries hlabels (fun property hmem => ih property hmem) hlist hwithin
      refine ⟨_, .object brace close (fun entry hmem => (hentries entry hmem).1)
        (fun entry hmem => (hentries entry hmem).2) hseparated, ?_⟩
      rw [Expr.erase_object, List.map_map, ← htrees]
      rfl
  | group _ ih =>
      obtain ⟨front, bracket, within, close, rfl, hfront, hwithin⟩ := exists_bracketed [] hlexemes
      obtain rfl := List.map_eq_nil_iff.mp hfront
      obtain ⟨node, hnode, rfl⟩ := ih hwithin
      exact ⟨node, .group bracket close hnode, rfl⟩

end JsonTemplate.Grammar
