import JsonTemplate.Proofs.Expr.Placement

namespace JsonTemplate.Grammar

-- How many parentheses are open behind a lexeme. None can be closed where none is open.
def countParens (depth : Nat) (lexeme : Lexeme) : Option Nat :=
  match lexeme.token, depth with
  | .symbol .parenOpen, depth => some (depth + 1)
  | .symbol .parenClose, 0 => none
  | .symbol .parenClose, depth + 1 => some depth
  | _, depth => some depth

def openParens (depth : Nat) (lexemes : List Lexeme) : Option Nat := lexemes.foldlM countParens depth

-- Every parenthesis among the lexemes has its counterpart among them.
def Matched (lexemes : List Lexeme) : Prop := openParens 0 lexemes = some 0

instance (lexemes : List Lexeme) : Decidable (Matched lexemes) := inferInstanceAs (Decidable (_ = _))

variable {depth rest : Nat} {lexeme : Lexeme} {lexemes before behind within opens closes : List Lexeme}

theorem openParens_cons (depth : Nat) (lexeme : Lexeme) (lexemes : List Lexeme) :
    openParens depth (lexeme :: lexemes) = (countParens depth lexeme).bind (openParens · lexemes) :=
  List.foldlM_cons

theorem openParens_append (depth : Nat) (before behind : List Lexeme) :
    openParens depth (before ++ behind) = (openParens depth before).bind (openParens · behind) :=
  List.foldlM_append

theorem countParens_open (h : lexeme.token = .symbol .parenOpen) : countParens depth lexeme = some (depth + 1) := by
  unfold countParens
  rw [h]

theorem countParens_close (h : lexeme.token = .symbol .parenClose) : countParens (depth + 1) lexeme = some depth := by
  unfold countParens
  rw [h]

-- Other lexemes leave the number as it is.
theorem countParens_other (hopen : lexeme.token ≠ .symbol .parenOpen) (hclose : lexeme.token ≠ .symbol .parenClose) :
    countParens depth lexeme = some depth := by
  unfold countParens
  split
  · exact absurd ‹_› hopen
  · exact absurd ‹_› hclose
  · exact absurd ‹_› hclose
  · rfl

theorem countParens_add (h : countParens depth lexeme = some rest) (more : Nat) :
    countParens (depth + more) lexeme = some (rest + more) := by
  by_cases hopen : lexeme.token = .symbol .parenOpen
  · rw [countParens_open hopen] at h ⊢
    cases h
    exact congrArg some (Nat.add_right_comm depth more 1)
  · by_cases hclose : lexeme.token = .symbol .parenClose
    · cases depth with
      | zero => simp [countParens, hclose] at h
      | succ depth =>
          rw [countParens_close hclose] at h
          cases h
          rw [Nat.add_right_comm, countParens_close hclose]
    · rw [countParens_other hopen hclose] at h ⊢
      cases h
      rfl

-- What is open before the lexemes stays open.
theorem openParens_add (h : openParens depth lexemes = some rest) (more : Nat) :
    openParens (depth + more) lexemes = some (rest + more) := by
  induction lexemes generalizing depth with
  | nil =>
      cases h
      rfl
  | cons lexeme lexemes ih =>
      rw [openParens_cons] at h ⊢
      obtain ⟨next, hnext, hlater⟩ := Option.bind_eq_some_iff.mp h
      rw [countParens_add hnext]
      exact ih hlater

theorem Matched.openParens (h : Matched lexemes) (depth : Nat) : openParens depth lexemes = some depth := by
  have hmore := openParens_add h depth
  rwa [Nat.zero_add] at hmore

theorem Matched.append (h : Matched before) (h' : Matched behind) : Matched (before ++ behind) := by
  rw [Matched, openParens_append, h]
  exact h'

theorem matched_nil : Matched [] := rfl

theorem Matched.cons (h : Matched lexemes) (hopen : lexeme.token ≠ .symbol .parenOpen)
    (hclose : lexeme.token ≠ .symbol .parenClose) : Matched (lexeme :: lexemes) := by
  rw [Matched, openParens_cons, countParens_other hopen hclose]
  exact h

theorem Matched.symbol (h : Matched lexemes) (symbol : Symbol) (span : Span)
    (hsymbol : symbol ≠ .parenOpen ∧ symbol ≠ .parenClose) : Matched (⟨.symbol symbol, span⟩ :: lexemes) :=
  h.cons (hsymbol.1 <| Token.symbol.inj ·) (hsymbol.2 <| Token.symbol.inj ·)

theorem Matched.parens (h : Matched within) (bracket close : Span) :
    Matched (⟨.symbol .parenOpen, bracket⟩ :: within ++ [⟨.symbol .parenClose, close⟩]) := by
  rw [Matched, openParens_append, openParens_cons, countParens_open rfl]
  change (Grammar.openParens 1 within).bind _ = _
  rw [h.openParens 1]
  rfl

theorem openParens_opens (h : ∀ lexeme ∈ opens, lexeme.token = .symbol .parenOpen) (depth : Nat) :
    openParens depth opens = some (depth + opens.length) := by
  induction opens generalizing depth with
  | nil => rfl
  | cons lexeme opens ih =>
      obtain ⟨hopen, hopens⟩ := List.forall_mem_cons.mp h
      rw [openParens_cons, countParens_open hopen, Option.bind_some, ih hopens, List.length_cons, Nat.add_assoc,
        Nat.add_comm 1]

theorem openParens_closes_iff (h : ∀ lexeme ∈ closes, lexeme.token = .symbol .parenClose) :
    openParens depth closes = some rest ↔ depth = rest + closes.length := by
  induction closes generalizing depth with
  | nil => exact Option.some_inj
  | cons lexeme closes ih =>
      obtain ⟨hclose, hcloses⟩ := List.forall_mem_cons.mp h
      rw [openParens_cons, List.length_cons, ← Nat.add_assoc]
      cases depth with
      | zero => simp [countParens, hclose]
      | succ depth =>
          rw [countParens_close hclose, Option.bind_some, ih hcloses]
          exact Nat.succ_inj.symm

-- Parentheses around matched lexemes are matched if there are as many on both sides.
theorem matched_nested_iff (hopens : ∀ lexeme ∈ opens, lexeme.token = .symbol .parenOpen)
    (hcloses : ∀ lexeme ∈ closes, lexeme.token = .symbol .parenClose) (h : Matched within) :
    Matched (opens ++ within ++ closes) ↔ opens.length = closes.length := by
  rw [Matched, openParens_append, openParens_append, openParens_opens hopens, Option.bind_some, h.openParens,
    Option.bind_some, openParens_closes_iff hcloses, Nat.zero_add, Nat.zero_add]

-- The first of two parentheses that belong together is open up to the second one.
theorem Matched.eq_nil_of_parens {bracket close : Span} (hbefore : Matched before) (hwithin : Matched within)
    (h : before ++ lexeme :: behind = ⟨.symbol .parenOpen, bracket⟩ :: within ++ [⟨.symbol .parenClose, close⟩]) :
    before = [] := by
  cases before with
  | nil => rfl
  | cons first before =>
      obtain rfl := (List.cons.inj h).1
      have hrest : before ++ lexeme :: behind = within ++ [⟨.symbol .parenClose, close⟩] := (List.cons.inj h).2
      have hbegins : before <+: within := by
        have hproper : before.length ≤ within.length := by
          have hlength := congrArg List.length hrest
          simp only [List.length_append, List.length_cons, List.length_nil] at hlength
          omega
        exact List.prefix_of_prefix_length_le ⟨_, hrest⟩ (List.prefix_append _ _) hproper
      obtain ⟨later, rfl⟩ := hbegins
      rw [Matched, openParens_append] at hwithin
      obtain ⟨middle, hmiddle, -⟩ := Option.bind_eq_some_iff.mp hwithin
      rw [Matched, openParens_cons, countParens_open rfl, Option.bind_some, openParens_add hmiddle 1] at hbefore
      cases hbefore

theorem matched_separated {α : Type} {parts : List α} {lexemesOf : α → List Lexeme}
    (hparts : ∀ part ∈ parts, Matched (lexemesOf part)) (hlist : Separated lexemesOf parts within) :
    Matched within := by
  induction hlist with
  | none => exact matched_nil
  | last part => exact hparts part (List.mem_singleton_self part)
  | more part comma _ ih =>
      obtain ⟨hpart, hothers⟩ := List.forall_mem_cons.mp hparts
      exact hpart.append ((ih hothers).symbol .comma comma (by decide))

section

variable {symbol : Symbol}

theorem not_paren_of_mem_operators {chain : Chain} {op : BinaryOp} (h : (symbol, op) ∈ chain.operators) :
    symbol ≠ .parenOpen ∧ symbol ≠ .parenClose := by
  obtain ⟨hop, -⟩ := mem_operators_iff.mp h
  constructor <;> rintro rfl <;> cases hop

theorem not_paren_of_mem_signs {op : UnaryOp} (h : (symbol, op) ∈ signs) :
    symbol ≠ .parenOpen ∧ symbol ≠ .parenClose := by
  have hop := mem_signs_iff.mp h
  constructor <;> rintro rfl <;> cases hop

end

theorem Spells.matched {category : Category} {node : Located} (h : Spells category lexemes node) : Matched lexemes := by
  induction h with
  | simple _ ih | link _ ih | plain _ ih | bare _ ih => exact ih
  | conditional question colon _ _ _ ihTest ihYes ihNo =>
      exact (ihTest.append (ihYes.symbol .question question (by decide))).append (ihNo.symbol .colon colon (by decide))
  | binary sign _ hop _ ihLeft ihRight => exact ihLeft.append (ihRight.symbol _ sign (not_paren_of_mem_operators hop))
  | unary sign hop _ ih => exact ih.symbol _ sign (not_paren_of_mem_signs hop)
  | member _ dot key label ih =>
      have hkey : Matched [⟨.name key, label⟩] := rfl
      exact ih.append (hkey.symbol .dot dot (by decide))
  | index bracket close _ _ ihTarget ihKey =>
      have hclose := matched_nil.symbol .bracketClose close (by decide)
      exact (ihTarget.append (ihKey.symbol .bracketOpen bracket (by decide))).append hclose
  | call bracket close _ _ hlist ihCallee ihArgs =>
      have hargs := matched_separated ihArgs hlist
      rw [List.append_assoc]
      exact ihCallee.append (hargs.parens bracket close)
  | @literal lexeme _ h =>
      have hsymbol (symbol : Symbol) : lexeme.token ≠ .symbol symbol := by
        intro htoken
        rw [htoken] at h
        cases h
      exact matched_nil.cons (hsymbol _) (hsymbol _)
  | array bracket close _ hlist ih =>
      have hitems := matched_separated ih hlist
      have hclose := matched_nil.symbol .bracketClose close (by decide)
      exact (hitems.symbol .bracketOpen bracket (by decide)).append hclose
  | @object _ entries brace close hlabels _ hlist ih =>
      have hentries : ∀ entry ∈ entries, Matched entry.lexemes := by
        intro entry hmem
        have hlabel (symbol : Symbol) : entry.label.token ≠ .symbol symbol := by
          intro htoken
          have hname := hlabels entry hmem
          rw [htoken] at hname
          cases hname
        exact ((ih entry hmem).symbol .colon entry.colon (by decide)).cons (hlabel _) (hlabel _)
      have hwithin := matched_separated hentries hlist
      have hclose := matched_nil.symbol .braceClose close (by decide)
      exact (hwithin.symbol .braceOpen brace (by decide)).append hclose
  | group bracket close _ ih => exact ih.parens bracket close

theorem Spells.ne_nil {category : Category} {node : Located} (h : Spells category lexemes node) : lexemes ≠ [] := by
  induction h with
  | simple _ ih | link _ ih | plain _ ih | bare _ ih => exact ih
  | _ => simp

-- Parentheses around an expression that belong together make a group of it: no operator, no call and no access
-- has them at its two ends.
theorem Spells.of_group {category : Category} {node : Located} {bracket close : Span}
    (h : Spells category (⟨.symbol .parenOpen, bracket⟩ :: within ++ [⟨.symbol .parenClose, close⟩]) node)
    (hwithin : Matched within) : Spells .expression within node := by
  generalize hlexemes : (⟨.symbol .parenOpen, bracket⟩ :: within ++ [⟨.symbol .parenClose, close⟩] : List Lexeme) =
    lexemes at h
  have hbegins {category : Category} {front : List Lexeme} {node : Located} (hfront : Spells category front node)
      (lexeme : Lexeme) (rest : List Lexeme) (heq : lexemes = front ++ lexeme :: rest) : False := by
    subst hlexemes
    exact hfront.ne_nil (hfront.matched.eq_nil_of_parens hwithin heq.symm)
  induction h with
  | simple _ ih | link _ ih | plain _ ih | bare _ ih => exact ih hlexemes hbegins
  | conditional _ _ htest => exact (hbegins htest _ _ (List.append_assoc ..)).elim
  | binary _ hlhs => exact (hbegins hlhs _ _ rfl).elim
  | unary _ hop =>
      cases hlexemes
      exact absurd rfl (not_paren_of_mem_signs hop).1
  | member h => exact (hbegins h _ _ rfl).elim
  | index _ _ htarget => exact (hbegins htarget _ _ (List.append_assoc ..)).elim
  | call _ _ hcallee => exact (hbegins hcallee _ _ (List.append_assoc ..)).elim
  | literal => simp at hlexemes
  | array | object => cases hlexemes
  | group _ _ h =>
      have hrest := (List.cons.inj hlexemes).2
      obtain ⟨rfl, -⟩ := List.append_inj' hrest rfl
      exact h

-- So do all parentheses around an expression that has its own ones matched.
theorem Spells.of_nested {node : Located} (hopens : ∀ lexeme ∈ opens, lexeme.token = .symbol .parenOpen)
    (hcloses : ∀ lexeme ∈ closes, lexeme.token = .symbol .parenClose)
    (h : Spells .expression (opens ++ within ++ closes) node) (hwithin : Matched within) :
    Spells .expression within node := by
  have hlength := (matched_nested_iff hopens hcloses hwithin).mp h.matched
  induction opens generalizing closes with
  | nil =>
      obtain rfl := List.length_eq_zero_iff.mp hlength.symm
      rwa [List.append_nil] at h
  | cons lexeme opens ih =>
      obtain ⟨hopen, hothers⟩ := List.forall_mem_cons.mp hopens
      rcases List.eq_nil_or_concat closes with rfl | ⟨front, last, rfl⟩
      · cases hlength
      · rw [List.concat_eq_append] at hcloses hlength h
        obtain ⟨hfront, hlast⟩ := List.forall_mem_append.mp hcloses
        have hcount : opens.length = front.length := by simpa using hlength
        have hinner := (matched_nested_iff hothers hfront hwithin).mpr hcount
        obtain ⟨token, bracket⟩ := lexeme
        obtain ⟨token', close⟩ := last
        obtain rfl : token = .symbol .parenOpen := hopen
        obtain rfl : token' = .symbol .parenClose := hlast _ (List.mem_singleton_self _)
        rw [← List.append_assoc] at h
        exact ih hothers hfront (h.of_group hinner) hcount

end JsonTemplate.Grammar
