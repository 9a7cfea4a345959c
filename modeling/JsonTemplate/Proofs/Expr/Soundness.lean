import JsonTemplate.Proofs.Expr.Lists
import JsonTemplate.Proofs.Expr.Reading

namespace JsonTemplate.Parser

open Grammar

def IsItem (phrase : Phrase) : Prop := Derives .expression phrase.tokens phrase.tree

def IsProperty (property : Property) : Prop :=
  Label property.label property.key ∧ IsItem property.value

def eraseEntry (entry : String × Located) : String × Expr Unit := (entry.1, entry.2.erase)

def ItemsRead : List Located → List Token → Prop :=
  OpenReads IsItem Phrase.tokens Phrase.tree Expr.erase

def EntriesRead : List (String × Located) → List Token → Prop :=
  OpenReads IsProperty Property.tokens Property.entry eraseEntry

-- The tokens that the frames of a stack have come from.
inductive StackReads : List Frame → List Token → Prop
  | nil : StackReads [] []
  | unary {stack : List Frame} {tokens : List Token} {symbol : Symbol} {op : UnaryOp}
      (h : StackReads stack tokens) (hop : prefixOp? symbol = some op) (start : Nat) :
      StackReads (.unary op start :: stack) (tokens ++ [.symbol symbol])
  | binary {stack : List Frame} {tokens phrase : List Token} {symbol : Symbol} {op : BinaryOp}
      {lhs : Located} (h : StackReads stack tokens) (hapart : Apart op.level stack)
      (hop : binaryOp? symbol = some op) (hlhs : Derives (binding op.level) phrase lhs.erase) :
      StackReads (.binary op lhs :: stack) (tokens ++ phrase ++ [.symbol symbol])
  | yes {stack : List Frame} {tokens phrase : List Token} {test : Located}
      (h : StackReads stack tokens) (hapart : Apart 1 stack)
      (htest : Derives (.chain .or) phrase test.erase) :
      StackReads (.yes test :: stack) (tokens ++ phrase ++ [.symbol .question])
  | no {stack : List Frame} {tokens before between : List Token} {test yes : Located}
      (h : StackReads stack tokens) (hapart : Apart 1 stack)
      (htest : Derives (.chain .or) before test.erase) (hyes : Derives .expression between yes.erase) :
      StackReads (.no test yes :: stack)
        (tokens ++ before ++ .symbol .question :: between ++ [.symbol .colon])
  | group {stack : List Frame} {tokens : List Token} (h : StackReads stack tokens) :
      StackReads (.group :: stack) (tokens ++ [.symbol .parenOpen])
  | array {stack : List Frame} {tokens within : List Token} {items : List Located}
      (h : StackReads stack tokens) (hitems : ItemsRead items within) (start : Nat) :
      StackReads (.array start items :: stack) (tokens ++ .symbol .bracketOpen :: within)
  | index {stack : List Frame} {tokens phrase : List Token} {target : Located}
      (h : StackReads stack tokens) (htarget : Derives .call phrase target.erase) :
      StackReads (.index target :: stack) (tokens ++ phrase ++ [.symbol .bracketOpen])
  | call {stack : List Frame} {tokens phrase within : List Token} {callee : Located}
      {args : List Located} (h : StackReads stack tokens) (hcallee : Derives .call phrase callee.erase)
      (hargs : ItemsRead args within) :
      StackReads (.call callee args :: stack) (tokens ++ phrase ++ .symbol .parenOpen :: within)
  | entry {stack : List Frame} {tokens within : List Token} {entries : List (String × Located)}
      {label : Token} {key : String} (h : StackReads stack tokens) (hentries : EntriesRead entries within)
      (hlabel : Label label key) (start : Nat) :
      StackReads (.entry start entries key :: stack)
        (tokens ++ .symbol .braceOpen :: within ++ [label, .symbol .colon])

-- The tokens that have led to a state.
inductive StateReads : State → List Token → Prop
  | operand {stack : List Frame} {tokens : List Token} (h : StackReads stack tokens) :
      StateReads ⟨stack, .operand⟩ tokens
  | operator {stack : List Frame} {tokens phrase : List Token} {operand : Located}
      (h : StackReads stack tokens) (hoperand : Derives .call phrase operand.erase) :
      StateReads ⟨stack, .operator operand⟩ (tokens ++ phrase)
  | memberName {stack : List Frame} {tokens phrase : List Token} {target : Located}
      (h : StackReads stack tokens) (htarget : Derives .call phrase target.erase) :
      StateReads ⟨stack, .memberName target⟩ (tokens ++ phrase ++ [.symbol .dot])
  | key {stack : List Frame} {tokens within : List Token} {entries : List (String × Located)}
      (h : StackReads stack tokens) (hentries : EntriesRead entries within) (start : Nat) :
      StateReads ⟨stack, .key start entries⟩ (tokens ++ .symbol .braceOpen :: within)
  | colon {stack : List Frame} {tokens within : List Token} {entries : List (String × Located)}
      {label : Token} {key : String} (h : StackReads stack tokens) (hentries : EntriesRead entries within)
      (hlabel : Label label key) (start : Nat) :
      StateReads ⟨stack, .colon start entries key⟩
        (tokens ++ .symbol .braceOpen :: within ++ [label])

-- The frames before a phrase that binds with the given strength can hold the phrase as a whole.
def Fits (n : Nat) (stack : List Frame) : Prop := n ≤ 6 → Apart (max n 1) stack

theorem Fits.unary {n : Nat} {op : UnaryOp} {start : Nat} {stack : List Frame}
    (h : Fits n (.unary op start :: stack)) : 7 ≤ n := by
  rcases Nat.lt_or_ge 6 n with hlt | hle
  · exact hlt
  · have hhold : 7 < max n 1 := apart_cons.mp (h hle)
    omega

theorem Fits.binary {n : Nat} {op : BinaryOp} {lhs : Located} {stack : List Frame}
    (h : Fits n (.binary op lhs :: stack)) : op.level + 1 ≤ n := by
  have hbounds := level_bounds op
  rcases Nat.lt_or_ge 6 n with hlt | hle
  · omega
  · have hhold : op.level < max n 1 := apart_cons.mp (h hle)
    omega

theorem fits_of_apart {n : Nat} {stack : List Frame} (h : Apart n stack) : Fits n stack :=
  fun _ => h.of_le (Nat.le_max_left n 1)

theorem fits_operand (stack : List Frame) : Fits 7 stack := fun h => absurd h (by decide)

-- The tokens of a stack and of a phrase behind it that binds with the given strength.
def PairReads (n : Nat) (pair : List Frame × Located) (tokens : List Token) : Prop :=
  ∃ before behind, tokens = before ++ behind ∧ StackReads pair.1 before ∧
    Derives (binding n) behind pair.2.erase

-- By recursion over the stack: a frame that is completed makes a longer phrase, which binds as the
-- frame's operator does.
theorem settle_reads (level : Nat) (hlevel : 1 ≤ level ∧ level ≤ 7) {stack : List Frame} {n : Nat}
    {tokens phrase : List Token} {operand : Located} (h : StackReads stack tokens)
    (hoperand : Derives (binding n) phrase operand.erase) (hn : level ≤ n) (hfits : Fits n stack) :
    PairReads level (settle level stack operand) (tokens ++ phrase) ∧
      Apart level (settle level stack operand).1 := by
  induction stack generalizing n tokens phrase operand with
  | nil => exact ⟨⟨tokens, phrase, rfl, h, hoperand.of_le hn⟩, apart_nil⟩
  | cons frame stack ih =>
      have hstay (hapart : Apart level (frame :: stack)) :
          PairReads level (settle level (frame :: stack) operand) (tokens ++ phrase) ∧
            Apart level (settle level (frame :: stack) operand).1 := by
        rw [settle_of_apart hlevel.2 hapart]
        exact ⟨⟨tokens, phrase, rfl, h, hoperand.of_le hn⟩, hapart⟩
      cases frame with
      | unary op start =>
          cases h with
          | unary h hop =>
              have hunary : Derives .unary phrase operand.erase := hoperand.of_le hfits.unary
              rw [List.append_assoc]
              exact ih (n := 7) h (.unary (mem_signs_iff.mpr hop) hunary) hlevel.2 (fits_operand stack)
      | binary op lhs =>
          cases h with
          | binary h hapart hop hlhs =>
              by_cases hle : level ≤ op.level
              · have hbinary := Derives.binary_of_level hop hlhs (hoperand.of_le hfits.binary)
                rw [settle, if_pos hle, List.append_assoc, List.append_assoc]
                exact ih h hbinary hle (fits_of_apart hapart)
              · exact hstay (apart_cons.mpr (Nat.lt_of_not_le hle))
      | _ => exact hstay (apart_cons.mpr hlevel.1)

theorem close_reads {stack : List Frame} {n : Nat} {tokens phrase : List Token} {operand : Located}
    (h : StackReads stack tokens) (hoperand : Derives (binding n) phrase operand.erase)
    (hfits : Fits n stack) : PairReads 0 (close stack operand) (tokens ++ phrase) := by
  induction stack generalizing n tokens phrase operand with
  | nil => exact ⟨tokens, phrase, rfl, h, hoperand.of_le (Nat.zero_le n)⟩
  | cons frame stack ih =>
      cases frame with
      | unary op start =>
          cases h with
          | unary h hop =>
              have hunary : Derives .unary phrase operand.erase := hoperand.of_le hfits.unary
              rw [List.append_assoc]
              exact ih (n := 7) h (.unary (mem_signs_iff.mpr hop) hunary) (fits_operand stack)
      | binary op lhs =>
          cases h with
          | binary h hapart hop hlhs =>
              have hbinary := Derives.binary_of_level hop hlhs (hoperand.of_le hfits.binary)
              rw [List.append_assoc, List.append_assoc]
              exact ih h hbinary (fits_of_apart hapart)
      | no test yes =>
          cases h with
          | no h hapart htest hyes =>
              have hno : Derives .expression phrase operand.erase := hoperand.of_le (Nat.zero_le n)
              have hconditional := Derives.conditional htest hyes hno
              have hfits : Fits 0 stack := fun _ => hapart
              have htokens (tokens before between behind : List Token) (question colon : Token) :
                  tokens ++ before ++ question :: between ++ [colon] ++ behind =
                    tokens ++ (before ++ question :: between ++ colon :: behind) := by simp
              rw [htokens]
              exact ih (n := 0) h hconditional hfits
      | _ => exact ⟨tokens, phrase, rfl, h, hoperand.of_le (Nat.zero_le n)⟩

theorem StateReads.of_eq {state : State} {tokens others : List Token} (h : StateReads state tokens)
    (heq : tokens = others) : StateReads state others :=
  heq ▸ h

variable {stack : List Frame} {tokens phrase within : List Token} {operand : Located} {next : State}

theorem derives_array {items : List Located}
    (h : ListReads IsItem Phrase.tokens Phrase.tree Expr.erase items within) (span : Span) :
    Derives .call (.symbol .bracketOpen :: within ++ [.symbol .bracketClose])
      (Expr.array span items).erase := by
  obtain ⟨phrases, hphrases, htrees, hlist⟩ := h
  rw [Expr.erase_array, ← htrees]
  exact .bare (.array hphrases hlist)

theorem derives_call {callee : Located} (hcallee : Derives .call phrase callee.erase)
    {args : List Located}
    (h : ListReads IsItem Phrase.tokens Phrase.tree Expr.erase args within) (span : Span) :
    Derives .call (phrase ++ .symbol .parenOpen :: within ++ [.symbol .parenClose])
      (Expr.call span callee args).erase := by
  obtain ⟨phrases, hphrases, htrees, hlist⟩ := h
  rw [Expr.erase_call, ← htrees]
  exact .call hcallee hphrases hlist

theorem derives_object {entries : List (String × Located)}
    (h : ListReads IsProperty Property.tokens Property.entry eraseEntry entries within) (span : Span) :
    Derives .call (.symbol .braceOpen :: within ++ [.symbol .braceClose])
      (Expr.object span entries).erase := by
  obtain ⟨properties, hproperties, htrees, hlist⟩ := h
  have herase : (Expr.object span entries).erase = .object () (properties.map Property.entry) := by
    rw [htrees]
    exact Expr.erase_object span entries
  rw [herase]
  have hlabels := fun property hmem => (hproperties property hmem).1
  have hvalues := fun property hmem => (hproperties property hmem).2
  exact .bare (.object hlabels hvalues hlist)

theorem startOperand_reads {span : Span} {symbol : Symbol} (h : StackReads stack tokens)
    (hstep : startOperand stack span symbol = some next) :
    StateReads next (tokens ++ [.symbol symbol]) := by
  unfold startOperand at hstep
  split at hstep
  · rename_i op hop
    cases hstep
    exact .operand (.unary h hop _)
  · split at hstep
    · cases hstep
      exact .operand (.group h)
    · cases hstep
      exact .operand (.array h openReads_nil _)
    · cases hstep
      exact .key h openReads_nil _
    · cases hstep
      cases h with
      | array h hitems => exact .of_eq (.operator h (derives_array hitems.listReads _)) (by simp)
    · cases hstep
      cases h with
      | call h hcallee hargs => exact .of_eq (.operator h (derives_call hcallee hargs.listReads _)) (by simp)
    · cases hstep

-- A bracket, a comma or a colon behind a whole expression.
theorem endOperand_reads {span : Span} {symbol : Symbol} (h : StackReads stack tokens)
    (hoperand : Derives .call phrase operand.erase)
    (hstep : endOperand stack operand span symbol = some next) :
    StateReads next (tokens ++ phrase ++ [.symbol symbol]) := by
  obtain ⟨before, behind, htokens, hbefore, hwhole⟩ :=
    close_reads h (hoperand.of_call 7) (fits_operand stack)
  rw [htokens]
  unfold endOperand at hstep
  generalize close stack operand = pair at hstep hbefore hwhole
  obtain ⟨below, whole⟩ := pair
  have hphrase : Derives .expression behind whole.erase := hwhole
  simp only at hstep
  split at hstep
  · cases hstep
    cases hbefore with
    | yes h hapart htest => exact .of_eq (.operand (.no h hapart htest hphrase)) (by simp)
  · cases hstep
    cases hbefore with
    | group h => exact .of_eq (.operator h (.bare (.group hphrase))) (by simp)
  · cases hstep
    cases hbefore with
    | array h hitems =>
        have hmore := hitems.concat ⟨behind, whole.erase⟩ whole hphrase rfl
        exact .of_eq (.operand (.array h hmore _)) (by simp)
  · cases hstep
    cases hbefore with
    | array h hitems =>
        have hall := hitems.listReads_concat ⟨behind, whole.erase⟩ whole hphrase rfl
        exact .of_eq (.operator h (derives_array hall _)) (by simp)
  · cases hstep
    cases hbefore with
    | index h htarget => exact .of_eq (.operator h (.index htarget hphrase)) (by simp)
  · cases hstep
    cases hbefore with
    | call h hcallee hargs =>
        have hmore := hargs.concat ⟨behind, whole.erase⟩ whole hphrase rfl
        exact .of_eq (.operand (.call h hcallee hmore)) (by simp)
  · cases hstep
    cases hbefore with
    | call h hcallee hargs =>
        have hall := hargs.listReads_concat ⟨behind, whole.erase⟩ whole hphrase rfl
        exact .of_eq (.operator h (derives_call hcallee hall _)) (by simp)
  · cases hstep
    cases hbefore with
    | @entry _ _ _ _ label _ h hentries hlabel =>
        have hmore := hentries.concat ⟨label, _, behind, whole.erase⟩ (_, whole) ⟨hlabel, hphrase⟩ rfl
        exact .of_eq (.key h hmore _) (by simp [Property.tokens])
  · cases hstep
    cases hbefore with
    | @entry _ _ _ _ label _ h hentries hlabel =>
        have hall := hentries.listReads_concat ⟨label, _, behind, whole.erase⟩ (_, whole)
          ⟨hlabel, hphrase⟩ rfl
        exact .of_eq (.operator h (derives_object hall _)) (by simp [Property.tokens])
  · cases hstep

theorem afterOperand_reads {span : Span} {symbol : Symbol} (h : StackReads stack tokens)
    (hoperand : Derives .call phrase operand.erase)
    (hstep : afterOperand stack operand span symbol = some next) :
    StateReads next (tokens ++ phrase ++ [.symbol symbol]) := by
  unfold afterOperand at hstep
  split at hstep
  · rename_i op hop
    have hbounds := level_bounds op
    obtain ⟨⟨before, behind, htokens, hbefore, hbehind⟩, hapart⟩ :=
      settle_reads op.level (by omega) h (hoperand.of_call 7) (by omega) (fits_operand stack)
    rw [htokens]
    cases hstep
    exact .operand (.binary hbefore hapart hop hbehind)
  · split at hstep
    · cases hstep
      exact .memberName h hoperand
    · cases hstep
      exact .operand (.index h hoperand)
    · cases hstep
      exact .operand (.call h hoperand openReads_nil)
    · obtain ⟨⟨before, behind, htokens, hbefore, hbehind⟩, hapart⟩ :=
        settle_reads 1 (by decide) h (hoperand.of_call 7) (by decide) (fits_operand stack)
      rw [← settle_zero] at hbefore hbehind hapart
      rw [htokens]
      cases hstep
      exact .operand (.yes hbefore hapart hbehind)
    · exact endOperand_reads h hoperand hstep

-- What one token keeps.
theorem StateReads.step {state : State} {lexeme : Lexeme} (h : StateReads state tokens)
    (hstep : step state lexeme = some next) : StateReads next (tokens ++ [lexeme.token]) := by
  obtain ⟨token, span⟩ := lexeme
  cases h with
  | operand h =>
      cases token with
      | symbol symbol => exact startOperand_reads h hstep
      | name text =>
          cases hstep
          exact .operator h (.bare (.name text))
      | string text =>
          cases hstep
          exact .operator h (.bare (.literal (.string text)))
      | number x =>
          cases hstep
          exact .operator h (.bare (.literal (.number x)))
      | keyword word =>
          cases word with
          | true =>
              cases hstep
              exact .operator h (.bare (.literal .true))
          | false =>
              cases hstep
              exact .operator h (.bare (.literal .false))
          | null =>
              cases hstep
              exact .operator h (.bare (.literal .null))
          | undefined =>
              cases hstep
              exact .operator h (.bare (.literal .undefined))
  | operator h hoperand =>
      cases token with
      | symbol symbol => exact afterOperand_reads h hoperand hstep
      | _ => cases hstep
  | memberName h htarget =>
      cases token with
      | name key =>
          cases hstep
          exact .of_eq (.operator h (.member htarget key)) (by simp)
      | _ => cases hstep
  | key h hentries start =>
      cases token with
      | name key =>
          cases hstep
          exact .of_eq (.colon h hentries (.name key) start) (by simp)
      | string key =>
          cases hstep
          exact .of_eq (.colon h hentries (.string key) start) (by simp)
      | symbol symbol =>
          cases symbol <;> cases hstep
          exact .of_eq (.operator h (derives_object hentries.listReads _)) (by simp)
      | _ => cases hstep
  | colon h hentries hlabel start =>
      cases token with
      | symbol symbol =>
          cases symbol <;> cases hstep
          exact .of_eq (.operand (.entry h hentries hlabel start)) (by simp)
      | _ => cases hstep

theorem StateReads.reads {state : State} {lexemes : List Lexeme} (h : StateReads state tokens)
    (hreads : reads state lexemes = some next) : StateReads next (tokens ++ lexemes.map Lexeme.token) := by
  induction lexemes generalizing state tokens with
  | nil =>
      cases hreads
      exact .of_eq h (List.append_nil tokens).symm
  | cons lexeme rest ih =>
      obtain ⟨middle, hstep, hrest⟩ := Option.bind_eq_some_iff.mp hreads
      exact .of_eq (ih (h.step hstep) hrest) (List.append_assoc tokens [lexeme.token] _)

-- All that is read to the end of a source is an expression of the grammar.
theorem derives_of_finish {lexemes : List Lexeme} {last : State} {e : Located}
    (hreads : reads initial lexemes = some last) (hfinish : finish? last = some e) :
    Derives .expression (lexemes.map Lexeme.token) e.erase := by
  have hlast : StateReads last ([] ++ lexemes.map Lexeme.token) := (StateReads.operand .nil).reads hreads
  rw [List.nil_append] at hlast
  generalize lexemes.map Lexeme.token = source at hlast
  cases hlast with
  | @operator stack tokens phrase operand h hoperand =>
      obtain ⟨before, behind, htokens, hbefore, hwhole⟩ :=
        close_reads h (hoperand.of_call 7) (fits_operand stack)
      simp only [finish?] at hfinish
      generalize close stack operand = pair at hfinish hbefore hwhole
      obtain ⟨below, whole⟩ := pair
      cases below with
      | nil =>
          cases hfinish
          cases hbefore
          rw [htokens]
          exact hwhole
      | cons => cases hfinish
  | _ => cases hfinish

end JsonTemplate.Parser
