import JsonTemplate.Proofs.Expr.Placement

namespace JsonTemplate.Parser

open Grammar

variable {frames stack : List Frame}

theorem step_binary {level : Nat} (hlevel : 1 ≤ level ∧ level ≤ 7)
    (hframes : ∀ frame ∈ frames, level ≤ frame.hold) (hstack : Apart level stack) {symbol : Symbol}
    {op : BinaryOp} (hop : binaryOp? symbol = some op) (hopLevel : op.level = level) (operand : Located)
    (span : Span) : step ⟨frames ++ stack, .operator operand⟩ ⟨.symbol symbol, span⟩ =
      some ⟨.binary op (enclose frames operand) :: stack, .operand⟩ := by
  have hsettle := settle_append hlevel.1 hframes stack operand
  rw [settle_of_apart hlevel.2 hstack] at hsettle
  change afterOperand (frames ++ stack) operand span symbol = _
  simp only [afterOperand, hop, hopLevel, hsettle]

theorem step_question (hframes : ∀ frame ∈ frames, 1 ≤ frame.hold) (hstack : Apart 1 stack)
    (operand : Located) (span : Span) : step ⟨frames ++ stack, .operator operand⟩ ⟨.symbol .question, span⟩ =
      some ⟨.yes (enclose frames operand) :: stack, .operand⟩ := by
  have hsettle := settle_append (Nat.le_refl 1) hframes stack operand
  rw [settle_of_apart (by decide) hstack, ← settle_zero] at hsettle
  change afterOperand (frames ++ stack) operand span .question = _
  simp only [afterOperand, binaryOp?, hsettle]

-- The symbols that end a whole expression.
theorem step_end (hframes : ∀ frame ∈ frames, frame.IsPending) {symbol : Symbol}
    (hsymbol : symbol ∈ [.colon, .comma, .parenClose, .bracketClose, .braceClose]) (operand : Located)
    (span : Span) : step ⟨frames ++ stack, .operator operand⟩ ⟨.symbol symbol, span⟩ =
      endOperand stack (enclose frames operand) span symbol := by
  have hend : step ⟨frames ++ stack, .operator operand⟩ ⟨.symbol symbol, span⟩ =
      endOperand (frames ++ stack) operand span symbol := by
    simp only [List.mem_cons, List.not_mem_nil, or_false] at hsymbol
    rcases hsymbol with rfl | rfl | rfl | rfl | rfl <;> rfl
  rw [hend, endOperand, endOperand, close_append hframes]

-- The stacks on which a phrase of a category stays together.
def Suits : Category → List Frame → Prop
  | .expression, stack => Apart 1 stack
  | .chain chain, stack => Apart chain.level stack
  | .unary, _ | .call, _ | .atom, _ => True

-- The frames that a phrase of a category leaves before its last operand.
def Leaves : Category → Frame → Prop
  | .expression, frame => frame.IsPending
  | .chain chain, frame => chain.level ≤ frame.hold
  | .unary, frame => 7 ≤ frame.hold
  | .call, _ | .atom, _ => False

-- The lexemes are read, and the frames that stay open make the node of the operand after them.
def Completes (category : Category) (lexemes : List Lexeme) (node : Located) : Prop :=
  ∀ stack, Suits category stack →
    ∃ frames operand, reads ⟨stack, .operand⟩ lexemes = some ⟨frames ++ stack, .operator operand⟩ ∧
      (∀ frame ∈ frames, Leaves category frame) ∧ enclose frames operand = node

-- No frame is left behind a call: it is read to its end.
def ReadsOperand (lexemes : List Lexeme) (node : Located) : Prop :=
  ∀ stack, reads ⟨stack, .operand⟩ lexemes = some ⟨stack, .operator node⟩

variable {lexemes : List Lexeme} {node : Located}

theorem ReadsOperand.completes (h : ReadsOperand lexemes node) (category : Category) :
    Completes category lexemes node :=
  fun stack _ => ⟨[], node, h stack, nofun, rfl⟩

theorem Completes.readsOperand {category : Category} (h : Completes category lexemes node)
    (hcategory : category = .call ∨ category = .atom) : ReadsOperand lexemes node := by
  intro stack
  have hsuits : Suits category stack := by rcases hcategory with rfl | rfl <;> exact trivial
  obtain ⟨frames, operand, hreads, hleaves, rfl⟩ := h stack hsuits
  have hnone : ∀ frame, frame ∉ frames := by
    intro frame hmem
    rcases hcategory with rfl | rfl <;> exact hleaves frame hmem
  obtain rfl := List.eq_nil_iff_forall_not_mem.mpr hnone
  exact hreads

theorem Completes.simple (h : Completes (.chain .or) lexemes node) : Completes .expression lexemes node := by
  intro stack hstack
  obtain ⟨frames, operand, hreads, hleaves, hnode⟩ := h stack hstack
  exact ⟨frames, operand, hreads, fun frame hmem => .inl (hleaves frame hmem), hnode⟩

-- The frame that some lexemes leave is the outermost one of those that are left of a phrase behind it.
theorem Completes.behind_frame {category inner : Category} (h : Completes inner lexemes node) {frame : Frame}
    {front : List Lexeme} (hfront : reads ⟨stack, .operand⟩ front = some ⟨frame :: stack, .operand⟩)
    (hsuits : Suits inner (frame :: stack)) (hinner : ∀ other, Leaves inner other → Leaves category other)
    (hframe : Leaves category frame) :
    ∃ frames operand, reads ⟨stack, .operand⟩ (front ++ lexemes) = some ⟨frames ++ stack, .operator operand⟩ ∧
      (∀ other ∈ frames, Leaves category other) ∧ enclose frames operand = frame.around node := by
  obtain ⟨frames, operand, hreads, hleaves, rfl⟩ := h (frame :: stack) hsuits
  refine ⟨frames ++ [frame], operand, ?_, ?_, ?_⟩
  · rw [reads_of_reads hfront, hreads, List.append_assoc]
    rfl
  · have hframes : ∀ other ∈ frames, Leaves category other := fun other hmem => hinner other (hleaves other hmem)
    exact List.forall_mem_append.mpr ⟨hframes, List.forall_mem_singleton.mpr hframe⟩
  · rw [enclose, List.foldl_append]
    rfl

theorem Completes.conditional {before between behind : List Lexeme} {test yes no : Located} (question colon : Span)
    (htest : Completes (.chain .or) before test) (hyes : Completes .expression between yes)
    (hno : Completes .expression behind no) :
    Completes .expression
      (before ++ ⟨.symbol .question, question⟩ :: between ++ ⟨.symbol .colon, colon⟩ :: behind)
      (conditional test yes no) := by
  intro stack hstack
  obtain ⟨framesTest, lastTest, hreadsTest, hleavesTest, rfl⟩ := htest stack hstack
  obtain ⟨framesYes, lastYes, hreadsYes, hleavesYes, rfl⟩ :=
    hyes (.yes (enclose framesTest lastTest) :: stack) (apart_cons.mpr Nat.zero_lt_one)
  have hcolon : step ⟨framesYes ++ .yes (enclose framesTest lastTest) :: stack, .operator lastYes⟩
      ⟨.symbol .colon, colon⟩ =
      some ⟨.no (enclose framesTest lastTest) (enclose framesYes lastYes) :: stack, .operand⟩ :=
    step_end hleavesYes (by simp) lastYes colon
  have hfront : reads ⟨stack, .operand⟩
      (before ++ ⟨.symbol .question, question⟩ :: between ++ [⟨.symbol .colon, colon⟩]) =
      some ⟨.no (enclose framesTest lastTest) (enclose framesYes lastYes) :: stack, .operand⟩ := by
    rw [List.append_assoc, reads_of_reads hreadsTest, List.cons_append,
      reads_of_step (step_question hleavesTest hstack lastTest question), reads_of_reads hreadsYes]
    exact reads_of_step hcolon []
  have hall := hno.behind_frame hfront (apart_cons.mpr Nat.zero_lt_one) (fun _ => id)
    (.inr ⟨_, _, rfl⟩)
  rwa [List.append_assoc] at hall

theorem suits_operand {chain : Chain} (h : Apart (chain.level + 1) stack) : Suits chain.operand stack := by
  cases chain <;> first | exact h | exact trivial

theorem leaves_operand {chain : Chain} {frame : Frame} (h : Leaves chain.operand frame) :
    chain.level + 1 ≤ frame.hold := by
  cases chain <;> exact h

theorem Completes.link {chain : Chain} (h : Completes chain.operand lexemes node) :
    Completes (.chain chain) lexemes node := by
  intro stack hstack
  have hsuits := suits_operand (Apart.of_le hstack (Nat.le_succ _))
  obtain ⟨frames, operand, hreads, hleaves, hnode⟩ := h stack hsuits
  refine ⟨frames, operand, hreads, fun frame hmem => ?_, hnode⟩
  exact Nat.le_of_succ_le (leaves_operand (hleaves frame hmem))

theorem Completes.binary {chain : Chain} {before behind : List Lexeme} {symbol : Symbol} {op : BinaryOp}
    {lhs rhs : Located} (sign : Span) (hlhs : Completes (.chain chain) before lhs)
    (hop : (symbol, op) ∈ chain.operators) (hrhs : Completes chain.operand behind rhs) :
    Completes (.chain chain) (before ++ ⟨.symbol symbol, sign⟩ :: behind) (binary op lhs rhs) := by
  intro stack hstack
  obtain ⟨hsymbol, hlevel⟩ := mem_operators_iff.mp hop
  obtain ⟨framesLeft, lastLeft, hreadsLeft, hleavesLeft, rfl⟩ := hlhs stack hstack
  have hbounds := level_bounds op
  have hstep := step_binary (by omega) hleavesLeft hstack hsymbol hlevel lastLeft sign
  have hfront : reads ⟨stack, .operand⟩ (before ++ [⟨.symbol symbol, sign⟩]) =
      some ⟨.binary op (enclose framesLeft lastLeft) :: stack, .operand⟩ :=
    (reads_of_reads hreadsLeft _).trans (reads_of_step hstep [])
  have hsuits : Suits chain.operand (.binary op (enclose framesLeft lastLeft) :: stack) :=
    suits_operand (apart_cons.mpr (Nat.lt_succ_of_le (Nat.le_of_eq hlevel)))
  have hinner (other : Frame) (hleaves : Leaves chain.operand other) : Leaves (.chain chain) other :=
    Nat.le_of_succ_le (leaves_operand hleaves)
  have hall := hrhs.behind_frame hfront hsuits hinner (Nat.le_of_eq hlevel.symm)
  rwa [List.append_assoc] at hall

theorem Completes.unary {symbol : Symbol} {op : UnaryOp} {operand : Located} (sign : Span)
    (hop : (symbol, op) ∈ signs) (h : Completes .unary lexemes operand) :
    Completes .unary (⟨.symbol symbol, sign⟩ :: lexemes) (unary op sign.start operand) := by
  intro stack _
  have hstep : step ⟨stack, .operand⟩ ⟨.symbol symbol, sign⟩ =
      some ⟨.unary op sign.start :: stack, .operand⟩ := by
    change startOperand stack sign symbol = _
    unfold startOperand
    rw [mem_signs_iff.mp hop]
  exact h.behind_frame (reads_of_step hstep []) trivial (fun _ => id) (Nat.le_refl 7)

theorem ReadsOperand.member {target : Located} (h : ReadsOperand lexemes target) (dot : Span) (key : String)
    (label : Span) : ReadsOperand (lexemes ++ [⟨.symbol .dot, dot⟩, ⟨.name key, label⟩])
      (.member ⟨target.note.start, label.stop⟩ target key) :=
  fun stack => reads_of_reads (h stack) _

-- An expression in brackets is read to the closing bracket.
theorem Completes.reads_bracketed (h : Completes .expression lexemes node) (bracket : Frame)
    (hbracket : bracket.hold = 0) (stack : List Frame) (symbol : Symbol)
    (hsymbol : symbol ∈ [.colon, .comma, .parenClose, .bracketClose, .braceClose]) (span : Span) :
    reads ⟨bracket :: stack, .operand⟩ (lexemes ++ [⟨.symbol symbol, span⟩]) =
      endOperand (bracket :: stack) node span symbol := by
  have hsuits : Apart 1 (bracket :: stack) := apart_cons.mpr (by omega)
  obtain ⟨frames, last, hreads, hleaves, rfl⟩ := h _ hsuits
  rw [reads_of_reads hreads, ← step_end hleaves hsymbol]
  exact bind_pure _

theorem ReadsOperand.index {within : List Lexeme} {target key : Located} (bracket close : Span)
    (htarget : ReadsOperand lexemes target) (hkey : Completes .expression within key) :
    ReadsOperand (lexemes ++ ⟨.symbol .bracketOpen, bracket⟩ :: within ++ [⟨.symbol .bracketClose, close⟩])
      (.index ⟨target.note.start, close.stop⟩ target key) := by
  intro stack
  rw [List.append_assoc, reads_of_reads (htarget stack)]
  exact hkey.reads_bracketed (.index target) rfl stack .bracketClose (by simp) close

theorem Completes.group {within : List Lexeme} (bracket close : Span) (h : Completes .expression within node) :
    ReadsOperand (⟨.symbol .parenOpen, bracket⟩ :: within ++ [⟨.symbol .parenClose, close⟩]) node :=
  fun stack => h.reads_bracketed .group rfl stack .parenClose (by simp) close

theorem readsOperand_literal {lexeme : Lexeme} (h : literal? lexeme.span lexeme.token = some node) :
    ReadsOperand [lexeme] node := by
  intro stack
  have hstep : step ⟨stack, .operand⟩ lexeme = some ⟨stack, .operator node⟩ := by
    obtain ⟨token, span⟩ := lexeme
    cases token with
    | symbol symbol => cases h
    | keyword word => cases word <;> cases h <;> rfl
    | _ =>
        cases h
        rfl
  exact reads_of_step hstep []

section

variable {α β : Type} (opening final : List β → State) (close : Lexeme)

-- Where a list may go on, the lexemes of a part make one more item of it, and then either the list goes
-- on behind a comma, or it ends.
def ReadsPart (lexemes : List Lexeme) (item : β) : Prop :=
  ∀ done, ∃ next, reads (opening done) lexemes = some next ∧
    (∀ comma, step next ⟨.symbol .comma, comma⟩ = some (opening (done ++ [item]))) ∧
      step next close = some (final (done ++ [item]))

variable {opening final close} {lexemesOf : α → List Lexeme} {item : α → β}

theorem reads_separated {parts : List α}
    (hparts : ∀ part ∈ parts, ReadsPart opening final close (lexemesOf part) (item part))
    (hclose : ∀ done, step (opening done) close = some (final done)) {within : List Lexeme}
    (hlist : Separated lexemesOf parts within) (done : List β) :
    reads (opening done) (within ++ [close]) = some (final (done ++ parts.map item)) := by
  induction hlist generalizing done with
  | none =>
      rw [List.map_nil, List.append_nil]
      exact reads_of_step (hclose done) []
  | last part =>
      obtain ⟨next, hreads, -, hlast⟩ := List.forall_mem_singleton.mp hparts done
      rw [reads_of_reads hreads]
      exact reads_of_step hlast []
  | more part comma _ ih =>
      obtain ⟨hpart, hothers⟩ := List.forall_mem_cons.mp hparts
      obtain ⟨next, hreads, hcomma, -⟩ := hpart done
      rw [List.append_assoc, reads_of_reads hreads, List.cons_append, reads_of_step (hcomma comma), ih hothers,
        List.append_assoc]
      rfl

end

-- An item of an array or an argument.
theorem Completes.readsPart (h : Completes .expression lexemes node) {bracket : List Located → Frame}
    (hbracket : ∀ done, (bracket done).hold = 0) {around : List Located → Located} {symbol : Symbol} {span : Span}
    (hsymbol : symbol ∈ [.colon, .comma, .parenClose, .bracketClose, .braceClose])
    (hcomma : ∀ done operand span, endOperand (bracket done :: stack) operand span .comma =
      some ⟨bracket (done ++ [operand]) :: stack, .operand⟩)
    (hclose : ∀ done operand, endOperand (bracket done :: stack) operand span symbol =
      some ⟨stack, .operator (around (done ++ [operand]))⟩) :
    ReadsPart (fun done => ⟨bracket done :: stack, .operand⟩) (fun items => ⟨stack, .operator (around items)⟩)
      ⟨.symbol symbol, span⟩ lexemes node := by
  intro done
  have hsuits : Apart 1 (bracket done :: stack) := by
    rw [apart_cons, hbracket]
    exact Nat.zero_lt_one
  obtain ⟨frames, last, hreads, hleaves, rfl⟩ := h _ hsuits
  refine ⟨_, hreads, fun span => ?_, ?_⟩
  · rw [step_end hleaves (by simp), hcomma]
  · rw [step_end hleaves hsymbol, hclose]

theorem readsOperand_array {within : List Lexeme} {items : List Passage} (bracket close : Span)
    (hitems : ∀ item ∈ items, Completes .expression item.lexemes item.node)
    (hlist : Separated Passage.lexemes items within) :
    ReadsOperand (⟨.symbol .bracketOpen, bracket⟩ :: within ++ [⟨.symbol .bracketClose, close⟩])
      (.array ⟨bracket.start, close.stop⟩ (items.map Passage.node)) := by
  intro stack
  have hparts : ∀ item ∈ items, ReadsPart (fun done => ⟨.array bracket.start done :: stack, .operand⟩)
      (fun done => ⟨stack, .operator (.array ⟨bracket.start, close.stop⟩ done)⟩)
      ⟨.symbol .bracketClose, close⟩ item.lexemes item.node :=
    fun item hmem => (hitems item hmem).readsPart (fun _ => rfl) (by simp) (fun _ _ _ => rfl) fun _ _ => rfl
  exact reads_separated hparts (fun _ => rfl) hlist []

theorem ReadsOperand.call {within : List Lexeme} {callee : Located} {args : List Passage} (bracket close : Span)
    (hcallee : ReadsOperand lexemes callee) (hargs : ∀ arg ∈ args, Completes .expression arg.lexemes arg.node)
    (hlist : Separated Passage.lexemes args within) :
    ReadsOperand (lexemes ++ ⟨.symbol .parenOpen, bracket⟩ :: within ++ [⟨.symbol .parenClose, close⟩])
      (.call ⟨callee.note.start, close.stop⟩ callee (args.map Passage.node)) := by
  intro stack
  have hparts : ∀ arg ∈ args, ReadsPart (fun done => ⟨.call callee done :: stack, .operand⟩)
      (fun done => ⟨stack, .operator (.call ⟨callee.note.start, close.stop⟩ callee done)⟩)
      ⟨.symbol .parenClose, close⟩ arg.lexemes arg.node :=
    fun arg hmem => (hargs arg hmem).readsPart (fun _ => rfl) (by simp) (fun _ _ _ => rfl) fun _ _ => rfl
  rw [List.append_assoc, reads_of_reads (hcallee stack)]
  exact reads_separated hparts (fun _ => rfl) hlist []

theorem step_label {label : Lexeme} {key : String} (h : Label label.token key) (stack : List Frame) (start : Nat)
    (done : List (String × Located)) :
    step ⟨stack, .key start done⟩ label = some ⟨stack, .colon start done key⟩ := by
  obtain ⟨token, span⟩ := label
  cases h <;> rfl

theorem readsOperand_object {within : List Lexeme} {entries : List Entry} (brace close : Span)
    (hlabels : ∀ entry ∈ entries, Label entry.label.token entry.key)
    (hvalues : ∀ entry ∈ entries, Completes .expression entry.value.lexemes entry.value.node)
    (hlist : Separated Entry.lexemes entries within) :
    ReadsOperand (⟨.symbol .braceOpen, brace⟩ :: within ++ [⟨.symbol .braceClose, close⟩])
      (.object ⟨brace.start, close.stop⟩ (entries.map Entry.field)) := by
  intro stack
  have hparts : ∀ entry ∈ entries, ReadsPart (fun done => ⟨stack, .key brace.start done⟩)
      (fun done => ⟨stack, .operator (.object ⟨brace.start, close.stop⟩ done)⟩)
      ⟨.symbol .braceClose, close⟩ entry.lexemes entry.field := by
    intro entry hmem done
    have hlabel := step_label (hlabels entry hmem) stack brace.start done
    obtain ⟨frames, last, hreads, hleaves, hnode⟩ :=
      hvalues entry hmem (.entry brace.start done entry.key :: stack) (apart_cons.mpr Nat.zero_lt_one)
    refine ⟨_, (reads_of_step hlabel _).trans hreads, fun comma => ?_, ?_⟩
    · rw [step_end hleaves (by simp), hnode]
      rfl
    · rw [step_end hleaves (by simp), hnode]
      rfl
  exact reads_separated hparts (fun _ => rfl) hlist []

theorem completes_of_spells {category : Category} (h : Spells category lexemes node) :
    Completes category lexemes node := by
  induction h with
  | simple _ ih => exact ih.simple
  | conditional question colon _ _ _ ihTest ihYes ihNo => exact .conditional question colon ihTest ihYes ihNo
  | link _ ih => exact ih.link
  | binary sign _ hop _ ihLeft ihRight => exact .binary sign ihLeft hop ihRight
  | plain _ ih => exact (ih.readsOperand (.inl rfl)).completes _
  | unary sign hop _ ih => exact .unary sign hop ih
  | bare _ ih => exact (ih.readsOperand (.inr rfl)).completes _
  | member _ dot key label ih => exact ((ih.readsOperand (.inl rfl)).member dot key label).completes _
  | index bracket close _ _ ihTarget ihKey =>
      exact ((ihTarget.readsOperand (.inl rfl)).index bracket close ihKey).completes _
  | call bracket close _ _ hlist ihCallee ihArgs =>
      exact ((ihCallee.readsOperand (.inl rfl)).call bracket close ihArgs hlist).completes _
  | literal h => exact (readsOperand_literal h).completes _
  | array bracket close _ hlist ih => exact (readsOperand_array bracket close ih hlist).completes _
  | object brace close hlabels _ hlist ih => exact (readsOperand_object brace close hlabels ih hlist).completes _
  | group bracket close _ ih => exact (ih.group bracket close).completes _

-- All expressions of the grammar are read to the end of the source.
theorem exists_finish_of_spells (h : Spells .expression lexemes node) :
    ∃ last, reads initial lexemes = some last ∧ finish? last = some node := by
  obtain ⟨frames, operand, hreads, hleaves, rfl⟩ := completes_of_spells h [] apart_nil
  refine ⟨_, hreads, ?_⟩
  have hclose := close_append hleaves [] operand
  simp only [finish?, hclose, close]

theorem exists_finish_of_derives {tree : Expr Unit} (h : Derives .expression (lexemes.map Lexeme.token) tree) :
    ∃ last e, reads initial lexemes = some last ∧ finish? last = some e ∧ e.erase = tree := by
  obtain ⟨node, hnode, htree⟩ := exists_spells h rfl
  obtain ⟨last, hreads, hfinish⟩ := exists_finish_of_spells hnode
  exact ⟨last, node, hreads, hfinish, htree⟩

end JsonTemplate.Parser
