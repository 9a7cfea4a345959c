import JsonTemplate.Expr.Lexer

namespace JsonTemplate

-- An expression whose nodes know their place in the source.
abbrev Located := Expr Span

namespace Parser

-- A construct whose end has not been read yet. Items and entries are in the order of the source.
inductive Frame where
  | unary (op : UnaryOp) (start : Nat)
  | binary (op : BinaryOp) (lhs : Located)
  -- Between question mark and colon.
  | yes (test : Located)
  -- After the colon.
  | no (test yes : Located)
  | group
  | array (start : Nat) (items : List Located)
  | index (target : Located)
  | call (callee : Located) (args : List Located)
  | entry (start : Nat) (entries : List (String × Located)) (key : String)

-- What may come next.
inductive Mode where
  | operand
  -- After an operand: an operator, or the end of what it belongs to.
  | operator (operand : Located)
  -- After a point.
  | memberName (target : Located)
  -- In an object, where a key or the end may stand.
  | key (start : Nat) (entries : List (String × Located))
  | colon (start : Nat) (entries : List (String × Located)) (key : String)

-- The innermost open construct comes first.
structure State where
  stack : List Frame
  mode : Mode

def initial : State := ⟨[], .operand⟩

def prefixOp? : Symbol → Option UnaryOp
  | .minus => some .negate
  | .plus => some .plus
  | .not => some .not
  | _ => none

def binaryOp? : Symbol → Option BinaryOp
  | .plus => some .add
  | .minus => some .sub
  | .star => some .mul
  | .slash => some .div
  | .percent => some .rem
  | .less => some .less
  | .lessOrEqual => some .lessOrEqual
  | .greater => some .greater
  | .greaterOrEqual => some .greaterOrEqual
  | .eq => some .eq
  | .notEq => some .notEq
  | .strictEq => some .strictEq
  | .strictNotEq => some .strictNotEq
  | .and => some .and
  | .or => some .or
  | _ => none

def spanOf (first last : Located) : Span := ⟨first.note.start, last.note.stop⟩

def unary (op : UnaryOp) (start : Nat) (operand : Located) : Located :=
  .unary ⟨start, operand.note.stop⟩ op operand

def binary (op : BinaryOp) (lhs rhs : Located) : Located := .binary (spanOf lhs rhs) op lhs rhs

def conditional (test yes no : Located) : Located := .conditional (spanOf test no) test yes no

-- Completes the prefix operators and the binary operators that bind at least as tight as the level,
-- so that chains of one level group to the left.
def settle (level : Nat) : List Frame → Located → List Frame × Located
  | .unary op start :: stack, operand => settle level stack (unary op start operand)
  | .binary op lhs :: stack, operand =>
      if level ≤ op.level then settle level stack (binary op lhs operand)
      else (.binary op lhs :: stack, operand)
  | stack, operand => (stack, operand)

-- Completes all operators and conditionals around an operand, up to the bracket, the question mark
-- or the beginning before it.
def close : List Frame → Located → List Frame × Located
  | .unary op start :: stack, operand => close stack (unary op start operand)
  | .binary op lhs :: stack, operand => close stack (binary op lhs operand)
  | .no test yes :: stack, operand => close stack (conditional test yes operand)
  | stack, operand => (stack, operand)

def complete (stack : List Frame) (operand : Located) : Option State :=
  some ⟨stack, .operator operand⟩

-- A symbol where an operand may start. A list ends here when it is empty or after a comma.
def startOperand (stack : List Frame) (span : Span) (symbol : Symbol) : Option State :=
  match prefixOp? symbol with
  | some op => some ⟨.unary op span.start :: stack, .operand⟩
  | none =>
      match symbol, stack with
      | .parenOpen, _ => some ⟨.group :: stack, .operand⟩
      | .bracketOpen, _ => some ⟨.array span.start [] :: stack, .operand⟩
      | .braceOpen, _ => some ⟨stack, .key span.start []⟩
      | .bracketClose, .array start items :: below =>
          complete below (.array ⟨start, span.stop⟩ items)
      | .parenClose, .call callee args :: below =>
          complete below (.call ⟨callee.note.start, span.stop⟩ callee args)
      | _, _ => none

def literal? (span : Span) : Token → Option Located
  | .name text => some (.name span text)
  | .string text => some (.string span text)
  | .number x => some (.number span x)
  | .keyword .true => some (.bool span true)
  | .keyword .false => some (.bool span false)
  | .keyword .null => some (.null span)
  | .keyword .undefined => some (.null span)
  | .symbol _ => none

-- A symbol that ends or continues the innermost bracket or conditional around an operand.
def endOperand (stack : List Frame) (operand : Located) (span : Span) (symbol : Symbol) :
    Option State :=
  let (stack, operand) := close stack operand
  match symbol, stack with
  | .colon, .yes test :: below => some ⟨.no test operand :: below, .operand⟩
  | .parenClose, .group :: below => complete below operand
  | .comma, .array start items :: below => some ⟨.array start (items ++ [operand]) :: below, .operand⟩
  | .bracketClose, .array start items :: below =>
      complete below (.array ⟨start, span.stop⟩ (items ++ [operand]))
  | .bracketClose, .index target :: below =>
      complete below (.index ⟨target.note.start, span.stop⟩ target operand)
  | .comma, .call callee args :: below => some ⟨.call callee (args ++ [operand]) :: below, .operand⟩
  | .parenClose, .call callee args :: below =>
      complete below (.call ⟨callee.note.start, span.stop⟩ callee (args ++ [operand]))
  | .comma, .entry start entries key :: below =>
      some ⟨below, .key start (entries ++ [(key, operand)])⟩
  | .braceClose, .entry start entries key :: below =>
      complete below (.object ⟨start, span.stop⟩ (entries ++ [(key, operand)]))
  | _, _ => none

def afterOperand (stack : List Frame) (operand : Located) (span : Span) (symbol : Symbol) :
    Option State :=
  match binaryOp? symbol with
  | some op =>
      let (stack, lhs) := settle op.level stack operand
      some ⟨.binary op lhs :: stack, .operand⟩
  | none =>
      match symbol with
      | .dot => some ⟨stack, .memberName operand⟩
      | .bracketOpen => some ⟨.index operand :: stack, .operand⟩
      | .parenOpen => some ⟨.call operand [] :: stack, .operand⟩
      | .question =>
          let (stack, test) := settle 0 stack operand
          some ⟨.yes test :: stack, .operand⟩
      | _ => endOperand stack operand span symbol

-- The state after one more token, if the token can stand here.
def step (state : State) (lexeme : Lexeme) : Option State :=
  let stack := state.stack
  let span := lexeme.span
  match state.mode, lexeme.token with
  | .operand, .symbol symbol => startOperand stack span symbol
  | .operand, token => (literal? span token).bind (complete stack)
  | .operator operand, .symbol symbol => afterOperand stack operand span symbol
  | .operator _, _ => none
  | .memberName target, .name key =>
      complete stack (.member ⟨target.note.start, span.stop⟩ target key)
  | .memberName _, _ => none
  | .key start entries, .name key => some ⟨stack, .colon start entries key⟩
  | .key start entries, .string key => some ⟨stack, .colon start entries key⟩
  | .key start entries, .symbol .braceClose => complete stack (.object ⟨start, span.stop⟩ entries)
  | .key .., _ => none
  | .colon start entries key, .symbol .colon => some ⟨.entry start entries key :: stack, .operand⟩
  | .colon .., _ => none

-- The expression that is complete if the source ends here.
def finish? (state : State) : Option Located :=
  match state.mode with
  | .operator operand =>
      match close state.stack operand with
      | ([], whole) => some whole
      | _ => none
  | _ => none

-- Symbols that go on from an operand wherever it stands.
def continuations : List Symbol :=
  [.dot, .bracketOpen, .parenOpen, .star, .slash, .percent, .plus, .minus, .lessOrEqual,
    .greaterOrEqual, .less, .greater, .strictEq, .strictNotEq, .eq, .notEq, .and, .or, .question]

-- What may end or continue the innermost open bracket or conditional.
def closers : List Frame → List Expectation
  | [] => [.endOfInput]
  | .unary .. :: stack | .binary .. :: stack | .no .. :: stack => closers stack
  | .yes _ :: _ => [.symbol .colon]
  | .group :: _ => [.symbol .parenClose]
  | .array .. :: _ => [.symbol .comma, .symbol .bracketClose]
  | .index _ :: _ => [.symbol .bracketClose]
  | .call .. :: _ => [.symbol .comma, .symbol .parenClose]
  | .entry .. :: _ => [.symbol .comma, .symbol .braceClose]

-- The symbols, and the end of input, that can stand in this state.
def expected (state : State) : List Expectation :=
  match state.mode with
  | .operand =>
      let starts := [Symbol.minus, .plus, .not, .bracketOpen, .braceOpen, .parenOpen].map .symbol
      match state.stack with
      | .array .. :: _ => .symbol .bracketClose :: starts
      | .call .. :: _ => .symbol .parenClose :: starts
      | _ => starts
  | .operator _ => continuations.map .symbol ++ closers state.stack
  | .memberName _ => []
  | .key .. => [.symbol .braceClose]
  | .colon .. => [.symbol .colon]

-- Reads tokens from a state on. The source's end is needed to place a missing token: the range goes
-- from there to the end of the last token.
def run (sourceEnd lastEnd : Nat) (state : State) : List Lexeme → Except SyntaxError Located
  | [] =>
      match finish? state with
      | some e => .ok e
      | none => .error ⟨⟨sourceEnd, lastEnd⟩, .unexpected none (expected state)⟩
  | lexeme :: rest =>
      match step state lexeme with
      | some next => run sourceEnd lexeme.span.stop next rest
      | none => .error ⟨lexeme.span, .unexpected (some lexeme.token) (expected state)⟩

end Parser

-- The tree of an expression, or the first error in it. A source that does not fall into tokens has
-- no other error, and one with too many tokens is not read further.
def parse (source : String) : Except SyntaxError Located :=
  match lex source with
  | (_, some failure) => .error failure
  | (lexemes, none) =>
      match lexemes[maxTokens]? with
      | some lexeme => .error ⟨lexeme.span, .tooLong⟩
      | none =>
          let sourceEnd := source.utf8ByteSize
          Parser.run sourceEnd sourceEnd Parser.initial lexemes

end JsonTemplate
