import JsonTemplate.Expr.Parser

namespace JsonTemplate.Grammar

-- Chains of binary operators, from the loosest binding to the tightest.
inductive Chain where
  | or
  | and
  | equality
  | comparison
  | sum
  | product

def Chain.operators : Chain → List (Symbol × BinaryOp)
  | or => [(.or, .or)]
  | and => [(.and, .and)]
  | equality => [(.strictEq, .strictEq), (.strictNotEq, .strictNotEq), (.eq, .eq), (.notEq, .notEq)]
  | comparison =>
      [(.lessOrEqual, .lessOrEqual), (.greaterOrEqual, .greaterOrEqual), (.less, .less),
        (.greater, .greater)]
  | sum => [(.plus, .add), (.minus, .sub)]
  | product => [(.star, .mul), (.slash, .div), (.percent, .rem)]

def signs : List (Symbol × UnaryOp) := [(.minus, .negate), (.plus, .plus), (.not, .not)]

inductive Category where
  | expression
  | chain (chain : Chain)
  | unary
  | call
  | atom

-- What stands between the operators of a chain.
def Chain.operand : Chain → Category
  | or => .chain and
  | and => .chain equality
  | equality => .chain comparison
  | comparison => .chain sum
  | sum => .chain product
  | product => .unary

inductive Literal : Token → Expr Unit → Prop
  | number (x : Float) : Literal (.number x) (.number () x)
  | string (text : String) : Literal (.string text) (.string () text)
  | true : Literal (.keyword .true) (.bool () true)
  | false : Literal (.keyword .false) (.bool () false)
  | null : Literal (.keyword .null) (.null ())
  | undefined : Literal (.keyword .undefined) (.null ())

inductive Label : Token → String → Prop
  | name (text : String) : Label (.name text) text
  | string (text : String) : Label (.string text) text

-- Some tokens and the tree that is made of them.
structure Phrase where
  tokens : List Token
  tree : Expr Unit

structure Property where
  label : Token
  key : String
  value : Phrase

def Property.tokens (property : Property) : List Token :=
  property.label :: .symbol .colon :: property.value.tokens

def Property.entry (property : Property) : String × Expr Unit := (property.key, property.value.tree)

-- Parts with commas between them. One more comma may stand behind the last part, if there is one.
inductive Listed (parts : List (List Token)) : List Token → Prop
  | plain : Listed parts ([.symbol .comma].intercalate parts)
  | trailing (h : parts ≠ []) : Listed parts ([.symbol .comma].intercalate parts ++ [.symbol .comma])

-- The trees of the tokens of each category.
inductive Derives : Category → List Token → Expr Unit → Prop
  | simple {tokens : List Token} {tree : Expr Unit} (h : Derives (.chain .or) tokens tree) :
      Derives .expression tokens tree
  | conditional {before between behind : List Token} {test yes no : Expr Unit}
      (htest : Derives (.chain .or) before test) (hyes : Derives .expression between yes)
      (hno : Derives .expression behind no) :
      Derives .expression (before ++ .symbol .question :: between ++ .symbol .colon :: behind)
        (.conditional () test yes no)
  | link {chain : Chain} {tokens : List Token} {tree : Expr Unit}
      (h : Derives chain.operand tokens tree) : Derives (.chain chain) tokens tree
  | binary {chain : Chain} {before behind : List Token} {symbol : Symbol} {op : BinaryOp}
      {lhs rhs : Expr Unit} (hlhs : Derives (.chain chain) before lhs)
      (hop : (symbol, op) ∈ chain.operators) (hrhs : Derives chain.operand behind rhs) :
      Derives (.chain chain) (before ++ .symbol symbol :: behind) (.binary () op lhs rhs)
  | plain {tokens : List Token} {tree : Expr Unit} (h : Derives .call tokens tree) :
      Derives .unary tokens tree
  | unary {tokens : List Token} {symbol : Symbol} {op : UnaryOp} {operand : Expr Unit}
      (hop : (symbol, op) ∈ signs) (h : Derives .unary tokens operand) :
      Derives .unary (.symbol symbol :: tokens) (.unary () op operand)
  | bare {tokens : List Token} {tree : Expr Unit} (h : Derives .atom tokens tree) :
      Derives .call tokens tree
  | member {tokens : List Token} {target : Expr Unit} (h : Derives .call tokens target) (key : String) :
      Derives .call (tokens ++ [.symbol .dot, .name key]) (.member () target key)
  | index {tokens within : List Token} {target key : Expr Unit} (htarget : Derives .call tokens target)
      (hkey : Derives .expression within key) :
      Derives .call (tokens ++ .symbol .bracketOpen :: within ++ [.symbol .bracketClose])
        (.index () target key)
  | call {tokens within : List Token} {callee : Expr Unit} {args : List Phrase}
      (hcallee : Derives .call tokens callee)
      (hargs : ∀ arg ∈ args, Derives .expression arg.tokens arg.tree)
      (hlist : Listed (args.map Phrase.tokens) within) :
      Derives .call (tokens ++ .symbol .parenOpen :: within ++ [.symbol .parenClose])
        (.call () callee (args.map Phrase.tree))
  | literal {token : Token} {tree : Expr Unit} (h : Literal token tree) : Derives .atom [token] tree
  | name (text : String) : Derives .atom [.name text] (.name () text)
  | array {within : List Token} {items : List Phrase}
      (hitems : ∀ item ∈ items, Derives .expression item.tokens item.tree)
      (hlist : Listed (items.map Phrase.tokens) within) :
      Derives .atom (.symbol .bracketOpen :: within ++ [.symbol .bracketClose])
        (.array () (items.map Phrase.tree))
  | object {within : List Token} {properties : List Property}
      (hlabels : ∀ property ∈ properties, Label property.label property.key)
      (hvalues : ∀ property ∈ properties,
        Derives .expression property.value.tokens property.value.tree)
      (hlist : Listed (properties.map Property.tokens) within) :
      Derives .atom (.symbol .braceOpen :: within ++ [.symbol .braceClose])
        (.object () (properties.map Property.entry))
  | group {within : List Token} {tree : Expr Unit} (h : Derives .expression within tree) :
      Derives .atom (.symbol .parenOpen :: within ++ [.symbol .parenClose]) tree

-- The level of a chain's operators.
def Chain.level : Chain → Nat
  | or => 1
  | and => 2
  | equality => 3
  | comparison => 4
  | sum => 5
  | product => 6

theorem mem_operators_iff {chain : Chain} {symbol : Symbol} {op : BinaryOp} :
    (symbol, op) ∈ chain.operators ↔ Parser.binaryOp? symbol = some op ∧ op.level = chain.level := by
  constructor
  · have htable : ∀ entry ∈ chain.operators,
        Parser.binaryOp? entry.1 = some entry.2 ∧ entry.2.level = chain.level := by
      cases chain <;> decide
    exact htable (symbol, op)
  · rintro ⟨hop, hlevel⟩
    cases symbol <;> cases hop <;> cases chain <;> first | exact absurd hlevel (by decide) | decide

theorem mem_signs_iff {symbol : Symbol} {op : UnaryOp} :
    (symbol, op) ∈ signs ↔ Parser.prefixOp? symbol = some op := by
  constructor
  · have htable : ∀ entry ∈ signs, Parser.prefixOp? entry.1 = some entry.2 := by decide
    exact htable (symbol, op)
  · intro hop
    cases symbol <;> cases hop <;> decide

-- The categories by how tight they bind. A phrase that binds tighter also stands where a looser one
-- may stand.
def binding : Nat → Category
  | 0 => .expression
  | 1 => .chain .or
  | 2 => .chain .and
  | 3 => .chain .equality
  | 4 => .chain .comparison
  | 5 => .chain .sum
  | 6 => .chain .product
  | _ => .unary

theorem binding_level (chain : Chain) : binding chain.level = .chain chain := by cases chain <;> rfl

theorem binding_level_succ (chain : Chain) : binding (chain.level + 1) = chain.operand := by
  cases chain <;> rfl

theorem exists_chain_level (op : BinaryOp) : ∃ chain : Chain, op.level = chain.level := by
  cases op with
  | or => exact ⟨.or, rfl⟩
  | and => exact ⟨.and, rfl⟩
  | eq | notEq | strictEq | strictNotEq => exact ⟨.equality, rfl⟩
  | less | lessOrEqual | greater | greaterOrEqual => exact ⟨.comparison, rfl⟩
  | add | sub => exact ⟨.sum, rfl⟩
  | mul | div | rem => exact ⟨.product, rfl⟩

theorem level_bounds (op : BinaryOp) : 1 ≤ op.level ∧ op.level ≤ 6 := by cases op <;> decide

variable {tokens : List Token} {tree : Expr Unit}

theorem Derives.of_succ {n : Nat} (h : Derives (binding (n + 1)) tokens tree) :
    Derives (binding n) tokens tree := by
  match n, h with
  | 0, h => exact .simple h
  | 1, h | 2, h | 3, h | 4, h | 5, h | 6, h => exact .link h
  | _ + 7, h => exact h

theorem Derives.of_le {m n : Nat} (hle : n ≤ m) (h : Derives (binding m) tokens tree) :
    Derives (binding n) tokens tree := by
  induction m with
  | zero => exact Nat.le_zero.mp hle ▸ h
  | succ m ih =>
      rcases Nat.lt_or_eq_of_le hle with hlt | rfl
      · exact ih (Nat.le_of_lt_succ hlt) h.of_succ
      · exact h

theorem Derives.of_call (h : Derives .call tokens tree) (n : Nat) : Derives (binding n) tokens tree := by
  have hunary : Derives (binding (n + 7)) tokens tree := .plain h
  exact hunary.of_le (Nat.le_add_right n 7)

theorem Derives.binary_of_level {before behind : List Token} {symbol : Symbol} {op : BinaryOp}
    {lhs rhs : Expr Unit} (hop : Parser.binaryOp? symbol = some op)
    (hlhs : Derives (binding op.level) before lhs) (hrhs : Derives (binding (op.level + 1)) behind rhs) :
    Derives (binding op.level) (before ++ .symbol symbol :: behind) (.binary () op lhs rhs) := by
  obtain ⟨chain, hlevel⟩ := exists_chain_level op
  have hmem := mem_operators_iff.mpr ⟨hop, hlevel⟩
  rw [hlevel, binding_level] at hlhs ⊢
  rw [hlevel, binding_level_succ] at hrhs
  exact .binary hlhs hmem hrhs

end JsonTemplate.Grammar
