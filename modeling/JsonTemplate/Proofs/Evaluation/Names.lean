import JsonTemplate.Proofs.Evaluation.Results

namespace JsonTemplate

variable {σ α : Type}

namespace Expr

mutual

-- The names that an expression uses as its own, in their order. Names of members and keys of objects
-- are not among them.
def names : Expr α → List String
  | null _ | bool .. | number .. | string .. => []
  | array _ items => namesOfItems items
  | object _ entries => namesOfEntries entries
  | name _ n => [n]
  | member _ target _ => names target
  | index _ target key => names target ++ names key
  | call _ callee args => names callee ++ namesOfItems args
  | unary _ _ operand => names operand
  | binary _ _ lhs rhs => names lhs ++ names rhs
  | conditional _ test yes no => names test ++ names yes ++ names no

def namesOfItems : List (Expr α) → List String
  | [] => []
  | item :: items => names item ++ namesOfItems items

def namesOfEntries : List (String × Expr α) → List String
  | [] => []
  | (_, e) :: entries => names e ++ namesOfEntries entries

end

variable (host : Host σ) {scope other : Fields Value}

mutual

-- The value of an expression depends on its own names only.
theorem evalAt_congr (depth : Nat) (e : Expr α) (h : ∀ n ∈ e.names, scope.get? n = other.get? n) :
    e.evalAt host scope depth = e.evalAt host other depth := by
  cases e with
  | null | bool | number | string => rw [evalAt, evalAt]
  | array a items =>
      rw [names] at h
      rw [evalAt, evalAt, evalItems_congr (depth + 1) items h]
  | object a entries =>
      rw [names] at h
      rw [evalAt, evalAt, evalEntries_congr (depth + 1) entries h]
  | name a n => rw [evalAt, evalAt, h n (List.mem_singleton_self n)]
  | member a target key =>
      rw [names] at h
      rw [evalAt, evalAt, evalAt_congr (depth + 1) target h]
  | index a target key =>
      rw [names, List.forall_mem_append] at h
      rw [evalAt, evalAt, evalAt_congr (depth + 1) target h.1, evalAt_congr (depth + 1) key h.2]
  | call a callee args =>
      rw [names, List.forall_mem_append] at h
      rw [evalAt, evalAt, evalAt_congr (depth + 1) callee h.1, evalItems_congr (depth + 1) args h.2]
  | unary a op operand =>
      rw [names] at h
      rw [evalAt, evalAt, evalAt_congr (depth + 1) operand h]
  | binary a op lhs rhs =>
      rw [names, List.forall_mem_append] at h
      have hlhs := evalAt_congr (depth + 1) lhs h.1
      have hrhs := evalAt_congr (depth + 1) rhs h.2
      by_cases hand : op = .and
      · rw [hand, evalAt, evalAt, hlhs, hrhs]
      · by_cases hor : op = .or
        · rw [hor, evalAt, evalAt, hlhs, hrhs]
        · rw [evalAt_binary host scope depth a hand hor, evalAt_binary host other depth a hand hor, hlhs, hrhs]
  | conditional a test yes no =>
      rw [names, List.forall_mem_append, List.forall_mem_append] at h
      rw [evalAt, evalAt, evalAt_congr (depth + 1) test h.1.1, evalAt_congr (depth + 1) yes h.1.2,
        evalAt_congr (depth + 1) no h.2]

theorem evalItems_congr (depth : Nat) (items : List (Expr α))
    (h : ∀ n ∈ namesOfItems items, scope.get? n = other.get? n) :
    evalItems host scope depth items = evalItems host other depth items := by
  cases items with
  | nil => rw [evalItems, evalItems]
  | cons item items =>
      rw [namesOfItems, List.forall_mem_append] at h
      rw [evalItems, evalItems, evalAt_congr depth item h.1, evalItems_congr depth items h.2]

theorem evalEntries_congr (depth : Nat) (entries : List (String × Expr α))
    (h : ∀ n ∈ namesOfEntries entries, scope.get? n = other.get? n) :
    evalEntries host scope depth entries = evalEntries host other depth entries := by
  cases entries with
  | nil => rw [evalEntries, evalEntries]
  | cons entry entries =>
      obtain ⟨key, e⟩ := entry
      rw [namesOfEntries, List.forall_mem_append] at h
      rw [evalEntries, evalEntries, evalAt_congr depth e h.1, evalEntries_congr depth entries h.2]

end

end Expr

-- The names that the expression of a source uses. A source that is no expression uses none.
def namesOfSource (source : String) : List String :=
  match parse source with
  | .ok e => e.names
  | .error _ => []

theorem evaluate_congr (host : Host σ) {scope other : Fields Value} (source : String)
    (h : ∀ n ∈ namesOfSource source, scope.get? n = other.get? n) :
    evaluate host scope source = evaluate host other source := by
  unfold namesOfSource at h
  rw [evaluate, evaluate]
  split
  · rfl
  · rename_i e hparse
    rw [hparse] at h
    exact Expr.evalAt_congr host 0 e h

end JsonTemplate
