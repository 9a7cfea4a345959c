import JsonTemplate.Proofs.Evaluation.Results

namespace JsonTemplate.Expr

variable {σ α β : Type} (f : α → β)

theorem describe_map : ∀ e : Expr α, (e.map f).describe = e.describe
  | null _ | bool .. | number .. | string .. | array .. | object .. => by rw [map, describe, describe]
  | name .. | unary .. | binary .. | conditional .. => by rw [map, describe, describe]
  | member _ target key => by rw [map, describe, describe, describe_map target]
  | index _ target _ => by rw [map, describe, describe, describe_map target]
  | call _ callee _ => by rw [map, describe, describe, describe_map callee]

variable (host : Host σ) (scope : Fields Value)

mutual

-- The value of an expression does not depend on its notes.
theorem evalAt_map (depth : Nat) (e : Expr α) : (e.map f).evalAt host scope depth = e.evalAt host scope depth := by
  cases e with
  | null | bool | number | string | name => rw [map, evalAt, evalAt]
  | array a items => rw [map, evalAt, evalAt, evalItems_map (depth + 1) items]
  | object a entries => rw [map, evalAt, evalAt, evalEntries_map (depth + 1) entries]
  | member a target key => rw [map, evalAt, evalAt, evalAt_map (depth + 1) target]
  | index a target key => rw [map, evalAt, evalAt, evalAt_map (depth + 1) target, evalAt_map (depth + 1) key]
  | call a callee args =>
      rw [map, evalAt, evalAt, evalAt_map (depth + 1) callee, evalItems_map (depth + 1) args, describe_map]
  | unary a op operand => rw [map, evalAt, evalAt, evalAt_map (depth + 1) operand]
  | binary a op lhs rhs =>
      have hlhs := evalAt_map (depth + 1) lhs
      have hrhs := evalAt_map (depth + 1) rhs
      rw [map]
      by_cases hand : op = .and
      · rw [hand, evalAt, evalAt, hlhs, hrhs]
      · by_cases hor : op = .or
        · rw [hor, evalAt, evalAt, hlhs, hrhs]
        · rw [evalAt_binary host scope depth _ hand hor, evalAt_binary host scope depth _ hand hor, hlhs, hrhs]
  | conditional a test yes no =>
      rw [map, evalAt, evalAt, evalAt_map (depth + 1) test, evalAt_map (depth + 1) yes, evalAt_map (depth + 1) no]

theorem evalItems_map (depth : Nat) (items : List (Expr α)) :
    evalItems host scope depth (mapItems f items) = evalItems host scope depth items := by
  cases items with
  | nil => rw [mapItems, evalItems, evalItems]
  | cons item items => rw [mapItems, evalItems, evalItems, evalAt_map depth item, evalItems_map depth items]

theorem evalEntries_map (depth : Nat) (entries : List (String × Expr α)) :
    evalEntries host scope depth (mapEntries f entries) = evalEntries host scope depth entries := by
  cases entries with
  | nil => rw [mapEntries, evalEntries, evalEntries]
  | cons entry entries =>
      obtain ⟨key, e⟩ := entry
      rw [mapEntries, evalEntries, evalEntries, evalAt_map depth e, evalEntries_map depth entries]

end

end JsonTemplate.Expr
