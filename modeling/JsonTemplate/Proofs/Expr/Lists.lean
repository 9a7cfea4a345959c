import JsonTemplate.Proofs.Expr.Grammar

namespace JsonTemplate.Parser

open Grammar

-- Parts with a comma behind each.
def terminated (parts : List (List Token)) : List Token := parts.flatMap (· ++ [.symbol .comma])

theorem terminated_cons (part : List Token) (rest : List (List Token)) :
    terminated (part :: rest) = part ++ [.symbol .comma] ++ terminated rest :=
  List.flatMap_cons

theorem intercalate_concat (parts : List (List Token)) (last : List Token) :
    [.symbol .comma].intercalate (parts ++ [last]) = terminated parts ++ last := by
  induction parts with
  | nil => rw [List.nil_append, List.intercalate_singleton, terminated, List.flatMap_nil, List.nil_append]
  | cons part rest ih =>
      have hne : rest ++ [last] ≠ [] := by simp
      rw [List.cons_append, List.intercalate_cons_of_ne_nil hne, ih,
        terminated_cons, List.append_assoc, List.append_assoc, List.append_assoc]

-- A list may end behind a comma and behind another part.
theorem listed_terminated (parts : List (List Token)) : Listed parts (terminated parts) := by
  rcases List.eq_nil_or_concat parts with rfl | ⟨front, last, rfl⟩
  · exact .plain
  · have hlist := Listed.trailing (List.append_ne_nil_of_right_ne_nil front (List.cons_ne_nil last []))
    rw [intercalate_concat] at hlist
    rw [List.concat_eq_append, terminated, List.flatMap_append, List.flatMap_singleton, ← terminated,
      ← List.append_assoc]
    exact hlist

theorem listed_concat (parts : List (List Token)) (last : List Token) :
    Listed (parts ++ [last]) (terminated parts ++ last) :=
  intercalate_concat parts last ▸ .plain

variable {α β γ : Type}

-- The items of a list that is still open: all their parts have a comma behind them.
def OpenReads (good : α → Prop) (tokens : α → List Token) (tree : α → γ) (value : β → γ) (items : List β)
    (within : List Token) : Prop :=
  ∃ parts : List α, (∀ part ∈ parts, good part) ∧ parts.map tree = items.map value ∧
    terminated (parts.map tokens) = within

-- The items of a list that may end here.
def ListReads (good : α → Prop) (tokens : α → List Token) (tree : α → γ) (value : β → γ) (items : List β)
    (within : List Token) : Prop :=
  ∃ parts : List α, (∀ part ∈ parts, good part) ∧ parts.map tree = items.map value ∧
    Listed (parts.map tokens) within

variable {good : α → Prop} {tokens : α → List Token} {tree : α → γ} {value : β → γ} {items : List β}
  {within : List Token}

theorem openReads_nil : OpenReads good tokens tree value [] [] := ⟨[], nofun, rfl, rfl⟩

theorem OpenReads.listReads (h : OpenReads good tokens tree value items within) :
    ListReads good tokens tree value items within := by
  obtain ⟨parts, hparts, htrees, rfl⟩ := h
  exact ⟨parts, hparts, htrees, listed_terminated _⟩

theorem OpenReads.concat (h : OpenReads good tokens tree value items within) (part : α) (item : β)
    (hpart : good part) (htree : tree part = value item) :
    OpenReads good tokens tree value (items ++ [item]) (within ++ tokens part ++ [.symbol .comma]) := by
  obtain ⟨parts, hparts, htrees, rfl⟩ := h
  refine ⟨parts ++ [part], ?_, ?_, ?_⟩
  · exact List.forall_mem_append.mpr ⟨hparts, List.forall_mem_singleton.mpr hpart⟩
  · rw [List.map_append, List.map_append, htrees, List.map_singleton, List.map_singleton, htree]
  · simp [terminated]

theorem OpenReads.listReads_concat (h : OpenReads good tokens tree value items within) (part : α) (item : β)
    (hpart : good part) (htree : tree part = value item) :
    ListReads good tokens tree value (items ++ [item]) (within ++ tokens part) := by
  obtain ⟨parts, hparts, htrees, rfl⟩ := h
  refine ⟨parts ++ [part], ?_, ?_, ?_⟩
  · exact List.forall_mem_append.mpr ⟨hparts, List.forall_mem_singleton.mpr hpart⟩
  · rw [List.map_append, List.map_append, htrees, List.map_singleton, List.map_singleton, htree]
  · rw [List.map_append]
    exact listed_concat _ _

end JsonTemplate.Parser
