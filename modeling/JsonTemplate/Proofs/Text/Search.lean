import JsonTemplate.Text.Search

namespace JsonTemplate.Text

variable {pattern replacement text before after : List Char}

-- The parts of a text before and after the first place of a pattern. Places may overlap.
structure FirstAt (pattern text before after : List Char) : Prop where
  split : text = before ++ pattern ++ after
  first : ∀ other rest, text = other ++ pattern ++ rest → before.length ≤ other.length

structure LastAt (pattern text before after : List Char) : Prop where
  split : text = before ++ pattern ++ after
  last : ∀ other rest, text = other ++ pattern ++ rest → other.length ≤ before.length

-- Parts of one text around two places of a pattern that are as far from its start.
theorem parts_eq_of_length_eq {other rest : List Char} (h : before ++ pattern ++ after = other ++ pattern ++ rest)
    (hlength : before.length = other.length) : before = other ∧ after = rest := by
  rw [List.append_assoc, List.append_assoc] at h
  obtain ⟨hbefore, hrest⟩ := List.append_inj h hlength
  exact ⟨hbefore, List.append_cancel_left hrest⟩

theorem FirstAt.unique {other rest : List Char} (h : FirstAt pattern text before after)
    (h' : FirstAt pattern text other rest) : before = other ∧ after = rest := by
  have hle := h.first other rest h'.split
  have hge := h'.first before after h.split
  exact parts_eq_of_length_eq (h.split.symm.trans h'.split) (by omega)

theorem LastAt.unique {other rest : List Char} (h : LastAt pattern text before after)
    (h' : LastAt pattern text other rest) : before = other ∧ after = rest := by
  have hge := h.last other rest h'.split
  have hle := h'.last before after h.split
  exact parts_eq_of_length_eq (h.split.symm.trans h'.split) (by omega)

theorem place_nil {rest : List Char} (h : [] = before ++ pattern ++ rest) : before = [] ∧ pattern = [] := by
  obtain ⟨hparts, -⟩ := List.append_eq_nil_iff.mp h.symm
  exact List.append_eq_nil_iff.mp hparts

-- A place of the pattern is at the text's start or after its first character.
theorem place_cons {c : Char} {rest : List Char} (h : c :: text = before ++ pattern ++ rest) :
    dropPrefix? pattern (c :: text) = some rest ∧ before = [] ∨
      ∃ other, before = c :: other ∧ text = other ++ pattern ++ rest := by
  cases before with
  | nil => exact .inl ⟨dropPrefix?_eq_some_iff.mpr h, rfl⟩
  | cons d other =>
      rw [List.cons_append, List.cons_append, List.cons.injEq] at h
      obtain ⟨rfl, htext⟩ := h
      exact .inr ⟨other, rfl, htext⟩

theorem firstAt_of_splitFirst? (h : splitFirst? pattern text = some (before, after)) :
    FirstAt pattern text before after := by
  induction text generalizing before with
  | nil =>
      simp only [splitFirst?, Option.map_eq_some_iff, Prod.mk.injEq, dropPrefix?_eq_some_iff] at h
      obtain ⟨rest, hrest, rfl, rfl⟩ := h
      exact ⟨hrest, fun _ _ _ => Nat.zero_le _⟩
  | cons c text ih =>
      rw [splitFirst?] at h
      cases hdrop : dropPrefix? pattern (c :: text) with
      | some rest =>
          rw [hdrop] at h
          cases h
          exact ⟨dropPrefix?_eq_some_iff.mp hdrop, fun _ _ _ => Nat.zero_le _⟩
      | none =>
          simp only [hdrop, Option.map_eq_some_iff, Prod.mk.injEq] at h
          obtain ⟨⟨inner, rest⟩, hinner, rfl, rfl⟩ := h
          have htext := ih hinner
          refine ⟨congrArg (c :: ·) htext.split, fun other rest heq => ?_⟩
          obtain ⟨hstart, -⟩ | ⟨other', rfl, heq'⟩ := place_cons heq
          · rw [hdrop] at hstart
            cases hstart
          · have hle := htext.first other' rest heq'
            simp only [List.length_cons]
            omega

theorem exists_splitFirst?_of_place (h : text = before ++ pattern ++ after) :
    ∃ other rest, splitFirst? pattern text = some (other, rest) := by
  induction text generalizing before with
  | nil =>
      obtain ⟨-, rfl⟩ := place_nil h
      exact ⟨[], [], rfl⟩
  | cons c text ih =>
      cases hdrop : dropPrefix? pattern (c :: text) with
      | some rest => exact ⟨[], rest, by simp only [splitFirst?, hdrop]⟩
      | none =>
          obtain ⟨hstart, -⟩ | ⟨inner, -, hinner⟩ := place_cons h
          · rw [hdrop] at hstart
            cases hstart
          · obtain ⟨other, rest, hsplit⟩ := ih hinner
            exact ⟨c :: other, rest, by simp only [splitFirst?, hdrop, hsplit, Option.map_some]⟩

theorem splitFirst?_eq_some_iff :
    splitFirst? pattern text = some (before, after) ↔ FirstAt pattern text before after := by
  constructor
  · exact firstAt_of_splitFirst?
  · intro h
    obtain ⟨other, rest, hsplit⟩ := exists_splitFirst?_of_place h.split
    obtain ⟨rfl, rfl⟩ := h.unique (firstAt_of_splitFirst? hsplit)
    exact hsplit

theorem exists_splitLast?_of_place (h : text = before ++ pattern ++ after) :
    ∃ other rest, splitLast? pattern text = some (other, rest) := by
  induction text generalizing before with
  | nil =>
      obtain ⟨-, rfl⟩ := place_nil h
      exact ⟨[], [], rfl⟩
  | cons c text ih =>
      cases hsplit : splitLast? pattern text with
      | some parts => exact ⟨c :: parts.1, parts.2, by simp only [splitLast?, hsplit]⟩
      | none =>
          obtain ⟨hstart, -⟩ | ⟨inner, -, hinner⟩ := place_cons h
          · exact ⟨[], after, by simp only [splitLast?, hsplit, hstart, Option.map_some]⟩
          · obtain ⟨other, rest, hsome⟩ := ih hinner
            rw [hsplit] at hsome
            cases hsome

theorem lastAt_of_splitLast? (h : splitLast? pattern text = some (before, after)) :
    LastAt pattern text before after := by
  induction text generalizing before with
  | nil =>
      simp only [splitLast?, Option.map_eq_some_iff, Prod.mk.injEq, dropPrefix?_eq_some_iff] at h
      obtain ⟨rest, hrest, rfl, rfl⟩ := h
      refine ⟨hrest, fun other rest heq => ?_⟩
      obtain ⟨rfl, -⟩ := place_nil heq
      exact Nat.le_refl _
  | cons c text ih =>
      rw [splitLast?] at h
      cases hsplit : splitLast? pattern text with
      | some parts =>
          simp only [hsplit, Option.some.injEq, Prod.mk.injEq] at h
          obtain ⟨rfl, rfl⟩ := h
          have htext := ih hsplit
          refine ⟨congrArg (c :: ·) htext.split, fun other rest heq => ?_⟩
          obtain ⟨-, rfl⟩ | ⟨other', rfl, heq'⟩ := place_cons heq
          · exact Nat.zero_le _
          · have hle := htext.last other' rest heq'
            simp only [List.length_cons]
            omega
      | none =>
          simp only [hsplit, Option.map_eq_some_iff, Prod.mk.injEq] at h
          obtain ⟨rest, hstart, rfl, rfl⟩ := h
          refine ⟨dropPrefix?_eq_some_iff.mp hstart, fun other rest heq => ?_⟩
          obtain ⟨-, rfl⟩ | ⟨other', -, heq'⟩ := place_cons heq
          · exact Nat.le_refl _
          · obtain ⟨_, _, hsome⟩ := exists_splitLast?_of_place heq'
            rw [hsplit] at hsome
            cases hsome

theorem splitLast?_eq_some_iff :
    splitLast? pattern text = some (before, after) ↔ LastAt pattern text before after := by
  constructor
  · exact lastAt_of_splitLast?
  · intro h
    obtain ⟨other, rest, hsplit⟩ := exists_splitLast?_of_place h.split
    obtain ⟨rfl, rfl⟩ := h.unique (lastAt_of_splitLast? hsplit)
    exact hsplit

theorem exists_lastAt_of_place (h : text = before ++ pattern ++ after) :
    ∃ other rest, LastAt pattern text other rest := by
  obtain ⟨other, rest, hsplit⟩ := exists_splitLast?_of_place h
  exact ⟨other, rest, lastAt_of_splitLast? hsplit⟩

-- What is before the last place goes on with what is before any other place.
theorem LastAt.starts_with {other rest : List Char} (h : LastAt pattern text before after)
    (hplace : text = other ++ pattern ++ rest) : other <+: before := by
  have hle := h.last other rest hplace
  have hother : other <+: text := ⟨pattern ++ rest, by rw [hplace, List.append_assoc]⟩
  have hbefore : before <+: text := ⟨pattern ++ after, by rw [h.split, List.append_assoc]⟩
  exact List.prefix_of_prefix_length_le hother hbefore hle

theorem dropPrefix?_eq_none_iff : dropPrefix? pattern text = none ↔ ∀ rest, text ≠ pattern ++ rest := by
  simp only [Option.eq_none_iff_forall_ne_some, ne_eq, dropPrefix?_eq_some_iff]

-- A text without the pattern is left alone.
theorem replaceAll_eq_self (h : ∀ other rest, text ≠ other ++ pattern ++ rest) :
    replaceAll pattern replacement text = text := by
  induction text with
  | nil => exact replaceAll_nil
  | cons c text ih =>
      have hdrop : dropPrefix? pattern (c :: text) = none := dropPrefix?_eq_none_iff.mpr (h [])
      rw [replaceAll_cons hdrop, ih fun other rest heq => h (c :: other) rest (congrArg (c :: ·) heq)]

-- What comes before the first place stays, and the search goes on behind it.
theorem replaceAll_of_firstAt (hpattern : pattern ≠ []) (h : FirstAt pattern text before after) :
    replaceAll pattern replacement text = before ++ replacement ++ replaceAll pattern replacement after := by
  induction before generalizing text with
  | nil =>
      rw [h.split, List.nil_append, replaceAll_append hpattern]
      rfl
  | cons c before ih =>
      obtain ⟨rfl, hfirst⟩ := h
      have hdrop : dropPrefix? pattern (c :: (before ++ pattern ++ after)) = none := by
        rw [dropPrefix?_eq_none_iff]
        intro rest hrest
        have hle := hfirst [] rest hrest
        simp only [List.length_cons, List.length_nil] at hle
        omega
      have hinner : FirstAt pattern (before ++ pattern ++ after) before after := by
        refine ⟨rfl, fun other rest heq => ?_⟩
        have hle := hfirst (c :: other) rest (congrArg (c :: ·) heq)
        simp only [List.length_cons] at hle
        omega
      rw [List.cons_append, List.cons_append, replaceAll_cons hdrop, ih hinner]
      rfl

end JsonTemplate.Text
