import JsonTemplate.Builtin

namespace JsonTemplate

namespace Value

theorem itemTexts_cons {item : Value} (h : item ≠ null) (items : List Value) :
    itemTexts (item :: items) = item.text :: itemTexts items := by
  cases item with
  | null => exact absurd rfl h
  | _ => rfl

theorem itemTexts_ne_nil (item : Value) (items : List Value) : itemTexts (item :: items) ≠ [] := by
  cases item <;> exact List.cons_ne_nil _ _

-- The items of an array are written as they are by themselves, as long as none of them is null. The first
-- null of an array leaves nothing where its own text has four characters.
theorem intercalate_itemTexts_iff (items : List Value) :
    ",".intercalate (itemTexts items) = ",".intercalate (items.map text) ↔ null ∉ items := by
  induction items with
  | nil => exact iff_of_true rfl List.not_mem_nil
  | cons item items ih =>
      rw [List.mem_cons, not_or, ← ih, List.map_cons]
      by_cases hitem : item = null
      · subst hitem
        refine iff_of_false (fun heq => ?_) fun h => h.1 rfl
        have htexts := congrArg String.toList heq
        cases items with
        | nil => exact absurd htexts (by decide)
        | cons next items =>
            have hnull : itemTexts (null :: next :: items) = "" :: itemTexts (next :: items) := rfl
            rw [hnull, String.intercalate_cons_of_ne_nil (itemTexts_ne_nil next items), List.map_cons,
              String.intercalate_cons_cons] at htexts
            simp [String.toList_append, text] at htexts
      · rw [itemTexts_cons hitem]
        cases items with
        | nil => exact iff_of_true rfl ⟨fun heq => hitem heq.symm, rfl⟩
        | cons next items =>
            rw [String.intercalate_cons_of_ne_nil (itemTexts_ne_nil next items), List.map_cons,
              String.intercalate_cons_cons, String.append_right_inj]
            exact (and_iff_right fun heq => hitem heq.symm).symm

-- Texts are written as they are.
theorem itemTexts_map_string (texts : List String) : itemTexts (texts.map string) = texts := by
  induction texts with
  | nil => rfl
  | cons s texts ih => exact congrArg (s :: ·) ih

-- Joining an array is writing the array of its items' own texts. It is writing the array itself only if none
-- of its items is null: a null among the items is joined as its own text and written as nothing.
theorem join_eq_string_iff (items : List Value) :
    let joined := Builtin.join.apply [array items]
    joined = Builtin.string.apply [array (items.map fun item => string item.text)] ∧
      Builtin.string.apply [array items] = .ok (string (array items).text) ∧
      (joined = Builtin.string.apply [array items] ↔ null ∉ items) := by
  intro joined
  have hjoined : joined = .ok (string (",".intercalate (items.map text))) := rfl
  refine ⟨?_, rfl, ?_⟩
  · have htexts := itemTexts_map_string (items.map text)
    rw [List.map_map] at htexts
    change joined = .ok (string (",".intercalate (itemTexts (items.map (string ∘ text)))))
    rw [htexts, hjoined]
  · rw [← intercalate_itemTexts_iff, eq_comm, hjoined]
    change Except.ok (string (",".intercalate (itemTexts items))) = _ ↔ _
    rw [Except.ok.injEq, string.injEq]

-- The items of nested arrays do not count.
example : Builtin.join.apply [array [array [null, bool true], string "x"]] = .ok (string ",true,x") := by rfl

-- A null by itself is joined as four characters, and nothing is written of it within the array.
theorem not_forall_join_eq_string :
    ¬∀ items : List Value, Builtin.join.apply [array items] = Builtin.string.apply [array items] := by
  intro h
  have heq : Except.ok (string "null") = Except.ok (string "") := h [null]
  have htext : "null" = "" := string.inj (Except.ok.inj heq)
  exact absurd htext (by decide)

end Value

end JsonTemplate
