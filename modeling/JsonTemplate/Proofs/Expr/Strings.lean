import JsonTemplate.Proofs.Expr.Literals
import JsonTemplate.Proofs.Expr.Rules

namespace JsonTemplate.Lexer

variable {quote : Char} {text body : List Char}

-- What stands between quotes is empty or begins with an ordinary character or with an escape.
theorem bodies_eq (quote : Char) :
    bodies quote = 1 + (one (fun c => c ≠ quote ∧ c ≠ '\\') * bodies quote +
      one (· = '\\') * (one (· ≠ '\n') * bodies quote)) := by
  refine (Language.one_add_self_mul_kstar_eq_kstar _).symm.trans ?_
  rw [add_mul, mul_assoc]
  rfl

theorem mem_bodies_iff :
    text ∈ bodies quote ↔ text = [] ∨ (∃ c rest, (c ≠ quote ∧ c ≠ '\\') ∧ rest ∈ bodies quote ∧ text = c :: rest) ∨
      ∃ c rest, c ≠ '\n' ∧ rest ∈ bodies quote ∧ text = '\\' :: c :: rest := by
  refine (Iff.of_eq (congrArg (text ∈ ·) (bodies_eq quote))).trans ?_
  rw [Language.mem_add, Language.mem_add, Language.mem_one]
  simp only [mem_one_mul_iff]
  refine or_congr_right (or_congr_right ⟨?_, ?_⟩)
  · rintro ⟨_, _, rfl, ⟨c, rest, hc, hrest, rfl⟩, rfl⟩
    exact ⟨c, rest, hc, hrest, rfl⟩
  · rintro ⟨c, rest, hc, hrest, rfl⟩
    exact ⟨_, _, rfl, ⟨c, rest, hc, hrest, rfl⟩, rfl⟩

theorem stringExtent_quote (hquote : quote ≠ '\\') (after : List Char) :
    stringExtent quote (quote :: after) = (0, true) := by
  rw [stringExtent, if_pos rfl]
  exact fun _ _ heq _ => hquote heq

-- The closing quote is found behind what stands between the quotes.
theorem stringExtent_append (hquote : quote ≠ '\\') (hbody : body ∈ bodies quote) (after : List Char) :
    stringExtent quote (body ++ quote :: after) = (body.length, true) := by
  induction hlength : body.length using Nat.strong_induction_on generalizing body with
  | _ length ih =>
      rcases mem_bodies_iff.mp hbody with
        rfl | ⟨c, rest, ⟨hplain, hbackslash⟩, hrest, rfl⟩ | ⟨c, rest, hc, hrest, rfl⟩
      · rw [← hlength]
        exact stringExtent_quote hquote after
      · rw [List.length_cons] at hlength
        rw [List.cons_append, stringExtent_plain hplain hbackslash, ih _ (by omega) hrest rfl]
        simp [← hlength]
      · simp only [List.length_cons] at hlength
        rw [List.cons_append, List.cons_append, stringExtent_escaped hc, ih _ (by omega) hrest rfl]
        simp [← hlength]

theorem exists_body_of_stringExtent {n : Nat} (h : stringExtent quote text = (n, true)) :
    ∃ body after, body ∈ bodies quote ∧ text = body ++ quote :: after ∧ n = body.length := by
  induction text using stringExtent.induct quote generalizing n with
  | case1 => cases h
  | case2 rest =>
      rw [stringExtent, if_pos rfl] at h
      cases h
  | case3 c rest hc length closed hrest ih =>
      rw [stringExtent_escaped hc, hrest] at h
      cases h
      obtain ⟨body, after, hbody, rfl, rfl⟩ := ih hrest
      exact ⟨'\\' :: c :: body, after, mem_bodies_iff.mpr (.inr (.inr ⟨c, body, hc, hbody, rfl⟩)), rfl, rfl⟩
  | case4 rest hnot =>
      rw [stringExtent, if_pos rfl] at h
      · cases h
        exact ⟨[], rest, mem_bodies_iff.mpr (.inl rfl), rfl, rfl⟩
      · exact hnot
  | case5 rest hnot hquote =>
      rw [stringExtent, if_neg hquote, if_pos rfl] at h
      · cases h
      · exact hnot
  | case6 c rest _ hquote hbackslash length closed hrest ih =>
      rw [stringExtent_plain hquote hbackslash, hrest] at h
      cases h
      obtain ⟨body, after, hbody, rfl, rfl⟩ := ih hrest
      refine ⟨c :: body, after, mem_bodies_iff.mpr (.inr (.inl ⟨c, body, ?_, hbody, rfl⟩)), rfl, rfl⟩
      exact ⟨hquote, hbackslash⟩

end JsonTemplate.Lexer
