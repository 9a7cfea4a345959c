import JsonTemplate.Proofs.Expr.Completeness
import JsonTemplate.Proofs.Expr.Soundness

namespace JsonTemplate

open Grammar

theorem parse_eq_ok_iff {source : String} {e : Located} :
    parse source = .ok e ↔ ∃ lexemes last, lex source = (lexemes, none) ∧ lexemes.length ≤ maxTokens ∧
      Parser.reads Parser.initial lexemes = some last ∧ Parser.finish? last = some e := by
  unfold parse
  obtain ⟨lexemes, failure⟩ := lex source
  cases failure with
  | some failure => simp
  | none =>
      cases hlong : lexemes[maxTokens]? with
      | some lexeme =>
          obtain ⟨hlength, -⟩ := List.getElem?_eq_some_iff.mp hlong
          simp only [hlong, reduceCtorEq, Prod.mk.injEq, and_true, false_iff]
          rintro ⟨_, last, rfl, hshort, -⟩
          omega
      | none =>
          have hshort := List.getElem?_eq_none_iff.mp hlong
          simp only [hlong, Parser.run_eq_ok_iff, Prod.mk.injEq, and_true]
          constructor
          · rintro ⟨last, hreads, hfinish⟩
            exact ⟨lexemes, last, rfl, hshort, hreads, hfinish⟩
          · rintro ⟨_, last, rfl, -, hreads, hfinish⟩
            exact ⟨last, hreads, hfinish⟩

-- What is read to the end of a source is placed as the grammar says: the reader is a function.
theorem Parser.spells_of_finish {lexemes : List Lexeme} {last : State} {e : Located}
    (hreads : reads initial lexemes = some last) (hfinish : finish? last = some e) :
    Spells .expression lexemes e := by
  obtain ⟨node, hnode, -⟩ := exists_spells (derives_of_finish hreads hfinish) rfl
  obtain ⟨last', hreads', hfinish'⟩ := exists_finish_of_spells hnode
  cases hreads.symm.trans hreads'
  cases hfinish.symm.trans hfinish'
  exact hnode

theorem parse_eq_ok_iff_spells {source : String} {e : Located} :
    parse source = .ok e ↔
      ∃ lexemes, lex source = (lexemes, none) ∧ lexemes.length ≤ maxTokens ∧ Spells .expression lexemes e := by
  rw [parse_eq_ok_iff]
  constructor
  · rintro ⟨lexemes, last, hlex, hlength, hreads, hfinish⟩
    exact ⟨lexemes, hlex, hlength, Parser.spells_of_finish hreads hfinish⟩
  · rintro ⟨lexemes, hlex, hlength, hspells⟩
    obtain ⟨last, hreads, hfinish⟩ := Parser.exists_finish_of_spells hspells
    exact ⟨lexemes, last, hlex, hlength, hreads, hfinish⟩

-- Lexemes can be put together from any tokens.
theorem exists_lexemes (tokens : List Token) :
    ∃ lexemes : List Lexeme, lexemes.map Lexeme.token = tokens := by
  refine ⟨tokens.map fun token => ⟨token, ⟨0, 0⟩⟩, ?_⟩
  rw [List.map_map]
  exact List.map_id tokens

-- The reader is a function, and it ends with the tree of any derivation there is.
theorem Grammar.Derives.unique {tokens : List Token} {tree other : Expr Unit}
    (htree : Derives .expression tokens tree) (hother : Derives .expression tokens other) :
    tree = other := by
  obtain ⟨lexemes, rfl⟩ := exists_lexemes tokens
  obtain ⟨last, e, hreads, hfinish, rfl⟩ := Parser.exists_finish_of_derives htree
  obtain ⟨_, _, hreads', hfinish', rfl⟩ := Parser.exists_finish_of_derives hother
  rw [hreads] at hreads'
  cases hreads'
  rw [hfinish] at hfinish'
  cases hfinish'
  rfl

-- The sources that are parsed are those of the grammar, with the only trees that it gives them.
theorem parse_iff_derives :
    (∀ (source : String) (tree : Expr Unit), (∃ e, parse source = .ok e ∧ e.erase = tree) ↔
      ∃ lexemes, lex source = (lexemes, none) ∧ lexemes.length ≤ 2048 ∧
        Derives .expression (lexemes.map Lexeme.token) tree) ∧
    ∀ (tokens : List Token) (tree other : Expr Unit),
      Derives .expression tokens tree → Derives .expression tokens other → tree = other := by
  refine ⟨fun source tree => ⟨?_, ?_⟩, fun _ _ _ htree hother => htree.unique hother⟩
  · rintro ⟨e, hparse, rfl⟩
    obtain ⟨lexemes, last, hlex, hlength, hreads, hfinish⟩ := parse_eq_ok_iff.mp hparse
    exact ⟨lexemes, hlex, hlength, Parser.derives_of_finish hreads hfinish⟩
  · rintro ⟨lexemes, hlex, hlength, hderives⟩
    obtain ⟨last, e, hreads, hfinish, htree⟩ := Parser.exists_finish_of_derives hderives
    exact ⟨e, parse_eq_ok_iff.mpr ⟨lexemes, last, hlex, hlength, hreads, hfinish⟩, htree⟩

-- Differences are grouped to the left, and in no other way.
theorem parse_differences :
    (∃ e, parse "a-b-c" = .ok e ∧
      e.erase = .binary () .sub (.binary () .sub (.name () "a") (.name () "b")) (.name () "c")) ∧
    ¬Derives .expression [.name "a", .symbol .minus, .name "b", .symbol .minus, .name "c"]
      (.binary () .sub (.name () "a") (.binary () .sub (.name () "b") (.name () "c"))) := by
  have hproduct (text : String) : Derives (.chain .product) [.name text] (.name () text) :=
    .link (.plain (.bare (.name text)))
  have hminus : (Symbol.minus, BinaryOp.sub) ∈ Chain.sum.operators := by decide
  have hstart : Derives (.chain .sum) [.name "a"] (.name () "a") := .link (hproduct "a")
  have hfirst := hstart.binary hminus (hproduct "b")
  have hsecond := hfirst.binary hminus (hproduct "c")
  have hcomparison : Derives (.chain .comparison) _ _ := .link hsecond
  have hequality : Derives (.chain .equality) _ _ := .link hcomparison
  have hand : Derives (.chain .and) _ _ := .link hequality
  have hderives := Derives.simple (.link hand)
  have hlex : lex "a-b-c" = ([⟨.name "a", ⟨0, 1⟩⟩, ⟨.symbol .minus, ⟨1, 2⟩⟩, ⟨.name "b", ⟨2, 3⟩⟩,
      ⟨.symbol .minus, ⟨3, 4⟩⟩, ⟨.name "c", ⟨4, 5⟩⟩], none) := by rfl
  refine ⟨(parse_iff_derives.1 "a-b-c" _).mpr ⟨_, hlex, by decide, hderives⟩, fun hright => ?_⟩
  cases parse_iff_derives.2 _ _ _ hderives hright

end JsonTemplate
