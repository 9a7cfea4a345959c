import JsonTemplate.Proofs.Evaluation.Notes
import JsonTemplate.Proofs.Expr.Language
import JsonTemplate.Proofs.Expr.Splitting
import JsonTemplate.Proofs.Template.Steps

namespace JsonTemplate

namespace Lexer

open Text (byteLength)

-- A text that begins at the offset, with more text put in before each of its characters and at its end:
-- at every offset what the gap there holds.
def spread (gap : Nat → List Char) (offset : Nat) : List Char → List Char
  | [] => gap offset
  | c :: text => gap offset ++ c :: spread gap (offset + c.utf8Size) text

-- How many characters are put in before an offset.
def putIn (gap : Nat → List Char) : Nat → Nat
  | 0 => 0
  | offset + 1 => putIn gap offset + (gap offset).length

-- Only blanks are put in, and none of them within a token.
structure Separates (gap : Nat → List Char) (lexemes : List Lexeme) : Prop where
  blank : ∀ offset, ∀ c ∈ gap offset, isBlank c = true
  outside : ∀ lexeme ∈ lexemes, ∀ offset, lexeme.span.start < offset → offset < lexeme.span.stop →
    gap offset = []

-- The same token behind all that is put in up to its start.
def moved (gap : Nat → List Char) (lexeme : Lexeme) : Lexeme :=
  let shift := putIn gap (lexeme.span.start + 1)
  ⟨lexeme.token, lexeme.span.start + shift, lexeme.span.stop + shift⟩

section

variable {text : List Char}

theorem isBlank_of_mem_name (h : text ∈ Rule.name.language) : ∀ c ∈ text, isBlank c = false := by
  obtain ⟨c, rest, hc, hrest, rfl⟩ := mem_name_iff.mp h
  have hstart : continuesName c = true := by rw [continuesName, hc, Bool.true_or]
  exact List.forall_mem_cons.mpr ⟨isBlank_of_continuesName hstart,
    fun d hd => isBlank_of_continuesName (hrest d hd)⟩

theorem isBlank_of_mem_fractions (h : text ∈ fractions) : ∀ c ∈ text, isBlank c = false := by
  obtain ⟨ds, hds, rfl⟩ := mem_fractions_iff.mp h
  obtain ⟨-, hdigits⟩ := mem_digitTexts_iff.mp hds
  exact List.forall_mem_cons.mpr ⟨rfl, fun c hc => isBlank_of_isDigit (hdigits c hc)⟩

theorem isBlank_of_mem_exponents (h : text ∈ exponents) : ∀ c ∈ text, isBlank c = false := by
  obtain ⟨mark, sign, ds, hmark, hsign, hds, rfl⟩ := mem_exponents_iff.mp h
  obtain ⟨-, hdigits⟩ := mem_digitTexts_iff.mp hds
  refine List.forall_mem_cons.mpr ⟨?_, List.forall_mem_append.mpr ⟨?_, ?_⟩⟩
  · rcases hmark with rfl | rfl <;> rfl
  · rcases hsign with rfl | rfl | rfl <;> simp [isBlank]
  · exact fun c hc => isBlank_of_isDigit (hdigits c hc)

-- Blanks stand in no tokens but strings.
theorem isBlank_of_mem {rule : Rule} (hrule : ∀ quote, rule ≠ .string quote) (h : text ∈ rule.language) :
    ∀ c ∈ text, isBlank c = false := by
  cases rule with
  | keyword k => exact isBlank_of_mem_name (mem_name_of_mem_keyword h)
  | symbol s =>
      obtain rfl : text = s.text.toList := h
      have hall : s.text.toList.all (fun c => !isBlank c) = true := by cases s <;> rfl
      simpa using hall
  | name => exact isBlank_of_mem_name h
  | string quote => exact absurd rfl (hrule quote)
  | numeral =>
      obtain ⟨whole, hwhole, fraction, hfraction, exponent, hexponent, rfl⟩ := mem_numeral_iff.mp h
      obtain ⟨-, hdigits⟩ := mem_digitTexts_iff.mp hwhole
      refine List.forall_mem_append.mpr ⟨fun c hc => isBlank_of_isDigit (hdigits c hc), ?_⟩
      refine List.forall_mem_append.mpr ⟨?_, ?_⟩
      · rcases mem_optional_iff.mp hfraction with rfl | hmem
        · exact List.forall_mem_nil _
        · exact isBlank_of_mem_fractions hmem
      · rcases mem_optional_iff.mp hexponent with rfl | hmem
        · exact List.forall_mem_nil _
        · exact isBlank_of_mem_exponents hmem
  | pointed => exact isBlank_of_mem_fractions h

end

section

variable {gap : Nat → List Char} {offset : Nat} {text slice after : List Char}

theorem eq_nil_of_prefix_append {p : Char} {part blanks rest : List Char} (hp : isBlank p = false)
    (hblanks : ∀ c ∈ blanks, isBlank c = true) (h : p :: part <+: blanks ++ rest) : blanks = [] := by
  cases blanks with
  | nil => rfl
  | cons c blanks =>
      obtain ⟨rfl, -⟩ := List.cons_prefix_cons.mp h
      have hblank := hblanks p List.mem_cons_self
      rw [hp] at hblank
      cases hblank

-- A text without blanks at the beginning of a spread text stood there before: a gap on its way would have
-- put a blank into it.
theorem prefix_of_prefix_spread (hgap : ∀ offset, ∀ c ∈ gap offset, isBlank c = true) {part : List Char}
    (hpart : ∀ c ∈ part, isBlank c = false) (h : part <+: spread gap offset text) : part <+: text := by
  induction text generalizing part offset with
  | nil =>
      cases part with
      | nil => exact List.nil_prefix
      | cons p part =>
          rw [spread, ← List.append_nil (gap offset)] at h
          rwa [eq_nil_of_prefix_append (hpart p List.mem_cons_self) (hgap offset) h] at h
  | cons c text ih =>
      cases part with
      | nil => exact List.nil_prefix
      | cons p part =>
          rw [spread] at h
          rw [eq_nil_of_prefix_append (hpart p List.mem_cons_self) (hgap offset) h] at h
          obtain ⟨rfl, hrest⟩ := List.cons_prefix_cons.mp h
          exact List.cons_prefix_cons.mpr ⟨rfl, ih (List.forall_mem_cons.mp hpart).2 hrest⟩

-- Nothing is put in behind the first character of a token.
theorem spread_append (hne : slice ≠ [])
    (hinside : ∀ place, offset < place → place < offset + byteLength slice → gap place = []) (after : List Char) :
    spread gap offset (slice ++ after) =
      gap offset ++ (slice ++ spread gap (offset + byteLength slice) after) := by
  induction slice generalizing offset with
  | nil => exact absurd rfl hne
  | cons c slice ih =>
      rw [byteLength, ← Nat.add_assoc] at hinside ⊢
      have hsize := c.utf8Size_pos
      rw [List.cons_append, spread]
      by_cases hslice : slice = []
      · subst hslice
        rfl
      · have hpos := byteLength_pos hslice
        rw [ih hslice fun place hstart hstop => hinside place (by omega) hstop,
          hinside (offset + c.utf8Size) (by omega) (by omega)]
        rfl

theorem putIn_eq {start stop : Nat} (hlt : start < stop)
    (hinside : ∀ place, start < place → place < stop → gap place = []) :
    putIn gap stop = putIn gap (start + 1) := by
  induction stop with
  | zero => cases hlt
  | succ stop ih =>
      by_cases hstart : start = stop
      · rw [hstart]
      · have hlast : gap stop = [] := hinside stop (by omega) (Nat.lt_succ_self stop)
        rw [putIn, hlast, List.length_nil, Nat.add_zero]
        exact ih (by omega) fun place hplace hstop => hinside place hplace (Nat.lt_succ_of_lt hstop)

-- A string ends at the first quote that belongs to no escape, whatever follows.
theorem length_eq_of_string {quote : Quote} {part other rest : List Char}
    (hpart : part ∈ (Rule.string quote).language) (hother : other ∈ (Rule.string quote).language)
    (h : part <+: other ++ rest) : part.length = other.length := by
  obtain ⟨body, hbody, rfl⟩ := mem_string_iff.mp hpart
  obtain ⟨body', hbody', rfl⟩ := mem_string_iff.mp hother
  obtain ⟨behind, hbehind⟩ := h
  have hquote := (not_starts_of_quote quote).2.2.2
  simp only [List.cons_append, List.append_assoc, List.nil_append, List.cons.injEq, true_and] at hbehind
  have hextent := stringExtent_append hquote hbody behind
  rw [hbehind, stringExtent_append hquote hbody' rest] at hextent
  have hlength : body'.length = body.length := (Prod.mk.inj hextent).1
  simp [hlength]

theorem prefix_of_prefix_append_spread (hgap : ∀ offset, ∀ c ∈ gap offset, isBlank c = true) {part : List Char}
    (hpart : ∀ c ∈ part, isBlank c = false) (h : part <+: slice ++ spread gap offset after) :
    part <+: slice ++ after := by
  induction slice generalizing part with
  | nil => exact prefix_of_prefix_spread hgap hpart h
  | cons c slice ih =>
      cases part with
      | nil => exact List.nil_prefix
      | cons p part =>
          obtain ⟨rfl, hrest⟩ := List.cons_prefix_cons.mp h
          exact List.cons_prefix_cons.mpr ⟨rfl, ih (List.forall_mem_cons.mp hpart).2 hrest⟩

-- No token gets longer when what follows it is spread.
theorem LongestMatch.spread (hgap : ∀ offset, ∀ c ∈ gap offset, isBlank c = true) {rule : Rule}
    (h : LongestMatch (slice ++ after) rule slice) (offset : Nat) :
    LongestMatch (slice ++ Lexer.spread gap offset after) rule slice where
  begins := List.prefix_append _ _
  mem := h.mem
  keyword := h.keyword
  longest other part hbegins hpart := by
    by_cases hstring : ∃ quote, other = .string quote
    · -- What begins like a string is one.
      obtain ⟨quote, rfl⟩ := hstring
      have hrule : rule = .string quote := by
        obtain ⟨c, rest, rfl, hopens⟩ := exists_cons_of_mem h.mem
        obtain rfl : c = quote.char := (opens_of_mem hbegins hpart).1
        exact eq_of_opens_quote hopens
      exact (length_eq_of_string hpart (hrule ▸ h.mem) hbegins).le
    · have hblank := isBlank_of_mem (not_exists.mp hstring) hpart
      exact h.longest other part (prefix_of_prefix_append_spread hgap hblank hbegins) hpart

end

theorem lexemes_append_blanks {blanks : List Char} (h : ∀ c ∈ blanks, isBlank c = true) (offset : Nat)
    (text : List Char) : lexemes offset 0 (blanks ++ text) = lexemes (offset + blanks.length) 0 text := by
  induction blanks generalizing offset with
  | nil => rfl
  | cons c blanks ih =>
      obtain ⟨hblank, hblanks⟩ := List.forall_mem_cons.mp h
      rw [List.cons_append, lexemes_cons_of_blank hblank, utf8Size_of_isBlank hblank, ih hblanks, List.length_cons]
      congr 1
      omega

-- Blanks are passed over, and every token is found again behind the blanks that were put in before it.
theorem lexemes_spread {gap : Nat → List Char} (hgap : ∀ offset, ∀ c ∈ gap offset, isBlank c = true)
    {offset : Nat} {text : List Char} {found : List Lexeme} (h : lexemes offset 0 text = (found, none))
    (houtside : ∀ lexeme ∈ found, ∀ place, lexeme.span.start < place → place < lexeme.span.stop → gap place = []) :
    lexemes (offset + putIn gap offset) 0 (spread gap offset text) = (found.map (moved gap), none) := by
  have hsplits := splits_of_lexemes h
  clear h
  induction hsplits with
  | nil offset =>
      rw [spread, ← List.append_nil (gap offset), lexemes_append_blanks (hgap offset)]
      rfl
  | @blank offset c text found hblank _ ih =>
      have hrest := ih houtside
      rw [utf8Size_of_isBlank hblank] at hrest
      rw [spread, lexemes_append_blanks (hgap offset), lexemes_cons_of_blank hblank,
        utf8Size_of_isBlank hblank, ← hrest, putIn]
      congr 1
      omega
  | @token offset slice after rule token found hmatch htoken _ ih =>
      have hne := ne_nil_of_mem hmatch.mem
      obtain ⟨hinside, hothers⟩ := List.forall_mem_cons.mp houtside
      have hpos := byteLength_pos hne
      have hput : putIn gap (offset + byteLength slice) = putIn gap (offset + 1) := putIn_eq (by omega) hinside
      rw [spread_append hne hinside, lexemes_append_blanks (hgap offset),
        lexemes_of_longestMatch (hmatch.spread hgap _) htoken]
      have hstart : offset + putIn gap offset + (gap offset).length =
          offset + putIn gap (offset + 1) := Nat.add_assoc ..
      have hstop : offset + putIn gap (offset + 1) + byteLength slice =
          offset + byteLength slice + putIn gap (offset + byteLength slice) := by
        rw [hput, Nat.add_right_comm]
      rw [hstart, hstop, ih hothers, hput]
      rfl

end Lexer

theorem parse_of_tokens {source other : String} {lexemes others : List Lexeme} (hlex : lex source = (lexemes, none))
    (hother : lex other = (others, none)) (htokens : others.map Lexeme.token = lexemes.map Lexeme.token)
    {e : Located} (h : parse source = .ok e) : ∃ e', parse other = .ok e' ∧ e'.erase = e.erase := by
  obtain ⟨found, last, hfound, hlength, hreads, hfinish⟩ := parse_eq_ok_iff.mp h
  cases hlex.symm.trans hfound
  have hderives := Parser.derives_of_finish hreads hfinish
  rw [← htokens] at hderives
  obtain ⟨last', e', hreads', hfinish', htree⟩ := Parser.exists_finish_of_derives hderives
  have hcount := congrArg List.length htokens
  rw [List.length_map, List.length_map] at hcount
  exact ⟨e', parse_eq_ok_iff.mpr ⟨others, last', hother, by omega, hreads', hfinish'⟩, htree⟩

variable {σ : Type}

-- Sources that are parsed to the same tree have the same value.
theorem evaluate_of_erase_eq (host : Host σ) (scope : Fields Value) {source other : String} {e e' : Located}
    (h : parse source = .ok e) (h' : parse other = .ok e') (herase : e'.erase = e.erase) :
    evaluate host scope other = evaluate host scope source := by
  have hvalue (e : Located) : e.eval host scope = e.erase.eval host scope :=
    (Expr.evalAt_map _ host scope 0 e).symm
  simp only [evaluate, h, h', hvalue, herase]

-- The source with blanks between its tokens, before the first one and behind the last one.
def spaced (gap : Nat → List Char) (source : String) : String := String.ofList (Lexer.spread gap 0 source.toList)

-- Blanks between tokens never matter. The tokens stay as they are and only move, the source is parsed or
-- not as before, to the same tree, and it has the same value.
theorem blanks_between_tokens (host : Host σ) (scope : Fields Value) (source : String) (lexemes : List Lexeme)
    (gap : Nat → List Char) (hlex : lex source = (lexemes, none)) (hgap : Lexer.Separates gap lexemes) :
    lex (spaced gap source) = (lexemes.map (Lexer.moved gap), none) ∧
      (∀ e, parse source = .ok e → ∃ e', parse (spaced gap source) = .ok e' ∧ e'.erase = e.erase ∧
        evaluate host scope (spaced gap source) = evaluate host scope source) ∧
      ∀ error, parse source = .error error → ∃ error', parse (spaced gap source) = .error error' := by
  have hspaced : lex (spaced gap source) = (lexemes.map (Lexer.moved gap), none) := by
    have hspread := Lexer.lexemes_spread hgap.blank hlex hgap.outside
    rwa [lex, spaced, String.toList_ofList]
  have htokens : (lexemes.map (Lexer.moved gap)).map Lexeme.token = lexemes.map Lexeme.token := by
    rw [List.map_map]
    rfl
  refine ⟨hspaced, fun e hparse => ?_, fun error hparse => ?_⟩
  · obtain ⟨e', hparse', herase⟩ := parse_of_tokens hlex hspaced htokens hparse
    exact ⟨e', hparse', herase, evaluate_of_erase_eq host scope hparse hparse' herase⟩
  · cases hparse' : parse (spaced gap source) with
    | error error' => exact ⟨error', rfl⟩
    | ok e' =>
        obtain ⟨e, hok, -⟩ := parse_of_tokens hspaced hlex htokens.symm hparse'
        rw [hparse] at hok
        cases hok

-- A numeral before a point, and a string with a blank.
def crowded : List Lexeme :=
  [⟨.number 2, ⟨0, 1⟩⟩, ⟨.symbol .dot, ⟨1, 2⟩⟩, ⟨.name "e", ⟨2, 3⟩⟩, ⟨.symbol .less, ⟨3, 4⟩⟩,
    ⟨.string " .5", ⟨4, 9⟩⟩]

def gapsAroundPoint : Nat → List Char
  | 1 => [' ']
  | 2 => ['\n', '\t']
  | 9 => [' ']
  | _ => []

theorem separates_crowded : Lexer.Separates gapsAroundPoint crowded where
  blank offset := by
    unfold gapsAroundPoint
    split <;> simp [Lexer.isBlank]
  outside := by
    simp only [crowded, List.forall_mem_cons, List.not_mem_nil, false_imp_iff, implies_true, and_true]
    refine ⟨?_, ?_, ?_, ?_, ?_⟩ <;> intro place hstart hstop
    any_goals omega
    have hplace : place = 5 ∨ place = 6 ∨ place = 7 ∨ place = 8 := by omega
    rcases hplace with rfl | rfl | rfl | rfl <;> rfl

-- The point does not become part of the numeral, and the blank in the string stays.
theorem blanks_around_point :
    lex "2.e<' .5'" = (crowded, none) ∧ Lexer.Separates gapsAroundPoint crowded ∧
      spaced gapsAroundPoint "2.e<' .5'" = "2 .\n\te<' .5' " ∧
      lex "2 .\n\te<' .5' " = ([⟨.number 2, ⟨0, 1⟩⟩, ⟨.symbol .dot, ⟨2, 3⟩⟩, ⟨.name "e", ⟨5, 6⟩⟩,
        ⟨.symbol .less, ⟨6, 7⟩⟩, ⟨.string " .5", ⟨7, 12⟩⟩], none) ∧
      ∃ e, parse "2 .\n\te<' .5' " = .ok e ∧
        e.erase = .binary () .less (.member () (.number () 2) "e") (.string () " .5") := by
  have hlex : lex "2.e<' .5'" = (crowded, none) := by rfl
  have hspaced : spaced gapsAroundPoint "2.e<' .5'" = "2 .\n\te<' .5' " := by rfl
  obtain ⟨htokens, htree, -⟩ := blanks_between_tokens idleHost [] "2.e<' .5'" crowded gapsAroundPoint hlex
    separates_crowded
  rw [hspaced] at htokens htree
  obtain ⟨e, hparse, herase⟩ : ∃ e, parse "2.e<' .5'" = .ok e ∧
      e.erase = .binary () .less (.member () (.number () 2) "e") (.string () " .5") := ⟨_, rfl, rfl⟩
  obtain ⟨e', hparse', herase', -⟩ := htree e hparse
  exact ⟨hlex, separates_crowded, hspaced, htokens, e', hparse', herase'.trans herase⟩

end JsonTemplate
