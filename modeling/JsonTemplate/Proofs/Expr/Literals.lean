import JsonTemplate.Expr.Lexer
import JsonTemplate.Json.Printer
import JsonTemplate.Proofs.Number.Forms

namespace JsonTemplate.Lexer

-- A text that falls into these tokens, wherever it stands.
def Reads (text : List Char) (tokens : List Token) : Prop :=
  ∀ offset, (lexemes offset 0 text).1.map Lexeme.token = tokens ∧ (lexemes offset 0 text).2 = none

theorem reads_nil : Reads [] [] := fun _ => ⟨rfl, rfl⟩

theorem lexemes_leftOver (offset : Nat) (skipped rest : List Char) :
    lexemes offset skipped.length (skipped ++ rest) = lexemes (offset + Text.byteLength skipped) 0 rest := by
  induction skipped generalizing offset with
  | nil => rfl
  | cons c skipped ih =>
      rw [List.length_cons, List.cons_append, lexemes, ih, Text.byteLength, Nat.add_assoc]

-- A token and the tokens that follow it.
theorem Reads.token {c : Char} {part rest : List Char} {token : Token} {tokens : List Token}
    (hblank : isBlank c = false) (hscan : scan (c :: part ++ rest) = ⟨some token, (c :: part).length⟩)
    (hrest : Reads rest tokens) : Reads (c :: part ++ rest) (token :: tokens) := by
  intro offset
  obtain ⟨htokens, hfailure⟩ := hrest (offset + c.utf8Size + Text.byteLength part)
  rw [List.cons_append] at hscan ⊢
  rw [lexemes, hblank]
  simp only [hscan, Bool.false_eq_true, if_false, List.length_cons, Nat.add_sub_cancel, lexemes_leftOver]
  exact ⟨congrArg (token :: ·) htokens, hfailure⟩

-- What follows a value in JSON text.
def Ends (rest : List Char) : Prop := ∀ c ∈ rest.head?, c = ',' ∨ c = ':' ∨ c = ']' ∨ c = '\x7d'

theorem ends_nil : Ends [] := fun _ h => by cases h

theorem ends_cons {c : Char} (rest : List Char) (h : c = ',' ∨ c = ':' ∨ c = ']' ∨ c = '\x7d') :
    Ends (c :: rest) :=
  fun _ hc => by
    cases hc
    exact h

theorem Ends.head_false {rest : List Char} (hrest : Ends rest) {p : Char → Bool}
    (hp : p ',' = false ∧ p ':' = false ∧ p ']' = false ∧ p '\x7d' = false) : ∀ c ∈ rest.head?, p c = false := by
  intro c hc
  rcases hrest c hc with rfl | rfl | rfl | rfl
  · exact hp.1
  · exact hp.2.1
  · exact hp.2.2.1
  · exact hp.2.2.2

theorem takeWhile_append_of_head {p : Char → Bool} {part rest : List Char} (hpart : ∀ c ∈ part, p c = true)
    (hrest : ∀ c ∈ rest.head?, p c = false) : (part ++ rest).takeWhile p = part := by
  rw [List.takeWhile_append_of_pos hpart]
  cases rest with
  | nil => simp
  | cons c rest => simp [hrest c rfl]

-- A word of letters.
theorem Reads.word {c : Char} {part rest : List Char} {tokens : List Token} (hblank : isBlank c = false)
    (hstart : startsName c = true) (hpart : part.all continuesName = true) (hends : Ends rest)
    (hrest : Reads rest tokens) : Reads (c :: part ++ rest) (word (c :: part) :: tokens) := by
  refine hrest.token hblank ?_
  have htake : (part ++ rest).takeWhile continuesName = part :=
    takeWhile_append_of_head (List.all_eq_true.mp hpart) (hends.head_false (by decide))
  rw [List.cons_append, scan, if_pos hstart, htake]

-- A mark that no longer one begins with.
theorem Reads.mark {c : Char} {symbol : Symbol} {rest : List Char} {tokens : List Token}
    (hmark : (c, symbol) ∈ [('[', Symbol.bracketOpen), (']', .bracketClose), ('\x7b', .braceOpen),
      ('\x7d', .braceClose), (',', .comma), (':', .colon), ('-', .minus)])
    (hrest : Reads rest tokens) : Reads (c :: rest) (.symbol symbol :: tokens) := by
  simp only [List.mem_cons, Prod.mk.injEq, List.not_mem_nil, or_false] at hmark
  rcases hmark with ⟨rfl, rfl⟩ | ⟨rfl, rfl⟩ | ⟨rfl, rfl⟩ | ⟨rfl, rfl⟩ | ⟨rfl, rfl⟩ | ⟨rfl, rfl⟩ | ⟨rfl, rfl⟩
  all_goals exact @Reads.token _ [] rest _ tokens rfl rfl hrest

-- The character that an escape of JSON text is resolved to. There are two escapes that stand for
-- themselves: those of the backspace and of the form feed.
def reread (c : Char) : Char :=
  if c = '\x08' then 'b' else if c = '\x0c' then 'f' else c

theorem hexDigit_spec : ∀ n < 16, Text.hexValue? (Json.Printer.hexDigit n) = some n ∧
    Json.Printer.hexDigit n ≠ '"' ∧ Json.Printer.hexDigit n ≠ '\\' := by decide

theorem scalar?_hexDigits {c : Char} (h : c.toNat < 32) :
    scalar? ['0', '0', Json.Printer.hexDigit (c.toNat / 16), Json.Printer.hexDigit (c.toNat % 16)] = some c := by
  obtain ⟨hhigh, -⟩ := hexDigit_spec (c.toNat / 16) (by omega)
  obtain ⟨hlow, -⟩ := hexDigit_spec (c.toNat % 16) (by omega)
  have hcode : 16 * (16 * (16 * (16 * 0 + 0) + 0) + c.toNat / 16) + c.toNat % 16 = c.toNat := by omega
  have hzero : Text.hexValue? '0' = some 0 := rfl
  have hvalid : c.toNat.isValidChar := .inl (by omega)
  change ((Text.hexNumber? 0 ['0', '0', Json.Printer.hexDigit (c.toNat / 16),
    Json.Printer.hexDigit (c.toNat % 16)]).bind fun n =>
      if n.isValidChar then some (Char.ofNat n) else none) = some c
  simp only [Text.hexNumber?, hzero, hhigh, hlow, Option.bind_some, hcode]
  rw [if_pos hvalid, Char.ofNat_toNat]

theorem stringExtent_escaped {quote c : Char} (h : c ≠ '\n') (text : List Char) :
    stringExtent quote ('\\' :: c :: text) = ((stringExtent quote text).1 + 2, (stringExtent quote text).2) := by
  rw [stringExtent, if_neg h]

theorem stringExtent_plain {quote c : Char} (hquote : c ≠ quote) (hbackslash : c ≠ '\\') (text : List Char) :
    stringExtent quote (c :: text) = ((stringExtent quote text).1 + 1, (stringExtent quote text).2) := by
  rw [stringExtent, if_neg hquote, if_neg hbackslash]
  exact fun _ _ heq _ => hbackslash heq

theorem stringExtent_escape (c : Char) (text : List Char) :
    stringExtent '"' (Json.Printer.escape c ++ text) =
      ((stringExtent '"' text).1 + (Json.Printer.escape c).length, (stringExtent '"' text).2) := by
  unfold Json.Printer.escape
  split_ifs with hquote hbackslash _ _ _ _ _ hcontrol
  iterate 7 exact stringExtent_escaped (by decide) text
  · obtain ⟨-, hhighQuote, hhighBackslash⟩ := hexDigit_spec (c.toNat / 16) (by omega)
    obtain ⟨-, hlowQuote, hlowBackslash⟩ := hexDigit_spec (c.toNat % 16) (by omega)
    simp only [List.cons_append, List.nil_append]
    rw [stringExtent_escaped (by decide), stringExtent_plain (by decide) (by decide),
      stringExtent_plain (by decide) (by decide), stringExtent_plain hhighQuote hhighBackslash,
      stringExtent_plain hlowQuote hlowBackslash]
    rfl
  · exact stringExtent_plain hquote hbackslash text

theorem unescape?_escaped {c : Char} (h : c ≠ 'u') (text : List Char) :
    unescape? ('\\' :: c :: text) = (unescape? text).map (escaped c :: ·) := by
  rw [unescape?]
  · exact fun _ _ _ _ _ heq _ => h heq
  · exact fun heq => h heq

theorem unescape?_plain {c : Char} (h : c ≠ '\\') (text : List Char) :
    unescape? (c :: text) = (unescape? text).map (c :: ·) := by
  rw [unescape?, if_neg h]
  · exact fun _ _ _ _ _ heq _ => h heq
  · exact fun _ heq _ => h heq
  · exact fun _ _ heq _ => h heq

theorem unescape?_escape (c : Char) (text : List Char) :
    unescape? (Json.Printer.escape c ++ text) = (unescape? text).map (reread c :: ·) := by
  unfold Json.Printer.escape
  split_ifs with hquote hbackslash hfeed hreturn htab hspace hform hcontrol
  · rw [hquote]
    exact unescape?_escaped (by decide) text
  · rw [hbackslash]
    exact unescape?_escaped (by decide) text
  · rw [hfeed]
    exact unescape?_escaped (by decide) text
  · rw [hreturn]
    exact unescape?_escaped (by decide) text
  · rw [htab]
    exact unescape?_escaped (by decide) text
  · rw [hspace]
    exact unescape?_escaped (by decide) text
  · rw [hform]
    exact unescape?_escaped (by decide) text
  · rw [reread, if_neg hspace, if_neg hform]
    simp only [List.cons_append, List.nil_append]
    rw [unescape?, scalar?_hexDigits hcontrol]
    cases unescape? text <;> rfl
  · rw [reread, if_neg hspace, if_neg hform]
    exact unescape?_plain hbackslash text

theorem stringExtent_flatMap_escape (text rest : List Char) :
    stringExtent '"' (text.flatMap Json.Printer.escape ++ '"' :: rest) =
      ((text.flatMap Json.Printer.escape).length, true) := by
  induction text with
  | nil => rfl
  | cons c text ih =>
      rw [List.flatMap_cons, List.append_assoc, stringExtent_escape, ih, List.length_append, Nat.add_comm]

theorem unescape?_flatMap_escape (text : List Char) :
    unescape? (text.flatMap Json.Printer.escape) = some (text.map reread) := by
  induction text with
  | nil => rfl
  | cons c text ih =>
      rw [List.flatMap_cons, unescape?_escape, ih]
      rfl

-- The text that JSON text between quotes is read as.
def rereadText (s : String) : String := String.ofList (s.toList.map reread)

theorem Reads.quote {rest : List Char} {tokens : List Token} (s : String) (hrest : Reads rest tokens) :
    Reads (Json.Printer.quote s ++ rest) (.string (rereadText s) :: tokens) := by
  refine hrest.token rfl ?_
  change scan ('"' :: (s.toList.flatMap Json.Printer.escape ++ ['"'] ++ rest)) =
    ⟨_, (s.toList.flatMap Json.Printer.escape ++ ['"']).length + 1⟩
  rw [List.append_assoc, List.singleton_append, scan, if_neg (by decide), if_pos (by decide),
    scanString, stringExtent_flatMap_escape]
  simp only [if_true, List.take_left, unescape?_flatMap_escape]
  simp [rereadText]

section

open Number.Numeral

theorem digitCount_append {ds rest : List Char} (hdigits : ∀ c ∈ ds, c.isDigit = true) (hrest : EndsDigits rest) :
    digitCount (ds ++ rest) = ds.length := by
  rw [digitCount, takeWhile_append_of_head hdigits hrest]

theorem Ends.endsDigits {rest : List Char} (hends : Ends rest) : EndsDigits rest := hends.head_false (by decide)

theorem fractionLength_of_head {text : List Char} (h : ∀ c ∈ text.head?, (c == '.') = false) :
    fractionLength text = 0 := by
  cases text with
  | nil => rfl
  | cons c text =>
      have hc := h c rfl
      rw [beq_eq_false_iff_ne] at hc
      rw [fractionLength]
      exact fun _ heq => hc (List.cons.inj heq).1

theorem digit_starts_numeral {c : Char} (h : c.isDigit = true) :
    isBlank c = false ∧ startsName c = false ∧ (decide (c = '"') || decide (c = '\'')) = false := by
  have hall : ∀ n < 58, 48 ≤ n → isBlank (Char.ofNat n) = false ∧ startsName (Char.ofNat n) = false ∧
      (decide (Char.ofNat n = '"') || decide (Char.ofNat n = '\'')) = false := by decide
  simp only [Char.isDigit, Bool.and_eq_true, decide_eq_true_eq] at h
  have hlow : 48 ≤ c.toNat := UInt32.le_iff_toNat_le.mp h.1
  have hhigh : c.toNat ≤ 57 := UInt32.le_iff_toNat_le.mp h.2
  have hc := hall c.toNat (by omega) hlow
  rwa [Char.ofNat_toNat] at hc

section

variable (form : Form) {rest : List Char} (hends : Ends rest)

include hends

theorem exponentLength_append : exponentLength (form.exponentText ++ rest) = form.exponentText.length := by
  unfold Form.exponentText
  cases form.exponent with
  | none =>
      cases rest with
      | nil => rfl
      | cons c rest =>
          have hmark : decide (c = 'e' ∨ c = 'E') = false :=
            hends.head_false (p := fun c => decide (c = 'e' ∨ c = 'E')) (by decide) c rfl
          exact if_neg (of_decide_eq_false hmark)
  | some e =>
      have hdigits : digitCount ((Nat.repr e.natAbs).toList ++ rest) = (Nat.repr e.natAbs).toList.length := by
        rw [Nat.toList_repr]
        exact digitCount_append (isDigit_toDigits e.natAbs) hends.endsDigits
      have hpositive : (Nat.repr e.natAbs).toList.length ≠ 0 := by
        rw [Nat.toList_repr]
        exact Nat.length_toDigits_pos.ne'
      have hsign : isSign (if 0 ≤ e then '+' else '-') = true := by split <;> rfl
      simp only [List.cons_append, exponentLength, hdigits, hsign, if_true, if_neg hpositive, List.length_cons]
      rfl

theorem fractionLength_append (hform : form.WellFormed) :
    fractionLength (form.fractionText ++ (form.exponentText ++ rest)) = form.fractionText.length := by
  rw [Form.fractionText]
  split_ifs with hfraction
  · refine fractionLength_of_head ?_
    unfold Form.exponentText
    cases form.exponent with
    | none => exact hends.head_false (by decide)
    | some e =>
        intro c hc
        cases hc
        rfl
  · have hdigits := digitCount_append hform.fraction (form.endsDigits_exponentText hends.endsDigits)
    rw [List.cons_append, fractionLength, hdigits, if_neg (by simpa using hfraction), List.length_cons]

theorem numeralLength_append (hform : form.WellFormed) : numeralLength (form.text ++ rest) = form.text.length := by
  have htext : form.text ++ rest = form.whole ++ (form.fractionText ++ (form.exponentText ++ rest)) := by
    simp only [Form.text, List.append_assoc]
  have hwhole := digitCount_append hform.whole (form.endsDigits_fractionText hends.endsDigits)
  have hpositive : form.whole.length ≠ 0 := by simpa using hform.nonempty
  have hdrop : (form.whole ++ (form.fractionText ++ (form.exponentText ++ rest))).drop
      (form.whole.length + form.fractionText.length) = form.exponentText ++ rest := by
    rw [← List.append_assoc, ← List.length_append, List.drop_left]
  rw [htext, numeralLength, hwhole]
  simp only
  rw [if_neg hpositive, List.drop_left, fractionLength_append form hends hform, hdrop,
    exponentLength_append form hends, Form.text, List.length_append, List.length_append]

-- A numeral.
theorem Reads.numeral {tokens : List Token} {x : Float} (hform : form.WellFormed)
    (hread : read? form.text = some x) (hrest : Reads rest tokens) :
    Reads (form.text ++ rest) (.number x :: tokens) := by
  obtain ⟨c, part, hwhole⟩ := List.exists_cons_of_ne_nil hform.nonempty
  have hdigit : c.isDigit = true := hform.whole c (by rw [hwhole]; exact List.mem_cons_self)
  have htext : form.text = c :: (part ++ form.fractionText ++ form.exponentText) := by
    rw [Form.text, hwhole]
    rfl
  have hlength := numeralLength_append form hends hform
  have htake : (form.text ++ rest).take form.text.length = form.text := List.take_left
  obtain ⟨hblank, hname, hquote⟩ := digit_starts_numeral hdigit
  rw [htext] at hlength htake hread ⊢
  refine hrest.token hblank ?_
  rw [List.cons_append] at hlength htake ⊢
  rw [scan, if_neg (by simp [hname]), if_neg (by simp [hquote]), hlength, if_pos (by simp), htake, hread]
  rfl

end

end

end JsonTemplate.Lexer
