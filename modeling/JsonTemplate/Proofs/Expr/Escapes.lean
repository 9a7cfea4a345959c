import JsonTemplate.Proofs.Expr.Splitting
import JsonTemplate.Proofs.Number.Indices

namespace JsonTemplate

namespace Text

-- A hexadecimal digit of either case.
def IsHexDigit (c : Char) : Prop := c.isDigit = true ∨ ('a' ≤ c ∧ c ≤ 'f') ∨ ('A' ≤ c ∧ c ≤ 'F')

instance (c : Char) : Decidable (IsHexDigit c) := inferInstanceAs (Decidable (_ ∨ _ ∨ _))

-- The number that hexadecimal digits name behind those of another number.
def hexValue (start : Nat) (digits : List Char) : Nat :=
  digits.foldl (fun n c => 16 * n + (hexValue? c).getD 0) start

theorem hexValue?_isSome_iff {c : Char} : (hexValue? c).isSome = true ↔ IsHexDigit c := by
  unfold hexValue? IsHexDigit
  split_ifs <;> simp_all

theorem hexNumber?_eq_some_iff {start n : Nat} {digits : List Char} :
    hexNumber? start digits = some n ↔ (∀ c ∈ digits, IsHexDigit c) ∧ hexValue start digits = n := by
  induction digits generalizing start with
  | nil => simp [hexNumber?, hexValue]
  | cons c digits ih =>
      rw [hexNumber?, List.forall_mem_cons, ← hexValue?_isSome_iff]
      cases hdigit : hexValue? c with
      | none => simp
      | some digit =>
          rw [Option.bind_some, ih]
          simp [hexValue, hdigit]

end Text

namespace Lexer

open Number.Numeral (withoutPlus)
open Text (byteLength)

variable {quote c : Char} {code body text out : List Char}

-- Hexadecimal digits that are the number of a character. Surrogates are no characters.
structure IsCode (digits : List Char) (c : Char) : Prop where
  hex : ∀ d ∈ digits, Text.IsHexDigit d
  value : Text.hexValue 0 digits = c.toNat

theorem scalar?_eq_some_iff : scalar? code = some c ↔ withoutPlus code ≠ [] ∧ IsCode (withoutPlus code) c := by
  have hscalar : scalar? code = if (withoutPlus code).isEmpty then none
      else (Text.hexNumber? 0 (withoutPlus code)).bind fun n =>
        if n.isValidChar then some (Char.ofNat n) else none := rfl
  rw [hscalar]
  split_ifs with hempty
  · simp [List.isEmpty_iff.mp hempty]
  · rw [List.isEmpty_iff] at hempty
    simp only [Option.bind_eq_some_iff, Text.hexNumber?_eq_some_iff]
    constructor
    · rintro ⟨n, ⟨hhex, hvalue⟩, hchar⟩
      split_ifs at hchar with hvalid
      cases hchar
      exact ⟨hempty, hhex, by rw [hvalue, Char.toNat_ofNat, if_pos hvalid]⟩
    · rintro ⟨-, hhex, hvalue⟩
      have hvalid : c.toNat.isValidChar := c.valid
      exact ⟨c.toNat, ⟨hhex, hvalue⟩, by rw [if_pos hvalid, Char.ofNat_toNat]⟩

-- A condition on what follows the escapes \u between quotes, which are read from the left escape by escape.
def EveryCode (quote : Char) (p : List Char → Prop) (body : List Char) : Prop :=
  ∀ before after, before ∈ bodies quote → body = before ++ '\\' :: 'u' :: after → p after

-- Four digits, and the character that they name.
def BeginsWithCode (after : List Char) : Prop :=
  ∃ digits rest c, after = digits ++ rest ∧ digits.length = 4 ∧ IsCode digits c

-- Up to four characters, the first of which may be a plus sign.
def BeginsWithLooseCode (after : List Char) : Prop :=
  withoutPlus (after.take 4) ≠ [] ∧ ∃ c, IsCode (withoutPlus (after.take 4)) c

-- The text that stands between quotes with each escape replaced by the character that it denotes.
inductive Decodes : List Char → List Char → Prop
  | nil : Decodes [] []
  | plain {c : Char} {text out : List Char} (hc : c ≠ '\\') (h : Decodes text out) :
      Decodes (c :: text) (c :: out)
  | letter {c : Char} {text out : List Char} (hc : c ≠ 'u') (h : Decodes text out) :
      Decodes ('\\' :: c :: text) (escaped c :: out)
  | code {digits text out : List Char} {c : Char} (hlength : digits.length = 4) (hcode : IsCode digits c)
      (h : Decodes text out) : Decodes ('\\' :: 'u' :: (digits ++ text)) (c :: out)

section

variable {p : List Char → Prop}

theorem everyCode_nil : EveryCode quote p [] := by
  intro before after _ heq
  simp at heq

theorem everyCode_plain (hquote : c ≠ quote) (hbackslash : c ≠ '\\') :
    EveryCode quote p (c :: text) ↔ EveryCode quote p text := by
  constructor
  · rintro h before after hbefore rfl
    exact h (c :: before) after (mem_bodies_iff.mpr (.inr (.inl ⟨c, before, ⟨hquote, hbackslash⟩, hbefore, rfl⟩))) rfl
  · intro h before after hbefore heq
    rcases mem_bodies_iff.mp hbefore with rfl | ⟨d, rest, -, hrest, rfl⟩ | ⟨d, rest, -, -, rfl⟩
    · exact absurd (List.cons.inj heq).1 hbackslash
    · exact h rest after hrest (List.cons.inj heq).2
    · exact absurd (List.cons.inj heq).1 hbackslash

theorem everyCode_escape (hc : c ≠ '\n') :
    EveryCode quote p ('\\' :: c :: text) ↔ (c = 'u' → p text) ∧ EveryCode quote p text := by
  constructor
  · intro h
    refine ⟨?_, ?_⟩
    · rintro rfl
      exact h [] text (mem_bodies_iff.mpr (.inl rfl)) rfl
    · rintro before after hbefore rfl
      exact h ('\\' :: c :: before) after (mem_bodies_iff.mpr (.inr (.inr ⟨c, before, hc, hbefore, rfl⟩))) rfl
  · rintro ⟨hhere, hrest⟩ before after hbefore heq
    rcases mem_bodies_iff.mp hbefore with rfl | ⟨d, rest, ⟨-, hd⟩, -, rfl⟩ | ⟨d, rest, -, hmem, rfl⟩
    · simp only [List.nil_append, List.cons.injEq, true_and] at heq
      exact heq.2 ▸ hhere heq.1
    · exact absurd (List.cons.inj heq).1.symm hd
    · simp only [List.cons_append, List.cons.injEq, true_and] at heq
      exact hrest rest after hmem heq.2

theorem EveryCode.imp {q : List Char → Prop} (h : EveryCode quote p body) (hpq : ∀ after, p after → q after) :
    EveryCode quote q body := fun before after hbefore heq => hpq after (h before after hbefore heq)

-- Ordinary characters make no difference.
theorem everyCode_append {part : List Char} (hpart : ∀ c ∈ part, c ≠ quote ∧ c ≠ '\\') :
    EveryCode quote p (part ++ text) ↔ EveryCode quote p text := by
  induction part with
  | nil => rfl
  | cons c part ih =>
      obtain ⟨hc, hpart⟩ := List.forall_mem_cons.mp hpart
      rw [List.cons_append, everyCode_plain hc.1 hc.2, ih hpart]

end

theorem mem_bodies_of_append {part : List Char} (hpart : ∀ c ∈ part, c ≠ '\\') (h : part ++ text ∈ bodies quote) :
    (∀ c ∈ part, c ≠ quote) ∧ text ∈ bodies quote := by
  induction part with
  | nil => exact ⟨List.forall_mem_nil _, h⟩
  | cons c part ih =>
      obtain ⟨hc, hpart⟩ := List.forall_mem_cons.mp hpart
      rcases mem_bodies_iff.mp h with heq | ⟨d, rest, ⟨hd, -⟩, hrest, heq⟩ | ⟨d, rest, -, -, heq⟩
      · cases heq
      · obtain ⟨rfl, rfl⟩ := List.cons.inj heq
        obtain ⟨hquote, htext⟩ := ih hpart hrest
        exact ⟨List.forall_mem_cons.mpr ⟨hd, hquote⟩, htext⟩
      · exact absurd (List.cons.inj heq).1 hc

theorem IsCode.withoutPlus_eq (h : IsCode code c) : withoutPlus code = code := by
  unfold withoutPlus
  split
  · have hplus : ¬Text.IsHexDigit '+' := by decide
    exact absurd (h.hex '+' List.mem_cons_self) hplus
  · rfl

-- A backslash is neither a digit nor a plus sign.
theorem ne_backslash_of_isCode (h : IsCode (withoutPlus code) c) : ∀ d ∈ code, d ≠ '\\' := by
  have hdigits : ∀ d ∈ withoutPlus code, d ≠ '\\' := by
    rintro d hd rfl
    have hbackslash : ¬Text.IsHexDigit '\\' := by decide
    exact hbackslash (h.hex _ hd)
  unfold withoutPlus at hdigits
  split at hdigits
  · exact List.forall_mem_cons.mpr ⟨by decide, hdigits⟩
  · exact hdigits

theorem BeginsWithCode.take_eq {digits : List Char} (hlength : digits.length = 4) (rest : List Char) :
    (digits ++ rest).take 4 = digits ∧ (digits ++ rest).drop 4 = rest := by
  rw [← hlength]
  exact ⟨List.take_left, List.drop_left⟩

theorem BeginsWithCode.loose {after : List Char} (h : BeginsWithCode after) : BeginsWithLooseCode after := by
  obtain ⟨digits, rest, c, rfl, hlength, hcode⟩ := h
  rw [BeginsWithLooseCode, (BeginsWithCode.take_eq hlength rest).1, hcode.withoutPlus_eq]
  refine ⟨?_, c, hcode⟩
  rintro rfl
  cases hlength

theorem beginsWithLooseCode_iff {after : List Char} :
    BeginsWithLooseCode after ↔ ∃ c, scalar? (after.take 4) = some c := by
  simp only [scalar?_eq_some_iff, exists_and_left, BeginsWithLooseCode]

-- The next four characters are taken for the code, fewer at the end.
theorem unescape?_code (text : List Char) :
    unescape? ('\\' :: 'u' :: text) =
      (scalar? (text.take 4)).bind fun c => (unescape? (text.drop 4)).map (c :: ·) := by
  rcases text with _ | ⟨a, _ | ⟨b, _ | ⟨d, _ | ⟨e, rest⟩⟩⟩⟩
  iterate 4
    simp only [unescape?, List.take_succ_cons, List.take_nil, List.drop_succ_cons, List.drop_nil]
    cases scalar? _ <;> rfl
  rw [unescape?]
  simp only [List.take_succ_cons, List.take_zero, List.drop_succ_cons, List.drop_zero]
  cases scalar? _ <;> cases unescape? rest <;> rfl

section

variable (htext : text ∈ bodies quote) (h : BeginsWithLooseCode text)

include htext h

theorem ordinary_of_looseCode : (∀ d ∈ text.take 4, d ≠ quote ∧ d ≠ '\\') ∧ text.drop 4 ∈ bodies quote := by
  obtain ⟨-, c, hcode⟩ := h
  have hplain := ne_backslash_of_isCode hcode
  rw [← List.take_append_drop 4 text] at htext
  obtain ⟨hquote, hrest⟩ := mem_bodies_of_append hplain htext
  exact ⟨fun d hd => ⟨hquote d hd, hplain d hd⟩, hrest⟩

theorem drop_mem_bodies : text.drop 4 ∈ bodies quote := (ordinary_of_looseCode htext h).2

-- The code itself holds no escapes.
theorem everyCode_drop {p : List Char → Prop} : EveryCode quote p text ↔ EveryCode quote p (text.drop 4) := by
  have happend : EveryCode quote p (text.take 4 ++ text.drop 4) ↔ EveryCode quote p (text.drop 4) :=
    everyCode_append (ordinary_of_looseCode htext h).1
  rwa [List.take_append_drop] at happend

end

-- By the length of the text. A loose code is passed over together with its escape.
theorem bodies_induction {motive : (body : List Char) → body ∈ bodies quote → Prop}
    (nil : ∀ h, motive [] h)
    (plain : ∀ c text htext h, c ≠ quote → c ≠ '\\' → motive text htext → motive (c :: text) h)
    (letter : ∀ c text htext h, c ≠ '\n' → c ≠ 'u' → motive text htext → motive ('\\' :: c :: text) h)
    (code : ∀ text, text ∈ bodies quote → ∀ h,
      (BeginsWithLooseCode text → ∃ hrest, motive (text.drop 4) hrest) → motive ('\\' :: 'u' :: text) h)
    (hbody : body ∈ bodies quote) : motive body hbody := by
  induction hlength : body.length using Nat.strong_induction_on generalizing body with
  | _ length ih =>
      subst hlength
      rcases mem_bodies_iff.mp hbody with rfl | ⟨c, text, ⟨hquote, hc⟩, htext, rfl⟩ | ⟨c, text, hc, htext, rfl⟩
      · exact nil hbody
      · exact plain c text htext hbody hquote hc (ih _ (by simp) htext rfl)
      · by_cases hu : c = 'u'
        · subst hu
          refine code text htext hbody fun hcode => ⟨drop_mem_bodies htext hcode, ih _ ?_ _ rfl⟩
          simp only [List.length_drop, List.length_cons]
          omega
        · exact letter c text htext hbody hc hu (ih _ (by simp) htext rfl)

-- The lexer asks for no more than a loose code.
theorem exists_unescape?_iff (hbody : body ∈ bodies quote) :
    (∃ out, unescape? body = some out) ↔ EveryCode quote BeginsWithLooseCode body := by
  induction hbody using bodies_induction with
  | nil _ => exact iff_of_true ⟨[], rfl⟩ everyCode_nil
  | plain c text _ _ hquote hc ih =>
      rw [everyCode_plain hquote hc, ← ih, unescape?_plain hc]
      simp
  | letter c text _ _ hc hu ih =>
      rw [everyCode_escape hc, ← ih, unescape?_escaped hu]
      simp [hu]
  | code text htext _ ih =>
      rw [everyCode_escape (by decide), unescape?_code]
      simp only [forall_const]
      by_cases hcode : BeginsWithLooseCode text
      · obtain ⟨_, ih⟩ := ih hcode
        rw [everyCode_drop htext hcode, ← ih]
        obtain ⟨c, hc⟩ := beginsWithLooseCode_iff.mp hcode
        simp [hc, hcode]
      · rw [beginsWithLooseCode_iff] at hcode
        have hnone : scalar? (text.take 4) = none :=
          Option.eq_none_iff_forall_ne_some.mpr fun c hc => hcode ⟨c, hc⟩
        simp [hnone, beginsWithLooseCode_iff]

theorem decodes_of_unescape? (hbody : body ∈ bodies quote) (hcodes : EveryCode quote BeginsWithCode body)
    (h : unescape? body = some out) : Decodes body out := by
  induction hbody using bodies_induction generalizing out with
  | nil _ =>
      cases h
      exact .nil
  | plain c text _ _ hquote hc ih =>
      rw [unescape?_plain hc, Option.map_eq_some_iff] at h
      obtain ⟨out, hout, rfl⟩ := h
      exact .plain hc (ih ((everyCode_plain hquote hc).mp hcodes) hout)
  | letter c text _ _ hc hu ih =>
      rw [unescape?_escaped hu, Option.map_eq_some_iff] at h
      obtain ⟨out, hout, rfl⟩ := h
      exact .letter hu (ih ((everyCode_escape hc).mp hcodes).2 hout)
  | code text htext _ ih =>
      obtain ⟨hhere, hrest⟩ := (everyCode_escape (by decide)).mp hcodes
      have hloose := (hhere rfl).loose
      rw [everyCode_drop htext hloose] at hrest
      obtain ⟨_, ih⟩ := ih hloose
      obtain ⟨digits, rest, c, rfl, hlength, hcode⟩ := hhere rfl
      obtain ⟨htake, hdrop⟩ := BeginsWithCode.take_eq hlength rest
      have hscalar : scalar? digits = some c := by
        rw [scalar?_eq_some_iff, hcode.withoutPlus_eq]
        exact ⟨List.ne_nil_of_length_pos (by omega), hcode⟩
      rw [unescape?_code, htake, hdrop, hscalar, Option.bind_some, Option.map_eq_some_iff] at h
      obtain ⟨out, hout, rfl⟩ := h
      rw [hdrop] at ih hrest
      exact .code hlength hcode (ih hrest hout)

def Quote.literal (quote : Quote) (body : List Char) : List Char := quote.char :: (body ++ [quote.char])

theorem scan_literal {quote : Quote} (hbody : body ∈ bodies quote.char) (after : List Char) :
    scan (quote.literal body ++ after) =
      ⟨(unescape? body).map fun out => .string (String.ofList out), (quote.literal body).length⟩ := by
  obtain ⟨hname, -, -, hbackslash⟩ := not_starts_of_quote quote
  have hmark : (quote.char = '"' || quote.char = '\'') = true := by cases quote <;> rfl
  rw [Quote.literal, List.cons_append, List.append_assoc, List.singleton_append, scan, if_neg (by simp [hname]),
    if_pos hmark, scanString, stringExtent_append hbackslash hbody after]
  simp

-- At this place of a source the lexer takes the literal for a token with the text, and it goes on behind it.
def Accepts (offset : Nat) (quote : Quote) (body after out : List Char) : Prop :=
  let stop := offset + byteLength (quote.literal body)
  lexemes offset 0 (quote.literal body ++ after) =
    (⟨.string (String.ofList out), offset, stop⟩ :: (lexemes stop 0 after).1, (lexemes stop 0 after).2)

-- The lexer fails here, and its error shows the whole literal.
def Refuses (offset : Nat) (quote : Quote) (body after : List Char) : Prop :=
  lexemes offset 0 (quote.literal body ++ after) =
    ([], some ⟨⟨offset, offset + byteLength (quote.literal body)⟩, .unknownText (String.ofList (quote.literal body))⟩)

section

variable {quote : Quote} (hbody : body ∈ bodies quote.char) (offset : Nat) (after : List Char)

include hbody

theorem accepts_of_unescape? (h : unescape? body = some out) : Accepts offset quote body after out := by
  have hscan := scan_literal hbody after
  have hblank : isBlank quote.char = false := by cases quote <;> rfl
  rw [h] at hscan
  have hne : quote.literal body ≠ [] := List.cons_ne_nil _ _
  refine lexemes_cons_of_token hblank ?_ ?_ hne rfl offset
  · exact congrArg Scan.token hscan
  · exact (congrArg (List.take · _) (congrArg Scan.length hscan)).trans List.take_left

theorem refuses_of_unescape? (h : unescape? body = none) : Refuses offset quote body after := by
  have hscan := scan_literal hbody after
  have hblank : isBlank quote.char = false := by cases quote <;> rfl
  have htake : (quote.literal body ++ after).take (quote.literal body).length = quote.literal body := List.take_left
  rw [h, Option.map_none] at hscan
  rw [Refuses]
  generalize hliteral : quote.literal body = literal at hscan htake ⊢
  obtain ⟨rest, rfl⟩ : ∃ rest, literal = quote.char :: rest := ⟨_, hliteral.symm⟩
  rw [List.cons_append] at hscan htake ⊢
  rw [lexemes, hblank]
  simp only [hscan, htake, Bool.false_eq_true, if_false]

theorem accepts_iff : Accepts offset quote body after out ↔ unescape? body = some out := by
  refine ⟨fun h => ?_, accepts_of_unescape? hbody offset after⟩
  cases hdecoded : unescape? body with
  | none =>
      have hrefuses := (refuses_of_unescape? hbody offset after hdecoded).symm.trans h
      cases hrefuses
  | some found =>
      have haccepts := (accepts_of_unescape? hbody offset after hdecoded).symm.trans h
      simp only [Prod.mk.injEq, List.cons.injEq, Lexeme.mk.injEq, Token.string.injEq, and_true] at haccepts
      rw [String.ofList_inj.mp haccepts]

end

-- A literal as it is documented: every \u is followed by four hexadecimal digits that name a character, and the
-- text has this character for the escape and its digits.
structure Exact (offset : Nat) (quote : Quote) (body after : List Char) : Prop where
  accepted : (∃ out, Accepts offset quote body after out) ↔ EveryCode quote.char BeginsWithCode body
  decoded : ∀ out, Accepts offset quote body after out → Decodes body out

-- A string literal is read exactly, unless it has codes that are too short or have a plus sign and none that is
-- worse. Codes have less than four characters only at the end of a literal.
theorem literal_exact_iff (offset : Nat) (quote : Quote) (body after : List Char) (hbody : body ∈ bodies quote.char) :
    ((∃ out, Accepts offset quote body after out) ↔ EveryCode quote.char BeginsWithLooseCode body) ∧
      (¬EveryCode quote.char BeginsWithLooseCode body → Refuses offset quote body after) ∧
      (Exact offset quote body after ↔
        (EveryCode quote.char BeginsWithLooseCode body → EveryCode quote.char BeginsWithCode body)) := by
  have haccepted : (∃ out, Accepts offset quote body after out) ↔ EveryCode quote.char BeginsWithLooseCode body := by
    simp only [accepts_iff hbody]
    exact exists_unescape?_iff hbody
  refine ⟨haccepted, fun h => ?_, fun h => ?_, fun h => ⟨?_, ?_⟩⟩
  · rw [← exists_unescape?_iff hbody] at h
    exact refuses_of_unescape? hbody offset after (Option.eq_none_iff_forall_ne_some.mpr (not_exists.mp h))
  · exact fun hloose => h.accepted.mp (haccepted.mpr hloose)
  · exact haccepted.trans ⟨h, fun hcodes => hcodes.imp fun _ => BeginsWithCode.loose⟩
  · intro out hout
    rw [accepts_iff hbody] at hout
    exact decodes_of_unescape? hbody (h ((exists_unescape?_iff hbody).mp ⟨out, hout⟩)) hout

theorem mem_bodies_of_stringExtent (h : stringExtent quote (body ++ [quote]) = (body.length, true)) :
    body ∈ bodies quote := by
  obtain ⟨found, after, hmem, hsplit, hlength⟩ := exists_body_of_stringExtent h
  rwa [(List.append_inj hsplit hlength).1]

-- The code of the backslash before what would be a code behind it, an escaped quote and another character.
def backslashCode : List Char := ['\\', 'u', '0', '0', '5', 'C', 'u', '4', '1', '\\', '"', 'é']

theorem literal_exact_of_backslash_code :
    backslashCode ∈ bodies Quote.double.char ∧ Exact 0 .double backslashCode [' '] ∧
      Accepts 0 .double backslashCode [' '] ['\\', 'u', '4', '1', '"', 'é'] := by
  have hbody : backslashCode ∈ bodies Quote.double.char := mem_bodies_of_stringExtent (by decide)
  have hcodes : EveryCode Quote.double.char BeginsWithCode backslashCode := by
    have hscalar : scalar? ['0', '0', '5', 'C'] = some '\\' := by decide
    have hcode : BeginsWithCode ['0', '0', '5', 'C', 'u', '4', '1', '\\', '"', 'é'] :=
      ⟨['0', '0', '5', 'C'], _, '\\', rfl, rfl, (scalar?_eq_some_iff.mp hscalar).2⟩
    have hlast : EveryCode Quote.double.char BeginsWithCode ['é'] :=
      (everyCode_plain (by decide) (by decide)).mpr everyCode_nil
    have hquote : EveryCode Quote.double.char BeginsWithCode ['\\', '"', 'é'] :=
      (everyCode_escape (by decide)).mpr ⟨nofun, hlast⟩
    have hplain : ∀ c ∈ ['0', '0', '5', 'C', 'u', '4', '1'], c ≠ Quote.double.char ∧ c ≠ '\\' := by
      simp [Quote.char]
    have hrest : EveryCode Quote.double.char BeginsWithCode ['0', '0', '5', 'C', 'u', '4', '1', '\\', '"', 'é'] :=
      (everyCode_append hplain).mpr hquote
    exact (everyCode_escape (by decide)).mpr ⟨fun _ => hcode, hrest⟩
  obtain ⟨-, -, hexact⟩ := literal_exact_iff 0 .double backslashCode [' '] hbody
  exact ⟨hbody, hexact.mpr fun _ => hcodes, (accepts_iff hbody 0 [' ']).mpr (by decide)⟩

-- Two digits before the closing quote.
theorem not_forall_exact :
    ¬∀ offset quote body after, body ∈ bodies (Quote.char quote) → Exact offset quote body after := by
  intro h
  have hbody : ['\\', 'u', '4', '1'] ∈ bodies Quote.double.char := mem_bodies_of_stringExtent (by decide)
  have haccepts : Accepts 0 .double ['\\', 'u', '4', '1'] [] ['A'] := (accepts_iff hbody 0 []).mpr (by decide)
  have hcodes := (h 0 .double _ [] hbody).accepted.mp ⟨_, haccepts⟩
  obtain ⟨digits, rest, c, hsplit, hlength, -⟩ := hcodes [] ['4', '1'] (mem_bodies_iff.mpr (.inl rfl)) rfl
  have htotal := congrArg List.length hsplit
  rw [List.length_append, hlength] at htotal
  simp at htotal
  omega

end Lexer

end JsonTemplate
