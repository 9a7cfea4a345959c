import JsonTemplate.Proofs.Expr.Grammar
import JsonTemplate.Proofs.Expr.Literals

namespace JsonTemplate.Json

open Grammar Lexer Number

-- A number by its sign and its size.
def signed (negative : Bool) (x : Float) : Phrase :=
  if negative then ⟨[.symbol .minus, .number x], .unary () .negate (.number () x)⟩
  else ⟨[.number x], .number () x⟩

def phraseOfDouble (x : Float) : Phrase :=
  match Binary64.parts x with
  | .finite negative m q => signed negative (Binary64.ofCode false (Binary64.codeOf m q))
  | _ => ⟨[.keyword .null], .null ()⟩

mutual

-- The tokens of JSON text, and the tree that is made of them.
def phrase : Json → Phrase
  | null => ⟨[.keyword .null], .null ()⟩
  | bool b => ⟨[.keyword (if b then .true else .false)], .bool () b⟩
  | integer n => signed (decide (n < 0)) (Binary64.ofInt n.natAbs)
  | double x => phraseOfDouble x
  | string s => ⟨[.string (rereadText s)], .string () (rereadText s)⟩
  | array items =>
      ⟨.symbol .bracketOpen :: [.symbol .comma].intercalate ((phrases items).map Phrase.tokens) ++
        [.symbol .bracketClose], .array () ((phrases items).map Phrase.tree)⟩
  | object entries =>
      ⟨.symbol .braceOpen :: [.symbol .comma].intercalate ((properties entries).map Property.tokens) ++
        [.symbol .braceClose], .object () ((properties entries).map Property.entry)⟩

def phrases : List Json → List Phrase
  | [] => []
  | item :: items => phrase item :: phrases items

def properties : List (String × Json) → List Property
  | [] => []
  | (key, value) :: entries => ⟨.string (rereadText key), rereadText key, phrase value⟩ :: properties entries

end

mutual

-- The doubles in a JSON value.
def doubles : Json → List Float
  | double x => [x]
  | array items => doublesOfItems items
  | object entries => doublesOfEntries entries
  | _ => []

def doublesOfItems : List Json → List Float
  | [] => []
  | item :: items => doubles item ++ doublesOfItems items

def doublesOfEntries : List (String × Json) → List Float
  | [] => []
  | (_, value) :: entries => doubles value ++ doublesOfEntries entries

end

-- Neither NaN nor an infinity is among the doubles.
def AllFinite (xs : List Float) : Prop := ∀ x ∈ xs, ∃ negative m q, Binary64.parts x = .finite negative m q

-- All doubles in the value are finite. Readers make no other values.
def Finite (json : Json) : Prop := AllFinite json.doubles

theorem derives_signed (negative : Bool) (x : Float) :
    Derives .expression (signed negative x).tokens (signed negative x).tree := by
  have hnumber : Derives .call [.number x] (.number () x) := .bare (.literal (.number x))
  cases negative with
  | false => exact hnumber.of_call 0
  | true =>
      have hsigned : Derives (binding 7) [.symbol .minus, .number x] (.unary () .negate (.number () x)) :=
        .unary (by decide) (.plain hnumber)
      exact hsigned.of_le (Nat.zero_le 7)

mutual

-- The expression grammar makes this tree of these tokens.
theorem derives_phrase (json : Json) : Derives .expression json.phrase.tokens json.phrase.tree := by
  cases json with
  | null => exact (Derives.bare (.literal .null)).of_call 0
  | bool b => cases b <;> exact (Derives.bare (.literal (by constructor))).of_call 0
  | integer n => exact derives_signed _ _
  | double x =>
      rw [phrase, phraseOfDouble]
      split
      · exact derives_signed _ _
      · exact (Derives.bare (.literal .null)).of_call 0
  | string s => exact (Derives.bare (.literal (.string _))).of_call 0
  | array items =>
      rw [phrase]
      exact (Derives.bare (.array (derives_phrases items) .plain)).of_call 0
  | object entries =>
      rw [phrase]
      exact (Derives.bare (.object (fun property hmem => (derives_properties entries property hmem).1)
        (fun property hmem => (derives_properties entries property hmem).2) .plain)).of_call 0

theorem derives_phrases (items : List Json) :
    ∀ item ∈ phrases items, Derives .expression item.tokens item.tree := by
  cases items with
  | nil => rw [phrases]; exact List.forall_mem_nil _
  | cons item items =>
      rw [phrases]
      exact List.forall_mem_cons.mpr ⟨derives_phrase item, derives_phrases items⟩

theorem derives_properties (entries : List (String × Json)) : ∀ property ∈ properties entries,
    Label property.label property.key ∧ Derives .expression property.value.tokens property.value.tree := by
  cases entries with
  | nil => rw [properties]; exact List.forall_mem_nil _
  | cons entry entries =>
      obtain ⟨key, value⟩ := entry
      rw [properties]
      exact List.forall_mem_cons.mpr ⟨⟨.string _, derives_phrase value⟩, derives_properties entries⟩

end

section

variable {rest : List Char} {tokens : List Token} (hends : Ends rest) (hrest : Reads rest tokens)

include hends hrest

theorem reads_signed (negative : Bool) {form : Numeral.Form} {x : Float} (hform : form.WellFormed)
    (hread : Number.Numeral.read? form.text = some x) :
    Reads ((if negative then ['-'] else []) ++ form.text ++ rest) ((signed negative x).tokens ++ tokens) := by
  have hnumeral := Reads.numeral form hends hform hread hrest
  cases negative with
  | false => exact hnumeral
  | true => exact .mark (by decide) hnumeral

theorem reads_integer (n : Int) : Reads ((Int.repr n).toList ++ rest) ((integer n).phrase.tokens ++ tokens) := by
  have hform := Numeral.Form.wellFormed_natural n.natAbs
  have h := reads_signed hends hrest (decide (n < 0)) hform (Numeral.Form.read?_natural n.natAbs)
  rw [Numeral.Form.text_natural] at h
  have htext : (Int.repr n).toList = (if decide (n < 0) then ['-'] else []) ++ (Nat.repr n.natAbs).toList := by
    cases n with
    | ofNat m =>
        rw [Int.repr]
        rfl
    | negSucc m =>
        rw [Int.repr, String.toList_append, if_pos (decide_eq_true (Int.negSucc_lt_zero m)), Int.natAbs_negSucc]
        rfl
  rw [htext, phrase]
  exact h

theorem reads_double {x : Float} (hfinite : ∃ negative m q, Binary64.parts x = .finite negative m q) :
    Reads ((Style.json.write x).toList ++ rest) ((double x).phrase.tokens ++ tokens) := by
  obtain ⟨negative, m, q, hparts⟩ := hfinite
  obtain ⟨form, hform, htext, hdecimal⟩ :=
    Style.exists_form_writeFinite .json (Binary64.eq_ofCode_of_parts hparts).1
  have hread := Number.Numeral.read?_text hform
  rw [hdecimal] at hread
  have h := reads_signed hends hrest negative hform hread
  have hsign : (negative && (Style.json.signedZero || m != 0)) = negative := by
    change (negative && true) = negative
    exact Bool.and_true negative
  rw [phrase, phraseOfDouble, Style.write, hparts]
  simp only [String.toList_ofList, hsign, ← htext]
  exact h

end

theorem intercalate_cons (part : List Token) (parts : List (List Token)) :
    [.symbol .comma].intercalate (part :: parts) = part ++ parts.flatMap (.symbol .comma :: ·) := by
  induction parts generalizing part with
  | nil => rw [List.intercalate_singleton, List.flatMap_nil, List.append_nil]
  | cons next parts ih =>
      rw [List.intercalate_cons_cons, ih, List.flatMap_cons, List.append_assoc]
      rfl

section

variable {rest : List Char} (hends : Ends rest) (level : Nat)

include hends

theorem ends_writeItems (items : List Json) : Ends (Printer.writeItems .compact level items ++ rest) := by
  cases items with
  | nil => exact hends
  | cons item items =>
      rw [Printer.writeItems]
      exact ends_cons _ (.inl rfl)

theorem ends_writeEntries (entries : List (String × Json)) :
    Ends (Printer.writeEntries .compact level entries ++ rest) := by
  cases entries with
  | nil => exact hends
  | cons entry entries =>
      rw [Printer.writeEntries]
      exact ends_cons _ (.inl rfl)

end

mutual

-- Compact JSON text falls into these tokens.
theorem reads_write (json : Json) (level : Nat) (hfinite : json.Finite) {rest : List Char} {tokens : List Token}
    (hends : Ends rest) (hrest : Reads rest tokens) :
    Reads (Printer.write .compact level json ++ rest) (json.phrase.tokens ++ tokens) := by
  cases json with
  | null => exact .word rfl rfl rfl hends hrest
  | bool b =>
      cases b with
      | false => exact .word rfl rfl rfl hends hrest
      | true => exact .word rfl rfl rfl hends hrest
  | integer n => exact reads_integer hends hrest n
  | double x => exact reads_double hends hrest (hfinite x (List.mem_singleton_self x))
  | string s => exact .quote s hrest
  | array items =>
      cases items with
      | nil => exact .mark (by decide) (.mark (by decide) hrest)
      | cons item items =>
          have hclose : Reads (']' :: rest) (.symbol .bracketClose :: tokens) := .mark (by decide) hrest
          have hlast : Ends (']' :: rest) := ends_cons rest (by decide)
          have hitems := reads_writeItems items (level + 1)
            (fun x hx => hfinite x (List.mem_append_right _ hx)) hlast hclose
          have hfirst := reads_write item (level + 1) (fun x hx => hfinite x (List.mem_append_left _ hx))
            (ends_writeItems hlast _ items) hitems
          rw [phrase, phrases, List.map_cons, intercalate_cons, Printer.write]
          simp only [Printer.lineBreak, List.append_nil, List.append_assoc, List.cons_append]
          exact .mark (by decide) hfirst
  | object entries =>
      cases entries with
      | nil => exact .mark (by decide) (.mark (by decide) hrest)
      | cons entry entries =>
          obtain ⟨key, value⟩ := entry
          have hclose : Reads ('\x7d' :: rest) (.symbol .braceClose :: tokens) := .mark (by decide) hrest
          have hlast : Ends ('\x7d' :: rest) := ends_cons rest (by decide)
          have hentries := reads_writeEntries entries (level + 1)
            (fun x hx => hfinite x (List.mem_append_right _ hx)) hlast hclose
          have hfirst := reads_write value (level + 1) (fun x hx => hfinite x (List.mem_append_left _ hx))
            (ends_writeEntries hlast _ entries) hentries
          rw [phrase, properties, List.map_cons, intercalate_cons, Printer.write]
          simp only [Printer.lineBreak, Printer.colon, Property.tokens, List.append_nil, List.append_assoc,
            List.cons_append, List.nil_append]
          exact .mark (by decide) (.quote key (.mark (by decide) hfirst))

theorem reads_writeItems (items : List Json) (level : Nat)
    (hfinite : AllFinite (doublesOfItems items))
    {rest : List Char} {tokens : List Token} (hends : Ends rest) (hrest : Reads rest tokens) :
    Reads (Printer.writeItems .compact level items ++ rest)
      (((phrases items).map Phrase.tokens).flatMap (.symbol .comma :: ·) ++ tokens) := by
  cases items with
  | nil => exact hrest
  | cons item items =>
      have hitems := reads_writeItems items level (fun x hx => hfinite x (List.mem_append_right _ hx)) hends hrest
      have hfirst := reads_write item level (fun x hx => hfinite x (List.mem_append_left _ hx))
        (ends_writeItems hends level items) hitems
      rw [phrases, List.map_cons, List.flatMap_cons, Printer.writeItems]
      simp only [Printer.lineBreak, List.append_assoc, List.cons_append, List.nil_append]
      exact .mark (by decide) hfirst

theorem reads_writeEntries (entries : List (String × Json)) (level : Nat)
    (hfinite : AllFinite (doublesOfEntries entries))
    {rest : List Char} {tokens : List Token} (hends : Ends rest) (hrest : Reads rest tokens) :
    Reads (Printer.writeEntries .compact level entries ++ rest)
      (((properties entries).map Property.tokens).flatMap (.symbol .comma :: ·) ++ tokens) := by
  cases entries with
  | nil => exact hrest
  | cons entry entries =>
      obtain ⟨key, value⟩ := entry
      have hentries := reads_writeEntries entries level (fun x hx => hfinite x (List.mem_append_right _ hx)) hends
        hrest
      have hfirst := reads_write value level (fun x hx => hfinite x (List.mem_append_left _ hx))
        (ends_writeEntries hends level entries) hentries
      rw [properties, List.map_cons, List.flatMap_cons, Printer.writeEntries]
      simp only [Printer.lineBreak, Printer.colon, Property.tokens, List.append_assoc, List.cons_append,
        List.nil_append]
      exact .mark (by decide) (.quote key (.mark (by decide) hfirst))

end

end JsonTemplate.Json
