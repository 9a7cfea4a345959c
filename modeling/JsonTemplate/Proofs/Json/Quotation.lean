import JsonTemplate.Evaluation
import JsonTemplate.Proofs.Evaluation.Notes
import JsonTemplate.Proofs.Expr.Language
import JsonTemplate.Proofs.Json.Written
import JsonTemplate.Proofs.Template.Steps
import JsonTemplate.Proofs.Value.Parts
import JsonTemplate.Value.Conversion

namespace JsonTemplate

namespace Json

open Lexer Number

mutual

-- How many levels below itself an expression has that is read from JSON text: those of arrays and
-- objects, and one for a sign.
def nesting : Json → Nat
  | integer n => if n < 0 then 1 else 0
  | double x => if Binary64.isNegative x then 1 else 0
  | array items => nestingOfItems items
  | object entries => nestingOfEntries entries
  | _ => 0

def nestingOfItems : List Json → Nat
  | [] => 0
  | item :: items => max (nesting item + 1) (nestingOfItems items)

def nestingOfEntries : List (String × Json) → Nat
  | [] => 0
  | (_, value) :: entries => max (nesting value + 1) (nestingOfEntries entries)

end

mutual

-- The texts and keys in a JSON value.
def texts : Json → List String
  | string s => [s]
  | array items => textsOfItems items
  | object entries => textsOfEntries entries
  | _ => []

def textsOfItems : List Json → List String
  | [] => []
  | item :: items => texts item ++ textsOfItems items

def textsOfEntries : List (String × Json) → List String
  | [] => []
  | (key, value) :: entries => key :: texts value ++ textsOfEntries entries

end

mutual

-- The value of the expression that JSON text is read as.
def reading : Json → Value
  | null => .null
  | bool b => .bool b
  | integer n => .number (Binary64.ofInt n)
  | double x => .number x
  | string s => .string (rereadText s)
  | array items => .array (readings items)
  | object entries => .object (Fields.ofList (readingsOfEntries entries))

def readings : List Json → List Value
  | [] => []
  | item :: items => reading item :: readings items

def readingsOfEntries : List (String × Json) → List (String × Value)
  | [] => []
  | (key, value) :: entries => (rereadText key, reading value) :: readingsOfEntries entries

end

section

variable {σ : Type} (host : Host σ) (scope : Fields Value)

theorem evalAt_signed {negative : Bool} {x : Float} {depth : Nat}
    (h : depth + (if negative then 1 else 0) ≤ maxNesting) :
    (signed negative x).tree.evalAt host scope depth = pure (.number (if negative then -x else x)) := by
  cases negative with
  | false =>
      change (Expr.number () x).evalAt host scope depth = _
      rw [Expr.evalAt, if_neg (by simpa using h)]
      rfl
  | true =>
      have hinner : depth + 1 ≤ maxNesting := h
      change (Expr.unary () .negate (.number () x)).evalAt host scope depth = _
      rw [Expr.evalAt, if_neg (by omega), Expr.evalAt, if_neg (by omega), pure_bind]
      rfl

end

theorem ofInt_eq (n : Int) :
    (if decide (n < 0) then -Binary64.ofInt n.natAbs else Binary64.ofInt n.natAbs) = Binary64.ofInt n := by
  have hsize : Binary64.ofInt n.natAbs = Binary64.nearest false n.natAbs 1 := by
    rw [Binary64.ofInt, decide_eq_false (by omega), Int.natAbs_natCast]
  rw [hsize, Binary64.neg_nearest, Binary64.ofInt]
  generalize decide (n < 0) = negative
  cases negative with
  | false => exact if_neg Bool.false_ne_true
  | true => exact if_pos rfl

theorem double_eq {x : Float} {negative : Bool} {m : Nat} {q : Int}
    (h : Binary64.parts x = .finite negative m q) :
    (if negative then -Binary64.ofCode false (Binary64.codeOf m q)
      else Binary64.ofCode false (Binary64.codeOf m q)) = x := by
  rw [(Binary64.eq_ofCode_of_parts h).2, Binary64.neg_ofCode]
  cases negative with
  | false => exact if_neg Bool.false_ne_true
  | true => exact if_pos rfl

theorem isNegative_of_parts {x : Float} {negative : Bool} {m : Nat} {q : Int}
    (h : Binary64.parts x = .finite negative m q) : Binary64.isNegative x = negative := by
  simp only [Binary64.parts] at h
  split_ifs at h <;> cases h <;> rfl

mutual

-- Read from its text, a JSON value is evaluated without a look at the scope.
theorem evalAt_phrase {σ : Type} (host : Host σ) (scope : Fields Value) (json : Json) (depth : Nat)
    (hfinite : json.Finite) (h : depth + json.nesting ≤ maxNesting) :
    json.phrase.tree.evalAt host scope depth = pure json.reading := by
  have hdepth : ¬maxNesting < depth := by omega
  cases json with
  | null | bool | string =>
      rw [phrase, Expr.evalAt, if_neg hdepth]
      rfl
  | integer n =>
      rw [phrase, evalAt_signed, ofInt_eq]
      · rfl
      · simpa [nesting] using h
  | double x =>
      obtain ⟨negative, m, q, hparts⟩ := hfinite x (List.mem_singleton_self x)
      rw [phrase, phraseOfDouble, hparts]
      simp only
      rw [evalAt_signed, double_eq hparts]
      · rfl
      · simpa [nesting, isNegative_of_parts hparts] using h
  | array items =>
      change (Expr.array () ((phrases items).map Grammar.Phrase.tree)).evalAt host scope depth = _
      rw [Expr.evalAt, if_neg hdepth, evalItems_phrases host scope items depth hfinite h, pure_bind]
      rfl
  | object entries =>
      change (Expr.object () ((properties entries).map Grammar.Property.entry)).evalAt host scope depth = _
      rw [Expr.evalAt, if_neg hdepth, evalEntries_properties host scope entries depth hfinite h, pure_bind]
      rfl

theorem evalItems_phrases {σ : Type} (host : Host σ) (scope : Fields Value) (items : List Json) (depth : Nat)
    (hfinite : AllFinite (doublesOfItems items)) (h : depth + nestingOfItems items ≤ maxNesting) :
    Expr.evalItems host scope (depth + 1) ((phrases items).map Grammar.Phrase.tree) = pure (readings items) := by
  cases items with
  | nil => rfl
  | cons item items =>
      rw [nestingOfItems] at h
      rw [phrases, List.map_cons, Expr.evalItems,
        evalAt_phrase host scope item (depth + 1) (fun x hx => hfinite x (List.mem_append_left _ hx)) (by omega),
        evalItems_phrases host scope items depth (fun x hx => hfinite x (List.mem_append_right _ hx)) (by omega),
        pure_bind, pure_bind]
      rfl

theorem evalEntries_properties {σ : Type} (host : Host σ) (scope : Fields Value) (entries : List (String × Json))
    (depth : Nat) (hfinite : AllFinite (doublesOfEntries entries))
    (h : depth + nestingOfEntries entries ≤ maxNesting) :
    Expr.evalEntries host scope (depth + 1) ((properties entries).map Grammar.Property.entry) =
      pure (readingsOfEntries entries) := by
  cases entries with
  | nil => rfl
  | cons entry entries =>
      obtain ⟨key, value⟩ := entry
      rw [nestingOfEntries] at h
      rw [properties, List.map_cons, Grammar.Property.entry, Expr.evalEntries,
        evalAt_phrase host scope value (depth + 1) (fun x hx => hfinite x (List.mem_append_left _ hx)) (by omega),
        evalEntries_properties host scope entries depth (fun x hx => hfinite x (List.mem_append_right _ hx))
          (by omega),
        pure_bind, pure_bind]
      rfl

end

-- The text of a JSON value is read as this expression.
theorem parse_compact {json : Json} (hfinite : json.Finite) (htokens : (lex json.compact).1.length ≤ maxTokens) :
    ∃ e, parse json.compact = .ok e ∧ e.erase = json.phrase.tree := by
  have hreads := reads_write json 0 hfinite ends_nil reads_nil
  rw [List.append_nil, List.append_nil] at hreads
  obtain ⟨hmap, hfailure⟩ := hreads 0
  have htext : json.compact.toList = Printer.write .compact 0 json := String.toList_ofList
  rw [← htext] at hmap hfailure
  have hderives := derives_phrase json
  rw [← hmap] at hderives
  obtain ⟨last, e, hread, hfinish, htree⟩ := Parser.exists_finish_of_derives hderives
  exact ⟨e, parse_eq_ok_iff.mpr ⟨_, last, Prod.ext rfl hfailure, htokens, hread, hfinish⟩, htree⟩

theorem evaluate_compact {σ : Type} (host : Host σ) (scope : Fields Value) {json : Json} (hfinite : json.Finite)
    (htokens : (lex json.compact).1.length ≤ maxTokens) (hnesting : json.nesting ≤ maxNesting) :
    evaluate host scope json.compact = pure json.reading := by
  obtain ⟨e, hparse, htree⟩ := parse_compact hfinite htokens
  have hvalue := evalAt_phrase host scope json 0 hfinite (by omega)
  rw [← htree, Expr.erase, Expr.evalAt_map] at hvalue
  rw [evaluate, hparse]
  exact hvalue

-- A text without characters that JSON text escapes and expressions do not know.
def Kept (text : String) : Prop := ∀ c ∈ text.toList, c ≠ '\x08' ∧ c ≠ '\x0c'

instance : DecidablePred Kept := fun text => List.decidableBAll _ text.toList

theorem reread_eq_iff (c : Char) : reread c = c ↔ c ≠ '\x08' ∧ c ≠ '\x0c' := by
  rw [reread]
  split_ifs with hback hfeed
  · subst hback
    decide
  · subst hfeed
    decide
  · exact iff_of_true rfl ⟨hback, hfeed⟩

theorem rereadText_eq_iff (s : String) : rereadText s = s ↔ Kept s := by
  have hmap := @List.map_inj_left _ _ s.toList reread id
  rw [List.map_id] at hmap
  rw [rereadText, ← String.toList_inj, String.toList_ofList, hmap]
  exact forall₂_congr fun c _ => reread_eq_iff c

theorem kept_rereadText (s : String) : Kept (rereadText s) := by
  intro c hc
  rw [rereadText, String.toList_ofList] at hc
  obtain ⟨d, -, rfl⟩ := List.mem_map.mp hc
  rw [reread]
  split_ifs with hback hfeed
  · decide
  · decide
  · exact ⟨hback, hfeed⟩

theorem keys_readingsOfEntries (entries : List (String × Json)) :
    Fields.keys (readingsOfEntries entries) = (Fields.keys entries).map rereadText := by
  induction entries with
  | nil => rfl
  | cons entry entries ih => exact congrArg (rereadText entry.1 :: ·) ih

-- Keys that are read as others do not come back.
theorem ofList_readings_eq_iff {entries : List (String × Json)} (hkeys : (Fields.keys entries).Nodup) :
    Fields.ofList (readingsOfEntries entries) = Value.entriesOfJson entries ↔
      readingsOfEntries entries = Value.entriesOfJson entries := by
  constructor
  · intro h
    have hkept : ∀ key ∈ Fields.keys entries, rereadText key = key := by
      intro key hmem
      rw [← Value.keys_entriesOfJson, ← h] at hmem
      obtain ⟨entry, hentry, rfl⟩ := List.mem_map.mp hmem
      have hread : entry.1 ∈ Fields.keys (readingsOfEntries entries) :=
        List.mem_map_of_mem (Fields.mem_of_mem_ofList hentry)
      rw [keys_readingsOfEntries] at hread
      obtain ⟨other, -, hother⟩ := List.mem_map.mp hread
      rw [rereadText_eq_iff, ← hother]
      exact kept_rereadText other
    have hsame : Fields.keys (readingsOfEntries entries) = Fields.keys entries := by
      rw [keys_readingsOfEntries, List.map_congr_left hkept, List.map_id']
    rwa [Fields.ofList_of_nodup (hsame ▸ hkeys)] at h
  · intro h
    rw [h, Fields.ofList_of_nodup (Value.keys_entriesOfJson entries ▸ hkeys)]

mutual

-- A JSON value and its reading are the same value if all texts in it are kept, and only then.
theorem reading_eq_iff (json : Json) (hjson : json.WellFormed) :
    json.reading = Value.ofJson json ↔ ∀ text ∈ json.texts, Kept text := by
  cases json with
  | null | bool | integer | double => exact iff_of_true rfl (List.forall_mem_nil _)
  | string s =>
      rw [reading, Value.ofJson, texts, List.forall_mem_singleton, ← rereadText_eq_iff, Value.string.injEq]
  | array items =>
      rw [reading, Value.ofJson, texts, ← readings_eq_iff items fun _ hmem => hjson.item hmem, Value.array.injEq]
  | object entries =>
      rw [reading, Value.ofJson, texts, Value.object.injEq, ofList_readings_eq_iff hjson.keys_nodup]
      exact readingsOfEntries_eq_iff entries fun _ hmem => hjson.entry hmem

theorem readings_eq_iff (items : List Json) (hitems : ∀ item ∈ items, item.WellFormed) :
    readings items = Value.itemsOfJson items ↔ ∀ text ∈ textsOfItems items, Kept text := by
  cases items with
  | nil => exact iff_of_true rfl (List.forall_mem_nil _)
  | cons item items =>
      rw [readings, Value.itemsOfJson, textsOfItems, List.forall_mem_append, List.cons.injEq,
        reading_eq_iff item (hitems item List.mem_cons_self),
        readings_eq_iff items fun other hmem => hitems other (List.mem_cons_of_mem _ hmem)]

theorem readingsOfEntries_eq_iff (entries : List (String × Json))
    (hentries : ∀ entry ∈ entries, entry.2.WellFormed) :
    readingsOfEntries entries = Value.entriesOfJson entries ↔ ∀ text ∈ textsOfEntries entries, Kept text := by
  cases entries with
  | nil => exact iff_of_true rfl (List.forall_mem_nil _)
  | cons entry entries =>
      obtain ⟨key, value⟩ := entry
      rw [readingsOfEntries, Value.entriesOfJson, textsOfEntries, List.cons_append, List.forall_mem_cons,
        List.forall_mem_append, List.cons.injEq, Prod.mk.injEq, rereadText_eq_iff, and_assoc,
        reading_eq_iff value (hentries (key, value) List.mem_cons_self),
        readingsOfEntries_eq_iff entries fun other hmem => hentries other (List.mem_cons_of_mem _ hmem)]

end

-- JSON text that is not too long and not too deep is an expression that gives a value, whatever the
-- scope. It gives the JSON value itself unless a text or a key has a backspace or a form feed, as the
-- escapes of these are no escapes of expressions.
theorem evaluate_compact_iff {σ : Type} (host : Host σ) (scope : Fields Value) (json : Json) (s : σ)
    (hjson : json.WellFormed) (hfinite : json.Finite) (htokens : (lex json.compact).1.length ≤ 2048)
    (hnesting : json.nesting ≤ maxNesting) :
    (∃ value, (evaluate host scope json.compact).run.run s = (.ok value, s)) ∧
      ((evaluate host scope json.compact).run.run s = (.ok (Value.ofJson json), s) ↔
        ∀ text ∈ json.texts, Kept text) := by
  rw [evaluate_compact host scope hfinite htokens hnesting, ← reading_eq_iff json hjson]
  refine ⟨⟨json.reading, rfl⟩, ?_⟩
  constructor
  · intro h
    exact Except.ok.inj (Prod.mk.inj h).1
  · intro h
    rw [← h]
    rfl

-- A backspace is written as an escape that is read as a letter.
theorem not_forall_evaluate_compact :
    ¬∀ (scope : Fields Value) (json : Json), json.WellFormed → json.Finite →
      (lex json.compact).1.length ≤ 2048 → json.nesting ≤ maxNesting →
      (evaluate idleHost scope json.compact).run.run () = (.ok (Value.ofJson json), ()) := by
  intro h
  have hvalue : (evaluate idleHost [] (string "\x08").compact).run.run () = (.ok (.string "b"), ()) := rfl
  have hclaimed := h [] (string "\x08") (wellFormed_of_flat (by simp) (by simp)) (List.forall_mem_nil _)
    (by decide) (by decide)
  rw [hvalue] at hclaimed
  exact absurd (Value.string.inj (Except.ok.inj (Prod.mk.inj hclaimed).1)) (by decide)

-- Other escapes, a sign and nested values are read as they were meant.
def quotable : Json := .object [("a\"\n", .array [.integer (-1), .string "\x01\\"])]

theorem evaluate_compact_of_quotable :
    quotable.compact = "\x7b\"a\\\"\\n\":[-1,\"\\u0001\\\\\"]\x7d" ∧
      (evaluate idleHost [] quotable.compact).run.run () = (.ok (Value.ofJson quotable), ()) := by
  have hjson : quotable.WellFormed := by
    refine wellFormed_object_iff.mpr ⟨List.pairwise_singleton _ _, List.forall_mem_singleton.mpr ?_⟩
    refine wellFormed_array_iff.mpr (List.forall_mem_cons.mpr ⟨?_, List.forall_mem_singleton.mpr ?_⟩)
    · exact wellFormed_of_flat (by simp) (by simp)
    · exact wellFormed_of_flat (by simp) (by simp)
  refine ⟨by decide, ?_⟩
  exact (evaluate_compact_iff idleHost [] quotable () hjson (List.forall_mem_nil _) (by decide +kernel)
    (by decide)).2.mpr (by decide)

end Json

end JsonTemplate
