import JsonTemplate.Proofs.Expr.LongestMatch

namespace JsonTemplate.Lexer

-- A scan has found the longest match, or there is none.
inductive Scanned (text : List Char) (found : Scan) : Prop
  | matched {rule : Rule} (h : LongestMatch text rule (text.take found.length))
      (htoken : found.token = rule.token? (text.take found.length))
  | unmatched (h : ∀ (rule : Rule) (part : List Char), part <+: text → part ∉ rule.language)
      (htoken : found.token = none)

variable {c : Char} {rest : List Char}

theorem length_le_takeWhile {p : Char → Bool} {part : List Char} (hpart : ∀ d ∈ part, p d = true)
    (hbegins : part <+: rest) : part.length ≤ (rest.takeWhile p).length := by
  obtain ⟨after, rfl⟩ := hbegins
  rw [List.takeWhile_append_of_pos hpart, List.length_append]
  exact Nat.le_add_right _ _

-- A keyword would also do as a name.
theorem mem_name_of_mem_keyword {k : Keyword} {text : List Char} (h : text ∈ (Rule.keyword k).language) :
    text ∈ Rule.name.language := by
  cases h
  rw [mem_name_iff]
  cases k with
  | true => exact ⟨'t', ['r', 'u', 'e'], rfl, List.all_eq_true.mp rfl, rfl⟩
  | false => exact ⟨'f', ['a', 'l', 's', 'e'], rfl, List.all_eq_true.mp rfl, rfl⟩
  | null => exact ⟨'n', ['u', 'l', 'l'], rfl, List.all_eq_true.mp rfl, rfl⟩
  | undefined => exact ⟨'u', ['n', 'd', 'e', 'f', 'i', 'n', 'e', 'd'], rfl, List.all_eq_true.mp rfl, rfl⟩

theorem word_eq (text : List Char) :
    (∃ k : Keyword, text = k.text.toList ∧ word text = .keyword k) ∨
      (∀ k : Keyword, text ≠ k.text.toList) ∧ word text = .name (String.ofList text) := by
  unfold word
  split_ifs with htrue hfalse hnull hundefined
  · exact .inl ⟨.true, htrue, rfl⟩
  · exact .inl ⟨.false, hfalse, rfl⟩
  · exact .inl ⟨.null, hnull, rfl⟩
  · exact .inl ⟨.undefined, hundefined, rfl⟩
  · refine .inr ⟨fun k => ?_, rfl⟩
    cases k
    · exact htrue
    · exact hfalse
    · exact hnull
    · exact hundefined

section

variable {rule : Rule}

theorem not_starts_of_symbol {s : Symbol} (h : (Rule.symbol s).Opens c) :
    startsName c = false ∧ c.isDigit = false ∧ c ≠ '"' ∧ c ≠ '\'' := by
  cases s <;> cases h <;> decide

theorem not_starts_of_quote (quote : Quote) :
    startsName quote.char = false ∧ quote.char.isDigit = false ∧ quote.char ≠ '.' ∧ quote.char ≠ '\\' := by
  cases quote <;> decide

theorem not_starts_of_digit (h : c.isDigit = true) : startsName c = false ∧ c ≠ '"' ∧ c ≠ '\'' ∧ c ≠ '.' := by
  obtain ⟨-, hname, hquote⟩ := digit_starts_numeral h
  simp only [Bool.or_eq_false_iff, decide_eq_false_iff_not] at hquote
  refine ⟨hname, hquote.1, hquote.2, ?_⟩
  rintro rfl
  cases h

-- Which rules a character leaves.
theorem eq_of_opens_of_startsName (hc : startsName c = true) (h : rule.Opens c) :
    (∃ k, rule = .keyword k) ∨ rule = .name := by
  cases rule with
  | keyword k => exact .inl ⟨k, rfl⟩
  | name => exact .inr rfl
  | symbol s => simp [(not_starts_of_symbol h).1] at hc
  | string quote => cases h; simp [(not_starts_of_quote quote).1] at hc
  | numeral => simp [(not_starts_of_digit h).1] at hc
  | pointed => cases h; cases hc

theorem eq_of_opens_quote {quote : Quote} (h : rule.Opens quote.char) : rule = .string quote := by
  obtain ⟨hname, hdigit, hpoint, -⟩ := not_starts_of_quote quote
  cases rule with
  | keyword | name => exact absurd h (by simp [Rule.Opens, hname])
  | symbol s =>
      obtain ⟨-, -, hdouble, hsingle⟩ := not_starts_of_symbol h
      cases quote
      · exact absurd rfl hdouble
      · exact absurd rfl hsingle
  | string other => cases quote <;> cases other <;> first | rfl | cases h
  | numeral => exact absurd h (by simp [Rule.Opens, hdigit])
  | pointed => exact absurd h hpoint

theorem eq_of_opens_other (hname : startsName c = false) (hquote : ∀ quote : Quote, c ≠ quote.char)
    (h : rule.Opens c) : (∃ s, rule = .symbol s) ∨ rule = .numeral ∨ rule = .pointed := by
  cases rule with
  | keyword | name => exact absurd h (by simp [Rule.Opens, hname])
  | symbol s => exact .inl ⟨s, rfl⟩
  | string quote => exact absurd h (hquote quote)
  | numeral => exact .inr (.inl rfl)
  | pointed => exact .inr (.inr rfl)

end

theorem scanned_word (hc : startsName c = true) : Scanned (c :: rest) (scan (c :: rest)) := by
  have hslice : (c :: rest).take (c :: rest.takeWhile continuesName).length = c :: rest.takeWhile continuesName :=
    (List.prefix_iff_eq_take.mp (List.cons_prefix_cons.mpr ⟨rfl, List.takeWhile_prefix _⟩)).symm
  have hname : c :: rest.takeWhile continuesName ∈ Rule.name.language :=
    mem_name_iff.mpr ⟨c, _, hc, fun d hd => List.mem_takeWhile_imp hd, rfl⟩
  have hlongest (other : Rule) (part : List Char) (hbegins : part <+: c :: rest) (hpart : part ∈ other.language) :
      part.length ≤ (c :: rest.takeWhile continuesName).length := by
    have hmem : part ∈ Rule.name.language := by
      rcases eq_of_opens_of_startsName hc (opens_of_mem hbegins hpart).1 with ⟨k, rfl⟩ | rfl
      · exact mem_name_of_mem_keyword hpart
      · exact hpart
    obtain ⟨d, after, -, hafter, rfl⟩ := mem_name_iff.mp hmem
    exact Nat.succ_le_succ (length_le_takeWhile hafter (List.cons_prefix_cons.mp hbegins).2)
  rw [scan, if_pos hc]
  rcases word_eq (c :: rest.takeWhile continuesName) with ⟨k, hk, hword⟩ | ⟨hk, hword⟩
  · have hmatch : LongestMatch (c :: rest) (.keyword k) (c :: rest.takeWhile continuesName) :=
      ⟨hslice ▸ List.take_prefix _ _, hk, hlongest, by simp⟩
    rw [← hslice] at hmatch
    exact .matched hmatch (congrArg some hword)
  · have hmatch : LongestMatch (c :: rest) .name (c :: rest.takeWhile continuesName) :=
      ⟨hslice ▸ List.take_prefix _ _, hname, hlongest, fun _ => hk⟩
    rw [← hslice] at hmatch
    refine .matched hmatch ?_
    simp only [hslice, hword]
    rfl

theorem scanned_string (quote : Quote) : Scanned (quote.char :: rest) (scan (quote.char :: rest)) := by
  obtain ⟨hname, -, -, hbackslash⟩ := not_starts_of_quote quote
  have hmark : (quote.char = '"' || quote.char = '\'') = true := by cases quote <;> rfl
  have hpart {rule : Rule} {part : List Char} (hbegins : part <+: quote.char :: rest)
      (hmem : part ∈ rule.language) :
      rule = .string quote ∧ ∃ body, part = quote.char :: (body ++ [quote.char]) ∧
        stringExtent quote.char rest = (body.length, true) := by
    obtain rfl := eq_of_opens_quote (opens_of_mem hbegins hmem).1
    obtain ⟨body, hbody, rfl⟩ := mem_string_iff.mp hmem
    obtain ⟨after, hafter⟩ := (List.cons_prefix_cons.mp hbegins).2
    rw [List.append_assoc, List.singleton_append] at hafter
    refine ⟨rfl, body, rfl, ?_⟩
    rw [← hafter]
    exact stringExtent_append hbackslash hbody after
  rw [scan, if_neg (by simp [hname]), if_pos hmark, scanString]
  rcases hextent : stringExtent quote.char rest with ⟨n, _ | _⟩
  · refine .unmatched (fun rule part hbegins hmem => ?_) rfl
    obtain ⟨-, body, -, hclosed⟩ := hpart hbegins hmem
    rw [hextent] at hclosed
    cases hclosed
  · obtain ⟨body, after, hbody, rfl, rfl⟩ := exists_body_of_stringExtent hextent
    have hslice : (quote.char :: (body ++ quote.char :: after)).take (body.length + 2) =
        quote.char :: (body ++ [quote.char]) := by
      rw [List.take_succ_cons, List.take_length_add_append]
      rfl
    have hmatch : LongestMatch (quote.char :: (body ++ quote.char :: after)) (.string quote)
        (quote.char :: (body ++ [quote.char])) := by
      refine ⟨hslice ▸ List.take_prefix _ _, mem_string_iff.mpr ⟨body, hbody, rfl⟩, ?_, by simp⟩
      intro other part hbegins hmem
      obtain ⟨-, body', rfl, hlength⟩ := hpart hbegins hmem
      have heq : body.length = body'.length := (Prod.mk.inj (hextent.symm.trans hlength)).1
      simp [heq]
    rw [← hslice] at hmatch
    refine .matched hmatch ?_
    simp only [hslice, List.take_left, if_true]
    simp [Rule.token?]

-- A mark that begins a numeral is the point alone.
theorem length_symbol_le_numeralLength {s : Symbol} (hlength : numeralLength (c :: rest) ≠ 0)
    (hbegins : s.text.toList <+: c :: rest) : s.text.toList.length ≤ numeralLength (c :: rest) := by
  have hopens : (Rule.symbol s).Opens c := (opens_of_mem hbegins (Set.mem_singleton _)).1
  rcases take_numeralLength_mem hlength with hmem | hmem
  · have hdigit : c.isDigit = true := (opens_of_mem (List.take_prefix _ _) hmem).1
    rw [(not_starts_of_symbol hopens).2.1] at hdigit
    cases hdigit
  · have hpoint : c = '.' := (opens_of_mem (List.take_prefix _ _) hmem).1
    have hone : s.text.toList.length = 1 := by
      rw [hpoint] at hopens
      cases s <;> first | rfl | cases hopens
    omega

theorem not_mark (hquote : ∀ quote : Quote, c ≠ quote.char) : ¬(c = '"' || c = '\'') = true := by
  simpa using ⟨hquote .double, hquote .single⟩

section

variable (hname : startsName c = false) (hquote : ∀ quote : Quote, c ≠ quote.char)

include hname hquote

-- What other texts can be tokens than names and strings.
theorem length_le_of_mem_other {rule : Rule} {part : List Char} (hbegins : part <+: c :: rest)
    (hmem : part ∈ rule.language) :
    part.length ≤ numeralLength (c :: rest) ∨ ∃ s, rule = .symbol s ∧ part = s.text.toList := by
  obtain ⟨after, hafter⟩ := hbegins
  rw [← hafter]
  rcases eq_of_opens_other hname hquote (opens_of_mem ⟨after, hafter⟩ hmem).1 with ⟨s, rfl⟩ | rfl | rfl
  · exact .inr ⟨s, rfl, hmem⟩
  · exact .inl (length_le_numeralLength hmem after)
  · exact .inl (length_le_numeralLength_of_pointed hmem after)

theorem scanned_numeral (hlength : numeralLength (c :: rest) ≠ 0) : Scanned (c :: rest) (scan (c :: rest)) := by
  have hlongest (other : Rule) (part : List Char) (hbegins : part <+: c :: rest) (hmem : part ∈ other.language) :
      part.length ≤ ((c :: rest).take (numeralLength (c :: rest))).length := by
    rw [List.length_take]
    refine le_min ?_ hbegins.length_le
    rcases length_le_of_mem_other hname hquote hbegins hmem with hle | ⟨s, rfl, rfl⟩
    · exact hle
    · exact length_symbol_le_numeralLength hlength hbegins
  rw [scan, if_neg (by simp [hname]), if_neg (not_mark hquote), if_pos hlength]
  rcases take_numeralLength_mem hlength with hmem | hmem
  · exact .matched ⟨List.take_prefix _ _, hmem, hlongest, by simp⟩ rfl
  · exact .matched ⟨List.take_prefix _ _, hmem, hlongest, by simp⟩ rfl

theorem scanned_symbol (hlength : numeralLength (c :: rest) = 0) : Scanned (c :: rest) (scan (c :: rest)) := by
  have hsymbol {rule : Rule} {part : List Char} (hbegins : part <+: c :: rest) (hmem : part ∈ rule.language) :
      ∃ found n, symbol? (c :: rest) = some (found, n) ∧ part.length ≤ n := by
    rcases length_le_of_mem_other hname hquote hbegins hmem with hle | ⟨s, rfl, rfl⟩
    · obtain ⟨_, _, rfl, -⟩ := exists_cons_of_mem hmem
      rw [hlength] at hle
      cases hle
    · obtain ⟨after, hafter⟩ := hbegins
      rw [← hafter]
      exact exists_symbol?_append s after
  rw [scan, if_neg (by simp [hname]), if_neg (not_mark hquote), if_neg (by simp [hlength])]
  cases hfound : symbol? (c :: rest) with
  | none =>
      refine .unmatched (fun rule part hbegins hmem => ?_) rfl
      obtain ⟨found, n, hsome, -⟩ := hsymbol hbegins hmem
      rw [hfound] at hsome
      cases hsome
  | some found =>
      obtain ⟨symbol, n⟩ := found
      have hslice := take_of_symbol? hfound
      have hmatch : LongestMatch (c :: rest) (.symbol symbol) ((c :: rest).take n) := by
        refine ⟨List.take_prefix _ _, hslice, fun other part hbegins hmem => ?_, by simp⟩
        obtain ⟨_, _, hsome, hle⟩ := hsymbol hbegins hmem
        cases hfound.symm.trans hsome
        rw [List.length_take]
        exact le_min hle hbegins.length_le
      exact .matched hmatch rfl

end

-- Every scan finds the longest match.
theorem scanned (c : Char) (rest : List Char) : Scanned (c :: rest) (scan (c :: rest)) := by
  by_cases hname : startsName c = true
  · exact scanned_word hname
  by_cases hquote : ∃ quote : Quote, c = quote.char
  · obtain ⟨quote, rfl⟩ := hquote
    exact scanned_string quote
  rw [Bool.not_eq_true] at hname
  by_cases hlength : numeralLength (c :: rest) = 0
  · exact scanned_symbol hname (not_exists.mp hquote) hlength
  · exact scanned_numeral hname (not_exists.mp hquote) hlength

theorem LongestMatch.slice_eq {text slice slice' : List Char} {rule rule' : Rule}
    (h : LongestMatch text rule slice) (h' : LongestMatch text rule' slice') : slice = slice' := by
  have hle := h'.longest rule slice h.begins h.mem
  have hge := h.longest rule' slice' h'.begins h'.mem
  exact (List.prefix_of_prefix_length_le h.begins h'.begins hle).eq_of_length (le_antisymm hle hge)

theorem eq_of_text_eq {s s' : Symbol} (h : s.text.toList = s'.text.toList) : s = s' := by
  have hfound (s : Symbol) : (symbol? s.text.toList).map Prod.fst = some s := by cases s <;> rfl
  have hsome := hfound s
  rw [h, hfound s'] at hsome
  exact (Option.some.inj hsome).symm

theorem eq_of_word_eq {k k' : Keyword} (h : k.text.toList = k'.text.toList) : k = k' := by
  have hword (k : Keyword) : word k.text.toList = .keyword k := by cases k <;> rfl
  have hkeyword := hword k
  rw [h, hword k'] at hkeyword
  exact (Token.keyword.inj hkeyword).symm

-- The point alone is no numeral.
theorem not_mem_numeral_of_symbol (s : Symbol) :
    s.text.toList ∉ Rule.numeral.language ∧ s.text.toList ∉ Rule.pointed.language := by
  constructor <;> intro h
  · obtain ⟨c, rest, htext, hdigit⟩ := exists_cons_of_mem h
    cases s <;> cases htext <;> cases hdigit
  · obtain ⟨ds, hds, htext⟩ := mem_fractions_iff.mp h
    have hne := (mem_digitTexts_iff.mp hds).1
    cases s <;> cases htext
    exact hne rfl

theorem not_mem_pointed_of_numeral {text : List Char} (h : text ∈ Rule.numeral.language) :
    text ∉ Rule.pointed.language := by
  obtain ⟨c, rest, rfl, hdigit⟩ := exists_cons_of_mem h
  intro hpointed
  exact (not_starts_of_digit hdigit).2.2.2 (opens_of_mem List.prefix_rfl hpointed).1

-- A text is a token by one rule only.
theorem LongestMatch.rule_eq {text slice : List Char} {rule rule' : Rule} (h : LongestMatch text rule slice)
    (h' : LongestMatch text rule' slice) : rule = rule' := by
  have hmem := h.mem
  have hmem' := h'.mem
  obtain ⟨c, rest, hslice, hopens⟩ := exists_cons_of_mem hmem
  have hopens' : rule'.Opens c := by
    rw [hslice] at hmem'
    exact (opens_of_mem List.prefix_rfl hmem').1
  by_cases hname : startsName c = true
  · rcases eq_of_opens_of_startsName hname hopens with ⟨k, rfl⟩ | rfl <;>
      rcases eq_of_opens_of_startsName hname hopens' with ⟨k', rfl⟩ | rfl
    · exact congrArg _ (eq_of_word_eq (hmem.symm.trans hmem'))
    · exact absurd hmem (h'.keyword rfl k)
    · exact absurd hmem' (h.keyword rfl k')
    · rfl
  by_cases hquote : ∃ quote : Quote, c = quote.char
  · obtain ⟨quote, rfl⟩ := hquote
    rw [eq_of_opens_quote hopens, eq_of_opens_quote hopens']
  rw [Bool.not_eq_true] at hname
  rw [not_exists] at hquote
  rcases eq_of_opens_other hname hquote hopens with ⟨s, rfl⟩ | rfl | rfl <;>
    rcases eq_of_opens_other hname hquote hopens' with ⟨s', rfl⟩ | rfl | rfl
  · exact congrArg _ (eq_of_text_eq (hmem.symm.trans hmem'))
  · exact absurd hmem' (hmem ▸ (not_mem_numeral_of_symbol s).1)
  · exact absurd hmem' (hmem ▸ (not_mem_numeral_of_symbol s).2)
  · exact absurd hmem (hmem' ▸ (not_mem_numeral_of_symbol s').1)
  · rfl
  · exact absurd hmem' (not_mem_pointed_of_numeral hmem)
  · exact absurd hmem (hmem' ▸ (not_mem_numeral_of_symbol s').2)
  · exact absurd hmem (not_mem_pointed_of_numeral hmem')
  · rfl

-- Only a string can have no token.
theorem eq_string_of_token?_eq_none {rule : Rule} {text : List Char} (hmem : text ∈ rule.language)
    (h : rule.token? text = none) : ∃ quote, rule = .string quote := by
  cases rule with
  | keyword | symbol | name => cases h
  | string quote => exact ⟨quote, rfl⟩
  | numeral =>
      obtain ⟨x, hx⟩ := exists_read?_of_mem (.inl hmem)
      simp [Rule.token?, hx] at h
  | pointed =>
      obtain ⟨x, hx⟩ := exists_read?_of_mem (.inr hmem)
      simp [Rule.token?, hx] at h

-- A text that starts a token is not stuck.
theorem LongestMatch.token?_eq_none_iff {text slice : List Char} {rule : Rule} (h : LongestMatch text rule slice) :
    rule.token? slice = none ↔ Stuck text := by
  constructor
  · intro hnone
    obtain ⟨quote, rfl⟩ := eq_string_of_token?_eq_none h.mem hnone
    exact .inr ⟨quote, _, h, hnone⟩
  · rintro (hno | ⟨quote, slice, h', hnone⟩)
    · exact absurd h.mem (hno _ _ h.begins)
    · have hslice := h.slice_eq h'
      rw [← hslice] at h' hnone
      rw [h.rule_eq h']
      exact hnone

-- A scan gives no token exactly where the text starts none.
theorem token_scan_eq_none_iff (c : Char) (rest : List Char) :
    (scan (c :: rest)).token = none ↔ Stuck (c :: rest) := by
  cases scanned c rest with
  | unmatched h htoken => exact iff_of_true htoken (.inl h)
  | @matched rule h htoken =>
      rw [htoken]
      exact h.token?_eq_none_iff

end JsonTemplate.Lexer
