import JsonTemplate.Proofs.Expr.Numerals
import JsonTemplate.Proofs.Expr.Strings

namespace JsonTemplate.Lexer

-- The rule takes a beginning of the text, and no rule takes a longer one. A name is no keyword.
structure LongestMatch (text : List Char) (rule : Rule) (slice : List Char) : Prop where
  begins : slice <+: text
  mem : slice ∈ rule.language
  longest : ∀ (other : Rule) (part : List Char), part <+: text → part ∈ other.language →
    part.length ≤ slice.length
  keyword : rule = .name → ∀ k : Keyword, slice ≠ k.text.toList

-- No rule takes a beginning of the text, or the longest one is a string with an escape that means nothing.
def Stuck (text : List Char) : Prop :=
  (∀ (rule : Rule) (part : List Char), part <+: text → part ∉ rule.language) ∨
    ∃ quote slice, LongestMatch text (.string quote) slice ∧ (Rule.string quote).token? slice = none

-- The character can begin a text of the rule.
def Rule.Opens (rule : Rule) (c : Char) : Prop :=
  match rule with
  | .keyword _ | name => startsName c = true
  | .symbol s => s.text.toList.head? = some c
  | string quote => c = quote.char
  | numeral => c.isDigit = true
  | pointed => c = '.'

theorem exists_cons_of_mem {rule : Rule} {text : List Char} (h : text ∈ rule.language) :
    ∃ c rest, text = c :: rest ∧ rule.Opens c := by
  cases rule with
  | keyword k =>
      cases h
      cases k <;> exact ⟨_, _, rfl, rfl⟩
  | symbol s =>
      cases h
      cases s <;> exact ⟨_, _, rfl, rfl⟩
  | name =>
      obtain ⟨c, rest, hc, -, rfl⟩ := mem_name_iff.mp h
      exact ⟨c, rest, rfl, hc⟩
  | string quote =>
      obtain ⟨body, -, rfl⟩ := mem_string_iff.mp h
      exact ⟨_, _, rfl, rfl⟩
  | numeral =>
      obtain ⟨whole, hwhole, fraction, -, exponent, -, rfl⟩ := mem_numeral_iff.mp h
      obtain ⟨hne, hdigits⟩ := mem_digitTexts_iff.mp hwhole
      obtain ⟨d, whole, rfl⟩ := List.exists_cons_of_ne_nil hne
      exact ⟨d, _, rfl, hdigits d List.mem_cons_self⟩
  | pointed =>
      obtain ⟨ds, -, rfl⟩ := mem_fractions_iff.mp h
      exact ⟨_, _, rfl, rfl⟩

-- A rule that takes a beginning of the text can begin with its first character.
theorem opens_of_mem {rule : Rule} {c : Char} {rest part : List Char} (hbegins : part <+: c :: rest)
    (h : part ∈ rule.language) : rule.Opens c ∧ ∃ after, part = c :: after ∧ after <+: rest := by
  obtain ⟨d, after, rfl, hopens⟩ := exists_cons_of_mem h
  obtain ⟨rfl, hafter⟩ := List.cons_prefix_cons.mp hbegins
  exact ⟨hopens, after, rfl, hafter⟩

theorem take_of_symbol? {text : List Char} {symbol : Symbol} {n : Nat} (h : symbol? text = some (symbol, n)) :
    text.take n = symbol.text.toList := by
  unfold symbol? at h
  split at h <;> cases h <;> rfl

-- The marks that an equals sign would make longer.
theorem symbol?_of_no_equals {rest : List Char} (h : ∀ after, rest ≠ '=' :: after) :
    symbol? ('=' :: '=' :: rest) = some (.eq, 2) ∧ symbol? ('!' :: '=' :: rest) = some (.notEq, 2) ∧
      symbol? ('<' :: rest) = some (.less, 1) ∧ symbol? ('>' :: rest) = some (.greater, 1) ∧
        symbol? ('!' :: rest) = some (.not, 1) := by
  refine ⟨?_, ?_, ?_, ?_, ?_⟩ <;> rw [symbol?]
  · exact h
  · exact h
  · exact h
  · exact h
  · exact fun _ => h _
  · exact h

-- A mark at the beginning of a text is found, or a longer one.
theorem exists_symbol?_append (symbol : Symbol) (rest : List Char) :
    ∃ found n, symbol? (symbol.text.toList ++ rest) = some (found, n) ∧ symbol.text.toList.length ≤ n := by
  by_cases hequals : ∃ after, rest = '=' :: after
  · obtain ⟨after, rfl⟩ := hequals
    cases symbol with
    | not =>
        by_cases hmore : ∃ rest, after = '=' :: rest
        · obtain ⟨rest, rfl⟩ := hmore
          exact ⟨.strictNotEq, 3, rfl, by decide⟩
        · exact ⟨.notEq, 2, (symbol?_of_no_equals (not_exists.mp hmore)).2.1, by decide⟩
    | _ => exact ⟨_, _, rfl, by decide⟩
  · obtain ⟨heq, hnotEq, hless, hgreater, hnot⟩ := symbol?_of_no_equals (not_exists.mp hequals)
    cases symbol with
    | eq => exact ⟨_, _, heq, Nat.le_refl _⟩
    | notEq => exact ⟨_, _, hnotEq, Nat.le_refl _⟩
    | less => exact ⟨_, _, hless, Nat.le_refl _⟩
    | greater => exact ⟨_, _, hgreater, Nat.le_refl _⟩
    | not => exact ⟨_, _, hnot, Nat.le_refl _⟩
    | _ => exact ⟨_, _, rfl, Nat.le_refl _⟩

end JsonTemplate.Lexer
