import JsonTemplate.Expr.Lexer
import Mathlib.Computability.Language

namespace JsonTemplate.Lexer

open scoped Computability

section

variable {p : Char → Prop} {text : List Char}

-- The texts of one character of a kind.
def one (p : Char → Prop) : Language Char := {text | ∃ c, p c ∧ text = [c]}

theorem mem_one_iff : text ∈ one p ↔ ∃ c, p c ∧ text = [c] := Iff.rfl

theorem mem_one_star_iff : text ∈ (one p)∗ ↔ ∀ c ∈ text, p c := by
  rw [Language.mem_kstar]
  constructor
  · rintro ⟨parts, rfl, hparts⟩ c hc
    obtain ⟨part, hmem, hc⟩ := List.mem_flatten.mp hc
    obtain ⟨d, hd, rfl⟩ := hparts part hmem
    cases List.mem_singleton.mp hc
    exact hd
  · intro h
    refine ⟨text.map ([·]), (List.flatMap_singleton' text).symm, fun part hmem => ?_⟩
    obtain ⟨c, hc, rfl⟩ := List.mem_map.mp hmem
    exact ⟨c, h c hc, rfl⟩

-- A character of a kind, and what follows it.
theorem mem_one_mul_iff {l : Language Char} : text ∈ one p * l ↔ ∃ c rest, p c ∧ rest ∈ l ∧ text = c :: rest := by
  rw [Language.mem_mul]
  constructor
  · rintro ⟨_, ⟨c, hc, rfl⟩, rest, hrest, rfl⟩
    exact ⟨c, rest, hc, hrest, rfl⟩
  · rintro ⟨c, rest, hc, hrest, rfl⟩
    exact ⟨[c], ⟨c, hc, rfl⟩, rest, hrest, rfl⟩

end

-- One or more digits.
def digitTexts : Language Char := one (·.isDigit) * (one (·.isDigit))∗

-- A point with digits after it.
def fractions : Language Char := one (· = '.') * digitTexts

-- An exponent mark, a sign or none, and digits.
def exponents : Language Char :=
  one (fun c => c = 'e' ∨ c = 'E') * ((1 + one fun c => c = '+' ∨ c = '-') * digitTexts)

-- Ordinary characters and escapes. There is no escape of a line feed.
def bodies (quote : Char) : Language Char :=
  (one (fun c => c ≠ quote ∧ c ≠ '\\') + one (· = '\\') * one (· ≠ '\n'))∗

inductive Quote where
  | double
  | single
deriving DecidableEq, Repr

def Quote.char : Quote → Char
  | double => '"'
  | single => '\''

-- The rules by which texts are tokens.
inductive Rule where
  | keyword (word : Keyword)
  | symbol (symbol : Symbol)
  | name
  | string (quote : Quote)
  -- A numeral that begins with a digit.
  | numeral
  -- A numeral that begins with its point.
  | pointed
deriving DecidableEq, Repr

namespace Rule

def language : Rule → Language Char
  | .keyword k => {k.text.toList}
  | .symbol s => {s.text.toList}
  | name =>
      one (fun c => c.isAlpha ∨ c = '_' ∨ c = '$') * (one fun c => c.isAlpha ∨ c.isDigit ∨ c = '_' ∨ c = '$')∗
  | string quote => one (· = quote.char) * (bodies quote.char * one (· = quote.char))
  | numeral => digitTexts * ((1 + fractions) * (1 + exponents))
  | pointed => fractions

-- The token that a text of the rule is. The text of a string is what stands between its quotes.
def token? (rule : Rule) (text : List Char) : Option Token :=
  match rule with
  | .keyword k => some (.keyword k)
  | .symbol s => some (.symbol s)
  | name => some (.name (String.ofList text))
  | string _ => (unescape? (text.drop 1).dropLast).map fun inner => .string (String.ofList inner)
  | numeral | pointed => (Number.Numeral.read? text).map .number

end Rule

variable {text : List Char}

theorem mem_digitTexts_iff : text ∈ digitTexts ↔ text ≠ [] ∧ ∀ c ∈ text, c.isDigit = true := by
  rw [digitTexts, mem_one_mul_iff]
  simp only [mem_one_star_iff]
  cases text with
  | nil => simp
  | cons c rest => simp

theorem mem_fractions_iff : text ∈ fractions ↔ ∃ ds ∈ digitTexts, text = '.' :: ds := by
  simp [fractions, mem_one_mul_iff]

theorem mem_exponents_iff :
    text ∈ exponents ↔ ∃ mark sign ds, (mark = 'e' ∨ mark = 'E') ∧ (sign = [] ∨ sign = ['+'] ∨ sign = ['-']) ∧
      ds ∈ digitTexts ∧ text = mark :: (sign ++ ds) := by
  simp only [exponents, mem_one_mul_iff]
  simp only [Language.mem_mul, Language.mem_add, Language.mem_one, mem_one_iff]
  constructor
  · rintro ⟨mark, _, hmark, ⟨sign, hsign, ds, hds, rfl⟩, rfl⟩
    refine ⟨mark, sign, ds, hmark, hsign.imp_right ?_, hds, rfl⟩
    rintro ⟨c, rfl | rfl, rfl⟩
    · exact .inl rfl
    · exact .inr rfl
  · rintro ⟨mark, sign, ds, hmark, hsign, hds, rfl⟩
    refine ⟨mark, _, hmark, ⟨sign, hsign.imp_right ?_, ds, hds, rfl⟩, rfl⟩
    rintro (rfl | rfl)
    · exact ⟨'+', .inl rfl, rfl⟩
    · exact ⟨'-', .inr rfl, rfl⟩

theorem startsName_iff {c : Char} : startsName c = true ↔ c.isAlpha ∨ c = '_' ∨ c = '$' := by
  simp [startsName, or_assoc]

theorem continuesName_iff {c : Char} :
    continuesName c = true ↔ c.isAlpha ∨ c.isDigit ∨ c = '_' ∨ c = '$' := by
  simp only [continuesName, Bool.or_eq_true, startsName_iff]
  tauto

theorem mem_name_iff :
    text ∈ Rule.name.language ↔
      ∃ c rest, startsName c = true ∧ (∀ d ∈ rest, continuesName d = true) ∧ text = c :: rest := by
  simp only [Rule.language, mem_one_mul_iff, mem_one_star_iff, startsName_iff, continuesName_iff]

theorem mem_string_iff {quote : Quote} :
    text ∈ (Rule.string quote).language ↔
      ∃ body ∈ bodies quote.char, text = quote.char :: (body ++ [quote.char]) := by
  simp only [Rule.language, mem_one_mul_iff]
  simp only [Language.mem_mul, mem_one_iff]
  constructor
  · rintro ⟨_, _, rfl, ⟨body, hbody, _, ⟨_, rfl, rfl⟩, rfl⟩, rfl⟩
    exact ⟨body, hbody, rfl⟩
  · rintro ⟨body, hbody, rfl⟩
    exact ⟨_, _, rfl, ⟨body, hbody, _, ⟨_, rfl, rfl⟩, rfl⟩, rfl⟩

end JsonTemplate.Lexer
