import JsonTemplate.Json.Basic
import JsonTemplate.Text.Search

namespace JsonTemplate.Json

namespace Pointer

-- A step as it was before it was written: ~1 becomes a slash, and after that ~0 a tilde.
def readStep (written : List Char) : String :=
  String.ofList (Text.replaceAll ['~', '0'] ['~'] (Text.replaceAll ['~', '1'] ['/'] written))

-- The pointer that a text writes, if it writes one.
def parse? (text : String) : Option Pointer :=
  match text.toList with
  | [] => some root
  | '/' :: steps => some ((steps.splitOn '/').map readStep)
  | _ => none

theorem slash_not_mem_escape (step : List Char) : '/' ∉ step.flatMap escape := by
  intro hmem
  obtain ⟨c, -, hc⟩ := List.mem_flatMap.mp hmem
  rw [escape] at hc
  split at hc
  · simp at hc
  · split at hc
    · simp at hc
    · rename_i hslash
      exact hslash (List.mem_singleton.mp hc).symm

-- Reading the slashes of a step leaves its tildes as they were written.
theorem replaceAll_slash (step : List Char) :
    Text.replaceAll ['~', '1'] ['/'] (step.flatMap escape) =
      step.flatMap fun c => if c = '~' then ['~', '0'] else [c] := by
  induction step with
  | nil => exact Text.replaceAll_nil
  | cons c step ih =>
      rw [List.flatMap_cons, List.flatMap_cons, escape]
      by_cases htilde : c = '~'
      · simp only [if_pos htilde, List.cons_append, List.nil_append]
        rw [Text.replaceAll_cons (by rfl), Text.replaceAll_cons (by rfl), ih]
      · by_cases hslash : c = '/'
        · simp only [if_neg htilde, if_pos hslash]
          rw [Text.replaceAll_append (by simp), ih, hslash]
        · simp only [if_neg htilde, if_neg hslash, List.cons_append, List.nil_append]
          rw [Text.replaceAll_cons (by simp [Text.dropPrefix?, Ne.symm htilde]), ih]

theorem replaceAll_tilde (step : List Char) :
    Text.replaceAll ['~', '0'] ['~'] (step.flatMap fun c => if c = '~' then ['~', '0'] else [c]) = step := by
  induction step with
  | nil => exact Text.replaceAll_nil
  | cons c step ih =>
      rw [List.flatMap_cons]
      by_cases htilde : c = '~'
      · rw [if_pos htilde, Text.replaceAll_append (by simp), ih, htilde]
        rfl
      · rw [if_neg htilde, List.cons_append, List.nil_append,
          Text.replaceAll_cons (by simp [Text.dropPrefix?, Ne.symm htilde]), ih]

theorem readStep_escape (step : String) : readStep (step.toList.flatMap escape) = step := by
  rw [readStep, replaceAll_slash, replaceAll_tilde, String.ofList_toList]

theorem toList_text (step : String) (pointer : Pointer) :
    (text (step :: pointer)).toList =
      '/' :: ['/'].intercalate ((step :: pointer).map fun step => step.toList.flatMap escape) := by
  rw [text, String.toList_ofList]
  induction pointer generalizing step with
  | nil => simp
  | cons next pointer ih =>
      rw [List.flatMap_cons, ih next]
      simp [List.intercalate]

-- Every pointer is read back from its text.
theorem parse?_text (pointer : Pointer) : parse? pointer.text = some pointer := by
  cases pointer with
  | nil => rfl
  | cons step pointer =>
      rw [parse?, toList_text]
      simp only [Option.some.injEq]
      rw [List.splitOn_intercalate]
      · rw [List.map_map]
        exact List.map_id'' readStep_escape _
      · intro written hmem
        obtain ⟨step, -, rfl⟩ := List.mem_map.mp hmem
        exact slash_not_mem_escape step.toList
      · simp

end Pointer

-- A pointer leads from a value to one of its nodes. Items are counted from zero.
inductive Leads : Json → Pointer → Json → Prop
  | here {node : Json} : Leads node [] node
  | entry {entries : List (String × Json)} {key : String} {child node : Json} {pointer : Pointer}
      (hmem : (key, child) ∈ entries) (hin : Leads child pointer node) :
      Leads (.object entries) (key :: pointer) node
  | item {items : List Json} {position : Nat} {child node : Json} {pointer : Pointer}
      (hget : items[position]? = some child) (hin : Leads child pointer node) :
      Leads (.array items) (Nat.repr position :: pointer) node

theorem repr_injective {m n : Nat} (h : Nat.repr m = Nat.repr n) : m = n := by
  have hdigits : Nat.toDigits 10 m = Nat.toDigits 10 n := by
    rw [← Nat.toList_repr, ← Nat.toList_repr, h]
  rw [← @Nat.ofDigitChars_ten_toDigits m, ← @Nat.ofDigitChars_ten_toDigits n, hdigits]

end JsonTemplate.Json
