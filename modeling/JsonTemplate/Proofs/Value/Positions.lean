import JsonTemplate.Proofs.Number.Indices
import JsonTemplate.Proofs.Number.Naturals
import JsonTemplate.Value.Access

namespace JsonTemplate.Value

open Number.Binary64 (HasValue natural?_eq_some_iff)
open Number.Numeral (NamesNatural IsCanonical greatestIndex index?_eq_some_iff namesNatural_repr)

variable {name key : String} {items rest : List Value} {target arg result : Value} {i : Nat}

-- The position that a value names: a natural number, or the text of an index.
def position? : Value → Option Nat
  | number x => Number.Binary64.natural? x
  | string s => Number.Numeral.index? s.toList
  | _ => none

theorem access_of_position? {position : Nat} (h : arg.position? = some position) (name : String)
    (items : List Value) : access name items (arg :: rest) = .ok (itemAt items position) := by
  cases arg with
  | number x | string s =>
      rw [position?] at h
      simp only [access, h]
  | _ => cases h

theorem access_eq_ok_iff : access name items (arg :: rest) = .ok result ↔
    ∃ i, arg.position? = some i ∧ itemAt items i = result := by
  constructor
  · intro h
    cases hposition : arg.position? with
    | some i =>
        rw [access_of_position? hposition] at h
        exact ⟨i, rfl, Except.ok.inj h⟩
    | none =>
        cases arg with
        | number x | string s =>
            rw [position?] at hposition
            simp only [access, hposition] at h
            cases h
        | _ => cases h
  · rintro ⟨i, hposition, rfl⟩
    exact access_of_position? hposition name items

theorem element_of_position? {position : Nat} (h : arg.position? = some position) (items : List Value) :
    (array items).element arg = .ok (itemAt items position) := by
  cases arg with
  | number x =>
      rw [position?] at h
      rw [element, h]
      rfl
  | string s =>
      have hlength : s ≠ "length" := by
        rintro rfl
        cases h
      rw [position?] at h
      change (array items).member s = _
      rw [member, if_neg hlength, h]
      rfl
  | _ => cases h

-- The natural number that a value stands for: the exact value of a double, or a text of digits with an
-- optional plus sign, however large it is.
def Denotes : Value → Nat → Prop
  | number x, i => HasValue x i
  | string s, i => NamesNatural s.toList i
  | _, _ => False

theorem position?_eq_some_iff :
    arg.position? = some i ↔ arg.Denotes i ∧ ∀ s, arg = string s → i ≤ greatestIndex := by
  cases arg with
  | number x => exact natural?_eq_some_iff.trans ⟨fun h => ⟨h, nofun⟩, And.left⟩
  | string s => exact index?_eq_some_iff.trans (and_congr_right fun _ => ⟨fun h _ _ => h, fun h => h s rfl⟩)
  | _ => exact ⟨nofun, fun h => h.1.elim⟩

theorem exists_access_string_iff {s : String} (hs : NamesNatural s.toList i) :
    (∃ result, access name items (string s :: rest) = .ok result) ↔ i ≤ greatestIndex := by
  constructor
  · rintro ⟨_, hresult⟩
    obtain ⟨_, hposition, -⟩ := access_eq_ok_iff.mp hresult
    obtain ⟨hnames, hbound⟩ := index?_eq_some_iff.mp hposition
    exact hs.unique hnames ▸ hbound
  · intro h
    have hposition : (string s).position? = some i := position?_eq_some_iff.mpr ⟨hs, fun _ _ => h⟩
    exact ⟨_, access_of_position? hposition name items⟩

-- A call of an accessor as it is documented: it takes the values that denote a position and no others, and
-- gives the item at the position, or null when it is out of range.
structure Positional (name : String) (items : List Value) (arg : Value) (rest : List Value) : Prop where
  succeeds : (∃ result, access name items (arg :: rest) = .ok result) ↔ ∃ i, arg.Denotes i
  item : ∀ i, arg.Denotes i → access name items (arg :: rest) = .ok (itemAt items i)

theorem positional_iff : Positional name items arg rest ↔
    ∀ s i, arg = string s → NamesNatural s.toList i → i ≤ greatestIndex := by
  constructor
  · rintro h s i rfl hs
    exact (exists_access_string_iff hs).mp (h.succeeds.mpr ⟨i, hs⟩)
  · intro h
    have hposition : ∀ i, arg.Denotes i → arg.position? = some i := by
      intro i hi
      refine position?_eq_some_iff.mpr ⟨hi, ?_⟩
      rintro s rfl
      exact h s i rfl hi
    have hitem : ∀ i, arg.Denotes i → access name items (arg :: rest) = .ok (itemAt items i) :=
      fun i hi => access_of_position? (hposition i hi) name items
    refine ⟨⟨?_, fun ⟨i, hi⟩ => ⟨_, hitem i hi⟩⟩, hitem⟩
    rintro ⟨_, hresult⟩
    obtain ⟨i, hfound, -⟩ := access_eq_ok_iff.mp hresult
    exact ⟨i, (position?_eq_some_iff.mp hfound).1⟩

-- Accessors are as documented but for the texts of numbers beyond the largest index, which they refuse. There
-- they also differ from doubles of the same value, which give null.
theorem access_positional_iff (name : String) (items : List Value) (arg : Value) (rest : List Value) :
    (Positional name items arg rest ↔ ∀ s i, arg = string s → NamesNatural s.toList i → i ≤ greatestIndex) ∧
      ∀ x s i, HasValue x (i : Nat) → NamesNatural s.toList i →
        (access name items (number x :: rest) = access name items (string s :: rest) ↔ i ≤ greatestIndex) := by
  refine ⟨positional_iff, fun x s i hx hs => ?_⟩
  have hnumber : (number x).position? = some i := position?_eq_some_iff.mpr ⟨hx, nofun⟩
  rw [access_of_position? hnumber]
  constructor
  · intro h
    exact (exists_access_string_iff hs).mp ⟨_, h.symm⟩
  · intro h
    have hstring : (string s).position? = some i := position?_eq_some_iff.mpr ⟨hs, fun _ _ => h⟩
    rw [access_of_position? hstring]

theorem access_of_first_position : Positional "$a" [bool true] (string "0") [] ∧
    access "$a" [bool true] [number 0] = access "$a" [bool true] [string "0"] := by
  obtain ⟨hpositional, hforms⟩ := access_positional_iff "$a" [bool true] (string "0") []
  have htext : NamesNatural "0".toList 0 := namesNatural_repr 0
  have hnumber : HasValue 0 (0 : Nat) := natural?_eq_some_iff.mp (by decide +kernel)
  refine ⟨hpositional.mpr ?_, (hforms 0 "0" 0 hnumber htext).mpr (Nat.zero_le _)⟩
  rintro _ i ⟨⟩ hi
  rw [hi.unique htext]
  exact Nat.zero_le _

-- The text 18446744073709551616 denotes a position that is out of range, but is refused.
theorem not_forall_positional : ¬ ∀ name items arg rest, Positional name items arg rest := by
  intro h
  have hbound := positional_iff.mp (h "$a" [bool true] (string (Nat.repr (2 ^ 64))) []) _ _ rfl (namesNatural_repr _)
  exact absurd hbound (by decide)

-- The element of an array or the character of a text at a position, null past the end.
def partAt : Value → Nat → Value
  | array items, i => itemAt items i
  | string s, i => (s.toList[i]?.map fun c => string (String.singleton c)).getD null
  | _, _ => null

inductive IsSequence : Value → Prop
  | ofItems (items : List Value) : IsSequence (array items)
  | ofText (s : String) : IsSequence (string s)

-- A text key means what it should: the decimal form of a position means the part there, and any other text
-- means nothing.
structure IndexedByText (target : Value) (key : String) : Prop where
  decimal : ∀ i, key = Nat.repr i → target.element (string key) = .ok (target.partAt i)
  other : (∀ i, key ≠ Nat.repr i) → target.element (string key) = .ok null

theorem indexedByText_iff (hi : NamesNatural key.toList i) : target.IndexedByText key ↔
    target.element (string key) = .ok (if IsCanonical key.toList then target.partAt i else null) := by
  have hcanonical : IsCanonical key.toList ↔ key = Nat.repr i := hi.isCanonical_iff.trans String.toList_inj
  constructor
  · intro h
    split_ifs with hform
    · exact h.decimal i (hcanonical.mp hform)
    · refine h.other ?_
      rintro j rfl
      exact hform ((namesNatural_repr j).isCanonical_iff.mpr rfl)
  · intro h
    refine ⟨fun j hj => ?_, fun hother => ?_⟩
    · obtain rfl : i = j := hi.unique (hj ▸ namesNatural_repr j)
      rw [h, if_pos (hcanonical.mpr hj)]
    · rw [h, if_neg fun hform => hother i (hcanonical.mp hform)]

namespace IsSequence

variable (h : target.IsSequence)

include h

theorem element_number {x : Float} (hx : HasValue x (i : Nat)) :
    target.element (number x) = .ok (target.partAt i) := by
  rw [← natural?_eq_some_iff] at hx
  cases h with
  | ofItems items =>
      rw [element, hx]
      rfl
  | ofText s =>
      simp only [element, hx]
      rfl

theorem element_of_names (hkey : key ≠ "length") (hi : NamesNatural key.toList i) :
    target.element (string key) =
      .ok (if target.kind = "array" ∧ i ≤ greatestIndex then target.partAt i else null) := by
  cases h with
  | ofItems items =>
      have hkind : (array items).kind = "array" := rfl
      change (array items).member key = _
      rw [member, if_neg hkey, hi.index?_eq]
      simp only [hkind, true_and]
      split_ifs <;> rfl
  | ofText s =>
      have hkind : (string s).kind ≠ "array" := by
        change "string" ≠ "array"
        decide
      change (string s).member key = _
      rw [member, if_neg hkey, if_neg fun hreads => hkind hreads.1]

theorem element_of_nameless (hkey : key ≠ "length") (hnone : ∀ i, ¬ NamesNatural key.toList i) :
    target.element (string key) = .ok null := by
  cases h with
  | ofItems items =>
      change (array items).member key = _
      rw [member, if_neg hkey, Number.Numeral.index?_eq_none hnone]
      rfl
  | ofText s =>
      change (string s).member key = _
      rw [member, if_neg hkey]

end IsSequence

-- Doubles index as they should. Text keys do so apart from two cases: the characters of a text are not found by
-- the text of their position, and the elements of an array are found by signed and padded texts as well.
theorem element_sequence_iff (target : Value) (key : String) (htarget : target.IsSequence) (hkey : key ≠ "length") :
    (∀ x i, HasValue x (i : Nat) → target.element (number x) = .ok (target.partAt i)) ∧
      (target.IndexedByText key ↔ ∀ i, NamesNatural key.toList i → target.partAt i ≠ null →
        ((target.kind = "array" ∧ i ≤ greatestIndex) ↔ IsCanonical key.toList)) := by
  refine ⟨fun x i hx => htarget.element_number hx, ?_⟩
  by_cases hnames : ∃ i, NamesNatural key.toList i
  · obtain ⟨i, hi⟩ := hnames
    have hunique : (∀ j, NamesNatural key.toList j → target.partAt j ≠ null →
        ((target.kind = "array" ∧ j ≤ greatestIndex) ↔ IsCanonical key.toList)) ↔ (target.partAt i ≠ null →
        ((target.kind = "array" ∧ i ≤ greatestIndex) ↔ IsCanonical key.toList)) :=
      ⟨fun h => h i hi, fun h j hj => hi.unique hj ▸ h⟩
    rw [hunique, indexedByText_iff hi, htarget.element_of_names hkey hi, Except.ok.injEq]
    by_cases hpart : target.partAt i = null
    · rw [hpart, ite_self, ite_self]
      exact iff_of_true rfl fun h => absurd rfl h
    · rw [forall_prop_of_true hpart]
      by_cases hreads : target.kind = "array" ∧ i ≤ greatestIndex <;> by_cases hform : IsCanonical key.toList <;>
        simp [hreads, hform, hpart, Ne.symm hpart]
  · have hnone : ∀ i, ¬ NamesNatural key.toList i := not_exists.mp hnames
    have hindexed : target.IndexedByText key :=
      ⟨fun i hi => absurd (hi ▸ namesNatural_repr i) (hnone i), fun _ => htarget.element_of_nameless hkey hnone⟩
    exact iff_of_true hindexed fun i hi => absurd hi (hnone i)

theorem element_of_first_item : (array [bool true]).element (number 0) = .ok (bool true) ∧
    (array [bool true]).IndexedByText "0" := by
  obtain ⟨hnumber, htext⟩ := element_sequence_iff (array [bool true]) "0" (.ofItems _) (by decide)
  have hzero : NamesNatural "0".toList 0 := namesNatural_repr 0
  refine ⟨hnumber 0 0 (natural?_eq_some_iff.mp (by decide +kernel)), htext.mpr fun i hi _ => ?_⟩
  obtain rfl := hi.unique hzero
  exact iff_of_true ⟨rfl, Nat.zero_le _⟩ (hzero.isCanonical_iff.mpr rfl)

-- The text of a text's first position.
theorem not_forall_indexedByText :
    ¬ ∀ target key, IsSequence target → key ≠ "length" → target.IndexedByText key := by
  intro h
  have hfirst := (h (string "abc") "0" (.ofText _) (by decide)).decimal 0 rfl
  cases hfirst

end JsonTemplate.Value
