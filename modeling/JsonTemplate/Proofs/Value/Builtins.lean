import JsonTemplate.Proofs.Number.Naturals
import JsonTemplate.Proofs.Value.Bare

namespace JsonTemplate

namespace Value

theorem map_text_map_bare (values : List Value) : (values.map bare).map text = values.map text := by
  rw [List.map_map]
  exact List.map_congr_left fun value _ => text_bare value

theorem map_fst_bareEntries (entries : List (String × Value)) :
    (bareEntries entries).map Prod.fst = (entries.filter fun entry => !entry.2.isAccessor).map Prod.fst := by
  induction entries with
  | nil => rfl
  | cons entry entries ih =>
      obtain ⟨key, value⟩ := entry
      cases hvalue : value.isAccessor with
      | true => rw [bareEntries_cons_of_accessor hvalue, List.filter_cons_of_neg (by simp [hvalue]), ih]
      | false =>
          rw [bareEntries_cons hvalue, List.filter_cons_of_pos (by simp [hvalue])]
          exact congrArg (key :: ·) ih

theorem length_bareEntries (entries : List (String × Value)) :
    (bareEntries entries).length = (entries.filter fun entry => !entry.2.isAccessor).length := by
  have h := congrArg List.length (map_fst_bareEntries entries)
  rwa [List.length_map, List.length_map] at h

-- What keys lists of an object is what it lists of the object without accessors.
theorem filter_bareEntries (entries : List (String × Value)) :
    ((bareEntries entries).filter fun entry => !entry.2.isAccessor) = bareEntries entries := by
  refine List.filter_eq_self.mpr fun entry hmem => ?_
  obtain ⟨value, -, hvalue, heq⟩ := mem_bareEntries.mp hmem
  rw [heq, isAccessor_bare, hvalue]
  rfl

-- Numbers of counts differ if the counts do, as long as they are exact.
theorem ofNat_inj {m n : Nat} (hm : m ≤ maxSafeInteger) (hn : n ≤ maxSafeInteger) : ofNat m = ofNat n ↔ m = n := by
  have hsize : maxSafeInteger < Number.twoPow 53 := by decide
  constructor
  · intro h
    have hvalue := Number.Binary64.hasValue_ofInt (hm.trans_lt hsize)
    rw [number.inj h] at hvalue
    exact_mod_cast hvalue.unique (Number.Binary64.hasValue_ofInt (hn.trans_lt hsize))
  · exact congrArg ofNat

-- The number of an object's entries is that of its entries that are no accessors.
def CountsOwn (fields : Fields Value) : Prop := ofNat (bareEntries fields).length = ofNat fields.length

theorem countsOwn_iff {fields : Fields Value} (h : fields.length ≤ maxSafeInteger) :
    CountsOwn fields ↔ ∀ entry ∈ fields, entry.2.isAccessor = false := by
  have hless : (bareEntries fields).length ≤ fields.length := by
    rw [length_bareEntries]
    exact List.length_filter_le _ _
  rw [CountsOwn, ofNat_inj (hless.trans h) h, length_bareEntries, List.length_filter_eq_length_iff]
  simp

end Value

namespace Builtin

open Value hiding ofNat

theorem argument_map_bare (args : List Value) (position : Nat) :
    argument (args.map bare) position = (argument args position).bare := by
  rw [argument, argument, List.getElem?_map]
  cases args[position]? <;> rfl

theorem apply_length_map_bare_iff (args : List Value) :
    length.apply (args.map bare) = length.apply args ↔
      ∀ fields rest, args = .object fields :: rest → CountsOwn fields := by
  cases args with
  | nil => exact iff_of_true rfl nofun
  | cons first rest =>
      cases first with
      | object fields =>
          change Except.ok (Value.ofNat (bareEntries fields).length) = Except.ok (Value.ofNat fields.length) ↔ _
          rw [Except.ok.injEq]
          constructor
          · rintro h _ _ ⟨⟩
            exact h
          · exact fun h => h fields rest rfl
      | array items =>
          refine iff_of_true ?_ nofun
          change Except.ok (Value.ofNat (bareItems items).length) = Except.ok (Value.ofNat items.length)
          rw [bareItems_eq_map, List.length_map]
      | _ => exact iff_of_true rfl nofun

theorem apply_keys_map_bare (args : List Value) : keys.apply (args.map bare) = keys.apply args := by
  rw [apply, apply, argument_map_bare]
  cases argument args 0 with
  | object fields =>
      have hkeys := congrArg (List.map Value.string) (map_fst_bareEntries fields)
      rw [List.map_map, List.map_map] at hkeys
      change Except.ok (Value.array ((List.filter _ (bareEntries fields)).map _)) = _
      rw [filter_bareEntries]
      exact congrArg (Except.ok ∘ Value.array) hkeys
  | _ => rfl

theorem apply_join_map_bare (args : List Value) : join.apply (args.map bare) = join.apply args := by
  have hseparator : (args.map bare)[1]?.map Value.text = args[1]?.map Value.text := by
    rw [← List.getElem?_map, map_text_map_bare, List.getElem?_map]
  rw [apply, apply, argument_map_bare, hseparator]
  cases argument args 0 with
  | array items =>
      rw [bare, bareItems_eq_map]
      exact congrArg (fun texts => Except.ok (Value.string (String.intercalate _ texts))) (map_text_map_bare items)
  | _ => rfl

-- No builtin but length looks at accessors among the entries of objects. It counts them.
theorem apply_map_bare_iff (builtin : Builtin) (args : List Value) :
    builtin.apply (args.map bare) = builtin.apply args ↔
      (builtin = .length → ∀ fields rest, args = .object fields :: rest → CountsOwn fields) := by
  by_cases hlength : builtin = .length
  · subst hlength
    rw [apply_length_map_bare_iff, forall_prop_of_true rfl]
  · refine iff_of_true ?_ fun h => absurd h hlength
    have hform (f : String → Value) :
        (.ok (f (argument (args.map bare) 0).text) : Except EvalError Value) = .ok (f (argument args 0).text) := by
      rw [argument_map_bare, text_bare]
    cases builtin with
    | toUpper => exact hform fun s => .string (.ofList (Text.toUpper s.toList))
    | toLower => exact hform fun s => .string (.ofList (Text.toLower s.toList))
    | trim => exact hform fun s => .string (.ofList (Text.trim s.toList))
    | string => exact hform .string
    | number => rw [apply, apply, argument_map_bare, toNumber_bare]
    | length => exact absurd rfl hlength
    | keys => exact apply_keys_map_bare args
    | join => exact apply_join_map_bare args

-- What keys lists of an object has as many items as length counts entries, if these are no accessors.
theorem length_keys_eq_iff (fields : Fields Value) :
    (keys.apply [.object fields] >>= fun names => length.apply [names]) = length.apply [.object fields] ↔
      CountsOwn fields := by
  change Except.ok (Value.ofNat (List.map _ (fields.filter fun entry => !entry.2.isAccessor)).length) =
    Except.ok (Value.ofNat fields.length) ↔ _
  rw [Except.ok.injEq, List.length_map, ← length_bareEntries]
  rfl

end Builtin

end JsonTemplate
