import Mathlib.Logic.Basic
import JsonTemplate.Proofs.Value.Parts

namespace JsonTemplate.Value

mutual

-- The value without the accessors among the entries of its objects.
def bare : Value → Value
  | array items => array (bareItems items)
  | object entries => object (bareEntries entries)
  | value => value

def bareItems : List Value → List Value
  | [] => []
  | item :: items => bare item :: bareItems items

def bareEntries : List (String × Value) → List (String × Value)
  | [] => []
  | (_, accessor ..) :: entries => bareEntries entries
  | (key, value) :: entries => (key, bare value) :: bareEntries entries

end

theorem bareItems_eq_map (items : List Value) : bareItems items = items.map bare := by
  induction items with
  | nil => rfl
  | cons item items ih => rw [bareItems, List.map_cons, ih]

theorem bare_of_isScalar {value : Value} (h : value.isScalar = true) : value.bare = value := by
  cases value <;> first | rfl | cases h

@[simp] theorem isAccessor_bare (value : Value) : value.bare.isAccessor = value.isAccessor := by
  cases value <;> rfl

@[simp] theorem isScalar_bare (value : Value) : value.bare.isScalar = value.isScalar := by
  cases value <;> rfl

@[simp] theorem isTruthy_bare (value : Value) : value.bare.isTruthy = value.isTruthy := by
  cases value <;> rfl

@[simp] theorem isTextual_bare (value : Value) : value.bare.isTextual = value.isTextual := by
  cases value <;> rfl

theorem bareEntries_cons_of_accessor {value : Value} (h : value.isAccessor = true) (key : String)
    (entries : List (String × Value)) : bareEntries ((key, value) :: entries) = bareEntries entries := by
  cases value <;> first | rfl | cases h

theorem bareEntries_cons {value : Value} (h : value.isAccessor = false) (key : String)
    (entries : List (String × Value)) :
    bareEntries ((key, value) :: entries) = (key, value.bare) :: bareEntries entries := by
  cases value <;> first | rfl | cases h

theorem mem_bareEntries {entries : List (String × Value)} {entry : String × Value} :
    entry ∈ bareEntries entries ↔
      ∃ value, (entry.1, value) ∈ entries ∧ value.isAccessor = false ∧ entry.2 = value.bare := by
  induction entries with
  | nil => simp [bareEntries]
  | cons first entries ih =>
      obtain ⟨key, found⟩ := first
      cases hfound : found.isAccessor with
      | true =>
          rw [bareEntries_cons_of_accessor hfound, ih]
          constructor
          · rintro ⟨value, hmem, hvalue⟩
            exact ⟨value, List.mem_cons_of_mem _ hmem, hvalue⟩
          · rintro ⟨value, hmem, hvalue, heq⟩
            rcases List.mem_cons.mp hmem with hhead | hmem
            · cases hhead
              rw [hfound] at hvalue
              cases hvalue
            · exact ⟨value, hmem, hvalue, heq⟩
      | false =>
          rw [bareEntries_cons hfound, List.mem_cons, ih]
          constructor
          · rintro (rfl | ⟨value, hmem, hvalue⟩)
            · exact ⟨found, List.mem_cons_self, hfound, rfl⟩
            · exact ⟨value, List.mem_cons_of_mem _ hmem, hvalue⟩
          · rintro ⟨value, hmem, hvalue, heq⟩
            rcases List.mem_cons.mp hmem with hhead | hmem
            · cases hhead
              exact .inl (Prod.ext rfl heq)
            · exact .inr ⟨value, hmem, hvalue, heq⟩

theorem keys_bareEntries (entries : List (String × Value)) :
    (Fields.keys (bareEntries entries)).Sublist (Fields.keys entries) := by
  induction entries with
  | nil => exact List.nil_sublist _
  | cons entry entries ih =>
      obtain ⟨key, value⟩ := entry
      cases hvalue : value.isAccessor with
      | true =>
          rw [bareEntries_cons_of_accessor hvalue]
          exact ih.cons key
      | false =>
          rw [bareEntries_cons hvalue]
          exact ih.cons_cons key

-- What is under a key, unless it is an accessor.
def bareSlot? (slot : Option Value) : Option Value :=
  (slot.filter fun value => !value.isAccessor).map bare

@[simp] theorem bareSlot?_none : bareSlot? none = none := rfl

theorem bareSlot?_some_of_accessor {value : Value} (h : value.isAccessor = true) :
    bareSlot? (some value) = none := by
  rw [bareSlot?, Option.filter_some, h]
  rfl

theorem bareSlot?_some {value : Value} (h : value.isAccessor = false) :
    bareSlot? (some value) = some value.bare := by
  rw [bareSlot?, Option.filter_some, h]
  rfl

-- Looking up a key sees no accessors any more.
theorem get?_bareEntries {fields : Fields Value} (h : fields.keys.Nodup) (key : String) :
    Fields.get? (bareEntries fields) key = bareSlot? (fields.get? key) := by
  induction fields with
  | nil => rfl
  | cons entry rest ih =>
      obtain ⟨k, value⟩ := entry
      obtain ⟨hk, hrest⟩ := List.nodup_cons.mp h
      rw [Fields.get?_cons]
      cases hvalue : value.isAccessor with
      | true =>
          rw [bareEntries_cons_of_accessor hvalue, ih hrest]
          split
          · rename_i heq
            subst heq
            rw [Fields.get?_eq_none_iff.mpr hk, bareSlot?_none, bareSlot?_some_of_accessor hvalue]
          · rfl
      | false =>
          rw [bareEntries_cons hvalue, Fields.get?_cons, ih hrest]
          split
          · exact (bareSlot?_some hvalue).symm
          · rfl

-- What holds of all objects in a value without accessors.
theorem every_of_bare {P : Fields Value → Prop} {value : Value}
    (hkeys : value.Every fun object => object.keys.Nodup) (h : value.bare.Every P) :
    value.Every fun object => P (bareEntries object) := by
  induction value using byParts with
  | scalar value hscalar => exact (isFlat_of_isScalar hscalar).every
  | function | accessor => exact IsFlat.every ⟨nofun, nofun⟩
  | array items ih =>
      rw [bare, bareItems_eq_map] at h
      exact every_array_iff.mpr fun item hmem =>
        ih item hmem (every_array_iff.mp hkeys item hmem) (every_array_iff.mp h _ (List.mem_map_of_mem hmem))
  | object fields ih =>
      obtain ⟨hnodup, hvalues⟩ := every_object_iff.mp hkeys
      obtain ⟨hfields, hbare⟩ := every_object_iff.mp h
      refine every_object_iff.mpr ⟨hfields, fun key value hget => ?_⟩
      cases hvalue : value.isAccessor with
      | true => exact (isFlat_of_isAccessor hvalue).every
      | false =>
          refine ih _ (Fields.mem_of_get? hget) (hvalues key value hget) (hbare key value.bare ?_)
          rw [get?_bareEntries hnodup, hget, bareSlot?_some hvalue]

theorem bareEntries_of_forall {entries : List (String × Value)}
    (h : ∀ entry ∈ entries, entry.2.isAccessor = false) :
    bareEntries entries = Fields.mapValues bare entries := by
  induction entries with
  | nil => rfl
  | cons entry entries ih =>
      obtain ⟨hentry, hentries⟩ := List.forall_mem_cons.mp h
      obtain ⟨key, value⟩ := entry
      rw [bareEntries_cons hentry, ih hentries]
      rfl

theorem itemAt_map_bare (items : List Value) (position : Nat) :
    itemAt (items.map bare) position = (itemAt items position).bare := by
  rw [itemAt, itemAt, List.getElem?_map]
  cases items[position]? <;> rfl

-- The item at a position that a key or a number names, if it names one.
theorem optionalItem_bareItems (items : List Value) (position? : Option Nat) :
    (position?.map (itemAt (bareItems items))).getD null = ((position?.map (itemAt items)).getD null).bare := by
  cases position? with
  | none => rfl
  | some position =>
      rw [bareItems_eq_map]
      exact itemAt_map_bare items position

section

variable {target : Value} (hkeys : target.Every fun object => object.keys.Nodup)

include hkeys

-- A member that is no accessor is there without accessors as well.
theorem member_bare (key : String) (h : ∀ value, target.member key = .ok value → value.isAccessor = false) :
    target.bare.member key = (target.member key).map bare := by
  cases target with
  | object fields =>
      rw [member] at h
      rw [bare, member, member, get?_bareEntries (every_object_iff.mp hkeys).1]
      cases hget : Fields.get? fields key with
      | none => rfl
      | some value =>
          rw [hget] at h
          rw [bareSlot?_some (h value rfl)]
          rfl
  | array items =>
      rw [bare, member, member, optionalItem_bareItems]
      split
      · rw [bareItems_eq_map, List.length_map]
        rfl
      · rfl
  | string s =>
      have hscalar : (if key = "length" then ofNat s.length else null).isScalar = true := by
        split <;> rfl
      exact congrArg Except.ok (bare_of_isScalar hscalar).symm
  | _ => rfl

end

theorem itemTexts_bareItems {items : List Value} (h : ∀ item ∈ items, item.bare.text = item.text) :
    itemTexts (bareItems items) = itemTexts items := by
  induction items with
  | nil => rfl
  | cons item items ih =>
      obtain ⟨hitem, hitems⟩ := List.forall_mem_cons.mp h
      rw [bareItems]
      cases item with
      | null => exact congrArg ("" :: ·) (ih hitems)
      | _ => exact congrArg₂ List.cons hitem (ih hitems)

-- Text does not show the entries of objects.
@[simp] theorem text_bare (value : Value) : value.bare.text = value.text := by
  induction value using byParts with
  | scalar value h => rw [bare_of_isScalar h]
  | function f => rfl
  | array items ih => rw [bare, text, text, itemTexts_bareItems ih]
  | object fields _ => rfl
  | accessor identity name items _ => rfl

theorem element_eq_member {key : Value} (h : ∀ x, key ≠ number x) (target : Value) :
    target.element key = target.member key.text := by
  unfold element
  split
  · exact absurd rfl (h _)
  · exact absurd rfl (h _)
  · rfl

theorem element_bare {target key : Value} (hkeys : target.Every fun object => object.keys.Nodup)
    (h : ∀ value, target.element key = .ok value → value.isAccessor = false) :
    target.bare.element key.bare = (target.element key).map bare := by
  by_cases hnumber : ∃ x, key = number x
  · obtain ⟨x, rfl⟩ := hnumber
    cases target with
    | array items => exact congrArg Except.ok (optionalItem_bareItems items _)
    | string s =>
        change Except.ok _ = Except.ok (bare _)
        cases (Number.Binary64.natural? x).bind fun position => s.toList[position]? <;> rfl
    | _ => exact member_bare hkeys (number x).text h
  · have hkey : ∀ x, key ≠ number x := not_exists.mp hnumber
    have hbare : ∀ x, key.bare ≠ number x := by
      intro x hx
      cases key with
      | number y => exact hkey y rfl
      | _ => cases hx
    rw [element_eq_member hkey] at h ⊢
    rw [element_eq_member hbare, text_bare]
    exact member_bare hkeys _ h

@[simp] theorem toNumber_bare (value : Value) : value.bare.toNumber = value.toNumber := by
  cases value with
  | array items =>
      obtain _ | ⟨item, _ | ⟨next, items⟩⟩ := items
      · rfl
      · exact congrArg numberOfText (text_bare item)
      · rfl
  | _ => rfl

theorem applyUnary_bare (value : Value) (op : UnaryOp) :
    value.bare.applyUnary op = (value.applyUnary op).bare := by
  cases op <;> simp [applyUnary, bare]

theorem add_bare (lhs rhs : Value) : add lhs.bare rhs.bare = (add lhs rhs).bare := by
  simp only [add, isTextual_bare, text_bare, toNumber_bare]
  split <;> rfl

theorem order_bare (lhs rhs : Value) : order lhs.bare rhs.bare = order lhs rhs := by
  cases lhs with
  | string a =>
      cases rhs with
      | string b => rfl
      | _ => exact congrArg (compareNumbers _) (toNumber_bare _)
  | _ => exact congrArg₂ compareNumbers (toNumber_bare _) (toNumber_bare rhs)

theorem bareEntries_cons_congr (entry : String × Value) {entries others : List (String × Value)}
    (h : bareEntries entries = bareEntries others) :
    bareEntries (entry :: entries) = bareEntries (entry :: others) := by
  obtain ⟨key, value⟩ := entry
  cases hvalue : value.isAccessor with
  | true => rw [bareEntries_cons_of_accessor hvalue, bareEntries_cons_of_accessor hvalue, h]
  | false => rw [bareEntries_cons hvalue, bareEntries_cons hvalue, h]

theorem bareEntries_insert_accessor {fields : Fields Value} {name : String} {value : Value}
    (hvalue : value.isAccessor = true)
    (h : ∀ found, fields.get? name = some found → found.isAccessor = true) :
    bareEntries (fields.insert name value) = bareEntries fields := by
  induction fields with
  | nil => exact bareEntries_cons_of_accessor hvalue name []
  | cons entry rest ih =>
      obtain ⟨key, found⟩ := entry
      rw [Fields.insert]
      by_cases hkey : key = name
      · rw [if_pos hkey, bareEntries_cons_of_accessor hvalue,
          bareEntries_cons_of_accessor (h found (if_pos hkey))]
      · rw [if_neg hkey]
        exact bareEntries_cons_congr _ (ih fun other hget => h other ((if_neg hkey).trans hget))

theorem bareEntries_insert {fields : Fields Value} {key : String} {old new : Value}
    (hget : fields.get? key = some old) (hplain : old.isAccessor = false) (hbare : new.bare = old.bare) :
    bareEntries (fields.insert key new) = bareEntries fields := by
  have hnew : new.isAccessor = false := by
    rw [← isAccessor_bare, hbare, isAccessor_bare, hplain]
  induction fields with
  | nil => cases hget
  | cons entry rest ih =>
      obtain ⟨k, found⟩ := entry
      rw [Fields.get?_cons] at hget
      rw [Fields.insert]
      split at hget
      · rename_i hkey
        cases hget
        rw [if_pos hkey, bareEntries_cons hnew, bareEntries_cons hplain, hbare, hkey]
      · rename_i hkey
        rw [if_neg hkey]
        exact bareEntries_cons_congr _ (ih hget)

-- There is no function in the value.
inductive IsData : Value → Prop
  | scalar {value : Value} (hscalar : value.isScalar = true) : IsData value
  | array {items : List Value} (hitems : ∀ item ∈ items, IsData item) : IsData (.array items)
  | object {fields : Fields Value} (hentries : ∀ entry ∈ fields, IsData entry.2) : IsData (.object fields)

theorem IsData.isAccessor {value : Value} (h : value.IsData) : value.isAccessor = false := by
  cases h with
  | scalar hscalar => exact isAccessor_of_isScalar hscalar
  | array | object => rfl

theorem isData_array_iff {items : List Value} : (array items).IsData ↔ ∀ item ∈ items, item.IsData := by
  constructor
  · intro h
    cases h with
    | scalar hscalar => cases hscalar
    | array hitems => exact hitems
  · exact .array

theorem isData_object_iff {fields : Fields Value} :
    (object fields).IsData ↔ ∀ entry ∈ fields, entry.2.IsData := by
  constructor
  · intro h
    cases h with
    | scalar hscalar => cases hscalar
    | object hentries => exact hentries
  · exact .object

theorem bareEntries_of_bare_eq {entries : List (String × Value)}
    (h : ∀ entry ∈ entries, entry.2.isAccessor = false ∧ entry.2.bare = entry.2) :
    bareEntries entries = entries := by
  have hentry : ∀ entry ∈ entries, (entry.1, entry.2.bare) = id entry :=
    fun entry hmem => Prod.ext rfl (h entry hmem).2
  rw [bareEntries_of_forall fun entry hmem => (h entry hmem).1]
  exact (List.map_congr_left hentry).trans (List.map_id entries)

theorem IsData.bare_eq {value : Value} (h : value.IsData) : value.bare = value := by
  induction h with
  | scalar hscalar => exact bare_of_isScalar hscalar
  | array _ ih =>
      rw [bare, bareItems_eq_map]
      exact congrArg Value.array ((List.map_congr_left (g := id) ih).trans (List.map_id _))
  | object hentries ih =>
      rw [bare]
      exact congrArg Value.object (bareEntries_of_bare_eq fun entry hmem =>
        ⟨(hentries entry hmem).isAccessor, ih entry hmem⟩)

mutual

theorem isData_ofJson (json : Json) : (ofJson json).IsData := by
  cases json with
  | null | bool | integer | double | string => exact .scalar rfl
  | array items => exact .array (isData_itemsOfJson items)
  | object entries => exact .object (isData_entriesOfJson entries)

theorem isData_itemsOfJson (items : List Json) : ∀ item ∈ itemsOfJson items, item.IsData := by
  cases items with
  | nil => exact List.forall_mem_nil _
  | cons item items => exact List.forall_mem_cons.mpr ⟨isData_ofJson item, isData_itemsOfJson items⟩

theorem isData_entriesOfJson (entries : List (String × Json)) :
    ∀ entry ∈ entriesOfJson entries, entry.2.IsData := by
  cases entries with
  | nil => exact List.forall_mem_nil _
  | cons entry entries =>
      obtain ⟨key, json⟩ := entry
      exact List.forall_mem_cons.mpr ⟨isData_ofJson json, isData_entriesOfJson entries⟩

end

end JsonTemplate.Value
