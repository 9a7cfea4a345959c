import JsonTemplate.Builtin
import JsonTemplate.Proofs.Value.Objects
import JsonTemplate.Value.Access
import JsonTemplate.Value.Operators

namespace JsonTemplate

namespace Fields

variable {α β : Type}

theorem mem_insert {fields : Fields α} {key : String} {value : α} {entry : String × α}
    (h : entry ∈ fields.insert key value) : entry = (key, value) ∨ entry ∈ fields := by
  induction fields with
  | nil => exact .inl (List.mem_singleton.mp h)
  | cons first rest ih =>
      obtain ⟨k, v⟩ := first
      rw [insert] at h
      split at h
      · rename_i hk
        rcases List.mem_cons.mp h with rfl | hrest
        · exact .inl (by rw [hk])
        · exact .inr (List.mem_cons_of_mem _ hrest)
      · rcases List.mem_cons.mp h with rfl | hrest
        · exact .inr List.mem_cons_self
        · exact (ih hrest).imp_right (List.mem_cons_of_mem _)

theorem ofList_induction {P : Fields α → Prop} {entries : List (String × α)} (hnil : P [])
    (hinsert : ∀ fields entry, P fields → entry ∈ entries → P (fields.insert entry.1 entry.2)) :
    P (ofList entries) :=
  List.foldlRecOn (motive := P) entries _ hnil fun fields hfields entry hmem => hinsert fields entry hfields hmem

theorem keys_ofList_nodup (entries : List (String × α)) : (ofList entries).keys.Nodup :=
  ofList_induction (P := fun fields => fields.keys.Nodup) List.nodup_nil
    fun _ entry h _ => keys_insert_nodup h entry.1 entry.2

theorem mem_of_mem_ofList {entries : List (String × α)} {entry : String × α} (h : entry ∈ ofList entries) :
    entry ∈ entries := by
  revert h
  refine ofList_induction (P := fun fields => entry ∈ fields → entry ∈ entries) (fun h => by cases h) ?_
  intro fields first ih hfirst h
  rcases mem_insert h with rfl | hfields
  · exact hfirst
  · exact ih hfields

theorem insert_of_not_mem {fields : Fields α} {key : String} (h : key ∉ fields.keys) (value : α) :
    fields.insert key value = fields ++ [(key, value)] := by
  induction fields with
  | nil => rfl
  | cons entry rest ih =>
      obtain ⟨k, v⟩ := entry
      rw [insert, if_neg (ne_of_not_mem_keys h), ih fun hmem => h (List.mem_cons_of_mem _ hmem)]
      rfl

-- Entries with different keys stay as they are.
theorem ofList_of_nodup {entries : List (String × α)} (h : (keys entries).Nodup) : ofList entries = entries := by
  have hfold (fields : Fields α) (hkeys : (keys (fields ++ entries)).Nodup) :
      entries.foldl (fun fields entry => fields.insert entry.1 entry.2) fields = fields ++ entries := by
    clear h
    induction entries generalizing fields with
    | nil => rw [List.append_nil]; rfl
    | cons entry entries ih =>
        have hfresh : entry.1 ∉ fields.keys := by
          rw [keys, List.map_append, List.map_cons] at hkeys
          exact fun hmem => (List.nodup_append.mp hkeys).2.2 _ hmem _ List.mem_cons_self rfl
        rw [List.foldl_cons, insert_of_not_mem hfresh, ih _ (by rwa [List.append_assoc]), List.append_assoc]
        rfl
  exact hfold [] h

theorem mapValues_cons (f : α → β) (entry : String × α) (fields : Fields α) :
    mapValues f (entry :: fields) = (entry.1, f entry.2) :: mapValues f fields := rfl

theorem insert_mapValues (f : α → β) (fields : Fields α) (key : String) (value : α) :
    insert (mapValues f fields) key (f value) = mapValues f (fields.insert key value) := by
  induction fields with
  | nil => rfl
  | cons entry rest ih =>
      rw [insert, mapValues_cons, insert]
      split
      · rfl
      · exact congrArg ((entry.1, f entry.2) :: ·) ih

theorem get?_mapValues (f : α → β) (fields : Fields α) (key : String) :
    (mapValues f fields).get? key = (fields.get? key).map f := by
  induction fields with
  | nil => rfl
  | cons entry rest ih =>
      rw [mapValues_cons, get?, get?]
      split
      · rfl
      · exact ih

theorem insert_of_get? {fields : Fields α} {key : String} {value : α} (h : fields.get? key = some value) :
    fields.insert key value = fields := by
  induction fields with
  | nil => cases h
  | cons entry rest ih =>
      obtain ⟨k, found⟩ := entry
      rw [get?_cons] at h
      rw [insert]
      split at h
      · rename_i hkey
        cases h
        rw [if_pos hkey]
      · rename_i hkey
        rw [if_neg hkey, ih h]

theorem ofList_mapValues (f : α → β) (entries : List (String × α)) :
    ofList (mapValues f entries) = mapValues f (ofList entries) := by
  have hfold (fields : Fields α) :
      (mapValues f entries).foldl (fun fields entry => fields.insert entry.1 entry.2) (mapValues f fields) =
        mapValues f (entries.foldl (fun fields entry => fields.insert entry.1 entry.2) fields) := by
    induction entries generalizing fields with
    | nil => rfl
    | cons entry entries ih =>
        rw [mapValues_cons, List.foldl_cons, List.foldl_cons, insert_mapValues]
        exact ih _
  exact hfold []

end Fields

namespace Value

-- The value has no parts.
def isScalar : Value → Bool
  | null | bool _ | number _ | string _ => true
  | array _ | object _ | function _ | accessor .. => false

theorem isAccessor_of_isScalar {value : Value} (h : value.isScalar = true) : value.isAccessor = false := by
  cases value <;> first | rfl | cases h

theorem isFlat_of_isScalar {value : Value} (h : value.isScalar = true) : value.IsFlat := by
  constructor <;> rintro _ rfl <;> cases h

-- Induction on the parts of a value, those included that an accessor gives out.
theorem byParts {P : Value → Prop} (scalar : ∀ value : Value, value.isScalar = true → P value)
    (function : ∀ f, P (.function f))
    (array : ∀ items : List Value, (∀ item ∈ items, P item) → P (.array items))
    (object : ∀ fields : Fields Value, (∀ entry ∈ fields, P entry.2) → P (.object fields))
    (accessor : ∀ identity name items, (∀ item ∈ items, P item) → P (.accessor identity name items))
    (value : Value) : P value := by
  refine @Value.rec P (fun items => ∀ item ∈ items, P item) (fun entries => ∀ entry ∈ entries, P entry.2)
    (fun entry => P entry.2) ?null ?bool ?number ?string array object function accessor ?noItems ?items
    ?noEntries ?entries ?entry value
  case null => exact scalar _ rfl
  case bool => exact fun _ => scalar _ rfl
  case number => exact fun _ => scalar _ rfl
  case string => exact fun _ => scalar _ rfl
  case noItems => exact List.forall_mem_nil _
  case items => exact fun item items hitem hitems => List.forall_mem_cons.mpr ⟨hitem, hitems⟩
  case noEntries => exact List.forall_mem_nil _
  case entries => exact fun entry entries hentry hentries => List.forall_mem_cons.mpr ⟨hentry, hentries⟩
  case entry => exact fun key value h => h

theorem isScalar_applyUnary (value : Value) (op : UnaryOp) : (value.applyUnary op).isScalar = true := by
  cases op <;> rfl

theorem isScalar_applyBinary {op : BinaryOp} (hand : op ≠ .and) (hor : op ≠ .or) (lhs rhs : Value) :
    (applyBinary op lhs rhs).isScalar = true := by
  cases op with
  | and => exact absurd rfl hand
  | or => exact absurd rfl hor
  | add =>
      rw [applyBinary, add]
      split <;> rfl
  | _ => rfl

-- A property that scalars have, and that arrays and objects have by their parts.
structure Composed (P : Value → Prop) : Prop where
  scalar : ∀ value : Value, value.isScalar = true → P value
  array : ∀ items : List Value, (∀ item ∈ items, P item) → P (.array items)
  item : ∀ items : List Value, P (.array items) → ∀ item ∈ items, P item
  object : ∀ fields : Fields Value, fields.keys.Nodup → (∀ entry ∈ fields, P entry.2) → P (.object fields)
  entry : ∀ fields : Fields Value, P (.object fields) → ∀ entry ∈ fields, P entry.2

-- The items have it as well which an accessor gives out.
structure Inherited (P : Value → Prop) : Prop extends Composed P where
  given : ∀ identity name items, P (.accessor identity name items) → ∀ item ∈ items, P item

theorem composed_every_nodup : Composed fun value => value.Every fun object => object.keys.Nodup where
  scalar _ hscalar := (isFlat_of_isScalar hscalar).every
  array _ h := every_array_iff.mpr h
  item _ h := every_array_iff.mp h
  object _ hkeys h := every_object_of_forall_mem hkeys h
  entry fields h entry hmem := by
    obtain ⟨hkeys, hvalues⟩ := every_object_iff.mp h
    exact hvalues _ _ (Fields.get?_of_mem hkeys hmem)

variable {P : Value → Prop}

theorem Composed.itemAt (hP : Composed P) {items : List Value} (h : ∀ item ∈ items, P item)
    (position : Nat) : P (itemAt items position) := by
  rw [Value.itemAt]
  cases hget : items[position]? with
  | none => exact hP.scalar null rfl
  | some item => exact h item (List.mem_of_getElem? hget)

theorem Composed.member (hP : Composed P) {target value : Value} {key : String} (htarget : P target)
    (h : target.member key = .ok value) : P value := by
  cases target with
  | null => cases h
  | object entries =>
      cases h
      cases hget : Fields.get? entries key with
      | none => exact hP.scalar null rfl
      | some found => exact hP.entry entries htarget _ (Fields.mem_of_get? hget)
  | array items =>
      rw [Value.member] at h
      split at h <;> cases h
      · exact hP.scalar _ rfl
      · cases Number.Numeral.index? key.toList with
        | none => exact hP.scalar null rfl
        | some position => exact hP.itemAt (hP.item items htarget) position
  | string s =>
      cases h
      split <;> exact hP.scalar _ rfl
  | bool | number | function | accessor =>
      cases h
      exact hP.scalar null rfl

theorem Composed.element (hP : Composed P) {target key value : Value} (htarget : P target)
    (h : target.element key = .ok value) : P value := by
  unfold Value.element at h
  split at h
  · rename_i items x
    cases h
    cases Number.Binary64.natural? x with
    | none => exact hP.scalar null rfl
    | some position => exact hP.itemAt (hP.item items htarget) position
  · rename_i s x
    cases h
    cases (Number.Binary64.natural? x).bind fun position => s.toList[position]? <;> exact hP.scalar _ rfl
  · exact hP.member htarget h

theorem Composed.access (hP : Composed P) {name : String} {items args : List Value} {value : Value}
    (hitems : ∀ item ∈ items, P item) (h : access name items args = .ok value) : P value := by
  unfold Value.access at h
  split at h
  · cases h
  · split at h <;> cases h
    exact hP.itemAt hitems _
  · split at h <;> cases h
    exact hP.itemAt hitems _
  · cases h

theorem Composed.builtin (hP : Composed P) {builtin : Builtin} {args : List Value} {value : Value}
    (h : builtin.apply args = .ok value) : P value := by
  cases builtin with
  | length =>
      rw [Builtin.apply] at h
      split at h <;> cases h <;> exact hP.scalar _ rfl
  | keys =>
      rw [Builtin.apply] at h
      split at h <;> cases h
      refine hP.array _ fun item hmem => ?_
      obtain ⟨entry, -, rfl⟩ := List.mem_map.mp hmem
      exact hP.scalar _ rfl
  | join =>
      rw [Builtin.apply] at h
      split at h <;> cases h
      exact hP.scalar _ rfl
  | toUpper | toLower | trim | string | number =>
      cases h
      exact hP.scalar _ rfl

end Value

end JsonTemplate
