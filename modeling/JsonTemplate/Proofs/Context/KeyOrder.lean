import JsonTemplate.Proofs.Context.Idempotent
import JsonTemplate.Proofs.Context.Turns
import JsonTemplate.Proofs.Value.Similar

namespace JsonTemplate

namespace AccessorRule

open Value

variable {rule : AccessorRule} {f g : Fields Value} {key : String}

-- Of an array that has its turn and an array that stands under the name of its accessor, the same one comes
-- first in both objects.
def Aligned (rule : AccessorRule) (f g : Fields Value) : Prop :=
  ∀ key others, rule.HasTurn f key → f.get? (rule.namePrefix ++ key) = some (.array others) →
    (f.Precedes key (rule.namePrefix ++ key) ↔ g.Precedes key (rule.namePrefix ++ key))

theorem aligned_of_forall_mem (h : ∀ entry ∈ f, ∀ other ∈ f, other.1 = rule.namePrefix ++ entry.1 →
    (f.Precedes entry.1 other.1 ↔ g.Precedes entry.1 other.1)) : rule.Aligned f g := by
  intro key others hturn hothers
  obtain ⟨items, hitems⟩ := hturn.exists_array
  exact h _ (Fields.mem_of_get? hitems) _ (Fields.mem_of_get? hothers) rfl

section

variable (hsimilar : (Value.object f).Similar (.object g))

include hsimilar

theorem exists_array_iff_of_similar (key : String) :
    (∃ items, f.get? key = some (.array items)) ↔ ∃ items, g.get? key = some (.array items) := by
  have hrel := rel_get?_of_similar hsimilar key
  generalize f.get? key = old, g.get? key = new at hrel
  cases hrel with
  | none => exact iff_of_false nofun nofun
  | some hvalues => simpa using hvalues.exists_array_iff

theorem isReplaced_eq_of_similar (key : String) : isReplaced f key = isReplaced g key := by
  have hrel := rel_get?_of_similar hsimilar key
  rw [isReplaced, isReplaced]
  generalize f.get? key = old, g.get? key = new at hrel
  cases hrel with
  | none => rfl
  | some hvalues => exact hvalues.isAccessor_eq

theorem mayTake_iff_of_similar (key : String) : rule.MayTake f key ↔ rule.MayTake g key := by
  have hrel := rel_get?_of_similar hsimilar (rule.namePrefix ++ key)
  rw [MayTake, MayTake]
  refine or_congr_right ?_
  generalize f.get? _ = old, g.get? _ = new at hrel
  cases hrel with
  | none => simp
  | some hvalues => simp [hvalues.isAccessor_eq]

-- By the length of the key, since an array's turn depends on one with a shorter key only.
theorem hasTurn_iff_of_similar (hpre : rule.namePrefix ≠ "") (haligned : rule.overwrite = true → rule.Aligned f g)
    (key : String) : rule.HasTurn f key ↔ rule.HasTurn g key := by
  induction hlength : key.length using Nat.strong_induction_on generalizing key with
  | _ length ih =>
      subst hlength
      rw [hasTurn_iff hpre, hasTurn_iff hpre, exists_array_iff_of_similar hsimilar]
      refine and_congr_right fun harray => imp_congr_right fun hoverwrite => forall₂_congr fun other hname => ?_
      subst hname
      have hother := ih _ (length_lt_of_name hpre other) other rfl
      rw [← hother]
      by_cases hturn : rule.HasTurn f other
      · obtain ⟨others, hothers⟩ := (exists_array_iff_of_similar hsimilar _).mpr harray
        rw [haligned hoverwrite other others hturn hothers]
      · exact iff_of_true (fun _ => hturn) fun _ => hturn

theorem taken_iff_of_similar (hpre : rule.namePrefix ≠ "") (haligned : rule.overwrite = true → rule.Aligned f g)
    (name : String) : rule.Taken f [] name ↔ rule.Taken g [] name := by
  refine exists_congr fun key => and_congr_right fun _ => ?_
  have hturn := hasTurn_iff_of_similar hsimilar hpre haligned key
  have hfree : rule.MayTake f key ↔ rule.MayTake g key := mayTake_iff_of_similar hsimilar key
  constructor
  · exact fun hgiven => ⟨hgiven.passed, hturn.mp hgiven.turn, hfree.mp hgiven.free⟩
  · exact fun hgiven => ⟨hgiven.passed, hturn.mpr hgiven.turn, hfree.mpr hgiven.free⟩

-- The arrays of both objects have their turns alike, so that similar values are left under every key.
theorem similar_augmentEntries (hpre : rule.namePrefix ≠ "") (haligned : rule.overwrite = true → rule.Aligned f g)
    (hf : f.keys.Nodup) (hg : g.keys.Nodup)
    (h : ∀ key value other, f.get? key = some value → g.get? key = some other → ∀ new new',
      rule.Augments value new → rule.Augments other new' → new.Similar new') (supply supply' : Nat) :
    (Value.object (rule.augmentEntries f f supply).1).Similar (.object (rule.augmentEntries g g supply').1) := by
  have hstage := stage_augmentEntries hf hpre supply
  have hstage' := stage_augmentEntries hg hpre supply'
  refine .object fun name => ?_
  have htakenIff := taken_iff_of_similar hsimilar hpre haligned name
  by_cases htaken : rule.Taken f [] name
  · obtain ⟨key, rfl, hgiven⟩ := id htaken
    obtain ⟨identity, items, new, hitems, hnew, hget⟩ := hstage.stored hgiven
    have hgiven' := taken_name_iff.mp (htakenIff.mp htaken)
    obtain ⟨identity', items', new', hitems', hnew', hget'⟩ := hstage'.stored hgiven'
    rw [hget, hget']
    exact .some (.accessor (forall₂_of_similar (h key _ _ hitems hitems' _ _ hnew hnew')))
  · have hrel := rel_get?_of_similar hsimilar name
    have hgrown := hstage.grown List.not_mem_nil htaken
    have hgrown' := hstage'.grown List.not_mem_nil (mt htakenIff.mpr htaken)
    generalize hvalue : f.get? name = value, hother : g.get? name = other at hrel hgrown hgrown'
    generalize Fields.get? (rule.augmentEntries f f supply).1 name = new,
      Fields.get? (rule.augmentEntries g g supply').1 name = new' at hgrown hgrown' ⊢
    cases hrel with
    | none =>
        cases hgrown
        cases hgrown'
        exact .none
    | some =>
        cases hgrown with
        | some hnew =>
            cases hgrown' with
            | some hnew' => exact .some (h name _ _ hvalue hother _ _ hnew hnew')

end

theorem forall₂_augmentItems {items others : List Value}
    (h : List.Forall₂ (fun item other => ∀ new new', rule.Augments item new → rule.Augments other new' →
      new.Similar new') items others) (supply supply' : Nat) :
    List.Forall₂ Similar (rule.augmentItems items supply).1 (rule.augmentItems others supply').1 := by
  induction h generalizing supply supply' with
  | nil => exact .nil
  | cons hitem _ ih => exact .cons (hitem _ _ ⟨supply, rfl⟩ ⟨supply', rfl⟩) (ih _ _)

-- By the parts of the value: similar values stay similar.
theorem similar_of_augments (hpre : rule.namePrefix ≠ "") {a b newA newB : Value} (hsimilar : a.Similar b)
    (ha : a.Every fun object => object.keys.Nodup) (hb : b.Every fun object => object.keys.Nodup)
    (haligned : rule.overwrite = true → a.EveryTwo rule.Aligned b) (hnewA : rule.Augments a newA)
    (hnewB : rule.Augments b newB) : newA.Similar newB := by
  induction a using Value.byParts generalizing b newA newB with
  | scalar a hscalar =>
      have hflat := isFlat_of_isScalar hscalar
      rw [hnewA.eq_of_isFlat hflat, hnewB.eq_of_isFlat (hsimilar.isFlat hflat)]
      exact hsimilar
  | function | accessor =>
      rw [hnewA.eq_of_isFlat ⟨nofun, nofun⟩, hnewB.eq_of_isFlat (hsimilar.isFlat ⟨nofun, nofun⟩)]
      exact hsimilar
  | array items ih =>
      obtain ⟨others, rfl⟩ := hsimilar.exists_array_iff.mp ⟨items, rfl⟩
      obtain ⟨supply, rfl⟩ := hnewA.array
      obtain ⟨supply', rfl⟩ := hnewB.array
      obtain ⟨hlength, hitems⟩ := List.forall₂_iff_zip.mp (forall₂_of_similar hsimilar)
      refine .array (forall₂_augmentItems ?_ _ _)
      refine List.forall₂_iff_zip.mpr ⟨hlength, fun {item other} hmem new new' => ?_⟩
      obtain ⟨hitem, hother⟩ := List.of_mem_zip hmem
      exact ih item hitem (hitems hmem) (every_array_iff.mp ha item hitem) (every_array_iff.mp hb other hother)
        fun hoverwrite => everyTwo_array_iff.mp (haligned hoverwrite) _ hmem
  | object f ih =>
      obtain ⟨g, rfl⟩ := hsimilar.exists_object
      obtain ⟨supply, rfl⟩ := hnewA.object
      obtain ⟨supply', rfl⟩ := hnewB.object
      obtain ⟨hf, hvalues⟩ := every_object_iff.mp ha
      obtain ⟨hg, hothers⟩ := every_object_iff.mp hb
      have hobjects (hoverwrite : rule.overwrite = true) := everyTwo_object_iff.mp (haligned hoverwrite)
      refine similar_augmentEntries hsimilar hpre (fun hoverwrite => (hobjects hoverwrite).1) hf hg ?_ _ _
      intro key value other hvalue hother new new'
      have hrel := rel_get?_of_similar hsimilar key
      rw [hvalue, hother] at hrel
      cases hrel with
      | some hchild =>
          exact ih _ (Fields.mem_of_get? hvalue) hchild (hvalues key value hvalue) (hothers key other hother)
            fun hoverwrite => (hobjects hoverwrite).2 key value other hvalue hother

section

variable (hpre : rule.namePrefix ≠ "") (hoverwrite : rule.overwrite = true)

include hpre hoverwrite

-- An array under the name of another array's accessor has its turn before that one, or never.
theorem hasTurn_name_iff {others : List Value} (hturn : rule.HasTurn f key)
    (hothers : f.get? (rule.namePrefix ++ key) = some (.array others)) :
    rule.HasTurn f (rule.namePrefix ++ key) ↔ ¬f.Precedes key (rule.namePrefix ++ key) := by
  rw [hasTurn_iff hpre, and_iff_right ⟨others, hothers⟩, forall_prop_of_true hoverwrite]
  constructor
  · exact fun h hprecedes => h key rfl hprecedes hturn
  · rintro h other hname hprecedes
    obtain rfl := (String.append_right_inj _).mp hname
    exact absurd hprecedes h

-- An accessor that was not there before has come in the turn of its array.
theorem isReplaced_augmentEntries_iff (hf : f.keys.Nodup) (hplain : isReplaced f (rule.namePrefix ++ key) = false)
    (supply : Nat) :
    isReplaced (rule.augmentEntries f f supply).1 (rule.namePrefix ++ key) = true ↔ rule.HasTurn f key := by
  have hstage := stage_augmentEntries hf hpre supply
  by_cases hturn : rule.HasTurn f key
  · obtain ⟨identity, items, new, -, -, hget⟩ := hstage.stored ⟨List.not_mem_nil, hturn, .inl hoverwrite⟩
    exact iff_of_true (by rw [isReplaced, hget]; rfl) hturn
  · have hgrown := hstage.grown List.not_mem_nil fun htaken => hturn (taken_name_iff.mp htaken).turn
    rw [isReplaced] at hplain ⊢
    generalize f.get? _ = old, Fields.get? (rule.augmentEntries f f supply).1 _ = new at hgrown hplain ⊢
    refine iff_of_false ?_ hturn
    cases hgrown with
    | none => exact Bool.false_ne_true
    | some hnew => simpa [hnew.isAccessor_eq] using hplain

-- The new accessors show which arrays had their turn, and so which of two arrays came first.
theorem aligned_of_similar_augmentEntries (hf : f.keys.Nodup) (hg : g.keys.Nodup)
    (hsimilar : (Value.object f).Similar (.object g)) (hplain : ∀ key, isReplaced f key = false)
    {supply supply' : Nat}
    (h : (Value.object (rule.augmentEntries f f supply).1).Similar (.object (rule.augmentEntries g g supply').1)) :
    rule.Aligned f g := by
  have hsame (key : String) : rule.HasTurn f key ↔ rule.HasTurn g key := by
    have hplain' := (isReplaced_eq_of_similar hsimilar (rule.namePrefix ++ key)).symm.trans (hplain _)
    rw [← isReplaced_augmentEntries_iff hpre hoverwrite hf (hplain _) supply,
      ← isReplaced_augmentEntries_iff hpre hoverwrite hg hplain' supply', isReplaced_eq_of_similar h]
  intro key others hturn hothers
  obtain ⟨others', hothers'⟩ := (exists_array_iff_of_similar hsimilar _).mp ⟨others, hothers⟩
  rw [← not_iff_not, ← hasTurn_name_iff hpre hoverwrite hturn hothers,
    ← hasTurn_name_iff hpre hoverwrite ((hsame key).mp hturn) hothers', hsame]

end

end AccessorRule

-- Augmentation does not depend on the order of keys, unless accessors overwrite other entries: then an array that
-- stands under the name of another array's accessor gets an accessor of its own just if it comes first. Where no
-- accessors are at first, contexts in which another one of two such arrays comes first are left different.
theorem Context.augment_similar (rule : AccessorRule) (hpre : rule.namePrefix ≠ "") (a b : Context)
    (ha : (Value.object a.entries).Every fun object => object.keys.Nodup)
    (hb : (Value.object b.entries).Every fun object => object.keys.Nodup)
    (hsimilar : (Value.object a.entries).Similar (.object b.entries)) :
    let newA := Value.object (a.augment rule).1.entries
    let newB := Value.object (b.augment rule).1.entries
    ((rule.overwrite = true → (Value.object a.entries).EveryTwo rule.Aligned (.object b.entries)) →
        newA.Similar newB) ∧
      (rule.overwrite = true → (∀ key, AccessorRule.isReplaced a.entries key = false) → newA.Similar newB →
        rule.Aligned a.entries b.entries) := by
  intro newA newB
  refine ⟨fun haligned => ?_, fun hoverwrite hplain hnew => ?_⟩
  · exact AccessorRule.similar_of_augments hpre hsimilar ha hb haligned ⟨a.supply, rfl⟩ ⟨b.supply, rfl⟩
  · exact AccessorRule.aligned_of_similar_augmentEntries hpre hoverwrite (Value.every_object_iff.mp ha).1
      (Value.every_object_iff.mp hb).1 hsimilar hplain hnew

-- Two arrays of which the second one stands under the name of the first one's accessor, and an object with an
-- array.
def crossing : Context :=
  ⟨[("$a", .array [.null]), ("a", .array [.object [("b", .array []), ("c", .null)]]), ("d", .string "x")], 0⟩

-- The same with other entries in another order.
def reordered : Context :=
  ⟨[("d", .string "x"), ("$a", .array [.null]), ("a", .array [.object [("c", .null), ("b", .array [])]])], 5⟩

theorem augment_similar_of_reordered :
    let rule : AccessorRule := ⟨"$", true⟩
    rule.namePrefix ≠ "" ∧ ((Value.object crossing.entries).Every fun object => object.keys.Nodup) ∧
      ((Value.object reordered.entries).Every fun object => object.keys.Nodup) ∧
      (Value.object crossing.entries).Similar (.object reordered.entries) ∧
      (Value.object crossing.entries).EveryTwo rule.Aligned (.object reordered.entries) ∧
      (∀ key, AccessorRule.isReplaced crossing.entries key = false) ∧
      Fields.keys (crossing.augment rule).1.entries = ["$a", "a", "d", "$$a"] ∧
      Fields.keys (reordered.augment rule).1.entries = ["d", "$a", "a", "$$a"] ∧
      (Value.object (crossing.augment rule).1.entries).Similar (.object (reordered.augment rule).1.entries) ∧
      rule.Aligned crossing.entries reordered.entries := by
  intro rule
  have hempty : (Value.array []).Every fun object => object.keys.Nodup :=
    Value.every_array_iff.mpr (List.forall_mem_nil _)
  have hnull : Value.null.Every fun object => object.keys.Nodup := Value.IsFlat.every ⟨nofun, nofun⟩
  have htext : (Value.string "x").Every fun object => object.keys.Nodup := Value.IsFlat.every ⟨nofun, nofun⟩
  have hinner : (Value.object [("b", .array []), ("c", .null)]).Every fun object => object.keys.Nodup :=
    Value.every_object_of_forall_mem (by decide) (by simp [hempty, hnull])
  have hinner' : (Value.object [("c", .null), ("b", .array [])]).Every fun object => object.keys.Nodup :=
    Value.every_object_of_forall_mem (by decide) (by simp [hempty, hnull])
  have hcrossing : (Value.object crossing.entries).Every fun object => object.keys.Nodup :=
    Value.every_object_of_forall_mem (by decide) (by simp [crossing, Value.every_array_iff, hnull, htext, hinner])
  have hreordered : (Value.object reordered.entries).Every fun object => object.keys.Nodup :=
    Value.every_object_of_forall_mem (by decide) (by simp [reordered, Value.every_array_iff, hnull, htext, hinner'])
  have hitem : (Value.object [("b", .array []), ("c", .null)]).Similar (.object [("c", .null), ("b", .array [])]) :=
    Value.similar_of_perm (by decide) (.swap _ _ _)
  have hsimilar : (Value.object crossing.entries).Similar (.object reordered.entries) := by
    refine Value.similar_of_forall_mem (by decide) ?_
    have hitems := Value.Similar.array (.cons hitem .nil)
    simp [crossing, reordered, hitems, Value.Similar.refl]
  have haligned : (Value.object crossing.entries).EveryTwo rule.Aligned (.object reordered.entries) := by
    have hnull : Value.null.IsFlat := ⟨nofun, nofun⟩
    have htext : (Value.string "x").IsFlat := ⟨nofun, nofun⟩
    have hempty : (Value.array []).EveryTwo rule.Aligned (.array []) := by simp [Value.everyTwo_array_iff]
    have hinner : (Value.object [("b", .array []), ("c", .null)]).EveryTwo rule.Aligned
        (.object [("c", .null), ("b", .array [])]) :=
      Value.everyTwo_object_of_forall_mem (AccessorRule.aligned_of_forall_mem (by decide))
        (by simp [hempty, hnull.everyTwo])
    refine Value.everyTwo_object_of_forall_mem (AccessorRule.aligned_of_forall_mem (by decide)) ?_
    simp [crossing, reordered, Value.everyTwo_array_iff, hinner, hnull.everyTwo, htext.everyTwo]
  have hplain (key : String) : AccessorRule.isReplaced crossing.entries key = false := by
    have hentries : ∀ entry ∈ crossing.entries, entry.2.isAccessor = false := by simp [crossing, Value.isAccessor]
    rw [← Bool.not_eq_true, AccessorRule.isReplaced_iff]
    rintro ⟨value, hget, haccessor⟩
    exact Bool.false_ne_true ((hentries _ (Fields.mem_of_get? hget)).symm.trans haccessor)
  obtain ⟨hsame, hconverse⟩ :=
    Context.augment_similar rule (by decide) crossing reordered hcrossing hreordered hsimilar
  have hnew := hsame fun _ => haligned
  exact ⟨by decide, hcrossing, hreordered, hsimilar, haligned, hplain, rfl, rfl, hnew, hconverse rfl hplain hnew⟩

-- The array under the name of the other one's accessor gets an accessor of its own only if it comes first.
theorem not_forall_augment_similar :
    ¬∀ (rule : AccessorRule) (a b : Context), rule.namePrefix ≠ "" →
      ((Value.object a.entries).Every fun object => object.keys.Nodup) →
      ((Value.object b.entries).Every fun object => object.keys.Nodup) →
      (Value.object a.entries).Similar (.object b.entries) →
      (Value.object (a.augment rule).1.entries).Similar (.object (b.augment rule).1.entries) := by
  intro h
  have hempty : (Value.array []).Every fun object => object.keys.Nodup :=
    Value.every_array_iff.mpr (List.forall_mem_nil _)
  have hkeys {f : Fields Value} (hnodup : f.keys.Nodup) (hvalues : ∀ entry ∈ f, entry.2 = .array []) :
      (Value.object f).Every fun object => object.keys.Nodup :=
    Value.every_object_of_forall_mem hnodup fun entry hmem => hvalues entry hmem ▸ hempty
  have hnew := h ⟨"$", true⟩ ⟨[("a", .array []), ("$a", .array [])], 0⟩ ⟨[("$a", .array []), ("a", .array [])], 0⟩
    (by decide) (hkeys (by decide) (by simp)) (hkeys (by decide) (by simp))
    (Value.similar_of_perm (by decide) (.swap _ _ _))
  have hrel : Option.Rel Value.Similar none (some _) := Value.rel_get?_of_similar hnew "$$a"
  cases hrel

end JsonTemplate
