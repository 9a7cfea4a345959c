import JsonTemplate.Proofs.Expr.Spans
import JsonTemplate.Proofs.Template.Steps
import JsonTemplate.Proofs.Text.Search
import JsonTemplate.Proofs.Text.Slice

namespace JsonTemplate

open Text (FirstAt LastAt byteLength)

-- What the search for a placeholder finds: the marks are at their outermost places, and there is a
-- body between them.
structure Delimiters.Finds (delimiters : Delimiters) (leaf : List Char) (placeholder : Placeholder)
    (body : List Char) : Prop where
  opened : FirstAt delimiters.opening.toList leaf placeholder.before
    (body ++ delimiters.closing.toList ++ placeholder.after)
  closed : LastAt delimiters.closing.toList (body ++ delimiters.closing.toList ++ placeholder.after) body
    placeholder.after
  body_ne_nil : body ≠ []
  span_eq : placeholder.span = delimiters.opening.toList ++ body ++ delimiters.closing.toList
  expression_eq : placeholder.expression = Text.trim body

namespace Delimiters

variable {delimiters : Delimiters} {leaf : String} {placeholder : Placeholder} {body : List Char}

theorem find?_eq_some_iff :
    delimiters.find? leaf = some placeholder ↔ ∃ body, delimiters.Finds leaf.toList placeholder body := by
  simp only [find?, Option.bind_eq_bind, Option.bind_eq_some_iff, Option.pure_def, Prod.exists,
    Text.splitFirst?_eq_some_iff, Text.splitLast?_eq_some_iff]
  constructor
  · rintro ⟨before, rest, hopened, body, after, hclosed, hsome⟩
    split at hsome
    · cases hsome
    · rename_i hbody
      cases hsome
      obtain rfl := hclosed.split
      exact ⟨body, hopened, hclosed, by simpa using hbody, rfl, rfl⟩
  · rintro ⟨body, hopened, hclosed, hbody, hspan, hexpression⟩
    refine ⟨_, _, hopened, _, _, hclosed, ?_⟩
    rw [if_neg (by simpa using hbody), ← hspan, ← hexpression]

theorem Finds.leaf_eq (h : delimiters.Finds leaf.toList placeholder body) :
    leaf.toList = placeholder.before ++ placeholder.span ++ placeholder.after := by
  rw [h.opened.split, h.span_eq]
  simp only [List.append_assoc]

-- The span begins with the opening mark, so that it has no place before the mark's first one.
theorem Finds.firstAt_span (h : delimiters.Finds leaf.toList placeholder body) :
    FirstAt placeholder.span leaf.toList placeholder.before placeholder.after := by
  refine ⟨h.leaf_eq, fun other rest heq => ?_⟩
  rw [h.span_eq] at heq
  apply h.opened.first other (body ++ delimiters.closing.toList ++ rest)
  rw [heq]
  simp only [List.append_assoc]

-- The span ends with the closing mark, whose last place is followed by all that is after the
-- placeholder. As the body has characters, the span of another place would end behind that.
theorem Finds.not_span_after (h : delimiters.Finds leaf.toList placeholder body) (other rest : List Char) :
    placeholder.after ≠ other ++ placeholder.span ++ rest := by
  intro heq
  have hlater : body ++ delimiters.closing.toList ++ placeholder.after =
      (body ++ delimiters.closing.toList ++ other ++ delimiters.opening.toList ++ body) ++
        delimiters.closing.toList ++ rest := by
    rw [heq, h.span_eq]
    simp only [List.append_assoc]
  have hle := h.closed.last _ rest hlater
  have hpos := List.length_pos_iff.mpr h.body_ne_nil
  simp only [List.length_append] at hle
  omega

theorem Finds.replaceAll_span (h : delimiters.Finds leaf.toList placeholder body) (text : List Char) :
    Text.replaceAll placeholder.span text leaf.toList = placeholder.before ++ text ++ placeholder.after := by
  have hspan : placeholder.span ≠ [] := by
    rw [h.span_eq]
    simp [h.body_ne_nil]
  rw [Text.replaceAll_of_firstAt hspan h.firstAt_span, Text.replaceAll_eq_self h.not_span_after]

-- The leaf taken apart at its first opening mark and at some closing mark, with a body between them.
structure Encloses (delimiters : Delimiters) (leaf before body after : String) : Prop where
  split : leaf = before ++ delimiters.opening ++ body ++ delimiters.closing ++ after
  first : ∀ other rest, leaf = other ++ delimiters.opening ++ rest → before.length ≤ other.length
  body_ne_empty : body ≠ ""

variable {before between after : String}

theorem Encloses.firstAt (h : delimiters.Encloses leaf before between after) :
    FirstAt delimiters.opening.toList leaf.toList before.toList
      (between.toList ++ delimiters.closing.toList ++ after.toList) := by
  refine ⟨?_, fun other rest heq => ?_⟩
  · rw [h.split]
    simp only [String.toList_append, List.append_assoc]
  · have hleaf : leaf = String.ofList other ++ delimiters.opening ++ String.ofList rest := by
      rw [← String.toList_inj, heq]
      simp only [String.toList_append, String.toList_ofList]
    have hle := h.first _ _ hleaf
    rwa [String.length_ofList] at hle

-- The body of the search goes on with any other body, which is closed earlier.
theorem Encloses.exists_finds (h : delimiters.Encloses leaf before between after) :
    ∃ placeholder longest, delimiters.Finds leaf.toList placeholder longest ∧
      placeholder.before = before.toList ∧ between.toList <+: longest := by
  let behind := between.toList ++ delimiters.closing.toList ++ after.toList
  have hplace : behind = between.toList ++ delimiters.closing.toList ++ after.toList := rfl
  obtain ⟨longest, rest, hclosed⟩ := Text.exists_lastAt_of_place hplace
  have hlonger : between.toList <+: longest := hclosed.starts_with hplace
  have hlongest : longest ≠ [] := by
    rintro rfl
    exact h.body_ne_empty (String.toList_eq_nil_iff.mp (List.prefix_nil.mp hlonger))
  have hopened : FirstAt delimiters.opening.toList leaf.toList before.toList behind := h.firstAt
  have hparts := hclosed.split
  rw [hparts] at hclosed hopened
  exact ⟨⟨before.toList, delimiters.opening.toList ++ longest ++ delimiters.closing.toList, rest, Text.trim longest⟩,
    longest, ⟨hopened, hclosed, hlongest, rfl, rfl⟩, rfl, hlonger⟩

theorem Finds.encloses (h : delimiters.Finds leaf.toList placeholder body) :
    delimiters.Encloses leaf (String.ofList placeholder.before) (String.ofList body)
      (String.ofList placeholder.after) := by
  refine ⟨?_, fun other rest heq => ?_, fun hempty => h.body_ne_nil (String.ofList_eq_empty_iff.mp hempty)⟩
  · rw [← String.toList_inj, h.leaf_eq, h.span_eq]
    simp only [String.toList_append, String.toList_ofList, List.append_assoc]
  · have hleaf : leaf.toList = other.toList ++ delimiters.opening.toList ++ rest.toList := by
      rw [heq]
      simp only [String.toList_append]
    have hle := h.opened.first _ _ hleaf
    rwa [String.length_toList, ← String.length_ofList] at hle

-- The search is a function, and a span with known marks has one body.
theorem Finds.unique {other : Placeholder} {longest : List Char}
    (h : delimiters.Finds leaf.toList placeholder body) (h' : delimiters.Finds leaf.toList other longest) :
    placeholder = other ∧ body = longest := by
  have hfound := find?_eq_some_iff.mpr ⟨body, h⟩
  rw [find?_eq_some_iff.mpr ⟨longest, h'⟩] at hfound
  obtain rfl := Option.some.inj hfound
  have hspan := h.span_eq.symm.trans h'.span_eq
  rw [List.append_assoc, List.append_assoc] at hspan
  exact ⟨rfl, List.append_cancel_right (List.append_cancel_left hspan)⟩

-- Where the placeholder with this body stands, in bytes of the leaf.
structure Locates (delimiters : Delimiters) (leaf before body : String) (placeholder : Placeholder) : Prop where
  start_eq : placeholder.start = before.utf8ByteSize
  stop_eq : placeholder.stop = (before ++ delimiters.opening ++ body ++ delimiters.closing).utf8ByteSize
  within : (⟨placeholder.start, placeholder.stop⟩ : Span).Within leaf
  span_eq : String.ofList placeholder.span = Text.slice leaf placeholder.start placeholder.stop
  expression_eq : placeholder.expression = Text.trim body.toList
  whole_iff : placeholder.isWhole = true ↔ placeholder.start = 0 ∧ placeholder.stop = leaf.utf8ByteSize

theorem Finds.locates (h : delimiters.Finds leaf.toList placeholder body) :
    delimiters.Locates leaf (String.ofList placeholder.before) (String.ofList body) placeholder := by
  have hsize : leaf.utf8ByteSize = placeholder.stop + byteLength placeholder.after := by
    rw [← Text.byteLength_toList, h.leaf_eq, Text.byteLength_append, Text.byteLength_append]
    rfl
  refine ⟨?_, ?_, ?_, ?_, ?_, ?_⟩
  · exact (Text.utf8ByteSize_ofList _).symm
  · rw [Placeholder.stop, Placeholder.start, h.span_eq]
    simp only [String.utf8ByteSize_append, Text.utf8ByteSize_ofList, Text.byteLength_append,
      Text.byteLength_toList, Nat.add_assoc]
  · refine Span.PartOf.within ⟨placeholder.before, placeholder.span, placeholder.after, h.leaf_eq, ?_, rfl⟩
    exact (Nat.zero_add _).symm
  · exact (Text.slice_of_parts h.leaf_eq).symm
  · rw [h.expression_eq, String.toList_ofList]
  · rw [Placeholder.isWhole, Bool.and_eq_true, List.isEmpty_iff, List.isEmpty_iff, Placeholder.start,
      Text.byteLength_eq_zero_iff, hsize, Nat.left_eq_add, Text.byteLength_eq_zero_iff]

-- A body with the marks around it, and nothing else.
theorem encloses_of_marked (delimiters : Delimiters) {body : String} (hbody : body ≠ "") :
    delimiters.Encloses (delimiters.opening ++ body ++ delimiters.closing) "" body "" := by
  refine ⟨?_, fun _ _ _ => Nat.zero_le _, hbody⟩
  rw [String.empty_append, String.append_empty]

theorem find?_marked (delimiters : Delimiters) {body : String} (hbody : body ≠ "") :
    ∃ placeholder, delimiters.find? (delimiters.opening ++ body ++ delimiters.closing) = some placeholder ∧
      placeholder.isWhole = true ∧ placeholder.expression = Text.trim body.toList := by
  obtain ⟨placeholder, longest, hfinds, hbefore, more, rfl⟩ := (encloses_of_marked delimiters hbody).exists_finds
  have hleaf := congrArg List.length hfinds.leaf_eq
  rw [hbefore, hfinds.span_eq] at hleaf
  simp only [String.toList_append, String.toList_empty, List.nil_append, List.length_append] at hleaf
  -- The body of the placeholder is no longer than the one between the marks.
  have hmore : more = [] := List.length_eq_zero_iff.mp (by omega)
  have hafter : placeholder.after = [] := List.length_eq_zero_iff.mp (by omega)
  refine ⟨placeholder, find?_eq_some_iff.mpr ⟨_, hfinds⟩, ?_, ?_⟩
  · rw [Placeholder.isWhole, hbefore, hafter]
    rfl
  · rw [hfinds.expression_eq, hmore, List.append_nil]

-- The search finds a placeholder if the leaf can be taken apart at its first opening mark and at a
-- closing mark with a body between them. Of all these bodies it takes the longest one.
theorem find?_maximal (delimiters : Delimiters) (leaf : String) :
    ((∃ placeholder, delimiters.find? leaf = some placeholder) ↔
      ∃ before body after, delimiters.Encloses leaf before body after) ∧
    (∀ placeholder, delimiters.find? leaf = some placeholder →
      ∃ before body after, delimiters.Encloses leaf before body after ∧
        delimiters.Locates leaf before body placeholder ∧
        ∀ other between rest, delimiters.Encloses leaf other between rest →
          other = before ∧ between.toList <+: body.toList) ∧
    ∀ body, body ≠ "" →
      ∃ placeholder, delimiters.find? (delimiters.opening ++ body ++ delimiters.closing) = some placeholder ∧
        placeholder.isWhole = true ∧ placeholder.expression = Text.trim body.toList := by
  refine ⟨⟨?_, ?_⟩, ?_, ?_⟩
  · rintro ⟨placeholder, hfind⟩
    obtain ⟨body, hfinds⟩ := find?_eq_some_iff.mp hfind
    exact ⟨_, _, _, hfinds.encloses⟩
  · rintro ⟨before, body, after, hencloses⟩
    obtain ⟨placeholder, longest, hfinds, -, -⟩ := hencloses.exists_finds
    exact ⟨placeholder, find?_eq_some_iff.mpr ⟨longest, hfinds⟩⟩
  · intro placeholder hfind
    obtain ⟨body, hfinds⟩ := find?_eq_some_iff.mp hfind
    refine ⟨_, _, _, hfinds.encloses, hfinds.locates, fun other between rest hencloses => ?_⟩
    obtain ⟨found, longest, hfinds', hbefore, hlonger⟩ := hencloses.exists_finds
    obtain ⟨rfl, rfl⟩ := hfinds.unique hfinds'
    refine ⟨?_, ?_⟩
    · rw [hbefore, String.ofList_toList]
    · rwa [String.toList_ofList]
  · intro body hbody
    exact find?_marked delimiters hbody

-- Marks that overlap with themselves, around bodies that hold them.
def doubled : Delimiters := ⟨"aa", "aa"⟩

theorem find?_maximal_of_overlapping :
    let placeholder : Placeholder := ⟨['é'], "aaXaaaa".toList, ['b'], ['X', 'a', 'a']⟩
    doubled.find? "éaaXaaaab" = some placeholder ∧
      (∃ before body after, doubled.Encloses "éaaXaaaab" before body after ∧
        doubled.Locates "éaaXaaaab" before body placeholder) ∧
      ∃ whole, doubled.find? ("aa" ++ "aaa" ++ "aa") = some whole ∧ whole.isWhole = true ∧
        whole.expression = "aaa".toList := by
  intro placeholder
  have hfind : doubled.find? "éaaXaaaab" = some placeholder := by rfl
  obtain ⟨-, hfound, hmarked⟩ := find?_maximal doubled "éaaXaaaab"
  obtain ⟨before, body, after, hencloses, hlocates, -⟩ := hfound placeholder hfind
  exact ⟨hfind, ⟨before, body, after, hencloses, hlocates⟩, hmarked "aaa" (by decide)⟩

end Delimiters

-- The placeholder occurs once in its text, so that replacing all of its copies puts the result in its
-- place, whatever the result contains, and leaves the rest alone.
theorem Walker.substitute_splices {σ : Type} (walker : Walker σ) (leaf : String) (placeholder : Placeholder)
    (hfind : walker.config.delimiters.find? leaf = some placeholder) :
    let splice (text : String) :=
      Text.slice leaf 0 placeholder.start ++ text ++ Text.slice leaf placeholder.stop leaf.utf8ByteSize
    (∀ text : String, String.ofList (Text.replaceAll placeholder.span text.toList leaf.toList) = splice text) ∧
      ∀ path value s s',
        (walker.evaluate (String.ofList placeholder.expression)).run.run s = (.ok value, s') →
        (walker.config.preserveWholeLeafTypes && placeholder.isWhole) = false →
        (walker.substitute path leaf).run s = (.present (.string (splice value.text)), s') := by
  intro splice
  obtain ⟨body, hfinds⟩ := Delimiters.find?_eq_some_iff.mp hfind
  have hreplace (text : String) :
      String.ofList (Text.replaceAll placeholder.span text.toList leaf.toList) = splice text := by
    have hbefore : Text.slice leaf 0 placeholder.start = String.ofList placeholder.before :=
      Text.slice_before (hfinds.leaf_eq.trans (List.append_assoc ..))
    have hafter : Text.slice leaf placeholder.stop leaf.utf8ByteSize = String.ofList placeholder.after := by
      rw [Placeholder.stop, Placeholder.start, ← Text.byteLength_append]
      exact Text.slice_after hfinds.leaf_eq
    simp only [splice, hbefore, hafter, hfinds.replaceAll_span, String.ofList_append, String.ofList_toList]
  refine ⟨hreplace, fun path value s s' heval hwhole => ?_⟩
  rcases hrun : (walker.substitute path leaf).run s with ⟨slot, s₁⟩
  cases substitute_step hrun with
  | plain hfind' =>
      rw [hfind] at hfind'
      cases hfind'
  | refused hfind' heval' =>
      cases hfind.symm.trans hfind'
      cases heval.symm.trans heval'
  | typed hfind' _ hwhole' | untyped hfind' _ hwhole' =>
      cases hfind.symm.trans hfind'
      cases hwhole.symm.trans hwhole'
  | spliced hfind' heval' =>
      cases hfind.symm.trans hfind'
      cases heval.symm.trans heval'
      rw [hreplace]

-- A walker whose marks overlap with themselves, and whose results hold the marks and the whole span.
def overlapping : Walker Unit :=
  ⟨fun _ => pure (.string "aaXaaaa-aaXaaaa"), { Config.standard with delimiters := .doubled }⟩

theorem substitute_splices_of_overlapping :
    ∃ placeholder, overlapping.config.delimiters.find? "éaaXaaaab" = some placeholder ∧
      placeholder.start = 2 ∧ placeholder.stop = 9 ∧
      (overlapping.substitute Json.Pointer.root "éaaXaaaab").run () =
        (.present (.string "éaaXaaaa-aaXaaaab"), ()) := by
  have hfind : overlapping.config.delimiters.find? "éaaXaaaab" =
      some ⟨['é'], "aaXaaaa".toList, ['b'], ['X', 'a', 'a']⟩ := by rfl
  refine ⟨_, hfind, by decide, by decide, ?_⟩
  exact (Walker.substitute_splices overlapping _ _ hfind).2 Json.Pointer.root _ () () rfl rfl

end JsonTemplate
