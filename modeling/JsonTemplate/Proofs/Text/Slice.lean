import JsonTemplate.Text.Search
import Mathlib.Data.String.Basic

namespace JsonTemplate.Text

-- The part of a text between two byte offsets.
def slice (source : String) (start stop : Nat) : String :=
  String.Pos.Raw.extract source ⟨start⟩ ⟨stop⟩

theorem utf8Len_eq_byteLength (text : List Char) : String.utf8Len text = byteLength text := by
  induction text with
  | nil => rfl
  | cons c text ih => rw [String.utf8Len_cons, ih, byteLength, Nat.add_comm]

variable {source : String} {before part after : List Char}

theorem byteLength_toList (source : String) : byteLength source.toList = source.utf8ByteSize := by
  rw [← utf8Len_eq_byteLength, String.utf8Len_toList]

theorem byteLength_eq_zero_iff {text : List Char} : byteLength text = 0 ↔ text = [] := by
  rw [← utf8Len_eq_byteLength, String.utf8Len_eq_zero]

theorem slice_of_parts (h : source.toList = before ++ part ++ after) :
    slice source (byteLength before) (byteLength before + byteLength part) = String.ofList part := by
  have hsource : source = String.ofList (before ++ part ++ after) := by
    rw [← h, String.ofList_toList]
  rw [slice, hsource, ← utf8Len_eq_byteLength, ← utf8Len_eq_byteLength]
  exact String.extract_of_valid before part after

theorem slice_before (h : source.toList = before ++ after) :
    slice source 0 (byteLength before) = String.ofList before := by
  have hparts : source.toList = [] ++ before ++ after := by rw [h, List.nil_append]
  have hslice := slice_of_parts hparts
  rwa [byteLength, Nat.zero_add] at hslice

theorem slice_after (h : source.toList = before ++ after) :
    slice source (byteLength before) source.utf8ByteSize = String.ofList after := by
  have hparts : source.toList = before ++ after ++ [] := by rw [h, List.append_nil]
  have hsize : source.utf8ByteSize = byteLength before + byteLength after := by
    rw [← byteLength_toList, h, byteLength_append]
  rw [hsize]
  exact slice_of_parts hparts

end JsonTemplate.Text
