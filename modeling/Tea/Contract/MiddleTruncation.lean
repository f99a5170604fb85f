/-
  Tea/Contract/MiddleTruncation.lean
  ==================================
  **Truncation in the middle**: a text that is too long keeps its two ends around the marker,
  never cut inside a character, and is not truncated any further.
-/
import Tea.Run.Projection

namespace Tea.Contract

open Tea.Core Tea.Encoding Tea.Run

/-! ### The two ends -/

/-- What remains of a text behind the longest prefix that fits. -/
theorem utf8Suffix_ends (limit : Nat) (cs : List Char) : utf8Suffix limit cs <:+ cs := by
  rw [utf8Suffix, ← List.reverse_prefix, List.reverse_reverse]
  exact utf8Prefix_begins limit cs.reverse

/-- A prefix and a suffix that have together fewer bytes than the text do not overlap. -/
theorem dropped_between {first last cs : List Char} (hfirst : first <+: cs) (hlast : last <:+ cs)
    (hlength : (encodeUtf8 first).length + (encodeUtf8 last).length < (encodeUtf8 cs).length) :
    ∃ dropped, cs = first ++ dropped ++ last := by
  obtain ⟨rest, rfl⟩ := hfirst
  have hrest : rest <:+ first ++ rest := List.suffix_append first rest
  rcases List.suffix_or_suffix_of_suffix hlast hrest with ⟨dropped, rfl⟩ | ⟨more, rfl⟩
  · exact ⟨dropped, by rw [List.append_assoc]⟩
  · exfalso
    rw [encodeUtf8_append, encodeUtf8_append, List.length_append, List.length_append] at hlength
    omega

/-! ### Truncated texts -/

/-- What truncation keeps of a text. -/
structure TruncatedMiddle (value : String) (limit : Nat) (result : String) : Prop where
  fits : result.utf8ByteSize ≤ limit
  whole : value.utf8ByteSize ≤ limit → result = value
  ends : limit < value.utf8ByteSize → truncationMarker.utf8ByteSize < limit →
    ∃ first dropped last : String,
      value = first ++ dropped ++ last ∧ result = first ++ truncationMarker ++ last

theorem truncateMiddle_ends {value : String} {limit : Nat} (hlong : limit < value.utf8ByteSize)
    (hmarker : truncationMarker.utf8ByteSize < limit) :
    ∃ first dropped last : String, value = first ++ dropped ++ last ∧
      truncateMiddle value limit = first ++ truncationMarker ++ last := by
  have hbytes : value.utf8ByteSize = (encodeUtf8 value.toList).length :=
    (length_bytesOf value).symm
  have hresult := truncateMiddle_le value limit
  unfold truncateMiddle at hresult ⊢
  rw [if_neg (Nat.not_le.mpr hlong), if_neg (Nat.not_le.mpr hmarker)] at hresult ⊢
  dsimp only at hresult ⊢
  generalize (limit - truncationMarker.utf8ByteSize) / 2 = prefixLimit at hresult ⊢
  generalize limit - truncationMarker.utf8ByteSize - prefixLimit = suffixLimit at hresult ⊢
  rw [String.utf8ByteSize_append, String.utf8ByteSize_append, utf8ByteSize_ofList,
    utf8ByteSize_ofList] at hresult
  have hbegins := utf8Prefix_begins prefixLimit value.toList
  have hends := utf8Suffix_ends suffixLimit value.toList
  obtain ⟨dropped, hvalue⟩ := dropped_between hbegins hends (by omega)
  refine ⟨_, String.ofList dropped, _, ?_, rfl⟩
  rw [← String.ofList_append, ← String.ofList_append, ← hvalue, String.ofList_toList]

theorem truncatedMiddle (value : String) (limit : Nat) :
    TruncatedMiddle value limit (truncateMiddle value limit) where
  fits := truncateMiddle_le value limit
  whole := truncateMiddle_fits
  ends := truncateMiddle_ends

/-- **Truncation in the middle.**  No slice falls inside a character; the text that remains is
    as it should be, and truncating it again changes nothing. -/
theorem middle_truncation (value : String) (limit : Nat) :
    ∃ result : String, truncateMiddleSliced (bytesOf value) limit = some (bytesOf result) ∧
      TruncatedMiddle value limit result ∧
      truncateMiddleSliced (bytesOf result) limit = some (bytesOf result) := by
  refine ⟨truncateMiddle value limit, truncateMiddle_sliced value limit,
    truncatedMiddle value limit, ?_⟩
  rw [truncateMiddle_sliced, truncateMiddle_fits (truncateMiddle_le value limit)]

end Tea.Contract
