/-
  Tea/Run/Projection.lean
  =======================
  **Truncation and projection of tool results** (`tool.rs`).  `truncate_middle` cuts byte
  slices, and never inside a character (`truncateMiddle_sliced`); what it and the sections
  of a projected result keep is bounded, and a section never displaces what is before it.
-/

import Tea.Run.Context
import Tea.Coding.Edit
import Mathlib.Tactic.IntervalCases

namespace Tea.Run

open Tea.Core Tea.Encoding Tea.Coding

/-! ### Bytes of a text -/

/-- The bytes of a string. -/
def bytesOf (s : String) : List UInt8 := encodeUtf8 s.toList

theorem utf8ByteSize_ofList (cs : List Char) :
    (String.ofList cs).utf8ByteSize = (encodeUtf8 cs).length := by
  induction cs with
  | nil => rfl
  | cons c cs ih =>
    have hsplit : String.ofList (c :: cs) = String.ofList [c] ++ String.ofList cs := by
      rw [← String.ofList_append]
      rfl
    have hone : (String.ofList [c]).utf8ByteSize = (String.utf8EncodeChar c).length := by
      rw [← String.singleton_eq_ofList]
      simp
    rw [hsplit, String.utf8ByteSize_append, ih, encodeUtf8_cons, List.length_append, hone]

theorem length_bytesOf (s : String) : (bytesOf s).length = s.utf8ByteSize := by
  rw [bytesOf, ← utf8ByteSize_ofList, String.ofList_toList]

theorem bytesOf_append (s t : String) : bytesOf (s ++ t) = bytesOf s ++ bytesOf t := by
  rw [bytesOf, String.toList_append, encodeUtf8_append]
  rfl

theorem bytesOf_ofList (cs : List Char) : bytesOf (String.ofList cs) = encodeUtf8 cs := by
  rw [bytesOf, String.toList_ofList]

/-! ### Whole characters -/

theorem utf8Prefix_begins (limit : Nat) (cs : List Char) : utf8Prefix limit cs <+: cs := by
  induction cs generalizing limit with
  | nil => exact List.nil_prefix
  | cons c cs ih =>
    rw [utf8Prefix]
    split_ifs
    · exact List.cons_prefix_cons.mpr ⟨rfl, ih _⟩
    · exact List.nil_prefix

theorem length_encode_cons (c : Char) (cs : List Char) :
    (encodeUtf8 (c :: cs)).length = c.utf8Size + (encodeUtf8 cs).length := by
  rw [encodeUtf8_cons, List.length_append, String.length_utf8EncodeChar]

/-- A prefix of whole characters fits. -/
theorem utf8Prefix_le (limit : Nat) (cs : List Char) :
    (encodeUtf8 (utf8Prefix limit cs)).length ≤ limit := by
  induction cs generalizing limit with
  | nil => exact Nat.zero_le _
  | cons c cs ih =>
    rw [utf8Prefix]
    split_ifs with hfits
    · have hrest := ih (limit - c.utf8Size)
      rw [length_encode_cons]
      omega
    · exact Nat.zero_le _

theorem length_encode_reverse (cs : List Char) :
    (encodeUtf8 cs.reverse).length = (encodeUtf8 cs).length := by
  induction cs with
  | nil => rfl
  | cons c cs ih =>
    rw [List.reverse_cons, encodeUtf8_append, List.length_append, ih, length_encode_cons,
      length_encode_cons]
    have hnil : (encodeUtf8 []).length = 0 := rfl
    omega

theorem utf8Suffix_le (limit : Nat) (cs : List Char) :
    (encodeUtf8 (utf8Suffix limit cs)).length ≤ limit := by
  rw [utf8Suffix, length_encode_reverse]
  exact utf8Prefix_le limit cs.reverse

/-- **A truncated text fits.** -/
theorem truncateMiddle_le (value : String) (limit : Nat) :
    (truncateMiddle value limit).utf8ByteSize ≤ limit := by
  unfold truncateMiddle
  split_ifs with hfits hmarker
  · exact hfits
  · rw [utf8ByteSize_ofList]
    exact utf8Prefix_le limit _
  · dsimp only
    have hfirst := utf8Prefix_le ((limit - truncationMarker.utf8ByteSize) / 2) value.toList
    have hlast := utf8Suffix_le (limit - truncationMarker.utf8ByteSize -
      (limit - truncationMarker.utf8ByteSize) / 2) value.toList
    rw [String.utf8ByteSize_append, String.utf8ByteSize_append, utf8ByteSize_ofList,
      utf8ByteSize_ofList]
    omega

theorem truncateMiddle_fits {value : String} {limit : Nat} (h : value.utf8ByteSize ≤ limit) :
    truncateMiddle value limit = value := if_pos h

/-! ### Slices -/

/-- The loop of `utf8_prefix_end`. -/
def downTo (value : List UInt8) : Nat → Nat
  | 0 => 0
  | n + 1 => if isCharBoundary value (n + 1) then n + 1 else downTo value n

/-- `utf8_prefix_end` -/
def utf8PrefixEnd (value : List UInt8) (limit : Nat) : Nat :=
  downTo value (min limit value.length)

/-- The loop of `utf8_suffix_start`, for at most so many steps as bytes are left. -/
def upFrom (value : List UInt8) : Nat → Nat → Nat
  | 0, start => start
  | fuel + 1, start => if isCharBoundary value start then start else upFrom value fuel (start + 1)

/-- `utf8_suffix_start` -/
def utf8SuffixStart (value : List UInt8) (limit : Nat) : Nat :=
  let start := value.length - limit
  upFrom value (value.length - start) start

/-- `&value[..index]`; a cut inside a character is a panic. -/
def sliceTo (value : List UInt8) (index : Nat) : Option (List UInt8) :=
  if isCharBoundary value index then some (value.take index) else none

/-- `&value[index..]` -/
def sliceFrom (value : List UInt8) (index : Nat) : Option (List UInt8) :=
  if isCharBoundary value index then some (value.drop index) else none

/-- `truncate_middle` with its slices. -/
def truncateMiddleSliced (value : List UInt8) (limit : Nat) : Option (List UInt8) :=
  let marker := bytesOf truncationMarker
  if value.length ≤ limit then some value
  else if limit ≤ marker.length then sliceTo marker (utf8PrefixEnd marker limit)
  else do
    let remaining := limit - marker.length
    let prefixLimit := remaining / 2
    let suffixLimit := remaining - prefixLimit
    let first ← sliceTo value (utf8PrefixEnd value prefixLimit)
    let last ← sliceFrom value (utf8SuffixStart value suffixLimit)
    some (first ++ marker ++ last)

/-! ### Boundaries -/

theorem boundary_zero (value : List UInt8) : isCharBoundary value 0 = true := by
  simp [isCharBoundary]

theorem boundary_length (value : List UInt8) : isCharBoundary value value.length = true := by
  simp [isCharBoundary]

/-- There is no boundary inside the first character. -/
theorem boundary_inside {c : Char} {cs : List Char} {i : Nat} (hpos : 0 < i)
    (hlt : i < c.utf8Size) : isCharBoundary (encodeUtf8 (c :: cs)) i = false := by
  obtain ⟨first, rest, hc, -, hrest⟩ := utf8EncodeChar_bytes c
  have hlength : (String.utf8EncodeChar c).length = c.utf8Size := String.length_utf8EncodeChar c
  have hall := length_encode_cons c cs
  obtain ⟨j, rfl⟩ := Nat.exists_eq_succ_of_ne_zero (Nat.pos_iff_ne_zero.mp hpos)
  have hin : j < rest.length := by
    rw [hc, List.length_cons] at hlength
    omega
  have hat : (encodeUtf8 (c :: cs))[j + 1]? = some rest[j] := by
    rw [encodeUtf8_cons, List.getElem?_append_left (by omega), hc, List.getElem?_cons_succ,
      List.getElem?_eq_getElem hin]
  have hne : j.succ ≠ (encodeUtf8 (c :: cs)).length := by omega
  simp [isCharBoundary, hne, hat, hrest _ (List.getElem_mem hin)]

/-- Behind the first character the boundaries are those of the rest. -/
theorem boundary_behind (c : Char) (cs : List Char) (i : Nat) :
    isCharBoundary (encodeUtf8 (c :: cs)) (c.utf8Size + i) = isCharBoundary (encodeUtf8 cs) i := by
  have hpos := Char.utf8Size_pos c
  have hlength : (String.utf8EncodeChar c).length = c.utf8Size := String.length_utf8EncodeChar c
  have hat : (encodeUtf8 (c :: cs))[c.utf8Size + i]? = (encodeUtf8 cs)[i]? := by
    rw [encodeUtf8_cons, List.getElem?_append_right (by omega), hlength, Nat.add_sub_cancel_left]
  have hall := length_encode_cons c cs
  unfold isCharBoundary
  rw [hat, hall]
  cases i with
  | zero =>
    -- the rest begins with the first byte of a character, or is empty
    cases cs with
    | nil => simp [encodeUtf8]
    | cons d ds =>
      obtain ⟨first, rest, hd, hfirst, -⟩ := utf8EncodeChar_bytes d
      rw [encodeUtf8_cons, hd]
      simp [hfirst]
  | succ i =>
    simp

theorem downTo_boundary (value : List UInt8) (n : Nat) :
    isCharBoundary value (downTo value n) = true := by
  induction n with
  | zero => exact boundary_zero value
  | succ n ih =>
    rw [downTo]
    split_ifs with hboundary
    · exact hboundary
    · exact ih

/-- **The end of a prefix** is that of the longest one of whole characters. -/
theorem downTo_eq (cs : List Char) (n : Nat) (hn : n ≤ (encodeUtf8 cs).length) :
    downTo (encodeUtf8 cs) n = (encodeUtf8 (utf8Prefix n cs)).length := by
  induction cs generalizing n with
  | nil =>
    obtain rfl : n = 0 := Nat.le_zero.mp hn
    rfl
  | cons c cs ih =>
    rw [length_encode_cons] at hn
    by_cases hfits : c.utf8Size ≤ n
    · obtain ⟨m, rfl⟩ := Nat.exists_eq_add_of_le hfits
      have hbehind : ∀ m, downTo (encodeUtf8 (c :: cs)) (c.utf8Size + m) =
          c.utf8Size + downTo (encodeUtf8 cs) m := by
        intro m
        induction m with
        | zero =>
          obtain ⟨k, hk⟩ := Nat.exists_eq_succ_of_ne_zero
            (Nat.pos_iff_ne_zero.mp (Char.utf8Size_pos c))
          have hboundary := boundary_behind c cs 0
          rw [boundary_zero, Nat.add_zero, hk] at hboundary
          rw [Nat.add_zero, hk]
          exact if_pos hboundary
        | succ m ihm =>
          rw [← Nat.add_assoc, downTo, downTo, Nat.add_assoc, boundary_behind, ihm]
          split_ifs <;> rfl
      rw [hbehind, ih m (by omega), utf8Prefix, if_pos hfits, length_encode_cons,
        Nat.add_sub_cancel_left]
    · rw [utf8Prefix, if_neg hfits]
      have hinside : ∀ m ≤ n, downTo (encodeUtf8 (c :: cs)) m = 0 := by
        intro m hm
        induction m with
        | zero => rfl
        | succ m ihm =>
          have hboundary : isCharBoundary (encodeUtf8 (c :: cs)) (m + 1) = false :=
            boundary_inside (by omega) (by omega)
          rw [downTo, hboundary]
          exact ihm (by omega)
      exact hinside n (Nat.le_refl _)

theorem sliceTo_prefixEnd (cs : List Char) (limit : Nat) (h : limit ≤ (encodeUtf8 cs).length) :
    sliceTo (encodeUtf8 cs) (utf8PrefixEnd (encodeUtf8 cs) limit) =
      some (encodeUtf8 (utf8Prefix limit cs)) := by
  rw [utf8PrefixEnd, Nat.min_eq_left h, sliceTo, if_pos (downTo_boundary _ _), downTo_eq cs limit h]
  obtain ⟨rest, hrest⟩ := utf8Prefix_begins limit cs
  have hencoded : encodeUtf8 cs = encodeUtf8 (utf8Prefix limit cs) ++ encodeUtf8 rest := by
    rw [← encodeUtf8_append, hrest]
  rw [hencoded, List.take_left]

/-! ### The suffix -/

theorem utf8Prefix_all {limit : Nat} {cs : List Char} (h : (encodeUtf8 cs).length ≤ limit) :
    utf8Prefix limit cs = cs := by
  induction cs generalizing limit with
  | nil => rfl
  | cons c cs ih =>
    rw [length_encode_cons] at h
    rw [utf8Prefix, if_pos (by omega), ih (by omega)]

theorem utf8Prefix_snoc (limit : Nat) (cs : List Char) (c : Char) :
    utf8Prefix limit (cs ++ [c]) =
      if (encodeUtf8 (cs ++ [c])).length ≤ limit then cs ++ [c] else utf8Prefix limit cs := by
  induction cs generalizing limit with
  | nil =>
    have hone := length_encode_cons c []
    have hnil : (encodeUtf8 []).length = 0 := rfl
    rw [List.nil_append, utf8Prefix, hone, hnil, Nat.add_zero]
    rfl
  | cons d cs ih =>
    rw [List.cons_append, utf8Prefix, ih, length_encode_cons, utf8Prefix]
    by_cases hd : d.utf8Size ≤ limit
    · rw [if_pos hd, if_pos hd]
      by_cases hall : d.utf8Size + (encodeUtf8 (cs ++ [c])).length ≤ limit
      · rw [if_pos hall, if_pos (by omega)]
      · rw [if_neg hall, if_neg (by omega)]
    · rw [if_neg hd, if_neg hd, if_neg (by omega)]

/-- The longest suffix is the whole text, or one of the rest. -/
theorem utf8Suffix_cons (limit : Nat) (c : Char) (cs : List Char) :
    utf8Suffix limit (c :: cs) =
      if (encodeUtf8 (c :: cs)).length ≤ limit then c :: cs else utf8Suffix limit cs := by
  rw [utf8Suffix, List.reverse_cons, utf8Prefix_snoc, ← List.reverse_cons,
    length_encode_reverse]
  split_ifs
  · rw [List.reverse_reverse]
  · rfl

theorem utf8Suffix_all {limit : Nat} {cs : List Char} (h : (encodeUtf8 cs).length ≤ limit) :
    utf8Suffix limit cs = cs := by
  rw [utf8Suffix, utf8Prefix_all (by rwa [length_encode_reverse]), List.reverse_reverse]

/-- **The start of a suffix** is that of the longest one of whole characters. -/
theorem upFrom_eq (cs : List Char) (limit : Nat) (h : limit ≤ (encodeUtf8 cs).length) :
    upFrom (encodeUtf8 cs) limit ((encodeUtf8 cs).length - limit) +
      (encodeUtf8 (utf8Suffix limit cs)).length = (encodeUtf8 cs).length := by
  induction cs with
  | nil =>
    obtain rfl : limit = 0 := Nat.le_zero.mp h
    rfl
  | cons c cs ih =>
    have hpos := Char.utf8Size_pos c
    have htotal := length_encode_cons c cs
    have hbehind : ∀ fuel start, upFrom (encodeUtf8 (c :: cs)) fuel (c.utf8Size + start) =
        c.utf8Size + upFrom (encodeUtf8 cs) fuel start := by
      intro fuel
      induction fuel with
      | zero => exact fun _ => rfl
      | succ fuel ihf =>
        intro start
        rw [upFrom, upFrom, boundary_behind, Nat.add_assoc, ihf]
        split_ifs <;> rfl
    rw [utf8Suffix_cons]
    by_cases hall : (encodeUtf8 (c :: cs)).length ≤ limit
    · -- the whole text is kept
      rw [if_pos hall]
      have hzero : (encodeUtf8 (c :: cs)).length - limit = 0 := by omega
      obtain ⟨fuel, hfuel⟩ := Nat.exists_eq_succ_of_ne_zero (by omega : limit ≠ 0)
      rw [hzero, hfuel, upFrom, if_pos (boundary_zero _), Nat.zero_add]
    · rw [if_neg hall]
      by_cases hrest : limit ≤ (encodeUtf8 cs).length
      · have hstart : (encodeUtf8 (c :: cs)).length - limit =
            c.utf8Size + ((encodeUtf8 cs).length - limit) := by omega
        rw [hstart, hbehind]
        have hsum := ih hrest
        omega
      · -- the cut would be inside the first character
        have hinside : ∀ k, k ≤ limit - (encodeUtf8 cs).length →
            upFrom (encodeUtf8 (c :: cs)) ((encodeUtf8 cs).length + k) (c.utf8Size - k) =
              c.utf8Size + upFrom (encodeUtf8 cs) (encodeUtf8 cs).length 0 := by
          intro k hk
          induction k with
          | zero => exact hbehind (encodeUtf8 cs).length 0
          | succ k ihk =>
            have hno : isCharBoundary (encodeUtf8 (c :: cs)) (c.utf8Size - (k + 1)) = false :=
              boundary_inside (by omega) (by omega)
            have hnext : c.utf8Size - (k + 1) + 1 = c.utf8Size - k := by omega
            rw [← Nat.add_assoc, upFrom, hno, hnext]
            exact ihk (by omega)
        have hk := hinside (limit - (encodeUtf8 cs).length) (Nat.le_refl _)
        have hfuel : (encodeUtf8 cs).length + (limit - (encodeUtf8 cs).length) = limit := by omega
        have hstart : c.utf8Size - (limit - (encodeUtf8 cs).length) =
            (encodeUtf8 (c :: cs)).length - limit := by omega
        rw [hfuel, hstart] at hk
        have hfirst : upFrom (encodeUtf8 cs) (encodeUtf8 cs).length 0 = 0 := by
          cases (encodeUtf8 cs).length with
          | zero => rfl
          | succ n => rw [upFrom, if_pos (boundary_zero _)]
        rw [hk, hfirst, utf8Suffix_all (by omega), htotal, Nat.add_zero]

theorem upFrom_boundary {value : List UInt8} {fuel start : Nat}
    (h : start + fuel = value.length) : isCharBoundary value (upFrom value fuel start) = true := by
  induction fuel generalizing start with
  | zero =>
    rw [upFrom, ← Nat.add_zero start, h]
    exact boundary_length value
  | succ fuel ih =>
    rw [upFrom]
    split_ifs with hboundary
    · exact hboundary
    · exact ih (by omega)

theorem sliceFrom_suffixStart (cs : List Char) (limit : Nat)
    (h : limit ≤ (encodeUtf8 cs).length) :
    sliceFrom (encodeUtf8 cs) (utf8SuffixStart (encodeUtf8 cs) limit) =
      some (encodeUtf8 (utf8Suffix limit cs)) := by
  have hfuel : (encodeUtf8 cs).length - ((encodeUtf8 cs).length - limit) = limit := by omega
  have hsum := upFrom_eq cs limit h
  rw [utf8SuffixStart, hfuel, sliceFrom, if_pos (upFrom_boundary (by omega))]
  obtain ⟨front, hfront⟩ := utf8Prefix_begins limit cs.reverse
  have hsplit : cs = front.reverse ++ utf8Suffix limit cs := by
    rw [utf8Suffix, ← List.reverse_append, hfront, List.reverse_reverse]
  have hencoded : encodeUtf8 cs =
      encodeUtf8 front.reverse ++ encodeUtf8 (utf8Suffix limit cs) := by
    rw [← encodeUtf8_append, ← hsplit]
  have hlength := congrArg List.length hencoded
  rw [List.length_append] at hlength
  generalize upFrom (encodeUtf8 cs) limit ((encodeUtf8 cs).length - limit) = start at hsum
  have hstart : start = (encodeUtf8 front.reverse).length := by omega
  rw [hstart]
  conv_lhs => rw [hencoded, List.drop_left]

/-- **No slice is cut inside a character**, and the slices make the truncated text. -/
theorem truncateMiddle_sliced (value : String) (limit : Nat) :
    truncateMiddleSliced (bytesOf value) limit = some (bytesOf (truncateMiddle value limit)) := by
  unfold truncateMiddleSliced truncateMiddle
  simp only [length_bytesOf]
  by_cases hfits : value.utf8ByteSize ≤ limit
  · rw [if_pos hfits, if_pos hfits]
  · rw [if_neg hfits, if_neg hfits]
    by_cases hmarker : limit ≤ truncationMarker.utf8ByteSize
    · rw [if_pos hmarker, if_pos hmarker, bytesOf_ofList]
      apply sliceTo_prefixEnd
      rw [← length_bytesOf] at hmarker
      exact hmarker
    · rw [if_neg hmarker, if_neg hmarker]
      have hlength := length_bytesOf value
      have hfirst := sliceTo_prefixEnd value.toList
        ((limit - truncationMarker.utf8ByteSize) / 2) (by rw [← bytesOf]; omega)
      have hlast := sliceFrom_suffixStart value.toList
        (limit - truncationMarker.utf8ByteSize - (limit - truncationMarker.utf8ByteSize) / 2)
        (by rw [← bytesOf]; omega)
      rw [← bytesOf] at hfirst hlast
      rw [hfirst, hlast, bytesOf_append, bytesOf_append, bytesOf_ofList, bytesOf_ofList]
      rfl

/-! ### Sections -/

/-- A section goes behind what is there. -/
theorem appendProjectedSection_keeps (limit : Nat) (output section_ : String) :
    ∃ rest, appendProjectedSection limit output section_ = output ++ rest := by
  unfold appendProjectedSection
  by_cases hempty : section_ = ""
  · rw [if_pos hempty]
    exact ⟨"", String.append_empty.symm⟩
  · rw [if_neg hempty]
    dsimp only
    generalize (if output = "" then 0 else 1) = separator
    by_cases hfull : limit - output.utf8ByteSize ≤ separator
    · rw [if_pos hfull]
      exact ⟨"", String.append_empty.symm⟩
    · rw [if_neg hfull]
      exact ⟨_, String.append_assoc⟩

/-- A section stays within the limit. -/
theorem appendProjectedSection_le {limit : Nat} {output : String} (section_ : String)
    (h : output.utf8ByteSize ≤ limit) :
    (appendProjectedSection limit output section_).utf8ByteSize ≤ limit := by
  unfold appendProjectedSection
  by_cases hempty : section_ = ""
  · rw [if_pos hempty]
    exact h
  · rw [if_neg hempty]
    dsimp only
    have hseparator : (if output = "" then 0 else 1) ≤ 1 := by
      split_ifs <;> decide
    generalize (if output = "" then 0 else 1) = separator at hseparator ⊢
    by_cases hfull : limit - output.utf8ByteSize ≤ separator
    · rw [if_pos hfull]
      exact h
    · have htruncated := truncateMiddle_le section_ (limit - output.utf8ByteSize - separator)
      have hmark : (if separator ≠ 0 then "\n" else "").utf8ByteSize = separator := by
        interval_cases separator <;> decide
      rw [if_neg hfull, String.utf8ByteSize_append, String.utf8ByteSize_append]
      omega

/-- The first section, if it fits, is kept whole. -/
theorem appendProjectedSection_first {limit : Nat} {section_ : String}
    (h : section_.utf8ByteSize ≤ limit) : appendProjectedSection limit "" section_ = section_ := by
  unfold appendProjectedSection
  by_cases hempty : section_ = ""
  · rw [if_pos hempty, hempty]
  · have hpos : section_.utf8ByteSize ≠ 0 := by
      intro hzero
      exact hempty (String.utf8ByteSize_eq_zero_iff.mp hzero)
    have hnone : "".utf8ByteSize = 0 := by decide
    rw [if_neg hempty]
    dsimp only
    rw [if_pos rfl, hnone, if_neg (by omega), if_neg (by decide), String.empty_append,
      String.empty_append]
    exact truncateMiddle_fits h

/-! ### Projection -/

/-- `validate` -/
def validateProjection (policy : ToolResultProjectionPolicy) : Except String Unit :=
  let minimumErrorTotal :=
    satAdd (satAdd "[tool error status: invalid_arguments]".utf8ByteSize 1)
      truncationMarker.utf8ByteSize
  if policy.maxContentBytes < truncationMarker.utf8ByteSize ∨
      policy.maxDetailsBytes < truncationMarker.utf8ByteSize ∨
      policy.maxTotalBytes < minimumErrorTotal then
    .error "tool result projection limits must preserve an error status and truncation marker"
  else .ok ()

/-- What stands in the place of a repeated error. -/
def repeatedNotice : String := "[repeated tool error omitted; see the earlier matching result]"

/-- The status header of an error. -/
def statusHeader (failure : Option ToolFailure) : String :=
  "[tool error status: " ++
    (match failure with
      | some failure => dispositionText failure.disposition
      | none => "recoverable") ++ "]"

/-- The result is suppressed as repeated. -/
def Suppressed (policy : ToolResultProjectionPolicy) (content : String)
    (details : Option SerializedJson) (isError : Bool) (failure : Option ToolFailure)
    (seen : List UInt64) : Prop :=
  (isError && policy.deduplicateRepeatedErrors &&
    seen.contains (errorFingerprint content details failure)) = true

instance (policy : ToolResultProjectionPolicy) (content : String)
    (details : Option SerializedJson) (isError : Bool) (failure : Option ToolFailure)
    (seen : List UInt64) : Decidable (Suppressed policy content details isError failure seen) :=
  inferInstanceAs (Decidable (_ = true))

section

variable {policy : ToolResultProjectionPolicy} {content : String} {details : Option SerializedJson}
  {isError : Bool} {failure : Option ToolFailure} {seen : List UInt64}

theorem project_suppressed (h : Suppressed policy content details isError failure seen) :
    projectToolResultAsText policy content details isError failure seen =
      (repeatedNotice, seen) := if_pos h

/-- The guidance is a section of an error only. -/
theorem guided_section {limit : Nat} {P : String → Prop}
    (hgrow : ∀ text section_, P text → P (appendProjectedSection limit text section_))
    (isError : Bool) (guidance : Option String) (render : String → String) {header : String}
    (h : P header) :
    P (match isError, guidance with
      | true, some guidance => appendProjectedSection limit header (render guidance)
      | _, _ => header) := by
  split
  · exact hgrow _ _ h
  · exact h

/-- The sections behind the header stay within the limit, and keep it. -/
theorem project_sections (h : ¬ Suppressed policy content details isError failure seen) :
    ∃ header,
      header = (if isError = true then
        appendProjectedSection policy.maxTotalBytes "" (statusHeader failure) else "") ∧
      (∃ rest, (projectToolResultAsText policy content details isError failure seen).1 =
        header ++ rest) ∧
      (header.utf8ByteSize ≤ policy.maxTotalBytes →
        (projectToolResultAsText policy content details isError failure seen).1.utf8ByteSize ≤
          policy.maxTotalBytes) := by
  refine ⟨_, rfl, ?_⟩
  generalize hheader : (if isError = true then
    appendProjectedSection policy.maxTotalBytes "" (statusHeader failure) else "") = header
  -- each section goes behind the one before, within the limit
  let Grown (text : String) : Prop := (∃ rest, text = header ++ rest) ∧
    (header.utf8ByteSize ≤ policy.maxTotalBytes → text.utf8ByteSize ≤ policy.maxTotalBytes)
  have hstart : Grown header := ⟨⟨"", String.append_empty.symm⟩, fun hle => hle⟩
  have hgrow : ∀ text section_, Grown text →
      Grown (appendProjectedSection policy.maxTotalBytes text section_) := by
    rintro text section_ ⟨⟨rest, hrest⟩, hle⟩
    obtain ⟨more, hmore⟩ := appendProjectedSection_keeps policy.maxTotalBytes text section_
    refine ⟨⟨rest ++ more, ?_⟩, fun hheader => appendProjectedSection_le section_ (hle hheader)⟩
    rw [hmore, hrest, String.append_assoc]
  change Grown (projectToolResultAsText policy content details isError failure seen).1
  unfold projectToolResultAsText
  unfold Suppressed at h
  dsimp only
  rw [if_neg h]
  have hguided := guided_section hgrow isError (failure.bind (·.recoveryGuidance))
    (fun guidance =>
      "[recovery guidance: " ++ truncateMiddle guidance policy.maxDetailsBytes ++ "]") hstart
  rw [← hheader] at hguided
  cases details with
  | none => exact hgrow _ _ hguided
  | some details =>
    have hbody := hgrow _ (truncateMiddle content policy.maxContentBytes) hguided
    exact hgrow _ ("[tool details (serialized JSON): " ++
      truncateMiddle details.text policy.maxDetailsBytes ++ "]") hbody

end

end Tea.Run
