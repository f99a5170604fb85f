/-
  Tea/Contract/EditOnce.lean
  ==========================
  **What an edit changes.**  The tool finds the matches of an `oldText` that do not
  overlap; so it accepts a text that occurs twice if the occurrences overlap, and meets
  its contract exactly if that is not so (`edits_once_iff`).  Where it does, the file
  becomes the original with all spans replaced at once, whatever the order of the edits.
-/

import Tea.Coding.Edit
import Tea.Encoding.JsonText
import Mathlib.Data.List.Pairwise

namespace Tea.Contract

open Tea.Core Tea.Encoding Tea.Coding

/-! ### The contract -/

/-- The text stands at one place, overlapping places counted. -/
def OccursOnce (old text : List UInt8) : Prop := ∃ p, ∀ q, OccursAt old text q ↔ q = p

/-- The spans of two edits are apart, wherever they stand. -/
def Apart (text : List UInt8) (a b : EditSpec) : Prop :=
  ∀ p q, OccursAt a.oldBytes text p → OccursAt b.oldBytes text q →
    p + a.oldBytes.length ≤ q ∨ q + b.oldBytes.length ≤ p

/-- Every `oldText` occurs at one place, and the spans are apart. -/
structure Editable (text : List UInt8) (edits : List EditSpec) : Prop where
  once : ∀ edit ∈ edits, OccursOnce edit.oldBytes text
  apart : edits.Pairwise (Apart text)

/-- Two edits are found apart: the spans of their matches are. -/
def FoundApart (text : List UInt8) (a b : EditSpec) : Prop :=
  ∀ p ∈ matchIndices a.oldBytes text, ∀ q ∈ matchIndices b.oldBytes text,
    p + a.oldBytes.length ≤ q ∨ q + b.oldBytes.length ≤ p

/-- The search finds each `oldText` once, and the spans found are apart. -/
structure FoundOnce (text : List UInt8) (edits : List EditSpec) : Prop where
  once : ∀ edit ∈ edits, (matchIndices edit.oldBytes text).length = 1
  apart : edits.Pairwise (FoundApart text)

/-- The replacements of some edits. -/
def editEntries (edits : List EditSpec) : List (List UInt8 × List UInt8) :=
  edits.map fun edit => (edit.oldBytes, edit.newBytes)

/-! ### Places -/

theorem oldBytes_ne {edit : EditSpec} (h : edit.old ≠ "") :
    ∃ d ds, edit.old.toList = d :: ds ∧ edit.oldBytes ≠ [] := by
  cases hletters : edit.old.toList with
  | nil =>
    exfalso
    apply h
    rw [← String.toList_inj, hletters]
    rfl
  | cons d ds =>
    refine ⟨d, ds, rfl, ?_⟩
    obtain ⟨byte, rest, hd, -, -⟩ := utf8EncodeChar_bytes d
    rw [EditSpec.oldBytes, hletters, encodeUtf8_cons, hd]
    simp

/-- Where an edit is found first. -/
def spot (text : List UInt8) (edit : EditSpec) : Location where
  start := (matchIndices edit.oldBytes text).headD 0
  finish := (matchIndices edit.oldBytes text).headD 0 + edit.oldBytes.length
  edit := edit

theorem locate_eq (text : List UInt8) {edit : EditSpec} (h : edit.old ≠ "") :
    ((matchIndices edit.oldBytes text).length = 1 → locate text edit = .ok (spot text edit)) ∧
      ((matchIndices edit.oldBytes text).length ≠ 1 →
        ∃ error, locate text edit = .error error) := by
  unfold locate spot
  rw [if_neg h]
  cases hfound : matchIndices edit.oldBytes text with
  | nil => simp
  | cons p rest =>
    cases rest with
    | nil => simp
    | cons q rest => simp

/-- The locations of some edits, if each is found once. -/
theorem mapM_locate (text : List UInt8) {edits : List EditSpec}
    (h : ∀ edit ∈ edits, edit.old ≠ "") :
    ((∀ edit ∈ edits, (matchIndices edit.oldBytes text).length = 1) →
      edits.mapM (locate text) = .ok (edits.map (spot text))) ∧
    ((¬ ∀ edit ∈ edits, (matchIndices edit.oldBytes text).length = 1) →
      ∃ error, edits.mapM (locate text) = .error error) := by
  induction edits with
  | nil =>
    refine ⟨fun _ => rfl, fun hnot => ?_⟩
    exact absurd (by simp) hnot
  | cons edit edits ih =>
    rw [List.forall_mem_cons] at h
    obtain ⟨hone, hother⟩ := locate_eq text h.1
    obtain ⟨hall, hsome⟩ := ih h.2
    rw [List.mapM_cons, List.forall_mem_cons]
    constructor
    · rintro ⟨hfirst, hrest⟩
      rw [hone hfirst, hall hrest]
      rfl
    · intro hnot
      by_cases hfirst : (matchIndices edit.oldBytes text).length = 1
      · obtain ⟨error, herror⟩ := hsome fun hrest => hnot ⟨hfirst, hrest⟩
        rw [hone hfirst, herror]
        exact ⟨error, rfl⟩
      · obtain ⟨error, herror⟩ := hother hfirst
        rw [herror]
        exact ⟨error, rfl⟩

/-- The only match of an edit is an occurrence. -/
theorem spot_occurs {text : List UInt8} {edit : EditSpec} (h : edit.old ≠ "")
    (hone : (matchIndices edit.oldBytes text).length = 1) :
    matchIndices edit.oldBytes text = [(spot text edit).start] ∧
      OccursAt edit.oldBytes text (spot text edit).start := by
  obtain ⟨d, ds, -, hne⟩ := oldBytes_ne h
  obtain ⟨p, hp⟩ := List.length_eq_one_iff.mp hone
  have hstart : (spot text edit).start = p := by
    rw [spot, hp]
    rfl
  rw [hstart]
  refine ⟨hp, matchIndices_occurs hne ?_⟩
  rw [hp]
  exact List.mem_singleton_self p

/-! ### Spans in order -/

/-- The spans of some locations, and what comes in their place. -/
def editSpans (locations : List Location) : List (Nat × Nat × List UInt8) :=
  locations.map fun location => (location.start, location.finish, location.edit.newBytes)

theorem overlap_ascending {locations : List Location}
    (hspan : ∀ location ∈ locations, location.start < location.finish) :
    overlap locations = false ↔
      ∀ first rest, locations = first :: rest → Ascending first.start (editSpans locations) := by
  induction locations with
  | nil => simp [overlap]
  | cons first rest ih =>
    rw [List.forall_mem_cons] at hspan
    have hrest := ih hspan.2
    cases rest with
    | nil =>
      constructor
      · rintro - first rest ⟨⟩
        exact ⟨Nat.le_refl _, hspan.1, trivial⟩
      · intro _
        rfl
    | cons second rest =>
      rw [overlap, Bool.or_eq_false_iff, decide_eq_false_iff_not, hrest]
      constructor
      · rintro ⟨hapart, hbehind⟩ first rest ⟨⟩
        obtain ⟨-, hsecond, hlast⟩ := hbehind second _ rfl
        exact ⟨Nat.le_refl _, hspan.1, Nat.not_lt.mp hapart, hsecond, hlast⟩
      · intro hall
        obtain ⟨-, -, hapart, hsecond, hlast⟩ := hall first _ rfl
        refine ⟨Nat.not_lt.mpr hapart, ?_⟩
        rintro second rest ⟨⟩
        exact ⟨Nat.le_refl _, hsecond, hlast⟩

theorem ascending_zero {locations : List Location}
    (h : ∀ first rest, locations = first :: rest → Ascending first.start (editSpans locations)) :
    Ascending 0 (editSpans locations) := by
  cases locations with
  | nil => trivial
  | cons first rest =>
    obtain ⟨-, hspan, hrest⟩ := h first rest rfl
    exact ⟨Nat.zero_le _, hspan, hrest⟩

theorem ascending_mono {start start' : Nat} {spans : List (Nat × Nat × List UInt8)}
    (hle : start' ≤ start) (h : Ascending start spans) : Ascending start' spans := by
  cases spans with
  | nil => trivial
  | cons span rest =>
    obtain ⟨first, last, new⟩ := span
    obtain ⟨hstart, hspan, hrest⟩ := h
    exact ⟨hle.trans hstart, hspan, hrest⟩

/-- Two locations are apart. -/
def LocationsApart (a b : Location) : Prop := a.finish ≤ b.start ∨ b.finish ≤ a.start

theorem LocationsApart.symm {a b : Location} (h : LocationsApart a b) : LocationsApart b a :=
  Or.symm h

theorem ascending_apart {start : Nat} {locations : List Location}
    (h : Ascending start (editSpans locations)) : locations.Pairwise LocationsApart := by
  induction locations generalizing start with
  | nil => exact .nil
  | cons first rest ih =>
    obtain ⟨-, -, hrest⟩ := h
    refine List.pairwise_cons.mpr ⟨?_, ih hrest⟩
    intro other hother
    have hle := hrest.le (other.start, other.finish, other.edit.newBytes)
      (List.mem_map_of_mem hother)
    exact .inl hle

/-- **The sorted locations** do not overlap exactly if all locations are apart. -/
theorem overlap_sorted {locations : List Location}
    (hspan : ∀ location ∈ locations, location.start < location.finish) :
    overlap (sortedLocations locations) = false ↔ locations.Pairwise LocationsApart := by
  have hperm : (sortedLocations locations).Perm locations := List.perm_insertionSort _ _
  have hspan' : ∀ location ∈ sortedLocations locations, location.start < location.finish :=
    fun location hlocation => hspan location (hperm.subset hlocation)
  have hsorted : (sortedLocations locations).Pairwise fun a b => a.start ≤ b.start := by
    have : Std.Total fun a b : Location => a.start ≤ b.start := ⟨fun a b => Nat.le_total _ _⟩
    have : IsTrans Location fun a b : Location => a.start ≤ b.start :=
      ⟨fun a b c => Nat.le_trans⟩
    exact List.pairwise_insertionSort _ _
  rw [← hperm.pairwise_iff fun h => LocationsApart.symm h]
  constructor
  · intro h
    exact ascending_apart (ascending_zero ((overlap_ascending hspan').mp h))
  · intro h
    rw [overlap_ascending hspan']
    generalize sortedLocations locations = sorted at h hsorted hspan'
    induction sorted with
    | nil =>
      intro first rest hnil
      cases hnil
    | cons first rest ih =>
      rw [List.forall_mem_cons] at hspan'
      rw [List.pairwise_cons] at h hsorted
      have hrest := ih h.2 hsorted.2 hspan'.2
      rintro _ _ ⟨⟩
      refine ⟨Nat.le_refl _, hspan'.1, ?_⟩
      cases rest with
      | nil => trivial
      | cons second rest =>
        have hbehind := hrest second rest rfl
        refine ascending_mono ?_ hbehind
        have hle := hsorted.1 second List.mem_cons_self
        have hsecond := hspan'.2 second List.mem_cons_self
        rcases h.1 second List.mem_cons_self with hapart | hbefore
        · exact hapart
        · omega

/-! ### Replacement -/

theorem boundary_of_text (before : List UInt8) (behind : List Char) :
    isCharBoundary (before ++ encodeUtf8 behind) before.length = true := by
  unfold isCharBoundary
  cases behind with
  | nil => simp [encodeUtf8]
  | cons c behind =>
    obtain ⟨first, rest, hc, hfirst, -⟩ := utf8EncodeChar_bytes c
    rw [encodeUtf8_cons, hc, List.cons_append, List.getElem?_append_right (Nat.le_refl _),
      Nat.sub_self, List.getElem?_cons_zero, Option.any_some, hfirst]
    simp

/-- **The replacements never cut a character**, and give the text with the spans
    replaced. -/
theorem applyEdits_spliced {text : List UInt8} {start : Nat} {locations : List Location}
    {behind : List Char} (hbehind : encodeUtf8 behind = text.drop start)
    (hspans : Ascending start (editSpans locations))
    (hplaces : ∀ location ∈ locations, location.edit.old ≠ "" ∧
      location.finish = location.start + location.edit.oldBytes.length ∧
      OccursAt location.edit.oldBytes text location.start) :
    ∃ tail, (locations.foldrM (fun location text =>
        replaceRange text location.start location.finish location.edit.newBytes) text) =
          some (text.take start ++ encodeUtf8 tail) ∧
      encodeUtf8 tail = spliced text start (editSpans locations) := by
  induction locations generalizing start behind with
  | nil =>
    refine ⟨behind, ?_, hbehind⟩
    rw [hbehind, List.take_append_drop]
    rfl
  | cons location locations ih =>
    rw [List.forall_mem_cons] at hplaces
    obtain ⟨⟨hold, hfinish, hoccurs⟩, hrest⟩ := hplaces
    obtain ⟨d, ds, hletters, hne⟩ := oldBytes_ne hold
    obtain ⟨hstart, hspan, hlater⟩ := hspans
    have hbound := hoccurs.bound hne
    -- the text is cut at the span between characters
    have hcut : encodeUtf8 behind = (text.take location.start).drop start ++
        encodeUtf8 (d :: ds) ++ text.drop location.finish := by
      have hold' : encodeUtf8 (d :: ds) = location.edit.oldBytes := by
        rw [← hletters]
        rfl
      have hjoin : text.drop start =
          (text.take location.start).drop start ++ text.drop location.start := by
        rw [← List.drop_append_of_le_length (by rw [List.length_take]; omega),
          List.take_append_drop]
      rw [hold', hbehind, List.append_assoc, hfinish, ← hoccurs.split, ← hjoin]
    obtain ⟨first, last, hfirst, hlast⟩ := encodeUtf8_cut hcut
    obtain ⟨tail, htail, hspliced⟩ := ih hlast.symm hlater hrest
    have htake : (text.take location.finish).length = location.finish := by
      rw [List.length_take]
      omega
    have htakeStart : (text.take location.start).length = location.start := by
      rw [List.length_take]
      omega
    have hsplit : text.take location.finish =
        text.take location.start ++ encodeUtf8 (d :: ds) := by
      rw [← hletters]
      change _ = _ ++ location.edit.oldBytes
      rw [hfinish, List.take_add, hoccurs.split, List.take_left]
    have hboundary : isCharBoundary (text.take location.finish ++ encodeUtf8 tail)
        location.start = true := by
      have hwhole : text.take location.finish ++ encodeUtf8 tail =
          text.take location.start ++ encodeUtf8 (d :: ds ++ tail) := by
        rw [encodeUtf8_append, hsplit, List.append_assoc]
      have hat := boundary_of_text (text.take location.start) (d :: ds ++ tail)
      rwa [htakeStart, ← hwhole] at hat
    have hboundary' : isCharBoundary (text.take location.finish ++ encodeUtf8 tail)
        location.finish = true := by
      have hat := boundary_of_text (text.take location.finish) tail
      rwa [htake] at hat
    refine ⟨first ++ location.edit.new.toList ++ tail, ?_, ?_⟩
    · rw [List.foldrM_cons, htail]
      change replaceRange _ _ _ _ = _
      unfold replaceRange
      rw [hboundary, hboundary']
      have hdrop : (text.take location.finish ++ encodeUtf8 tail).drop location.finish =
          encodeUtf8 tail := by
        rw [← htake, htake, List.drop_append_of_le_length (by omega),
          List.drop_of_length_le (by omega), List.nil_append]
      have hkept : (text.take location.finish ++ encodeUtf8 tail).take location.start =
          text.take start ++ encodeUtf8 first := by
        have hcutStart : (text.take location.start).take start = text.take start := by
          rw [List.take_take, Nat.min_eq_left hstart]
        rw [List.take_append_of_le_length (by omega), List.take_take,
          Nat.min_eq_left (by omega), ← hfirst, ← hcutStart, List.take_append_drop]
      rw [hdrop, hkept, encodeUtf8_append, encodeUtf8_append]
      simp only [EditSpec.newBytes, List.append_assoc, Bool.and_self, if_true]
    · rw [encodeUtf8_append, encodeUtf8_append, hspliced, ← hfirst]
      rfl

/-! ### The edits of a text -/

theorem Apart.symm {text : List UInt8} {a b : EditSpec} (h : Apart text a b) : Apart text b a :=
  fun p q hp hq => (h q p hq hp).symm

theorem Editable.perm {text : List UInt8} {edits edits' : List EditSpec}
    (h : Editable text edits) (hperm : edits'.Perm edits) : Editable text edits' where
  once edit hedit := h.once edit (hperm.subset hedit)
  apart := (hperm.pairwise_iff fun h => Apart.symm h).mpr h.apart

/-- What occurs once is found once. -/
theorem Editable.found {text : List UInt8} {edits : List EditSpec}
    (hold : ∀ edit ∈ edits, edit.old ≠ "") (h : Editable text edits) : FoundOnce text edits where
  once edit hedit := by
    obtain ⟨-, -, -, hne⟩ := oldBytes_ne (hold edit hedit)
    obtain ⟨p, hp⟩ := h.once edit hedit
    rw [matchIndices_unique hne hp]
    rfl
  apart := by
    apply h.apart.imp_of_mem
    intro a b ha hb hapart p hp q hq
    obtain ⟨-, -, -, hnea⟩ := oldBytes_ne (hold a ha)
    obtain ⟨-, -, -, hneb⟩ := oldBytes_ne (hold b hb)
    exact hapart p q (matchIndices_occurs hnea hp) (matchIndices_occurs hneb hq)

/-- What is found once and occurs once is as it should be. -/
theorem FoundOnce.editable {text : List UInt8} {edits : List EditSpec}
    (hold : ∀ edit ∈ edits, edit.old ≠ "") (h : FoundOnce text edits)
    (honce : ∀ edit ∈ edits, OccursOnce edit.oldBytes text) : Editable text edits where
  once := honce
  apart := by
    have hfound : ∀ edit ∈ edits, ∀ p, OccursAt edit.oldBytes text p →
        p ∈ matchIndices edit.oldBytes text := by
      intro edit hedit p hp
      obtain ⟨-, -, -, hne⟩ := oldBytes_ne (hold edit hedit)
      obtain ⟨only, honly⟩ := honce edit hedit
      rw [matchIndices_unique hne honly, (honly p).mp hp]
      exact List.mem_singleton_self only
    apply h.apart.imp_of_mem
    intro a b ha hb hapart p q hp hq
    exact hapart p (hfound a ha p hp) q (hfound b hb q hq)

/-- The locations of some edits, in order. -/
def spots (text : List UInt8) (edits : List EditSpec) : List Location :=
  sortedLocations (edits.map (spot text))

theorem mem_spots {text : List UInt8} {edits : List EditSpec} {location : Location} :
    location ∈ spots text edits ↔ ∃ edit ∈ edits, spot text edit = location := by
  have hperm : (spots text edits).Perm (edits.map (spot text)) := List.perm_insertionSort _ _
  rw [hperm.mem_iff, List.mem_map]

/-- Edits that are found once do not overlap exactly if they are found apart. -/
theorem overlap_spots {text : List UInt8} {edits : List EditSpec}
    (hold : ∀ edit ∈ edits, edit.old ≠ "")
    (honce : ∀ edit ∈ edits, (matchIndices edit.oldBytes text).length = 1) :
    overlap (spots text edits) = false ↔ edits.Pairwise (FoundApart text) := by
  have hspan : ∀ location ∈ edits.map (spot text), location.start < location.finish := by
    intro location hlocation
    obtain ⟨edit, hedit, rfl⟩ := List.mem_map.mp hlocation
    obtain ⟨-, -, -, hne⟩ := oldBytes_ne (hold edit hedit)
    exact Nat.lt_add_of_pos_right (List.length_pos_of_ne_nil hne)
  have hpair : ∀ {a b}, a ∈ edits → b ∈ edits →
      (LocationsApart (spot text a) (spot text b) ↔ FoundApart text a b) := by
    intro a b ha hb
    have hfounda := (spot_occurs (hold a ha) (honce a ha)).1
    have hfoundb := (spot_occurs (hold b hb) (honce b hb)).1
    rw [FoundApart, hfounda, hfoundb]
    simp only [List.mem_singleton, forall_eq]
    exact Iff.rfl
  rw [spots, overlap_sorted hspan, List.pairwise_map]
  constructor
  · intro h
    exact h.imp_of_mem fun ha hb => (hpair ha hb).mp
  · intro h
    exact h.imp_of_mem fun ha hb => (hpair ha hb).mpr

/-- **The edits of a text** succeed exactly if each is found once and all are found apart;
    they never cut a character. -/
theorem editText_eq {text : List UInt8} {letters : List Char} (hletters : encodeUtf8 letters = text)
    {edits : List EditSpec} (hold : ∀ edit ∈ edits, edit.old ≠ "") :
    (FoundOnce text edits →
      editText text edits = some (.ok (spliced text 0 (editSpans (spots text edits))))) ∧
    (¬ FoundOnce text edits → ∃ error, editText text edits = some (.error error)) := by
  obtain ⟨hlocated, hrefused⟩ := mapM_locate text hold
  unfold editText
  constructor
  · intro h
    have hoverlap := (overlap_spots hold h.once).mpr h.apart
    have hspan : ∀ location ∈ spots text edits, location.start < location.finish := by
      intro location hlocation
      obtain ⟨edit, hedit, rfl⟩ := mem_spots.mp hlocation
      obtain ⟨-, -, -, hne⟩ := oldBytes_ne (hold edit hedit)
      exact Nat.lt_add_of_pos_right (List.length_pos_of_ne_nil hne)
    have hplaces : ∀ location ∈ spots text edits, location.edit.old ≠ "" ∧
        location.finish = location.start + location.edit.oldBytes.length ∧
        OccursAt location.edit.oldBytes text location.start := by
      intro location hlocation
      obtain ⟨edit, hedit, rfl⟩ := mem_spots.mp hlocation
      exact ⟨hold edit hedit, rfl, (spot_occurs (hold edit hedit) (h.once edit hedit)).2⟩
    have hascending := ascending_zero ((overlap_ascending hspan).mp hoverlap)
    obtain ⟨tail, htail, hspliced⟩ := applyEdits_spliced hletters hascending hplaces
    rw [hlocated h.once]
    change (if overlap (spots text edits) = true then _ else
      (applyEdits text (spots text edits)).map Except.ok) = _
    rw [hoverlap, applyEdits, List.foldlM_reverse, htail, hspliced]
    rfl
  · intro hnot
    by_cases honce : ∀ edit ∈ edits, (matchIndices edit.oldBytes text).length = 1
    · have hoverlap : overlap (spots text edits) = true := by
        by_contra hfalse
        exact hnot ⟨honce, (overlap_spots hold honce).mp (Bool.eq_false_iff.mpr hfalse)⟩
      rw [hlocated honce]
      change ∃ error, (if overlap (spots text edits) = true then _ else _) = _
      rw [hoverlap]
      exact ⟨_, rfl⟩
    · obtain ⟨error, herror⟩ := hrefused honce
      rw [herror]
      exact ⟨error, rfl⟩

/-- **The spans are replaced at once**, in whatever order the edits come. -/
theorem spliced_replaceAll {text : List UInt8} {edits edits' : List EditSpec}
    (hold : ∀ edit ∈ edits, edit.old ≠ "") (h : Editable text edits)
    (hperm : edits'.Perm edits) :
    spliced text 0 (editSpans (spots text edits')) = replaceAll (editEntries edits) text := by
  have hold' : ∀ edit ∈ edits', edit.old ≠ "" := fun edit hedit => hold edit (hperm.subset hedit)
  have hfound := (h.perm hperm).found hold'
  have hspan : ∀ location ∈ spots text edits', location.start < location.finish := by
    intro location hlocation
    obtain ⟨edit, hedit, rfl⟩ := mem_spots.mp hlocation
    obtain ⟨-, -, -, hne⟩ := oldBytes_ne (hold' edit hedit)
    exact Nat.lt_add_of_pos_right (List.length_pos_of_ne_nil hne)
  have hascending := ascending_zero
    ((overlap_ascending hspan).mp ((overlap_spots hold' hfound.once).mpr hfound.apart))
  have hoccurs : ∀ edit ∈ edits, OccursAt edit.oldBytes text (spot text edit).start :=
    fun edit hedit => (spot_occurs (hold edit hedit) ((h.found hold).once edit hedit)).2
  -- an entry at a place is an edit that occurs there
  have hentry : ∀ {i entry}, entryAt (editEntries edits) (text.drop i) = some entry →
      ∃ edit ∈ edits, (edit.oldBytes, edit.newBytes) = entry ∧ (spot text edit).start = i := by
    intro i entry hat
    obtain ⟨hmem, hbegins⟩ := entryAt_some hat
    obtain ⟨edit, hedit, rfl⟩ := List.mem_map.mp hmem
    obtain ⟨p, hp⟩ := h.once edit hedit
    refine ⟨edit, hedit, rfl, ?_⟩
    rw [(hp _).mp (hoccurs edit hedit), (hp i).mp hbegins]
  rw [← replaceAll_spliced hascending, List.drop_zero]
  · intro span hmem
    obtain ⟨location, hlocation, rfl⟩ := List.mem_map.mp hmem
    obtain ⟨edit, hedit', rfl⟩ := mem_spots.mp hlocation
    have hedit := hperm.subset hedit'
    obtain ⟨-, -, -, hne⟩ := oldBytes_ne (hold edit hedit)
    refine ⟨(edit.oldBytes, edit.newBytes), ?_, hne, rfl, rfl⟩
    cases hat : entryAt (editEntries edits) (text.drop (spot text edit).start) with
    | none =>
      have hnone := List.find?_eq_none.mp hat _ (List.mem_map_of_mem hedit)
      exact absurd (List.isPrefixOf_iff_prefix.mpr (hoccurs edit hedit)) hnone
    | some entry =>
      obtain ⟨other, hother, rfl, hstart⟩ := hentry hat
      by_cases heq : other = edit
      · rw [heq]
      · have : Std.Symm (Apart text) := ⟨fun _ _ => Apart.symm⟩
        have hapart := h.apart.forall hother hedit heq _ _
          (hoccurs other hother) (hoccurs edit hedit)
        obtain ⟨-, -, -, hne'⟩ := oldBytes_ne (hold other hother)
        have hpos := List.length_pos_of_ne_nil hne
        have hpos' := List.length_pos_of_ne_nil hne'
        omega
  · intro i _ hfree
    cases hat : entryAt (editEntries edits) (text.drop i) with
    | none => rfl
    | some entry =>
      exfalso
      obtain ⟨edit, hedit, -, hstart⟩ := hentry hat
      have hmem : spot text edit ∈ spots text edits' :=
        mem_spots.mpr ⟨edit, hperm.symm.subset hedit, rfl⟩
      exact hfree _ (List.mem_map_of_mem hmem) hstart

/-! ### The tool -/

section

variable {F P : Type} {parse : String → Option (JsonValue F)} {operations : CodingOperations P}
  {path : String} {resolved : P} {original : List UInt8} {letters : List Char}

/-- What the host does for a call that edits a file: nothing is cancelled, and the file is
    found, read and written. -/
structure Editing (operations : CodingOperations P) (path : String) (resolved : P)
    (original : List UInt8) : Prop where
  running : operations.isCancelled = false
  found : operations.resolveExisting path = .ok resolved
  read : operations.readFile resolved = .ok original
  writes : ∀ text, operations.writeFile resolved text = none

/-- **The contract of a call**: it succeeds exactly if every `oldText` occurs once and the
    spans are apart; then the file gets the original with all spans replaced at once,
    whatever the order of the edits; and no error writes it. -/
def EditsOnce (parse : String → Option (JsonValue F)) (operations : CodingOperations P)
    (call : AgentToolCall) (path : String) (edits : List EditSpec) (resolved : P)
    (original : List UInt8) : Prop :=
  ∃ outcome, execute parse operations call = some outcome ∧
    (outcome.result.isOk = true ↔ Editable original edits) ∧
    (outcome.result.isOk = true →
      ∀ call' edits', parseEditArgs parse "edit" call' = .ok (path, edits') →
        edits'.Perm edits → ∃ outcome', execute parse operations call' = some outcome' ∧
          outcome'.written = some (resolved, replaceAll (editEntries edits) original)) ∧
    (outcome.result.isOk = false → outcome.written = none)

/-- What a call does once the file is read. -/
theorem execute_eq (h : Editing operations path resolved original)
    (hletters : fromUtf8 original = .ok letters) {call : AgentToolCall} {edits : List EditSpec}
    (hcall : parseEditArgs parse "edit" call = .ok (path, edits)) :
    (∀ text, editText original edits = some (.ok text) →
      ∃ outcome, execute parse operations call = some outcome ∧ outcome.result.isOk = true ∧
        outcome.written = some (resolved, text)) ∧
    (∀ error, editText original edits = some (.error error) →
      execute parse operations call = some { result := .error error }) := by
  constructor
  · intro text htext
    simp only [execute, hcall, h.found, h.running, h.read, hletters, htext, h.writes,
      Bool.false_eq_true, if_false, Option.map_some]
    exact ⟨_, rfl, rfl, rfl⟩
  · intro error herror
    simp only [execute, hcall, h.found, h.running, h.read, hletters, herror,
      Bool.false_eq_true, if_false, Option.map_some]

/-- **What an edit changes.**  A call meets its contract exactly if the texts that it finds
    once, apart from each other, do not occur once more in an overlapping place. -/
theorem edits_once_iff {call : AgentToolCall} {edits : List EditSpec}
    (h : Editing operations path resolved original)
    (hletters : fromUtf8 original = .ok letters)
    (hcall : parseEditArgs parse "edit" call = .ok (path, edits))
    (hold : ∀ edit ∈ edits, edit.old ≠ "") :
    EditsOnce parse operations call path edits resolved original ↔
      (FoundOnce original edits → ∀ edit ∈ edits, OccursOnce edit.oldBytes original) := by
  have hencoded : encodeUtf8 letters = original := encode_of_fromUtf8 hletters
  obtain ⟨haccepted, hrefused⟩ := editText_eq hencoded hold
  obtain ⟨hok, herror⟩ := execute_eq h hletters hcall
  constructor
  · rintro ⟨outcome, hrun, hiff, -, -⟩ hfound
    obtain ⟨outcome', hrun', hisOk, -⟩ := hok _ (haccepted hfound)
    rw [hrun, Option.some_inj] at hrun'
    rw [← hrun'] at hisOk
    exact (hiff.mp hisOk).once
  · intro honce
    by_cases hfound : FoundOnce original edits
    · have heditable := hfound.editable hold (honce hfound)
      obtain ⟨outcome, hrun, hisOk, -⟩ := hok _ (haccepted hfound)
      refine ⟨outcome, hrun, ⟨fun _ => heditable, fun _ => hisOk⟩, ?_, ?_⟩
      · intro _ call' edits' hcall' hperm
        have hold' : ∀ edit ∈ edits', edit.old ≠ "" := fun edit hedit =>
          hold edit (hperm.subset hedit)
        have htext := (editText_eq hencoded hold').1 ((heditable.perm hperm).found hold')
        obtain ⟨outcome', hrun', -, hwritten⟩ := (execute_eq h hletters hcall').1 _ htext
        refine ⟨outcome', hrun', ?_⟩
        rw [hwritten, spliced_replaceAll hold heditable hperm]
      · intro hnot
        rw [hisOk] at hnot
        cases hnot
    · obtain ⟨error, hrefusal⟩ := hrefused hfound
      refine ⟨_, herror error hrefusal, ⟨?_, ?_⟩, ?_, fun _ => rfl⟩
      · intro hisOk
        cases hisOk
      · intro heditable
        exact absurd (heditable.found hold) hfound
      · intro hisOk
        cases hisOk

end

/-! ### An overlapping occurrence -/

/-- One file, `a`, of the given bytes. -/
def oneFile (content : String) : CodingOperations String where
  isCancelled := false
  resolveExisting path := if path = "a" then .ok path else .error ⟨"not found"⟩
  readFile _ := .ok (encodeUtf8 content.toList)
  writeFile _ _ := none

/-- A call that replaces `aa` by `b`. -/
def pairCall : AgentToolCall where
  id := ⟨"1", by decide⟩
  name := "edit"
  arguments :=
    ⟨"\x7b\"path\":\"a\",\"edits\":[\x7b\"oldText\":\"aa\",\"newText\":\"b\"\x7d]\x7d"⟩

theorem pairCall_edits : parseEditArgs textCodec.parse "edit" pairCall =
    .ok ("a", [{ old := "aa", new := "b" }]) := by
  decide +kernel

/-- `aa` stands twice in `aaa`, and the edit succeeds. -/
theorem edits_once_overlapping : ¬ EditsOnce textCodec.parse (oneFile "aaa") pairCall "a"
    [{ old := "aa", new := "b" }] "a" (encodeUtf8 "aaa".toList) := by
  rintro ⟨outcome, hrun, hiff, -, -⟩
  have hok : ((execute textCodec.parse (oneFile "aaa") pairCall).map fun outcome =>
      outcome.result.isOk) = some true := by decide +kernel
  rw [hrun] at hok
  obtain ⟨p, hp⟩ := (hiff.mp (Option.some_inj.mp hok)).once _ List.mem_cons_self
  have hfirst : (0 : Nat) = p := (hp 0).mp (by decide)
  have hsecond : (1 : Nat) = p := (hp 1).mp (by decide)
  omega

/-- In `baab` the pair stands once. -/
theorem edits_once_apart : EditsOnce textCodec.parse (oneFile "baab") pairCall "a"
    [{ old := "aa", new := "b" }] "a" (encodeUtf8 "baab".toList) := by
  have hread : fromUtf8 (encodeUtf8 "baab".toList) = .ok "baab".toList := by decide +kernel
  refine (edits_once_iff ⟨rfl, rfl, rfl, fun _ => rfl⟩ hread pairCall_edits ?_).mpr ?_
  · decide
  · intro _ edit hedit
    obtain rfl := List.mem_singleton.mp hedit
    refine ⟨1, fun q => ⟨fun hq => ?_, ?_⟩⟩
    · have hbound := hq.bound (by decide)
      have hlength : (encodeUtf8 "baab".toList).length = 4 := by decide
      have hlength' : (EditSpec.oldBytes { old := "aa", new := "b" }).length = 2 := by decide
      rw [hlength, hlength'] at hbound
      have hcases : q = 0 ∨ q = 1 ∨ q = 2 := by omega
      rcases hcases with rfl | rfl | rfl
      · exact absurd hq (by decide)
      · rfl
      · exact absurd hq (by decide)
    · rintro rfl
      decide

end Tea.Contract
