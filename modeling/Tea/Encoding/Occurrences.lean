/-
  Tea/Encoding/Occurrences.lean
  =============================
  **Occurrences of one list in another**: the search that goes on behind a match
  (`matchIndices`), what it finds and what it passes over (`matchIndices_covers`), and the
  replacement of several lists at once (`replaceAll`), which is the same as replacing
  spans that are apart one by one (`replaceAll_spliced`).
-/

import Mathlib.Data.List.Infix
import Mathlib.Order.Basic

namespace Tea.Encoding

section

variable {α : Type}

/-- `needle` stands at position `p` of `text`. -/
def OccursAt (needle text : List α) (p : Nat) : Prop := needle <+: text.drop p

theorem OccursAt.bound {needle text : List α} {p : Nat} (h : OccursAt needle text p)
    (hne : needle ≠ []) : p + needle.length ≤ text.length := by
  have hlength := List.IsPrefix.length_le h
  have hpos := List.length_pos_of_ne_nil hne
  rw [List.length_drop] at hlength
  omega

/-- The text in front of an occurrence, the occurrence, and the text behind it. -/
theorem OccursAt.split {needle text : List α} {p : Nat} (h : OccursAt needle text p) :
    text.drop p = needle ++ text.drop (p + needle.length) := by
  obtain ⟨rest, hrest⟩ := h
  have hdrop : text.drop (p + needle.length) = rest := by
    rw [← List.drop_drop, ← hrest, List.drop_left]
  rw [hdrop, hrest]

variable [DecidableEq α]

instance (needle text : List α) (p : Nat) : Decidable (OccursAt needle text p) :=
  inferInstanceAs (Decidable (needle <+: text.drop p))

/-! ### The search -/

/-- The matches from position `index` on; `skip` letters belong to the last match. -/
def matchesFrom (needle : List α) : Nat → Nat → List α → List Nat
  | _, _, [] => []
  | 0, index, a :: rest =>
      if needle.isPrefixOf (a :: rest) then
        index :: matchesFrom needle (needle.length - 1) (index + 1) rest
      else matchesFrom needle 0 (index + 1) rest
  | skip + 1, index, _ :: rest => matchesFrom needle skip (index + 1) rest

/-- `match_indices`: the matches that do not overlap, from the left. -/
def matchIndices (needle text : List α) : List Nat := matchesFrom needle 0 0 text

theorem matchesFrom_occurs {needle text : List α} {skip index q : Nat} (hne : needle ≠ [])
    (h : q ∈ matchesFrom needle skip index text) :
    index + skip ≤ q ∧ OccursAt needle text (q - index) := by
  have hpos := List.length_pos_of_ne_nil hne
  induction text generalizing skip index with
  | nil =>
    rw [matchesFrom] at h
    cases h
  | cons a rest ih =>
    have hrest : ∀ {skip}, q ∈ matchesFrom needle skip (index + 1) rest →
        index + 1 + skip ≤ q ∧ OccursAt needle (a :: rest) (q - index) := by
      intro skip hmem
      obtain ⟨hle, hoccurs⟩ := ih hmem
      refine ⟨hle, ?_⟩
      have hindex : q - index = (q - (index + 1)) + 1 := by omega
      rw [OccursAt, hindex, List.drop_succ_cons]
      exact hoccurs
    cases skip with
    | zero =>
      rw [matchesFrom] at h
      split_ifs at h with hmatch
      · rcases List.mem_cons.mp h with rfl | hmem
        · refine ⟨Nat.le_refl _, ?_⟩
          rw [OccursAt, Nat.sub_self, List.drop_zero]
          exact List.isPrefixOf_iff_prefix.mp hmatch
        · obtain ⟨hle, hoccurs⟩ := hrest hmem
          exact ⟨by omega, hoccurs⟩
      · obtain ⟨hle, hoccurs⟩ := hrest h
        exact ⟨by omega, hoccurs⟩
    | succ skip =>
      rw [matchesFrom] at h
      obtain ⟨hle, hoccurs⟩ := hrest h
      exact ⟨by omega, hoccurs⟩

/-- **What the search passes over** overlaps a match that begins before it. -/
theorem matchesFrom_covers {needle text : List α} {skip p : Nat} (index : Nat)
    (hne : needle ≠ []) (hskip : skip ≤ p) (h : OccursAt needle text p) :
    ∃ q ∈ matchesFrom needle skip index text, q ≤ index + p ∧ index + p < q + needle.length := by
  have hpos := List.length_pos_of_ne_nil hne
  induction text generalizing skip index p with
  | nil =>
    have hlength := h.bound hne
    rw [List.length_nil] at hlength
    omega
  | cons a rest ih =>
    have hrest : ∀ skip, p ≠ 0 → skip ≤ p - 1 →
        ∃ q ∈ matchesFrom needle skip (index + 1) rest,
          q ≤ index + p ∧ index + p < q + needle.length := by
      intro skip hp hle
      obtain ⟨p, rfl⟩ := Nat.exists_eq_succ_of_ne_zero hp
      rw [OccursAt, List.drop_succ_cons] at h
      obtain ⟨q, hq, hbefore, hbehind⟩ := ih (index + 1) hle h
      exact ⟨q, hq, by omega, by omega⟩
    cases skip with
    | zero =>
      rw [matchesFrom]
      split_ifs with hmatch
      · by_cases hin : p < needle.length
        · exact ⟨index, List.mem_cons_self, by omega, by omega⟩
        · obtain ⟨q, hq, hcovers⟩ := hrest (needle.length - 1) (by omega) (by omega)
          exact ⟨q, List.mem_cons_of_mem _ hq, hcovers⟩
      · have hp : p ≠ 0 := by
          rintro rfl
          exact hmatch (List.isPrefixOf_iff_prefix.mpr h)
        exact hrest 0 hp (Nat.zero_le _)
    | succ skip =>
      rw [matchesFrom]
      exact hrest skip (by omega) (by omega)

theorem matchesFrom_increasing (needle : List α) (hne : needle ≠ []) (text : List α)
    (skip index : Nat) : (matchesFrom needle skip index text).Pairwise (· < ·) := by
  induction text generalizing skip index with
  | nil =>
    rw [matchesFrom]
    exact .nil
  | cons a rest ih =>
    cases skip with
    | zero =>
      rw [matchesFrom]
      split_ifs
      · refine List.pairwise_cons.mpr ⟨?_, ih _ _⟩
        intro q hq
        have hle := (matchesFrom_occurs hne hq).1
        omega
      · exact ih _ _
    | succ skip =>
      rw [matchesFrom]
      exact ih _ _

/-- A match is an occurrence. -/
theorem matchIndices_occurs {needle text : List α} {q : Nat} (hne : needle ≠ [])
    (h : q ∈ matchIndices needle text) : OccursAt needle text q := by
  have hoccurs := (matchesFrom_occurs hne h).2
  rwa [Nat.sub_zero] at hoccurs

/-- An occurrence overlaps a match that does not begin behind it. -/
theorem matchIndices_covers {needle text : List α} {p : Nat} (hne : needle ≠ [])
    (h : OccursAt needle text p) :
    ∃ q ∈ matchIndices needle text, q ≤ p ∧ p < q + needle.length := by
  obtain ⟨q, hq, hcovers⟩ := matchesFrom_covers 0 hne (Nat.zero_le p) h
  rw [Nat.zero_add] at hcovers
  exact ⟨q, hq, hcovers⟩

/-- An only occurrence is the only match. -/
theorem matchIndices_unique {needle text : List α} {p : Nat} (hne : needle ≠ [])
    (h : ∀ q, OccursAt needle text q ↔ q = p) : matchIndices needle text = [p] := by
  have hall : ∀ q ∈ matchIndices needle text, q = p := fun q hq =>
    (h q).mp (matchIndices_occurs hne hq)
  obtain ⟨q, hq, -⟩ := matchIndices_covers hne ((h p).mpr rfl)
  have hincreasing : (matchIndices needle text).Pairwise (· < ·) :=
    matchesFrom_increasing needle hne text 0 0
  generalize matchIndices needle text = found at hall hq hincreasing
  match found, hincreasing with
  | [], _ => cases hq
  | [r], _ => rw [hall r List.mem_cons_self]
  | r :: s :: rest, hincreasing =>
    have hr := hall r List.mem_cons_self
    have hs := hall s (List.mem_cons_of_mem _ List.mem_cons_self)
    have hlt := (List.pairwise_cons.mp hincreasing).1 s List.mem_cons_self
    omega

/-! ### Replacement -/

/-- The entry that stands at the head of a text. -/
def entryAt (entries : List (List α × List α)) (text : List α) : Option (List α × List α) :=
  entries.find? fun entry => entry.1.isPrefixOf text

theorem entryAt_some {entries : List (List α × List α)} {text : List α}
    {entry : List α × List α} (h : entryAt entries text = some entry) :
    entry ∈ entries ∧ entry.1 <+: text := by
  have hstarts := List.find?_some h
  exact ⟨List.mem_of_find?_eq_some h, List.isPrefixOf_iff_prefix.mp hstarts⟩

/-- **All entries at once**: where the first list of an entry stands, the second one comes
    in its place; `skip` letters belong to the last such place. -/
def replaceFrom (entries : List (List α × List α)) : Nat → List α → List α
  | _, [] => []
  | 0, a :: rest =>
      match entryAt entries (a :: rest) with
      | some entry => entry.2 ++ replaceFrom entries (entry.1.length - 1) rest
      | none => a :: replaceFrom entries 0 rest
  | skip + 1, _ :: rest => replaceFrom entries skip rest

def replaceAll (entries : List (List α × List α)) (text : List α) : List α :=
  replaceFrom entries 0 text

theorem replaceFrom_skip (entries : List (List α × List α)) (skip : Nat) (text : List α) :
    replaceFrom entries skip text = replaceAll entries (text.drop skip) := by
  induction text generalizing skip with
  | nil =>
    rw [List.drop_nil, replaceAll, replaceFrom, replaceFrom]
  | cons a rest ih =>
    cases skip with
    | zero => rfl
    | succ skip =>
      rw [replaceFrom, ih, List.drop_succ_cons]

/-- The entry at the head is replaced. -/
theorem replaceAll_entry {entries : List (List α × List α)} {text : List α}
    {entry : List α × List α} (hne : entry.1 ≠ []) (h : entryAt entries text = some entry) :
    replaceAll entries text = entry.2 ++ replaceAll entries (text.drop entry.1.length) := by
  have hstarts := (entryAt_some h).2
  have hpos := List.length_pos_of_ne_nil hne
  cases text with
  | nil => exact absurd (List.prefix_nil.mp hstarts) hne
  | cons a rest =>
    obtain ⟨k, hk⟩ : ∃ k, entry.1.length = k + 1 := ⟨entry.1.length - 1, by omega⟩
    rw [replaceAll, replaceFrom, h]
    dsimp only
    rw [replaceFrom_skip, hk, List.drop_succ_cons, Nat.add_sub_cancel]

/-- A text is kept up to the first entry. -/
theorem replaceAll_free (entries : List (List α × List α)) {text : List α} {n : Nat}
    (hn : n ≤ text.length) (h : ∀ i < n, entryAt entries (text.drop i) = none) :
    replaceAll entries text = text.take n ++ replaceAll entries (text.drop n) := by
  induction n generalizing text with
  | zero => rfl
  | succ n ih =>
    cases text with
    | nil => exact absurd hn (by simp)
    | cons a rest =>
      have hhead := h 0 (by omega)
      rw [List.drop_zero] at hhead
      have hrest := ih (Nat.le_of_succ_le_succ hn) fun i hi => by
        have hnext := h (i + 1) (by omega)
        rwa [List.drop_succ_cons] at hnext
      rw [replaceAll, replaceFrom, hhead]
      dsimp only
      rw [← replaceAll, hrest, List.take_succ_cons, List.drop_succ_cons, List.cons_append]

/-- The text from `start` on, with some spans replaced: where each begins and ends, and
    what comes in its place. -/
def spliced (text : List α) (start : Nat) : List (Nat × Nat × List α) → List α
  | [] => text.drop start
  | (first, last, new) :: spans =>
      (text.take first).drop start ++ new ++ spliced text last spans

/-- The spans follow each other from `start` on. -/
def Ascending (start : Nat) : List (Nat × Nat × List α) → Prop
  | [] => True
  | (first, last, _) :: spans => start ≤ first ∧ first < last ∧ Ascending last spans

omit [DecidableEq α] in
theorem Ascending.le {start : Nat} {spans : List (Nat × Nat × List α)}
    (h : Ascending start spans) : ∀ span ∈ spans, start ≤ span.1 := by
  induction spans generalizing start with
  | nil => simp
  | cons span spans ih =>
    obtain ⟨first, last, new⟩ := span
    obtain ⟨hstart, hspan, hrest⟩ := h
    intro other hother
    rcases List.mem_cons.mp hother with rfl | hmem
    · exact hstart
    · have hle := ih hrest other hmem
      omega

/-- **Replacing spans one by one** is replacing all entries at once, if the spans are where
    the entries stand. -/
theorem replaceAll_spliced {entries : List (List α × List α)} {text : List α} {start : Nat}
    {spans : List (Nat × Nat × List α)} (hspans : Ascending start spans)
    (hentries : ∀ span ∈ spans, ∃ entry, entryAt entries (text.drop span.1) = some entry ∧
      entry.1 ≠ [] ∧ span.2.1 = span.1 + entry.1.length ∧ span.2.2 = entry.2)
    (hfree : ∀ i, start ≤ i → (∀ span ∈ spans, span.1 ≠ i) →
      entryAt entries (text.drop i) = none) :
    replaceAll entries (text.drop start) = spliced text start spans := by
  induction spans generalizing start with
  | nil =>
    have hnone : ∀ i < (text.drop start).length, entryAt entries ((text.drop start).drop i) =
        none := by
      intro i _
      rw [List.drop_drop]
      exact hfree (start + i) (by omega) (by simp)
    have hkept := replaceAll_free entries (Nat.le_refl _) hnone
    rw [hkept, List.take_length, List.drop_length, replaceAll, replaceFrom, List.append_nil]
    rfl
  | cons span spans ih =>
    obtain ⟨first, last, new⟩ := span
    obtain ⟨hstart, hspan, hrest⟩ := hspans
    obtain ⟨entry, hentry, hne, hlast, hnew⟩ := hentries (first, last, new) List.mem_cons_self
    dsimp only at hentry hlast hnew
    have hoccurs : OccursAt entry.1 text first := (entryAt_some hentry).2
    have hbound := hoccurs.bound hne
    have hlater := hrest.le
    have hnone : ∀ i < first - start, entryAt entries ((text.drop start).drop i) = none := by
      intro i hi
      rw [List.drop_drop]
      apply hfree (start + i) (by omega)
      intro other hother
      rcases List.mem_cons.mp hother with rfl | hmem
      · dsimp only
        omega
      · have hle := hlater other hmem
        omega
    have hlength : first - start ≤ (text.drop start).length := by
      rw [List.length_drop]
      omega
    have hkept := replaceAll_free entries hlength hnone
    have hfirst : (text.drop start).drop (first - start) = text.drop first := by
      rw [List.drop_drop]
      congr 1
      omega
    have hbehind := ih hrest (fun other hother =>
        hentries other (List.mem_cons_of_mem _ hother)) (by
      intro i hi hother
      apply hfree i (by omega)
      intro other' hother'
      rcases List.mem_cons.mp hother' with rfl | hmem
      · dsimp only
        omega
      · exact hother other' hmem)
    rw [hkept, hfirst, replaceAll_entry hne hentry, List.drop_drop, ← hlast, hbehind, hnew,
      spliced, List.drop_take, List.append_assoc]

end

end Tea.Encoding
