/-
  Tea/Encoding/Segments.lean
  ==========================
  **Paths as segments.**  A path is cut at its separators and walked segment by segment:
  `.` stays, `..` goes up, a name goes down.
-/
import Mathlib.Data.List.Basic
import Mathlib.Data.List.Infix

namespace Tea.Encoding

/-! ### Cutting -/

theorem not_mem_of_mem_splitOn {sep : Char} {text segment : List Char}
    (h : segment ∈ text.splitOn sep) : sep ∉ segment := by
  induction text generalizing segment with
  | nil =>
    rw [List.splitOn_nil, List.mem_singleton] at h
    rw [h]
    exact List.not_mem_nil
  | cons c text ih =>
    rw [List.splitOn_cons_eq_if_modifyHead] at h
    split at h
    · rcases List.mem_cons.mp h with rfl | h
      · exact List.not_mem_nil
      · exact ih h
    next hc =>
      obtain ⟨first, rest, hsplit⟩ := List.exists_cons_of_ne_nil (List.splitOn_ne_nil sep text)
      rw [hsplit, List.modifyHead_cons] at h
      rw [hsplit] at ih
      rcases List.mem_cons.mp h with rfl | h
      · intro hmem
        rcases List.mem_cons.mp hmem with rfl | hmem
        · exact hc (beq_self_eq_true _)
        · exact ih List.mem_cons_self hmem
      · exact ih (List.mem_cons_of_mem _ h)

/-- A text with a separator has more than one segment. -/
theorem dropLast_splitOn_ne_nil {sep : Char} {text : List Char} (h : sep ∈ text) :
    (text.splitOn sep).dropLast ≠ [] := by
  obtain ⟨before, after, rfl⟩ := List.append_of_mem h
  rw [List.splitOn_append_cons_self]
  obtain ⟨first, rest, hafter⟩ := List.exists_cons_of_ne_nil (List.splitOn_ne_nil sep after)
  rw [List.dropLast_append_of_ne_nil (List.splitOn_ne_nil sep after)]
  exact List.append_ne_nil_of_left_ne_nil (List.splitOn_ne_nil sep before) _

/-- The segments of a directory are those of the path but the last. -/
theorem splitOn_intercalate_dropLast {sep : Char} {text : List Char} (h : sep ∈ text) :
    ([sep].intercalate (text.splitOn sep).dropLast).splitOn sep = (text.splitOn sep).dropLast :=
  List.splitOn_intercalate sep
    (fun _ hsegment => not_mem_of_mem_splitOn (List.mem_of_mem_dropLast hsegment))
    (dropLast_splitOn_ne_nil h)

/-! ### Walking -/

/-- The segment is the name of something. -/
def isName (segment : List Char) : Bool := segment ≠ ['.'] && segment ≠ ['.', '.']

/-- The lexical normalisation of segments behind those of a directory. -/
def collapse : List (List Char) → List (List Char) → List (List Char)
  | base, [] => base
  | base, segment :: rest =>
    if segment = ['.'] then collapse base rest
    else if segment = ['.', '.'] then collapse base.dropLast rest
    else collapse (base ++ [segment]) rest

/-- No part of the way from a directory of this depth climbs above the root. -/
def Stays (depth : Nat) (segments : List (List Char)) : Prop :=
  ∀ before, before <+: segments → before.count ['.', '.'] ≤ depth + before.countP isName

@[simp] theorem stays_nil (depth : Nat) : Stays depth [] := by
  intro before h
  rw [List.prefix_nil.mp h]
  exact Nat.zero_le _

theorem stays_cons_iff {depth : Nat} {segment : List Char} {rest : List (List Char)} :
    Stays depth (segment :: rest) ↔ ∀ before, before <+: rest →
      (segment :: before).count ['.', '.'] ≤ depth + (segment :: before).countP isName := by
  constructor
  · intro h before hbefore
    exact h _ (List.cons_prefix_cons.mpr ⟨rfl, hbefore⟩)
  · intro h before hbefore
    rcases List.prefix_cons_iff.mp hbefore with rfl | ⟨tail, rfl, htail⟩
    · exact Nat.zero_le _
    · exact h tail htail

theorem stays_dot {depth : Nat} {rest : List (List Char)} :
    Stays depth (['.'] :: rest) ↔ Stays depth rest := by
  have hname : isName ['.'] = false := rfl
  rw [stays_cons_iff]
  simp [Stays, hname]

theorem stays_dotDot {depth : Nat} {rest : List (List Char)} :
    Stays depth (['.', '.'] :: rest) ↔ 0 < depth ∧ Stays (depth - 1) rest := by
  have hname : ¬ isName ['.', '.'] = true := by decide
  rw [stays_cons_iff]
  simp only [List.count_cons_self, List.countP_cons_of_neg hname]
  constructor
  · intro h
    have hone := h [] (List.nil_prefix)
    simp only [List.count_nil, List.countP_nil] at hone
    refine ⟨by omega, ?_⟩
    intro before hbefore
    have hle := h before hbefore
    omega
  · rintro ⟨hdepth, h⟩ before hbefore
    have hle := h before hbefore
    omega

theorem stays_name {depth : Nat} {segment : List Char} {rest : List (List Char)}
    (h : isName segment = true) :
    Stays depth (segment :: rest) ↔ Stays (depth + 1) rest := by
  have hne : segment ≠ ['.', '.'] := by
    rintro rfl
    cases h
  rw [stays_cons_iff]
  simp only [List.count_cons_of_ne hne, List.countP_cons_of_pos h, Stays]
  constructor
  · intro hle before hbefore
    have := hle before hbefore
    omega
  · intro hle before hbefore
    have := hle before hbefore
    omega

/-- Names are appended as they are. -/
theorem collapse_of_names {base segments : List (List Char)}
    (h : ∀ segment ∈ segments, isName segment = true) :
    collapse base segments = base ++ segments := by
  induction segments generalizing base with
  | nil => rw [collapse, List.append_nil]
  | cons segment segments ih =>
    obtain ⟨hname, hnames⟩ := List.forall_mem_cons.mp h
    simp only [isName, Bool.and_eq_true, decide_eq_true_eq] at hname
    rw [collapse, if_neg hname.1, if_neg hname.2, ih hnames, List.append_assoc]
    rfl

/-- Names stay below every root. -/
theorem stays_of_names {depth : Nat} {segments : List (List Char)}
    (h : ∀ segment ∈ segments, isName segment = true) : Stays depth segments := by
  induction segments generalizing depth with
  | nil => exact stays_nil depth
  | cons segment segments ih =>
    obtain ⟨hname, hnames⟩ := List.forall_mem_cons.mp h
    exact (stays_name hname).mpr (ih hnames)

end Tea.Encoding
