/-
  Tea/Tui/FrameLayout.lean
  ========================
  **The plan of a frame** (`ui/frame_layout.rs`): the rows of a terminal are shared between
  the transcript, the activity, the composer and its menu or hint.  The plan is `none` where
  an addition of the program overflows.
-/
import Mathlib.Data.List.Basic

namespace Tea.Tui

/-! ### Arithmetic of rows -/

/-- `left + right` -/
def plus (left right : UInt16) : Option UInt16 :=
  if left.toNat + right.toNat < 65536 then some (left + right) else none

/-- `left.saturating_add(right)` -/
def satAdd (left right : UInt16) : UInt16 :=
  if left.toNat + right.toNat < 65536 then left + right else 65535

/-- `left.saturating_sub(right)` -/
def satSub (left right : UInt16) : UInt16 := if right ≤ left then left - right else 0

/-- `rows.min(usize::from(budget)) as u16` -/
def capped (rows : Nat) (budget : UInt16) : UInt16 := UInt16.ofNat (min rows budget.toNat)

/-- `u16::from(condition)` -/
def rowIf (condition : Prop) [Decidable condition] : UInt16 := if condition then 1 else 0

/-! ### The plan -/

structure Rect where
  x : UInt16
  y : UInt16
  width : UInt16
  height : UInt16
deriving DecidableEq

structure FrameLayout where
  transcript : Rect
  activity : Rect
  footer : Rect
  composer : Rect
  menu : Rect
  hint : Rect
deriving DecidableEq

/-- `plan_flow` -/
def planFlow (width height : UInt16)
    (transcriptRows activityRows composerRows menuRows hintRows : Nat) : Option FrameLayout := do
  let composerHeight := capped composerRows height
  if menuRows ≠ 0 then
    let menuHeight := capped menuRows (satSub height composerHeight)
    let contentBudget := satSub height (← plus composerHeight menuHeight)
    let transcriptHeight := capped transcriptRows (satSub contentBudget 1)
    let gap := rowIf (transcriptHeight ≠ 0 ∧ transcriptHeight < contentBudget)
    let composerY ← plus transcriptHeight gap
    let menuY := satAdd composerY composerHeight
    return {
      transcript := { x := 0, y := 0, width, height := transcriptHeight }
      activity := { x := 0, y := composerY, width, height := 0 }
      footer :=
        { x := 0, y := composerY, width, height := satAdd composerHeight menuHeight }
      composer := { x := 0, y := composerY, width, height := composerHeight }
      menu := { x := 0, y := menuY, width, height := menuHeight }
      hint := { x := 0, y := satAdd menuY menuHeight, width, height := 0 } }
  else
    let hintHeight := capped hintRows (satSub height composerHeight)
    let remaining := satSub height (← plus composerHeight hintHeight)
    let afterComposerGap := rowIf (hintHeight ≠ 0 ∧ remaining ≠ 0)
    let afterGapRemaining := satSub remaining afterComposerGap
    let beforeComposerGap := rowIf (transcriptRows ≠ 0 ∧ afterGapRemaining ≠ 0)
    let contentBudget := satSub afterGapRemaining beforeComposerGap
    let activityHeight := capped activityRows contentBudget
    let transcriptHeight := capped transcriptRows (satSub contentBudget activityHeight)
    let activityY := satAdd transcriptHeight beforeComposerGap
    let composerY := satAdd activityY activityHeight
    let hintY := satAdd (satAdd composerY composerHeight) afterComposerGap
    return {
      transcript := { x := 0, y := 0, width, height := transcriptHeight }
      activity := { x := 0, y := activityY, width, height := activityHeight }
      footer := { x := 0, y := composerY, width, height := satSub height composerY }
      composer := { x := 0, y := composerY, width, height := composerHeight }
      menu := { x := 0, y := satAdd composerY composerHeight, width, height := 0 }
      hint := { x := 0, y := hintY, width, height := hintHeight } }

/-! ### Values -/

theorem plus_eq (left right : UInt16) (h : left.toNat + right.toNat < 65536) :
    ∃ sum, plus left right = some sum ∧ sum.toNat = left.toNat + right.toNat := by
  refine ⟨left + right, if_pos h, ?_⟩
  rw [UInt16.toNat_add]
  exact Nat.mod_eq_of_lt h

@[simp] theorem toNat_satAdd (left right : UInt16) :
    (satAdd left right).toNat = min (left.toNat + right.toNat) 65535 := by
  rw [satAdd]
  split_ifs with h
  · rw [UInt16.toNat_add, Nat.mod_eq_of_lt h]
    omega
  · have hmax : (65535 : UInt16).toNat = 65535 := rfl
    omega

@[simp] theorem toNat_satSub (left right : UInt16) :
    (satSub left right).toNat = left.toNat - right.toNat := by
  rw [satSub]
  split_ifs with h
  · exact UInt16.toNat_sub_of_le left right h
  · rw [UInt16.le_iff_toNat_le] at h
    have hzero : (0 : UInt16).toNat = 0 := rfl
    omega

@[simp] theorem toNat_capped (rows : Nat) (budget : UInt16) :
    (capped rows budget).toNat = min rows budget.toNat := by
  have hlt := budget.toNat_lt
  rw [capped, UInt16.toNat_ofNat']
  exact Nat.mod_eq_of_lt (by omega)

theorem toNat_rowIf (condition : Prop) [Decidable condition] :
    (rowIf condition).toNat = if condition then 1 else 0 := by
  rw [rowIf]
  split_ifs <;> rfl

end Tea.Tui
