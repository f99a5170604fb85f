/-
  Tea/Contract/FramePlan.lean
  ===========================
  **The regions of a frame share the terminal.**  For every terminal and every requested
  row counts the plan is made without overflow, its regions lie inside the terminal, one
  below the other, and the composer has the rows it asks for as far as there are any.
-/
import Tea.Tui.FrameLayout
import Mathlib.Tactic.SplitIfs

namespace Tea.Contract

open Tea.Tui

/-! ### Regions -/

/-- The region lies inside the terminal. -/
def Inside (width height : UInt16) (rect : Rect) : Prop :=
  rect.x.toNat + rect.width.toNat ≤ width.toNat ∧ rect.y.toNat + rect.height.toNat ≤ height.toNat

/-- The region ends above the other one. -/
def Above (upper lower : Rect) : Prop := upper.y.toNat + upper.height.toNat ≤ lower.y.toNat

/-- The cell is one of the region. -/
def HasCell (rect : Rect) (x y : Nat) : Prop :=
  (rect.x.toNat ≤ x ∧ x < rect.x.toNat + rect.width.toNat) ∧
    (rect.y.toNat ≤ y ∧ y < rect.y.toNat + rect.height.toNat)

/-- No cell is one of both regions. -/
def CellsApart (upper lower : Rect) : Prop := ∀ x y, ¬ (HasCell upper x y ∧ HasCell lower x y)

theorem Above.cellsApart {upper lower : Rect} (h : Above upper lower) : CellsApart upper lower := by
  rintro x y ⟨⟨-, hupper⟩, -, hlower⟩
  rw [Above] at h
  omega

/-- The regions from top to bottom. -/
def regions (frame : FrameLayout) : List Rect :=
  [frame.transcript, frame.activity, frame.composer, frame.menu, frame.hint]

/-- What a plan promises. -/
structure Planned (width height : UInt16) (composerRows : Nat) (frame : FrameLayout) : Prop where
  inside : ∀ rect ∈ frame.footer :: regions frame, Inside width height rect
  above : (regions frame).Pairwise Above
  composer : frame.composer.height.toNat = min composerRows height.toNat

/-- Regions of the full width are planned if they are stacked. -/
theorem planned_of_rows {width height : UInt16} {composerRows : Nat} {frame : FrameLayout}
    (hx : ∀ rect ∈ frame.footer :: regions frame, rect.x = 0 ∧ rect.width = width)
    (hactivity : frame.transcript.y.toNat + frame.transcript.height.toNat ≤
      frame.activity.y.toNat)
    (hcomposer : frame.activity.y.toNat + frame.activity.height.toNat ≤ frame.composer.y.toNat)
    (hmenu : frame.composer.y.toNat + frame.composer.height.toNat ≤ frame.menu.y.toNat)
    (hhint : frame.menu.y.toNat + frame.menu.height.toNat ≤ frame.hint.y.toNat)
    (hheight : frame.hint.y.toNat + frame.hint.height.toNat ≤ height.toNat)
    (hfooter : frame.footer.y.toNat + frame.footer.height.toNat ≤ height.toNat)
    (hrows : frame.composer.height.toNat = min composerRows height.toNat) :
    Planned width height composerRows frame := by
  refine ⟨?_, ?_, hrows⟩
  · intro rect hrect
    obtain ⟨hleft, hwidth⟩ := hx rect hrect
    refine ⟨by rw [hleft, hwidth]; exact Nat.le_of_eq (Nat.zero_add _), ?_⟩
    simp only [regions, List.mem_cons, List.not_mem_nil, or_false] at hrect
    rcases hrect with rfl | rfl | rfl | rfl | rfl | rfl <;> omega
  · simp only [regions, List.pairwise_cons, List.forall_mem_cons, Above, List.Pairwise.nil,
      List.not_mem_nil, false_implies, implies_true, and_true]
    omega

/-- **Every frame can be planned.** -/
theorem planFlow_planned (width height : UInt16)
    (transcriptRows activityRows composerRows menuRows hintRows : Nat) :
    ∃ frame, planFlow width height transcriptRows activityRows composerRows menuRows hintRows =
        some frame ∧
      (∀ rect ∈ frame.footer :: regions frame, Inside width height rect) ∧
      (regions frame).Pairwise Above ∧ (regions frame).Pairwise CellsApart ∧
      frame.composer.height.toNat = min composerRows height.toNat := by
  suffices h : ∃ frame, planFlow width height transcriptRows activityRows composerRows menuRows
      hintRows = some frame ∧ Planned width height composerRows frame by
    obtain ⟨frame, hframe, hplanned⟩ := h
    exact ⟨frame, hframe, hplanned.inside, hplanned.above, hplanned.above.imp Above.cellsApart,
      hplanned.composer⟩
  have hheight := height.toNat_lt
  have hone : (1 : UInt16).toNat = 1 := rfl
  have hcomposer := toNat_capped composerRows height
  rw [planFlow]
  generalize capped composerRows height = composerHeight at *
  split_ifs with hmenu
  · have hmenuHeight := toNat_capped menuRows (satSub height composerHeight)
    rw [toNat_satSub] at hmenuHeight
    generalize capped menuRows (satSub height composerHeight) = menuHeight at *
    obtain ⟨used, hused, husedValue⟩ := plus_eq composerHeight menuHeight
      (by omega)
    simp only [hused, Option.bind_eq_bind, Option.bind_some]
    have hbudget := toNat_satSub height used
    generalize satSub height used = contentBudget at *
    have htranscript := toNat_capped transcriptRows (satSub contentBudget 1)
    rw [toNat_satSub] at htranscript
    generalize capped transcriptRows (satSub contentBudget 1) = transcriptHeight at *
    have hgap := toNat_rowIf (transcriptHeight ≠ 0 ∧ transcriptHeight < contentBudget)
    generalize rowIf (transcriptHeight ≠ 0 ∧ transcriptHeight < contentBudget) = gap at *
    have hgapFits : transcriptHeight.toNat + gap.toNat ≤ contentBudget.toNat := by
      split_ifs at hgap with hroom
      · have hlt := UInt16.lt_iff_toNat_lt.mp hroom.2
        omega
      · omega
    obtain ⟨composerY, hcomposerY, hvalue⟩ := plus_eq transcriptHeight gap
      (by omega)
    simp only [hcomposerY, Option.bind_some]
    refine ⟨_, rfl, planned_of_rows ?_ ?_ ?_ ?_ ?_ ?_ ?_ hcomposer⟩
    · simp [regions]
    all_goals simp
    all_goals omega
  · have hhint := toNat_capped hintRows (satSub height composerHeight)
    rw [toNat_satSub] at hhint
    generalize capped hintRows (satSub height composerHeight) = hintHeight at *
    obtain ⟨used, hused, husedValue⟩ := plus_eq composerHeight hintHeight
      (by omega)
    simp only [hused, Option.bind_eq_bind, Option.bind_some]
    have hremaining := toNat_satSub height used
    generalize satSub height used = remaining at *
    have hafter := toNat_rowIf (hintHeight ≠ 0 ∧ remaining ≠ 0)
    generalize rowIf (hintHeight ≠ 0 ∧ remaining ≠ 0) = afterGap at *
    have hrest := toNat_satSub remaining afterGap
    generalize satSub remaining afterGap = rest at *
    have hbefore := toNat_rowIf (transcriptRows ≠ 0 ∧ rest ≠ 0)
    generalize rowIf (transcriptRows ≠ 0 ∧ rest ≠ 0) = beforeGap at *
    have hbudget := toNat_satSub rest beforeGap
    generalize satSub rest beforeGap = contentBudget at *
    have hactivity := toNat_capped activityRows contentBudget
    generalize capped activityRows contentBudget = activityHeight at *
    have htranscript := toNat_capped transcriptRows (satSub contentBudget activityHeight)
    rw [toNat_satSub] at htranscript
    generalize capped transcriptRows (satSub contentBudget activityHeight) = transcriptHeight at *
    have hgaps : afterGap.toNat ≤ remaining.toNat ∧ beforeGap.toNat ≤ rest.toNat := by
      simp only [ne_eq, ← UInt16.toNat_inj, UInt16.toNat_zero] at hafter hbefore
      split_ifs at hafter hbefore <;> omega
    have hfit : transcriptHeight.toNat + beforeGap.toNat + activityHeight.toNat +
        composerHeight.toNat + afterGap.toNat + hintHeight.toNat ≤ height.toNat := by
      have hone := Nat.min_le_right transcriptRows (contentBudget.toNat - activityHeight.toNat)
      have htwo := Nat.min_le_right activityRows contentBudget.toNat
      have hthree := Nat.min_le_right hintRows (height.toNat - composerHeight.toNat)
      have hfour := Nat.min_le_right composerRows height.toNat
      omega
    clear hgaps htranscript hactivity hbudget hbefore hrest hafter hremaining hhint husedValue hused
    refine ⟨_, rfl, planned_of_rows ?_ ?_ ?_ ?_ ?_ ?_ ?_ hcomposer⟩
    · simp [regions]
    all_goals clear hcomposer
    all_goals simp only [toNat_satAdd, toNat_satSub, UInt16.toNat_zero]
    all_goals omega

end Tea.Contract
