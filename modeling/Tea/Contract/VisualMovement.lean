/-
  Tea/Contract/VisualMovement.lean
  ================================
  **Visual movement goes to the next row, unless it lands on a soft wrap.**  Where all of
  the target row lies within the column of the cursor and the row ends because the next
  character does not fit, the cursor goes to the end of that row, which is the start of the
  row behind it.
-/
import Tea.Tui.Cursor

namespace Tea.Contract

open Tea.Encoding Tea.Tui Tea.Tui.Composer

/-- The layout measured at the cursor. -/
def layoutOf (composer : Composer) (width : UInt16) : VisualLayout :=
  VisualLayout.measure composer.text composer.cursor width

/-- What a visual movement promises of its result. -/
def MovesByRow (composer : Composer) (width : UInt16) (direction : Int)
    (result : Option (Composer × Bool)) : Prop :=
  ∃ moved answer, result = some (moved, answer) ∧
    (answer = true →
      ((layoutOf moved width).cursorRow : Int) = (layoutOf composer width).cursorRow + direction ∧
      (layoutOf moved width).cursorColumn ≤ (layoutOf composer width).cursorColumn) ∧
    (answer = false → moved.cursor = composer.cursor)

/-- The row that the movement goes to is not wider than the text in front of the cursor on its
    row, and the row behind it starts where it ends. -/
def LandsOnWrap (composer : Composer) (width : UInt16) (direction : Int) : Prop :=
  let layout := layoutOf composer width
  let target := layout.cursorRow + direction
  0 ≤ target ∧ ∃ current row next passed symbols,
    layout.rows[layout.cursorRow]? = some current ∧
    layout.rows[target.toNat]? = some row ∧
    layout.rows[target.toNat + 1]? = some next ∧
    next.start = row.stop ∧
    slice composer.text current.start composer.cursor = some passed ∧
    slice composer.text row.start row.stop = some symbols ∧
    textWidth symbols ≤ textWidth passed

/-! ### Landing on a wrap -/

variable (before after : List Char) (width : UInt16) (direction : Int)

theorem layoutOf_between :
    (layoutOf (between before after) width).rows =
        visualRows 0 0 [] (textRows before after width) ∧
      (layoutOf (between before after) width).cursorRow =
        (place (contentWidth width) 0 before after).1 ∧
      (layoutOf (between before after) width).cursorColumn =
        min (2 + (place (contentWidth width) 0 before after).2) (max width.toNat 1 - 1) :=
  ⟨measure_rows _ _ width, measure_place before after width⟩

theorem landsOnWrap_iff :
    LandsOnWrap (between before after) width direction ↔
      0 ≤ targetRow before after width direction ∧
        ∃ chars, (textRows before after width)[(targetRow before after width direction).toNat]? =
            some (chars, .soft) ∧
          textWidth chars ≤ (place (contentWidth width) 0 before after).2 := by
  have hflat := flat_rowsFrom (contentWidth width) 0 (before ++ after)
  obtain ⟨passed, ahead, ending, hrow, hbefore, hcolumn, -⟩ :=
    place_spec (contentWidth width) 0 before after
  have hnext : ∀ row chars ending, _ := fun row chars ending =>
    @next_start_iff (contentWidth width) (before ++ after) row chars ending
  have hpassed := slice_append (flat ((rowsFrom (contentWidth width) 0 (before ++ after)).take
    (place (contentWidth width) 0 before after).1)) passed after
  have hdesired : (place (contentWidth width) 0 before after).2 = textWidth passed := by
    simpa [base] using hcolumn
  rw [← hbefore] at hpassed
  simp only [LandsOnWrap, layoutOf_between, textRows, hdesired, between_text, between_cursor,
    targetRow]
  generalize ((place (contentWidth width) 0 before after).1 : Int) + direction = target
  generalize rowsFrom (contentWidth width) 0 (before ++ after) = rows at *
  generalize (place (contentWidth width) 0 before after).1 = found at *
  refine and_congr_right fun hnonneg => ?_
  have hcurrent := visualRows_getElem 0 rows found
  rw [hrow, Option.map_some, Nat.zero_add] at hcurrent
  constructor
  · rintro ⟨current, row, next, passed', symbols, h1, h2, h3, hstart, h4, h5, hwidth⟩
    obtain rfl := Option.some.inj (hcurrent.symm.trans h1)
    obtain rfl := Option.some.inj (hpassed.symm.trans h4)
    rw [visualRows_getElem] at h2
    obtain ⟨⟨chars, ending⟩, hline, rfl⟩ := Option.map_eq_some_iff.mp h2
    have hsymbols := slice_row hline
    simp only [Nat.zero_add] at h5 hstart
    rw [hflat] at hsymbols
    obtain rfl := Option.some.inj (hsymbols.symm.trans h5)
    obtain rfl := (hnext _ _ _ hline).mp ⟨next, h3, hstart⟩
    exact ⟨chars, hline, hwidth⟩
  · rintro ⟨chars, hline, hwidth⟩
    have hsymbols := slice_row hline
    rw [hflat] at hsymbols
    obtain ⟨next, hget, hstart⟩ := (hnext _ _ _ hline).mpr rfl
    have htarget := visualRows_getElem 0 rows target.toNat
    rw [hline, Option.map_some, Nat.zero_add, Nat.zero_add] at htarget
    exact ⟨_, _, next, passed, chars, hcurrent, htarget, hget, hstart, hpassed, hsymbols, hwidth⟩

/-! ### The movement -/

/-- What an answered movement leaves is where it says unless it landed on a wrap. -/
theorem moveVisualLine_iff :
    MovesByRow (between before after) width direction
        ((between before after).moveVisualLine width direction) ↔
      ¬ LandsOnWrap (between before after) width direction := by
  rw [landsOnWrap_iff]
  by_cases h : targetRow before after width direction < 0 ∨
      (textRows before after width).length ≤ targetRow before after width direction
  · rw [moveVisualLine_outside before after width direction h]
    refine iff_of_true ⟨_, false, rfl, fun hanswer => absurd hanswer Bool.false_ne_true,
      fun _ => rfl⟩ ?_
    rintro ⟨hnonneg, chars, hline, -⟩
    obtain ⟨hlt, -⟩ := List.getElem?_eq_some_iff.mp hline
    omega
  · obtain ⟨reached, rest, ending, hline, hmoved, hreached, hrest⟩ :=
      moveVisualLine_inside before after width direction h
    obtain ⟨behind, htext, hplace⟩ := place_at (contentWidth width) 0 hline
    have hnonneg : 0 ≤ targetRow before after width direction :=
      Int.not_lt.mp fun hlt => h (.inl hlt)
    generalize hkept : flat ((textRows before after width).take
      (targetRow before after width direction).toNat) ++ reached = kept at hmoved
    have hmoved : (between before after).moveVisualLine width direction =
        some (between kept behind, true) := by
      rw [hmoved, htext, ← hkept]
      rfl
    change place (contentWidth width) 0 (flat ((textRows before after width).take
      (targetRow before after width direction).toNat) ++ reached) behind = _ at hplace
    rw [hkept] at hplace
    by_cases hwrap : rest = [] ∧ ending = .soft
    · rw [if_pos hwrap] at hplace
      refine iff_of_false ?_ (not_not_intro ⟨hnonneg, _, hwrap.2 ▸ hline, hrest.mp hwrap.1⟩)
      rintro ⟨moved, answer, hresult, hpromise, _⟩
      obtain ⟨rfl, rfl⟩ := Prod.mk.inj (Option.some.inj (hmoved.symm.trans hresult))
      have hrow := (hpromise rfl).1
      rw [(layoutOf_between kept behind width).2.1, hplace,
        (layoutOf_between before after width).2.1] at hrow
      rw [targetRow] at hnonneg
      simp only [targetRow] at hrow
      omega
    · rw [if_neg hwrap] at hplace
      refine iff_of_true ⟨_, true, hmoved, fun _ => ⟨?_, ?_⟩,
        fun hanswer => absurd hanswer.symm Bool.false_ne_true⟩ ?_
      · rw [(layoutOf_between kept behind width).2.1, hplace,
          (layoutOf_between before after width).2.1]
        exact Int.toNat_of_nonneg hnonneg
      · rw [(layoutOf_between kept behind width).2.2, hplace,
          (layoutOf_between before after width).2.2]
        have hbase : base 0 (targetRow before after width direction).toNat = 0 := by simp [base]
        rw [hbase]
        omega
      · rintro ⟨-, chars, hsoft, hwide⟩
        obtain ⟨rfl, rfl⟩ := Prod.mk.inj (Option.some.inj (hline.symm.trans hsoft))
        exact hwrap ⟨hrest.mpr hwide, rfl⟩

/-- **When a visual movement goes to the next row.**  Wherever the cursor is, both movements do
    what they answer unless they land on a soft wrap. -/
theorem visualMovement_iff {composer : Composer} (h : composer.Sound) (width : UInt16) :
    (MovesByRow composer width (-1) (composer.moveVisualLineUp width) ↔
        ¬ LandsOnWrap composer width (-1)) ∧
      (MovesByRow composer width 1 (composer.moveVisualLineDown width) ↔
        ¬ LandsOnWrap composer width 1) := by
  obtain ⟨before, after, rfl⟩ := (sound_iff composer).mp h
  constructor
  · exact moveVisualLine_iff before after width (-1)
  · exact moveVisualLine_iff before after width 1

/-- Four letters on two rows of two, with the cursor behind them. -/
def twoRows : Composer := Composer.new.replaceFromEditor "abcd".toList

theorem visualMovement_iff_twoRows :
    (MovesByRow twoRows 4 (-1) (twoRows.moveVisualLineUp 4) ↔ ¬ LandsOnWrap twoRows 4 (-1)) ∧
      (MovesByRow twoRows 4 1 (twoRows.moveVisualLineDown 4) ↔ ¬ LandsOnWrap twoRows 4 1) :=
  visualMovement_iff (sound_ofText _) 4

/-- The movement up from the end of the second row stays on the second row. -/
theorem wrap_stays : twoRows.Sound ∧
    twoRows.moveVisualLineUp 4 = some ({ twoRows with cursor := 2 }, true) ∧
    (layoutOf { twoRows with cursor := 2 } 4).cursorRow = (layoutOf twoRows 4).cursorRow ∧
    ¬ MovesByRow twoRows 4 (-1) (twoRows.moveVisualLineUp 4) := by
  have hmoved : twoRows.moveVisualLineUp 4 = some ({ twoRows with cursor := 2 }, true) := by
    decide
  have hrow : (layoutOf { twoRows with cursor := 2 } 4).cursorRow =
      (layoutOf twoRows 4).cursorRow := by
    decide
  refine ⟨sound_ofText _, hmoved, hrow, ?_⟩
  rintro ⟨moved, answer, hresult, hpromise, _⟩
  obtain ⟨rfl, rfl⟩ := Prod.mk.inj (Option.some.inj (hmoved.symm.trans hresult))
  have hless := (hpromise rfl).1
  rw [hrow] at hless
  omega

end Tea.Contract
