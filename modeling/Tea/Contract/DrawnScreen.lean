/-
  Tea/Contract/DrawnScreen.lean
  =============================
  **The drawn screen and its frame.**  The second cell of a wide scalar is a cell like any
  other: if it differs from what was there it is drawn, and erases the scalar
  (`screen_torn`).  In every run of redraws in which this cell is a blank without a style,
  in the frame and in the one shown before, the screen shows each frame as it is drawn, as
  a full redraw would (`screen_shows`).
-/

import Tea.Terminal.Draw

namespace Tea.Contract

open Tea.Async Tea.Tui Tea.Terminal

/-! ### The contract -/

/-- How a style is drawn. -/
def penOf (style : Style) : Pen where
  foreground := style.foreground.map colorIndex
  background := style.background.map colorIndex
  bold := style.bold

def glyphOf (cell : Cell) : Glyph := { symbol := cell.symbol, pen := penOf cell.style }

/-- The glyphs of a row of a frame. -/
def glyphs (frame : Grid) (y x : Nat) : Glyph := ((frame.get x y).map glyphOf).getD .blank

/-- **The screen shows the frame**: each cell, and each wide scalar with both its halves. -/
structure ShowsFrame (screen : Screen) (frame : Grid) : Prop where
  cells : ∀ y < frame.height, ∀ x < frame.width,
    screen.rows y x = picture Glyph.wide (glyphs frame y) x
  intact : ∀ x y cell, frame.get x y = some cell → charWidth cell.symbol = 2 →
    screen.rows y x = .left (glyphOf cell) ∧ x + 1 < frame.width ∧
      screen.rows y (x + 1) = .right (glyphOf cell)

/-- What a full redraw of the frame leaves, whatever the screen showed. -/
def SameAsCleared (screen : Screen) (frame : Grid) : Prop :=
  ∀ (other : Screen) (last cursor : Option (Nat × Nat)), other.width = frame.width →
    other.height = frame.height → ∀ y < frame.height, ∀ x < frame.width,
      screen.rows y x = (other.obeyAll (draw last (frame.diff none) cursor)).rows y x

/-- What a successful redraw owes. -/
def DrawnAsFrame (t : Transition Display DisplayStep) : Prop :=
  ∀ frame cursor, t.label = .redraw frame cursor →
    ShowsFrame t.after.screen frame ∧ SameAsCleared t.after.screen frame

/-! ### The condition -/

/-- Behind each wide scalar of the frame there is a blank cell. -/
def WideFollowed (frame : Grid) : Prop :=
  ∀ x y cell, frame.get x y = some cell → charWidth cell.symbol = 2 →
    frame.get (x + 1) y = some .blank

/-- There was a blank cell, too, in the frame that is shown, if that has the same size. -/
def WideOverBlank (previous : Option Grid) (frame : Grid) : Prop :=
  ∀ shown ∈ previous, shown.width = frame.width → shown.height = frame.height →
    ∀ x y cell, frame.get x y = some cell → charWidth cell.symbol = 2 →
      shown.get (x + 1) y = some .blank

/-- The redraw draws no second cell of a wide scalar. -/
def SparesHalves (t : Transition Display DisplayStep) : Prop :=
  ∀ frame cursor, t.label = .redraw frame cursor →
    WideFollowed frame ∧ WideOverBlank t.before.previous frame

/-! ### Glyphs -/

theorem colorIndex_inj {a b : Color} (h : colorIndex a = colorIndex b) : a = b := by
  cases a <;> cases b <;> first | rfl | exact absurd h (by decide)

theorem map_colorIndex_inj {a b : Option Color} (h : a.map colorIndex = b.map colorIndex) :
    a = b := by
  cases a with
  | none =>
    cases b with
    | none => rfl
    | some b => cases h
  | some a =>
    cases b with
    | none => cases h
    | some b => rw [colorIndex_inj (Option.some_inj.mp h)]

/-- What is drawn differs if the cells differ. -/
theorem glyphOf_inj {a b : Cell} (h : glyphOf a = glyphOf b) : a = b := by
  obtain ⟨symbol, ⟨foreground, background, bold⟩⟩ := a
  obtain ⟨symbol', ⟨foreground', background', bold'⟩⟩ := b
  obtain ⟨rfl, hpen⟩ := Glyph.mk.inj h
  obtain ⟨hfore, hback, rfl⟩ := Pen.mk.inj hpen
  obtain rfl := map_colorIndex_inj hfore
  obtain rfl := map_colorIndex_inj hback
  rfl

theorem glyphs_get {frame : Grid} {x y : Nat} {cell : Cell} (h : frame.get x y = some cell) :
    glyphs frame y x = glyphOf cell := by
  rw [glyphs, h]
  rfl

theorem wide_glyphOf {cell : Cell} :
    (glyphOf cell).wide = true ↔ charWidth cell.symbol = 2 := by
  rw [Glyph.wide, decide_eq_true_eq]
  exact Iff.rfl

theorem wide_blank : Glyph.wide .blank = false := by decide

/-- A wide glyph is that of a cell. -/
theorem wide_get {frame : Grid} {x y : Nat} (h : Glyph.wide (glyphs frame y x) = true) :
    ∃ cell, frame.get x y = some cell ∧ charWidth cell.symbol = 2 := by
  cases hget : frame.get x y with
  | none =>
    rw [glyphs, hget] at h
    exact absurd h (by decide)
  | some cell =>
    rw [glyphs_get hget, wide_glyphOf] at h
    exact ⟨cell, rfl, h⟩

theorem WideFollowed.fits {frame : Grid} (h : WideFollowed frame) (y : Nat) :
    Fits Glyph.wide .blank frame.width (glyphs frame y) := by
  intro x _ hwide
  obtain ⟨cell, hget, hcell⟩ := wide_get hwide
  have hnext := h x y cell hget hcell
  exact ⟨(Grid.get_bound hnext).1, glyphs_get hnext⟩

/-! ### Commands of a change -/

theorem obeyAll_applyStyle (s : Screen) (style : Style) :
    s.obeyAll (applyStyle style) = { s with pen := penOf style } := by
  obtain ⟨foreground, background, bold⟩ := style
  cases foreground <;> cases background <;> cases bold <;> rfl

/-- A change puts its glyph at its place. -/
theorem obeyAll_change (s : Screen) {x y : Nat} (cell : Cell) (hx : x + 1 < 2 ^ 16)
    (hy : y + 1 < 2 ^ 16) :
    let after := s.obeyAll (moveTo x y :: applyStyle cell.style ++ [.print cell.symbol])
    after.width = s.width ∧ after.height = s.height ∧ after.rows = Function.update s.rows y
      (put Glyph.wide .blank s.width (s.rows y) x (glyphOf cell)) := by
  intro after
  have hafter : after = ((s.obey (moveTo x y)).obeyAll (applyStyle cell.style)).obey
      (.print cell.symbol) := by
    change s.obeyAll ([moveTo x y] ++ applyStyle cell.style ++ [.print cell.symbol]) = _
    rw [Screen.obeyAll_append, Screen.obeyAll_append]
    rfl
  have hrow : saturatingAdd y 1 - 1 = y := by
    unfold saturatingAdd
    omega
  have hcolumn : saturatingAdd x 1 - 1 = x := by
    unfold saturatingAdd
    omega
  rw [hafter, obeyAll_applyStyle]
  refine ⟨rfl, rfl, ?_⟩
  simp only [Screen.obey, moveTo, hrow, hcolumn]
  rfl

/-! ### Rows of a difference -/

section

variable {frame : Grid} {previous : Option Grid}

/-- The row that a difference is drawn over: blanks in a full redraw. -/
def shownGlyphs (frame : Grid) (previous : Option Grid) (y : Nat) : Nat → Glyph :=
  if frame.dimensionsChanged previous then fun _ => .blank
  else previous.elim (fun _ => .blank) fun shown => glyphs shown y

theorem dimensionsChanged_false (h : frame.dimensionsChanged previous = false) :
    ∃ shown, previous = some shown ∧ shown.width = frame.width ∧
      shown.height = frame.height := by
  cases previous with
  | none => cases h
  | some shown =>
    refine ⟨shown, rfl, ?_⟩
    have hsame : (shown.width ≠ frame.width || shown.height ≠ frame.height) = false := h
    simpa using hsame

/-- What is drawn for one place. -/
def placeCommands (frame : Grid) (previous : Option Grid) (y x : Nat) : List Command :=
  ((frame.change previous y x).toList).flatMap (drawChange (frame.dimensionsChanged previous))

/-- A place is drawn if its glyph is not shown there. -/
theorem placeCommands_eq (previous : Option Grid) {x y : Nat} {cell : Cell}
    (hget : frame.get x y = some cell) :
    placeCommands frame previous y x =
      if glyphs frame y x = shownGlyphs frame previous y x then []
      else moveTo x y :: applyStyle cell.style ++ [.print cell.symbol] := by
  obtain ⟨hx, hy⟩ := Grid.get_bound hget
  unfold placeCommands Grid.change shownGlyphs
  rw [hget, Option.bind_some, glyphs_get hget]
  cases hdim : frame.dimensionsChanged previous with
  | true =>
    simp only [Bool.true_or, if_true, Option.toList_some, List.flatMap_cons, List.flatMap_nil,
      List.append_nil, drawChange, Bool.true_and, decide_eq_true_eq]
    by_cases hblank : cell = .blank
    · rw [if_pos hblank, if_pos (by rw [hblank]; rfl)]
    · have hglyph : glyphOf cell ≠ Glyph.blank := fun heq =>
        hblank (glyphOf_inj (heq : glyphOf cell = glyphOf .blank))
      rw [if_neg hblank, if_neg hglyph]
  | false =>
    obtain ⟨shown, rfl, hwidth, hheight⟩ := dimensionsChanged_false hdim
    obtain ⟨old, hold⟩ := Grid.get_isSome (hwidth ▸ hx) (hheight ▸ hy)
    simp only [Bool.false_or, Option.bind_some, hold, Option.elim_some, glyphs_get hold,
      Bool.false_eq_true, if_false, decide_eq_true_eq, ne_eq, Option.some_inj]
    by_cases hsame : old = cell
    · rw [if_neg (not_not.mpr hsame), if_pos (by rw [hsame])]
      rfl
    · rw [if_pos hsame, if_neg fun heq => hsame (glyphOf_inj heq).symm]
      simp only [Option.toList_some, List.flatMap_cons, List.flatMap_nil, List.append_nil,
        drawChange, Bool.false_and, Bool.false_eq_true, if_false]

theorem flatMap_filterMap {α β γ : Type} (l : List α) (f : α → Option β) (g : β → List γ) :
    (l.filterMap f).flatMap g = l.flatMap fun a => (f a).toList.flatMap g := by
  induction l with
  | nil => rfl
  | cons a l ih =>
    rw [List.flatMap_cons, ← ih]
    cases hfa : f a with
    | none => rw [List.filterMap_cons_none hfa]; rfl
    | some b =>
      rw [List.filterMap_cons_some hfa, List.flatMap_cons]
      simp

/-- The commands for all changes, place by place. -/
theorem changes_commands : (frame.diff previous).changes.flatMap
    (drawChange (frame.diff previous).fullRedraw) =
      (List.range frame.height).flatMap fun y =>
        (List.range frame.width).flatMap (placeCommands frame previous y) := by
  rw [Grid.diff, List.flatMap_assoc]
  simp only [flatMap_filterMap]
  rfl

/-! ### The loop over the places -/

/-- The commands for some places of a row paint them. -/
theorem obeyAll_places (previous : Option Grid) (s : Screen) {y : Nat} (hy : y < frame.height)
    (hwidth : s.width = frame.width) (places : List Nat)
    (hplaces : ∀ x ∈ places, x < frame.width) :
    let after := s.obeyAll (places.flatMap (placeCommands frame previous y))
    after.width = s.width ∧ after.height = s.height ∧
      after.rows = Function.update s.rows y (places.foldl
        (paintAt Glyph.wide .blank frame.width (shownGlyphs frame previous y) (glyphs frame y))
        (s.rows y)) := by
  induction places generalizing s with
  | nil => exact ⟨rfl, rfl, (Function.update_eq_self y s.rows).symm⟩
  | cons x places ih =>
    rw [List.forall_mem_cons] at hplaces
    obtain ⟨cell, hget⟩ := Grid.get_isSome hplaces.1 hy
    have hfits := frame.fits
    intro after
    have hafter : after = (s.obeyAll (placeCommands frame previous y x)).obeyAll
        (places.flatMap (placeCommands frame previous y)) := by
      rw [← Screen.obeyAll_append, ← List.flatMap_cons]
    have hplace := placeCommands_eq previous hget
    rw [List.foldl_cons, paintAt]
    by_cases hsame : glyphs frame y x = shownGlyphs frame previous y x
    · rw [if_pos hsame] at hplace ⊢
      rw [hafter, hplace]
      exact ih s hwidth hplaces.2
    · rw [if_neg hsame] at hplace ⊢
      obtain ⟨hw, hh, hrows⟩ := obeyAll_change s cell (x := x) (y := y)
        (by omega) (by omega)
      rw [← hplace] at hw hh hrows
      obtain ⟨hw', hh', hrows'⟩ := ih _ (hw.trans hwidth) hplaces.2
      rw [hafter]
      refine ⟨hw'.trans hw, hh'.trans hh, ?_⟩
      rw [hrows', hrows, Function.update_self, Function.update_idem, glyphs_get hget, hwidth]

/-- The commands for the first rows paint these. -/
theorem obeyAll_rows (previous : Option Grid) (s : Screen) (hwidth : s.width = frame.width)
    (n : Nat) (hn : n ≤ frame.height) :
    let after := s.obeyAll ((List.range n).flatMap fun y =>
      (List.range frame.width).flatMap (placeCommands frame previous y))
    after.width = s.width ∧ after.height = s.height ∧
      ∀ y, after.rows y = if y < n then
        paint Glyph.wide .blank frame.width (shownGlyphs frame previous y) (glyphs frame y)
          (s.rows y)
        else s.rows y := by
  induction n with
  | zero =>
    refine ⟨rfl, rfl, ?_⟩
    intro y
    rw [if_neg (Nat.not_lt_zero y)]
    rfl
  | succ n ih =>
    obtain ⟨hw, hh, hrows⟩ := ih (by omega)
    obtain ⟨hw', hh', hrows'⟩ := obeyAll_places previous _
      (by omega : n < frame.height) (hw.trans hwidth) (List.range frame.width)
      fun x hx => List.mem_range.mp hx
    rw [List.range_succ, List.flatMap_append, List.flatMap_cons, List.flatMap_nil,
      List.append_nil, Screen.obeyAll_append]
    refine ⟨hw'.trans hw, hh'.trans hh, ?_⟩
    intro y
    rw [hrows']
    by_cases heq : y = n
    · subst heq
      rw [Function.update_self, if_pos (Nat.lt_succ_self y), hrows, if_neg (Nat.lt_irrefl y)]
      rfl
    · rw [Function.update_of_ne heq, hrows]
      by_cases hlt : y < n
      · rw [if_pos hlt, if_pos (by omega)]
      · rw [if_neg hlt, if_neg (by omega)]

/-! ### A redraw -/

/-- Every cell is a change in a full redraw. -/
theorem changes_ne_nil (hfull : frame.dimensionsChanged previous = true) {x y : Nat}
    (hx : x < frame.width) (hy : y < frame.height) : (frame.diff previous).changes ≠ [] := by
  obtain ⟨cell, hget⟩ := Grid.get_isSome hx hy
  apply List.ne_nil_of_mem (a := { x, y, cell })
  apply List.mem_flatMap.mpr
  refine ⟨y, List.mem_range.mpr hy, ?_⟩
  apply List.mem_filterMap.mpr
  refine ⟨x, List.mem_range.mpr hx, ?_⟩
  rw [Grid.change, hget, Option.bind_some, hfull]
  rfl

/-- What is behind the changes moves and hides the cursor only. -/
theorem obeyAll_drawCursor (s : Screen) (cursor : Option (Nat × Nat)) :
    let after := s.obeyAll ([.reset] ++ drawCursor cursor)
    after.width = s.width ∧ after.height = s.height ∧ after.rows = s.rows := by
  cases cursor with
  | none => exact ⟨rfl, rfl, rfl⟩
  | some cursor => exact ⟨rfl, rfl, rfl⟩

/-- The rows that the changes are drawn over. -/
def clearedRows (frame : Grid) (previous : Option Grid) (s : Screen) : Nat → Nat → Shown Glyph :=
  if frame.dimensionsChanged previous then fun _ _ => .whole .blank else s.rows

theorem draw_rows (previous : Option Grid) (s : Screen) (hwidth : s.width = frame.width)
    (last cursor : Option (Nat × Nat)) :
    let after := s.obeyAll (draw last (frame.diff previous) cursor)
    after.width = s.width ∧ after.height = s.height ∧
      ∀ y < frame.height, ∀ x < frame.width, after.rows y x =
        paint Glyph.wide .blank frame.width (shownGlyphs frame previous y) (glyphs frame y)
          (clearedRows frame previous s y) x := by
  intro after
  unfold clearedRows
  by_cases hnothing : (frame.diff previous).changes = [] ∧ last = cursor
  · have hafter : after = s := by
      change s.obeyAll (draw _ _ _) = s
      rw [draw, if_pos hnothing]
      rfl
    rw [hafter]
    refine ⟨rfl, rfl, ?_⟩
    intro y hy x hx
    -- no change is a change of no place
    have hpart : ¬ frame.dimensionsChanged previous = true := by
      intro hfull
      exact changes_ne_nil hfull hx hy hnothing.1
    have hrows := (obeyAll_rows previous s hwidth frame.height (Nat.le_refl _)).2.2 y
    rw [← changes_commands, hnothing.1, if_pos hy] at hrows
    rw [if_neg hpart, ← hrows]
    rfl
  · let start : Screen := if frame.dimensionsChanged previous = true
      then { s with rows := fun _ _ => .whole .blank, row := 0, column := 0 } else s
    have hstart : start.width = s.width ∧ start.height = s.height ∧ start.rows =
        if frame.dimensionsChanged previous then fun _ _ => .whole .blank else s.rows := by
      by_cases hfull : frame.dimensionsChanged previous = true
      · simp only [start, if_pos hfull, and_self]
      · simp only [start, if_neg hfull, and_self]
    have hbegin : s.obeyAll
        (if (frame.diff previous).fullRedraw then [.clear, .moveTo 1 1] else []) = start := by
      change s.obeyAll (if frame.dimensionsChanged previous = true then _ else _) = start
      by_cases hfull : frame.dimensionsChanged previous = true
      · simp only [start, if_pos hfull]
        rfl
      · simp only [start, if_neg hfull]
        rfl
    have hafter : after = (start.obeyAll ((List.range frame.height).flatMap fun y =>
        (List.range frame.width).flatMap (placeCommands frame previous y))).obeyAll
          ([.reset] ++ drawCursor cursor) := by
      change s.obeyAll (draw _ _ _) = _
      rw [draw, if_neg hnothing, List.append_assoc, List.append_assoc, Screen.obeyAll_append,
        hbegin, Screen.obeyAll_append, changes_commands]
    obtain ⟨hw, hh, hrows⟩ := obeyAll_rows previous start
      (hstart.1.trans hwidth) frame.height (Nat.le_refl _)
    obtain ⟨hw', hh', hrows'⟩ := obeyAll_drawCursor (start.obeyAll
      ((List.range frame.height).flatMap fun y =>
        (List.range frame.width).flatMap (placeCommands frame previous y))) cursor
    rw [hafter]
    refine ⟨(hw'.trans hw).trans hstart.1, (hh'.trans hh).trans hstart.2.1, ?_⟩
    intro y hy x _
    rw [hrows', hrows, if_pos hy, hstart.2.2]

/-- The screen has the previous frame, if that has the size of the frame. -/
def HasShown (s : Screen) (previous : Option Grid) : Prop :=
  ∀ shown ∈ previous, shown.width = s.width → shown.height = s.height →
    WideFollowed shown ∧ ∀ y < shown.height, ∀ x < shown.width,
      s.rows y x = picture Glyph.wide (glyphs shown y) x

theorem picture_blank (x : Nat) : picture Glyph.wide (fun _ => .blank) x = .whole .blank := by
  have hsolo : solo Glyph.wide Glyph.blank = .whole .blank := solo_blank wide_blank
  cases x with
  | zero => exact hsolo
  | succ x =>
    rw [picture, wide_blank]
    exact hsolo

/-- **A redraw shows its frame.** -/
theorem draw_picture {s : Screen} (hwidth : s.width = frame.width)
    (hheight : s.height = frame.height) (hfollowed : WideFollowed frame)
    (hover : WideOverBlank previous frame) (hshown : HasShown s previous)
    (last cursor : Option (Nat × Nat)) :
    ∀ y < frame.height, ∀ x < frame.width,
      (s.obeyAll (draw last (frame.diff previous) cursor)).rows y x =
        picture Glyph.wide (glyphs frame y) x := by
  intro y hy x hx
  rw [(draw_rows previous s hwidth last cursor).2.2 y hy x hx]
  have hfits := hfollowed.fits y
  unfold clearedRows shownGlyphs
  cases hdim : frame.dimensionsChanged previous with
  | true =>
    simp only [if_true]
    refine paint_picture wide_blank hfits ?_ ?_ ?_ x hx
    · intro x _ hwide
      rw [wide_blank] at hwide
      cases hwide
    · intro _ _ _
      rfl
    · intro x _
      rw [picture_blank]
  | false =>
    obtain ⟨shown, rfl, hw, hh⟩ := dimensionsChanged_false hdim
    obtain ⟨hfollowed', hrows⟩ := hshown shown rfl (hw.trans hwidth.symm) (hh.trans hheight.symm)
    simp only [Bool.false_eq_true, if_false, Option.elim_some]
    refine paint_picture wide_blank hfits ?_ ?_ ?_ x hx
    · rw [← hw]
      exact hfollowed'.fits y
    · intro x _ hwide
      obtain ⟨cell, hget, hcell⟩ := wide_get hwide
      exact glyphs_get (hover shown rfl hw hh x y cell hget hcell)
    · intro x hx
      exact hrows y (by omega) x (by omega)

theorem ShowsFrame.of_picture {s : Screen} (hfollowed : WideFollowed frame)
    (h : ∀ y < frame.height, ∀ x < frame.width,
      s.rows y x = picture Glyph.wide (glyphs frame y) x) : ShowsFrame s frame := by
  constructor
  · exact h
  · intro x y cell hget hwide
    obtain ⟨hx, hy⟩ := Grid.get_bound hget
    have hnext := hfollowed x y cell hget hwide
    have hx' := (Grid.get_bound hnext).1
    have hglyph := glyphs_get hget
    have hwide' : Glyph.wide (glyphs frame y x) = true := by
      rw [hglyph]
      exact wide_glyphOf.mpr hwide
    refine ⟨?_, hx', ?_⟩
    · rw [h y hy x hx]
      cases x with
      | zero => rw [picture, solo, if_pos hwide', hglyph]
      | succ x =>
        -- the cell in front is not wide: behind a wide one there is a blank
        have hfront : Glyph.wide (glyphs frame y x) ≠ true := by
          intro hfront
          obtain ⟨front, hgetFront, hwideFront⟩ := wide_get hfront
          have hblank := hfollowed x y front hgetFront hwideFront
          rw [glyphs_get hblank] at hwide'
          exact absurd hwide' (by decide)
        rw [picture, if_neg hfront, solo, if_pos hwide', hglyph]
    · rw [h y hy (x + 1) hx', picture, if_pos hwide', hglyph]

/-! ### Runs -/

/-- What the application takes for shown is shown. -/
def Remembers (d : Display) : Prop :=
  ∀ shown ∈ d.previous, WideFollowed shown ∧ d.screen.width = shown.width ∧
    d.screen.height = shown.height ∧ ∀ y < shown.height, ∀ x < shown.width,
      d.screen.rows y x = picture Glyph.wide (glyphs shown y) x

theorem Remembers.hasShown {d : Display} {screen : Screen} (h : Remembers d)
    (hsized : Sized frame d.screen screen) : HasShown screen d.previous := by
  intro shown hprevious hw hh
  obtain ⟨hfollowed, hwidth, hheight, hrows⟩ := h shown hprevious
  have hkept := hsized.kept (hwidth.trans (hw.trans hsized.width))
    (hheight.trans (hh.trans hsized.height))
  rw [hkept]
  exact ⟨hfollowed, hrows⟩

/-- **A redraw** that spares the halves draws its frame, and is remembered. -/
theorem redraw_shows {d : Display} {screen : Screen} (h : Remembers d)
    (hsized : Sized frame d.screen screen) (hfollowed : WideFollowed frame)
    (hover : WideOverBlank d.previous frame) (cursor : Option (Nat × Nat)) :
    let after := screen.obeyAll (draw d.cursorPosition (frame.diff d.previous) cursor)
    ShowsFrame after frame ∧ SameAsCleared after frame ∧
      after.width = frame.width ∧ after.height = frame.height := by
  have hrows := draw_picture hsized.width hsized.height hfollowed hover (h.hasShown hsized)
    d.cursorPosition cursor
  obtain ⟨hw, hh, -⟩ := draw_rows d.previous screen hsized.width
    d.cursorPosition cursor
  refine ⟨.of_picture hfollowed hrows, ?_, hw.trans hsized.width, hh.trans hsized.height⟩
  intro other last cursor' hwidth hheight y hy x hx
  have hcleared : ∀ y < frame.height, ∀ x < frame.width,
      (other.obeyAll (draw last (frame.diff none) cursor')).rows y x =
        picture Glyph.wide (glyphs frame y) x := by
    apply draw_picture hwidth hheight hfollowed
    · intro shown hnone
      cases hnone
    · intro shown hnone
      cases hnone
  rw [hrows y hy x hx, hcleared y hy x hx]

theorem remembers_step {d d' : Display} {label : DisplayStep} (hstep : Displays d label d')
    (hspares : SparesHalves ⟨d, label, d'⟩) (h : Remembers d) : Remembers d' := by
  cases hstep with
  | @redraw frame screen cursor built sized =>
    obtain ⟨hfollowed, hover⟩ := hspares frame cursor rfl
    obtain ⟨hshows, -, hwidth, hheight⟩ := redraw_shows h sized hfollowed hover cursor
    intro shown hshown
    obtain rfl := Option.some_inj.mp hshown
    exact ⟨hfollowed, hwidth, hheight, hshows.cells⟩
  | lost screen cursorPosition =>
    intro shown hshown
    cases hshown

/-- **The drawn screen equals the frame.**  In a run of redraws that spare the second
    cells of wide scalars, the screen behind each redraw shows its frame. -/
theorem screen_shows {past : List (Transition Display DisplayStep)} {screen : Screen}
    {d : Display} (hrun : Execution Displays { screen } past d)
    (hspares : ∀ t ∈ past, SparesHalves t) : ∀ t ∈ past, DrawnAsFrame t := by
  have hstart : Remembers { screen } := by
    intro shown hshown
    cases hshown
  have hsteps := hrun.always hstart
    (fun d label d' hstep hspares h => remembers_step hstep hspares h) hspares
  rintro ⟨before, label, after⟩ hpast frame cursor rfl
  obtain ⟨hremembers, hstep⟩ := hsteps _ hpast
  have hmade : Displays before (.redraw frame cursor) after := hstep
  obtain ⟨hfollowed, hover⟩ := hspares _ hpast frame cursor rfl
  cases hmade with
  | redraw _ built sized =>
    obtain ⟨hshows, hsame, -, -⟩ := redraw_shows hremembers sized hfollowed hover cursor
    exact ⟨hshows, hsame⟩

end

/-! ### Two runs -/

instance (text : String) : Decidable (Printable text) :=
  decidable_of_iff (text.toList.all (fun c =>
    decide (¬ (c.toNat ≤ 0x1f ∨ (0x7f ≤ c.toNat ∧ c.toNat ≤ 0x9f)))) = true)
    (by simp only [List.all_eq_true, decide_eq_true_eq, Printable])

/-- A frame of one row and two columns. -/
def twoCells (text : String) : Grid := putText (.new 2 1 (by decide)) 0 0 2 text {}

theorem twoCells_built {text : String} (h : Printable text) : Built (twoCells text) :=
  .text 0 0 2 text {} (.new 2 1 (by decide)) h

theorem twoCells_size (text : String) :
    (twoCells text).width = 2 ∧ (twoCells text).height = 1 := by
  have hset : ∀ (g : Grid) (x y : Nat) (cell : Cell),
      (g.set x y cell).width = g.width ∧ (g.set x y cell).height = g.height := by
    intro g x y cell
    unfold Grid.set
    cases g.index x y <;> exact ⟨rfl, rfl⟩
  have hput : ∀ (symbols : List (Char × Style)) (column : Nat) (g : Grid),
      (putSymbols 0 0 2 symbols column g).width = g.width ∧
        (putSymbols 0 0 2 symbols column g).height = g.height := by
    intro symbols
    induction symbols with
    | nil => exact fun _ _ => ⟨rfl, rfl⟩
    | cons symbol rest ih =>
      intro column g
      unfold putSymbols
      dsimp only
      split_ifs <;> simp only [ih, hset, and_self]
  exact hput _ 0 _

/-- A screen of that size. -/
def twoBlanks : Screen := { width := 2, height := 1, rows := fun _ _ => .whole .blank }

/-- A redraw on a terminal of its size. -/
def redrawn (d : Display) (text : String) : Display where
  screen := d.screen.obeyAll (draw d.cursorPosition ((twoCells text).diff d.previous) none)
  previous := some (twoCells text)
  cursorPosition := none

theorem redrawn_step {d : Display} {text : String} (htext : Printable text)
    (hwidth : d.screen.width = 2) (hheight : d.screen.height = 1) :
    Displays d (.redraw (twoCells text) none) (redrawn d text) ∧
      (redrawn d text).screen.width = 2 ∧ (redrawn d text).screen.height = 1 := by
  obtain ⟨hw, hh⟩ := twoCells_size text
  have hsized : Sized (twoCells text) d.screen d.screen :=
    ⟨hwidth.trans hw.symm, hheight.trans hh.symm, fun _ _ => rfl⟩
  obtain ⟨hkeptw, hkepth, -⟩ := draw_rows d.previous d.screen hsized.width d.cursorPosition none
  exact ⟨.redraw none (twoCells_built htext) hsized, hkeptw.trans hwidth, hkepth.trans hheight⟩

/-- Two frames, one drawn after the other. -/
def drawnTwice (first second : String) : List (Transition Display DisplayStep) :=
  [⟨{ screen := twoBlanks }, .redraw (twoCells first) none,
      redrawn { screen := twoBlanks } first⟩,
    ⟨redrawn { screen := twoBlanks } first, .redraw (twoCells second) none,
      redrawn (redrawn { screen := twoBlanks } first) second⟩]

theorem drawnTwice_run {first second : String} (hfirst : Printable first)
    (hsecond : Printable second) : Execution Displays { screen := twoBlanks }
      (drawnTwice first second) (redrawn (redrawn { screen := twoBlanks } first) second) := by
  obtain ⟨hstep, hwidth, hheight⟩ := redrawn_step hfirst
    (rfl : (Display.screen { screen := twoBlanks }).width = 2) rfl
  obtain ⟨hstep', -, -⟩ := redrawn_step hsecond hwidth hheight
  exact (Execution.start.step hstep).step hstep'

/-- The scalar is drawn, then the space in its second cell. -/
theorem screen_torn : ¬ ∀ (past : List (Transition Display DisplayStep)) (d : Display),
    Execution Displays { screen := twoBlanks } past d → ∀ t ∈ past, DrawnAsFrame t := by
  intro hshows
  have hab : Printable "ab" := by decide
  have hwide : Printable "界" := by decide
  have hdrawn := hshows _ _ (drawnTwice_run hab hwide) _
    (List.mem_cons_of_mem _ List.mem_cons_self) _ none rfl
  have hintact := (hdrawn.1.intact 0 0 { symbol := '界' } (by decide +kernel) (by decide)).1
  exact absurd hintact (by decide +kernel)

theorem twoCells_cases {text : String} {x y : Nat} {cell : Cell}
    (h : (twoCells text).get x y = some cell) : y = 0 ∧ (x = 0 ∨ x = 1) := by
  obtain ⟨hx, hy⟩ := Grid.get_bound h
  obtain ⟨hw, hh⟩ := twoCells_size text
  omega

/-- Over a blank the scalar is drawn alone. -/
theorem screen_shows_wide :
    (drawnTwice "a" "界").map (·.label) =
        [.redraw (twoCells "a") none, .redraw (twoCells "界") none] ∧
      ∀ t ∈ drawnTwice "a" "界", DrawnAsFrame t := by
  have ha : Printable "a" := by decide
  have hwide : Printable "界" := by decide
  refine ⟨rfl, screen_shows (drawnTwice_run ha hwide) ?_⟩
  have hnarrow : ∀ x y cell, (twoCells "a").get x y = some cell → charWidth cell.symbol ≠ 2 := by
    intro x y cell hget
    obtain ⟨rfl, rfl | rfl⟩ := twoCells_cases hget
    · obtain rfl : cell = { symbol := 'a' } := Option.some_inj.mp
        (hget.symm.trans (by decide +kernel))
      decide
    · obtain rfl : cell = .blank := Option.some_inj.mp (hget.symm.trans (by decide +kernel))
      decide
  have honly : ∀ x y cell, (twoCells "界").get x y = some cell → charWidth cell.symbol = 2 →
      x = 0 ∧ y = 0 := by
    intro x y cell hget hcell
    obtain ⟨rfl, rfl | rfl⟩ := twoCells_cases hget
    · exact ⟨rfl, rfl⟩
    · obtain rfl : cell = .blank := Option.some_inj.mp (hget.symm.trans (by decide +kernel))
      exact absurd hcell (by decide)
  intro t ht frame cursor hlabel
  rcases List.mem_cons.mp ht with rfl | hlast
  · obtain ⟨rfl, -⟩ := DisplayStep.redraw.inj hlabel
    refine ⟨?_, ?_⟩
    · intro x y cell hget hcell
      exact absurd hcell (hnarrow x y cell hget)
    · intro shown hshown
      cases hshown
  · obtain rfl := List.mem_singleton.mp hlast
    obtain ⟨rfl, -⟩ := DisplayStep.redraw.inj hlabel
    refine ⟨?_, ?_⟩
    · intro x y cell hget hcell
      obtain ⟨rfl, rfl⟩ := honly x y cell hget hcell
      decide +kernel
    · intro shown hshown _ _ x y cell hget hcell
      obtain rfl := Option.some_inj.mp hshown
      obtain ⟨rfl, rfl⟩ := honly x y cell hget hcell
      decide +kernel

end Tea.Contract
