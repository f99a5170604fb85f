/-
  Tea/Render/Table.lean
  =====================
  **Markdown tables** (`render_table` and what it calls, in `render.rs`): which lines make a
  table, their cells, and the table drawn with borders.
-/
import Tea.Render.Wrap
import Tea.Render.Theme

namespace Tea.Render

open Tea.Tui

/-! ### Cells -/

/-- `str::trim` -/
def trim (text : List Char) : List Char := trimEnd (trimStart text)

/-- `str::trim_matches` of a character. -/
def trimMatches (c : Char) (text : List Char) : List Char :=
  ((text.dropWhile (· = c)).reverse.dropWhile (· = c)).reverse

/-- `split_table_row` -/
def splitTableRow (row : List Char) : List (List Char) :=
  ((trimMatches '|' (trim row)).splitOn '|').map fun cell => trimMatches ':' (trim cell)

/-- `is_table_header` -/
def isTableHeader : Option (List Char) → Option (List Char) → Bool
  | some header, some separator =>
      decide ('|' ∈ header) && decide ('|' ∈ separator) &&
        (splitTableRow separator).all fun cell =>
          cell ≠ [] && (cell.filter (· ≠ ':')).all (· = '-')
  | _, _ => false

/-- `is_separator_table_row` -/
def isSeparatorTableRow (row : List Char) : Bool :=
  (splitTableRow row).all fun cell => cell ≠ [] && cell.all (· = '-')

/-- The table in front of the lines, and the lines behind it: the branch of `markdown_lines`
    outside of a code block. -/
def takeTable (lines : List (List Char)) : Option (List (List Char) × List (List Char)) :=
  if isTableHeader lines[0]? lines[1]? then
    some (lines.take 2 ++ (lines.drop 2).takeWhile ('|' ∈ ·), (lines.drop 2).dropWhile ('|' ∈ ·))
  else none

/-! ### Columns -/

/-- `max` of an iterator, with 0 for none. -/
def largest (values : List Nat) : Nat := values.foldr max 0

/-- `sum` of an iterator. -/
def total : List Nat → Nat
  | [] => 0
  | value :: rest => value + total rest

/-- `max_by_key` of the entries: the last one of those with the largest value. -/
def maxEntry : List Nat → Option (Nat × Nat)
  | [] => none
  | value :: rest =>
      match maxEntry rest with
      | some (index, best) => if best < value then some (0, value) else some (index + 1, best)
      | none => some (0, value)

/-- The rows of the cells that are drawn. -/
def tableCells (rows : List (List Char)) : List (List (List Char)) :=
  (rows.filter fun row => !isSeparatorTableRow row).map splitTableRow

def columnCount (cells : List (List (List Char))) : Nat := largest (cells.map List.length)

/-- The width of the widest cell of a column. -/
def measuredWidth (cells : List (List (List Char))) (column : Nat) : Nat :=
  max (largest (cells.map fun row => row[column]?.elim 0 displayWidth)) 1

def measuredWidths (cells : List (List (List Char))) : List Nat :=
  (List.range (columnCount cells)).map (measuredWidth cells)

theorem maxEntry_spec {values : List Nat} {index best : Nat}
    (h : maxEntry values = some (index, best)) :
    values[index]? = some best ∧ ∀ value ∈ values, value ≤ best := by
  induction values generalizing index best with
  | nil => cases h
  | cons value rest ih =>
    rw [maxEntry] at h
    cases hrest : maxEntry rest with
    | none =>
      rw [hrest] at h
      cases h
      have hnil : rest = [] := by
        cases rest with
        | nil => rfl
        | cons next more =>
          rw [maxEntry] at hrest
          split at hrest
          · split at hrest <;> cases hrest
          · cases hrest
      simp [hnil]
    | some found =>
      obtain ⟨place, found⟩ := found
      rw [hrest] at h
      obtain ⟨hplace, hmost⟩ := ih hrest
      by_cases hlt : found < value
      · simp only [if_pos hlt, Option.some.injEq, Prod.mk.injEq] at h
        obtain ⟨rfl, rfl⟩ := h
        refine ⟨rfl, ?_⟩
        intro other hother
        rcases List.mem_cons.mp hother with rfl | hother
        · exact Nat.le_refl _
        · exact Nat.le_of_lt (Nat.lt_of_le_of_lt (hmost other hother) hlt)
      · simp only [if_neg hlt, Option.some.injEq, Prod.mk.injEq] at h
        obtain ⟨rfl, rfl⟩ := h
        refine ⟨by rw [List.getElem?_cons_succ, hplace], ?_⟩
        intro other hother
        rcases List.mem_cons.mp hother with rfl | hother
        · omega
        · exact hmost other hother

theorem maxEntry_isSome {values : List Nat} (hne : values ≠ []) :
    ∃ index best, maxEntry values = some (index, best) := by
  cases values with
  | nil => exact absurd rfl hne
  | cons value rest =>
    rw [maxEntry]
    split
    · split <;> exact ⟨_, _, rfl⟩
    · exact ⟨_, _, rfl⟩

/-- One cell less for an entry is one less for the sum. -/
theorem total_set {values : List Nat} {index value : Nat} (h : values[index]? = some value)
    (hpos : 0 < value) : total (values.set index (value - 1)) + 1 = total values := by
  induction values generalizing index with
  | nil => cases h
  | cons first rest ih =>
    cases index with
    | zero =>
      rw [List.getElem?_cons_zero, Option.some.injEq] at h
      rw [List.set_cons_zero, total, total, h]
      omega
    | succ index =>
      rw [List.getElem?_cons_succ] at h
      rw [List.set_cons_succ, total, total, ← ih h]
      omega

/-- The loop that takes a cell from the widest column while the columns are too wide. -/
def shrink (budget : Nat) (widths : List Nat) : List Nat :=
  if budget < total widths then
    match _h : maxEntry widths with
    | some (index, value) =>
        if value ≤ 3 then widths else shrink budget (widths.set index (value - 1))
    | none => widths
  else widths
termination_by total widths
decreasing_by
  have hset := total_set (maxEntry_spec _h).1 (by omega)
  omega

/-- What the columns have together: `max_width` less the borders. -/
def columnBudget (columns width : Nat) : Nat := max width (columns + 3) - (columns + 1)

def columnWidths (cells : List (List (List Char))) (width : Nat) : List Nat :=
  shrink (columnBudget (columnCount cells) width) (measuredWidths cells)

theorem length_shrink (budget : Nat) (widths : List Nat) :
    (shrink budget widths).length = widths.length := by
  fun_induction shrink budget widths with
  | case1 => rfl
  | case2 widths hlt index value hentry hlarge ih => rw [ih, List.length_set]
  | case3 => rfl
  | case4 => rfl

theorem shrink_of_le {budget : Nat} {widths : List Nat} (h : total widths ≤ budget) :
    shrink budget widths = widths := by
  rw [shrink, if_neg (Nat.not_lt.mpr h)]

theorem total_le {values : List Nat} {most : Nat} (h : ∀ value ∈ values, value ≤ most) :
    total values ≤ values.length * most := by
  induction values with
  | nil => exact Nat.zero_le _
  | cons value rest ih =>
    have hfirst := h value List.mem_cons_self
    have hrest := ih fun other hother => h other (List.mem_cons_of_mem _ hother)
    rw [total, List.length_cons, Nat.succ_mul]
    omega

/-- Columns that are too wide are shrunk to the budget, when it leaves each three cells. -/
theorem total_shrink {budget : Nat} {widths : List Nat} (hwide : budget < total widths)
    (hroom : widths.length * 3 ≤ budget) : total (shrink budget widths) = budget := by
  fun_induction shrink budget widths with
  | case1 widths hlt index value hentry hsmall =>
    exfalso
    have hall := total_le fun other hother =>
      Nat.le_trans ((maxEntry_spec hentry).2 other hother) hsmall
    omega
  | case2 widths hlt index value hentry hlarge ih =>
    have hset := total_set (maxEntry_spec hentry).1 (by omega)
    rcases Nat.lt_or_ge budget (total (widths.set index (value - 1))) with hstill | hdone
    · exact ih hstill (by rwa [List.length_set])
    · rw [shrink_of_le hdone]
      omega
  | case3 widths hlt hnone =>
    have hne : widths ≠ [] := by
      rintro rfl
      exact absurd hlt (Nat.not_lt_zero _)
    obtain ⟨index, best, hentry⟩ := maxEntry_isSome hne
    rw [hentry] at hnone
    cases hnone
  | case4 widths hle => exact absurd hwide hle

/-! ### Lines -/

/-- `truncate_display`, behind `used` cells. -/
def truncateFrom (width : Nat) : Nat → List Char → List Char
  | _, [] => []
  | used, symbol :: rest =>
      if width < used + charWidth symbol then []
      else symbol :: truncateFrom width (used + charWidth symbol) rest

def truncateDisplay (text : List Char) (width : Nat) : List Char := truncateFrom width 0 text

/-- `pad_display` -/
def padDisplay (text : List Char) (width : Nat) : List Char :=
  truncateDisplay text width ++
    List.replicate (width - displayWidth (truncateDisplay text width)) ' '

/-- The closure `border`. -/
def border (widths : List Nat) (left middle right : Char) : List Char :=
  left :: [middle].intercalate (widths.map fun width => List.replicate (width + 2) '─') ++ [right]

/-- A cell with a space on both sides. -/
def paddedCell (row : List (List Char)) (column width : Nat) : List Char :=
  ' ' :: padDisplay (row[column]?.getD []) width ++ [' ']

/-- The text of a row. -/
def rowText (widths : List Nat) (row : List (List Char)) : List Char :=
  '│' :: ['│'].intercalate (widths.mapIdx fun column width => paddedCell row column width) ++ ['│']

def ruleStyle : Style := ({} : Theme).style .accent

/-- The line of a row, and behind the first one the rule under the header. -/
def rowLines (widths : List Nat) (rowIndex : Nat) (row : List (List Char)) : List RenderLine :=
  plainLine (rowText widths row) (({} : Theme).style .plain) ::
    if rowIndex = 0 then [plainLine (border widths '├' '┼' '┤') ruleStyle] else []

/-- `render_table` -/
def renderTable (rows : List (List Char)) (width : Nat) : List RenderLine :=
  let cells := tableCells rows
  if columnCount cells = 0 then []
  else
    let widths := columnWidths cells width
    plainLine (border widths '┌' '┬' '┐') ruleStyle ::
      (cells.mapIdx (rowLines widths)).flatten ++
      [plainLine (border widths '└' '┴' '┘') ruleStyle]

theorem displayWidth_truncateFrom {width used : Nat} (hused : used ≤ width) (text : List Char) :
    used + displayWidth (truncateFrom width used text) ≤ width := by
  induction text generalizing used with
  | nil => exact hused
  | cons symbol rest ih =>
    rw [truncateFrom]
    by_cases hfull : width < used + charWidth symbol
    · rw [if_pos hfull]
      exact hused
    · rw [if_neg hfull, displayWidth_cons]
      have hrest := ih (Nat.not_lt.mp hfull)
      omega

theorem truncateFrom_of_fits {width used : Nat} {text : List Char}
    (h : used + displayWidth text ≤ width) : truncateFrom width used text = text := by
  induction text generalizing used with
  | nil => rfl
  | cons symbol rest ih =>
    rw [displayWidth_cons] at h
    rw [truncateFrom, if_neg (by omega), ih (by omega)]

theorem displayWidth_replicate {c : Char} (hc : charWidth c = 1) (count : Nat) :
    displayWidth (List.replicate count c) = count := by
  induction count with
  | zero => rfl
  | succ count ih => rw [List.replicate_succ, displayWidth_cons, ih, hc, Nat.add_comm]

theorem charWidth_space : charWidth ' ' = 1 := by decide

/-- A padded text is as wide as it is asked for. -/
theorem displayWidth_padDisplay (text : List Char) (width : Nat) :
    displayWidth (padDisplay text width) = width := by
  have hle := displayWidth_truncateFrom (Nat.zero_le width) text
  rw [padDisplay, displayWidth_append, displayWidth_replicate charWidth_space, truncateDisplay]
  omega

/-- A text that fits is padded as it is. -/
theorem padDisplay_of_fits {text : List Char} {width : Nat} (h : displayWidth text ≤ width) :
    padDisplay text width = text ++ List.replicate (width - displayWidth text) ' ' := by
  rw [padDisplay, truncateDisplay, truncateFrom_of_fits (by omega)]

theorem displayWidth_paddedCell (row : List (List Char)) (column width : Nat) :
    displayWidth (paddedCell row column width) = width + 2 := by
  rw [paddedCell, List.cons_append, displayWidth_cons, displayWidth_append, displayWidth_cons,
    displayWidth_nil, displayWidth_padDisplay, charWidth_space]
  omega

/-! ### Joined parts -/

theorem displayWidth_intercalate {sep : Char} (hsep : charWidth sep = 1)
    (parts : List (List Char)) (hne : parts ≠ []) :
    displayWidth ([sep].intercalate parts) + 1 =
      total (parts.map fun part => displayWidth part + 1) := by
  induction parts with
  | nil => exact absurd rfl hne
  | cons part parts ih =>
    cases parts with
    | nil => simp [total]
    | cons next parts =>
      have hrest := ih (List.cons_ne_nil _ _)
      rw [List.intercalate_cons_cons, displayWidth_append, displayWidth_append, List.map_cons,
        total, ← hrest]
      simp only [displayWidth_cons, displayWidth_nil, hsep]
      omega

theorem total_map_add (values : List Nat) (more : Nat) :
    total (values.map (· + more)) = total values + more * values.length := by
  induction values with
  | nil => rfl
  | cons value rest ih =>
    rw [List.map_cons, total, total, ih, List.length_cons, Nat.mul_succ]
    omega

/-- The width of every line of a table. -/
def lineWidth (widths : List Nat) : Nat := total widths + 3 * widths.length + 1

theorem displayWidth_border {widths : List Nat} (hne : widths ≠ []) {left middle right : Char}
    (hleft : charWidth left = 1) (hmiddle : charWidth middle = 1) (hright : charWidth right = 1) :
    displayWidth (border widths left middle right) = lineWidth widths := by
  have hrule : charWidth '─' = 1 := by decide
  have hjoined := displayWidth_intercalate hmiddle
    (widths.map fun width => List.replicate (width + 2) '─') (by simpa using hne)
  have hparts : (widths.map fun width => List.replicate (width + 2) '─').map
      (fun part => displayWidth part + 1) = widths.map (· + 3) := by
    rw [List.map_map]
    refine List.map_congr_left ?_
    intro width _
    simp [displayWidth_replicate hrule]
  rw [hparts, total_map_add] at hjoined
  rw [border, lineWidth, List.cons_append, displayWidth_cons, displayWidth_append,
    displayWidth_cons, displayWidth_nil, hleft, hright]
  omega

/-- The cells of a row are as wide as the columns. -/
theorem map_cells (widths : List Nat) (row : List (List Char)) :
    (widths.mapIdx fun column width => paddedCell row column width).map
      (fun part => displayWidth part + 1) = widths.map (· + 3) := by
  refine List.ext_getElem? ?_
  intro column
  simp only [List.getElem?_map, List.getElem?_mapIdx, Option.map_map]
  cases widths[column]? with
  | none => rfl
  | some width => simp [displayWidth_paddedCell]

theorem charWidth_bar : charWidth '│' = 1 := by decide

theorem displayWidth_rowText {widths : List Nat} (hne : widths ≠ []) (row : List (List Char)) :
    displayWidth (rowText widths row) = lineWidth widths := by
  have hjoined := displayWidth_intercalate charWidth_bar
    (widths.mapIdx fun column width => paddedCell row column width) (by simpa using hne)
  rw [map_cells, total_map_add] at hjoined
  rw [rowText, lineWidth, List.cons_append, displayWidth_cons, displayWidth_append,
    displayWidth_cons, displayWidth_nil, charWidth_bar]
  omega

/-- A text stands between two bars of a line, behind so many cells. -/
def ShownAt (line : List Char) (offset : Nat) (text : List Char) : Prop :=
  ∃ before after, line = before ++ '│' :: ' ' :: text ++ ' ' :: '│' :: after ∧
    displayWidth before = offset

/-- A part of a joined line stands between two bars. -/
theorem joined_split {parts : List (List Char)} {part : List Char} {column : Nat}
    (h : parts[column]? = some part) :
    ∃ before after,
      '│' :: ['│'].intercalate parts ++ ['│'] = before ++ '│' :: part ++ '│' :: after ∧
        displayWidth before =
          total ((parts.take column).map fun part => displayWidth part + 1) := by
  induction parts generalizing column with
  | nil => cases h
  | cons first parts ih =>
    cases parts with
    | nil =>
      cases column with
      | zero =>
        cases h
        exact ⟨[], [], by simp, rfl⟩
      | succ column => cases h
    | cons next parts =>
      cases column with
      | zero =>
        cases h
        refine ⟨[], ['│'].intercalate (next :: parts) ++ ['│'], ?_, rfl⟩
        rw [List.intercalate_cons_cons]
        simp
      | succ column =>
        rw [List.getElem?_cons_succ] at h
        obtain ⟨before, after, hline, hwidth⟩ := ih h
        refine ⟨'│' :: first ++ before, after, ?_, ?_⟩
        · rw [List.cons_append] at hline
          rw [List.intercalate_cons_cons]
          simp only [List.cons_append, List.append_assoc, List.nil_append] at hline ⊢
          rw [hline]
        · rw [List.take_succ_cons, List.map_cons, total, ← hwidth, List.cons_append,
            displayWidth_cons, displayWidth_append, charWidth_bar]
          omega

/-- How far from the left a column begins. -/
def columnOffset (widths : List Nat) (column : Nat) : Nat :=
  total ((widths.take column).map (· + 3))

theorem shownAt_rowText {widths : List Nat} {column width : Nat}
    (h : widths[column]? = some width) (row : List (List Char)) :
    ShownAt (rowText widths row) (columnOffset widths column)
      (padDisplay (row[column]?.getD []) width) := by
  have hpart : (widths.mapIdx fun column width => paddedCell row column width)[column]? =
      some (paddedCell row column width) := by
    rw [List.getElem?_mapIdx, h, Option.map_some]
  obtain ⟨before, after, hline, hwidth⟩ := joined_split hpart
  refine ⟨before, after, ?_, ?_⟩
  · rw [rowText, hline, paddedCell]
    simp
  · rw [hwidth, columnOffset, List.map_take, map_cells, List.map_take]

/-- A line is cut in one way behind so many cells. -/
theorem split_unique {before before' after after' : List Char} {c c' : Char}
    (h : before ++ c :: after = before' ++ c' :: after')
    (hwidth : displayWidth before = displayWidth before') (hc : 0 < charWidth c)
    (hc' : 0 < charWidth c') : before = before' ∧ after = after' := by
  induction before generalizing before' with
  | nil =>
    cases before' with
    | nil => exact ⟨rfl, (List.cons.inj h).2⟩
    | cons first rest =>
      rw [List.nil_append, List.cons_append] at h
      rw [(List.cons.inj h).1] at hc
      rw [displayWidth_nil, displayWidth_cons] at hwidth
      omega
  | cons first before ih =>
    cases before' with
    | nil =>
      rw [List.nil_append, List.cons_append] at h
      rw [← (List.cons.inj h).1] at hc'
      rw [displayWidth_nil, displayWidth_cons] at hwidth
      omega
    | cons first' before' =>
      rw [List.cons_append, List.cons_append] at h
      obtain ⟨hfirst, hrest⟩ := List.cons.inj h
      subst hfirst
      rw [displayWidth_cons, displayWidth_cons, Nat.add_left_cancel_iff] at hwidth
      obtain ⟨rfl, rfl⟩ := ih hrest hwidth
      exact ⟨rfl, rfl⟩

/-- Texts of one width at one place of a line are the same. -/
theorem ShownAt.unique {line text text' : List Char} {offset : Nat} (h : ShownAt line offset text)
    (h' : ShownAt line offset text') (hwidth : displayWidth text = displayWidth text') :
    text = text' := by
  obtain ⟨before, after, rfl, hbefore⟩ := h
  obtain ⟨before', after', hline, hbefore'⟩ := h'
  have hbar : 0 < charWidth '│' := by decide
  have hspace : 0 < charWidth ' ' := by decide
  simp only [List.append_assoc, List.cons_append] at hline
  obtain ⟨rfl, hrest⟩ :=
    split_unique hline (hbefore.trans hbefore'.symm) hbar hbar
  rw [List.cons.injEq] at hrest
  exact (split_unique hrest.2 hwidth hspace hspace).1

end Tea.Render
