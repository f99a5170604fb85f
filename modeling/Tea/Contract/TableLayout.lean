/-
  Tea/Contract/TableLayout.lean
  =============================
  **Markdown tables on the screen**: a line for each row and three rules, all of one width that
  the terminal has, and in each column the texts of its cells.

  The cells of a table are read here as Markdown has them (`markdownCells`).  The renderer
  differs in four ways, and a table is drawn as it should be just when none of them shows
  (`laidOut_iff`): columns are given up to two cells too much each, as the spaces around the
  texts are not counted; a row of dashes is left out; colons around the text of any cell are
  taken off; and empty cells at the ends of a row are lost when nothing is written in them.
-/
import Tea.Render.Table

namespace Tea.Contract

open Tea.Render

/-! ### Tables -/

/-- A character taken off the front and the back, once each. -/
def stripEnds (c : Char) (text : List Char) : List Char :=
  let text := if text.head? = some c then text.tail else text
  if text.getLast? = some c then text.dropLast else text

/-- The texts of the cells of a row; the bars around it may be left out. -/
def markdownCells (line : List Char) : List (List Char) :=
  ((stripEnds '|' (trim line)).splitOn '|').map trim

/-- A cell of the line under the header: dashes, with a colon at either end for the
    alignment. -/
def isDelimiterCell (cell : List Char) : Bool :=
  stripEnds ':' cell ≠ [] && (stripEnds ':' cell).all (· = '-')

/-- The lines of a table. -/
structure MarkdownTable where
  header : List Char
  separator : List Char
  data : List (List Char)
  header_bar : '|' ∈ header
  separator_bar : '|' ∈ separator
  separator_cells : ∀ cell ∈ markdownCells separator, isDelimiterCell cell = true
  data_bars : ∀ row ∈ data, '|' ∈ row

namespace MarkdownTable

def lines (table : MarkdownTable) : List (List Char) :=
  table.header :: table.separator :: table.data

/-- The rows with texts: the header and the data. -/
def rows (table : MarkdownTable) : List (List Char) := table.header :: table.data

/-- The number of columns: the cells of the longest row. -/
def columns (table : MarkdownTable) : Nat :=
  largest (table.rows.map fun row => (markdownCells row).length)

end MarkdownTable

/-- The line of a row: the header lies between two rules. -/
def rowLine (index : Nat) : Nat := if index = 0 then 1 else index + 2

/-- A table as it should be drawn. -/
structure LaidOut (table : MarkdownTable) (width : Nat) (drawn : List (List Char))
    (widths : List Nat) : Prop where
  columns : widths.length = table.columns
  ruled : drawn.head? = some (border widths '┌' '┬' '┐')
  count : drawn.length = table.data.length + 4
  even : ∃ common ≤ width, ∀ line ∈ drawn, displayWidth line = common
  shown : ∀ index row, table.rows[index]? = some row →
    ∀ column text, (markdownCells row)[column]? = some text →
      ∀ room, widths[column]? = some room → displayWidth text ≤ room →
        ∃ line, drawn[rowLine index]? = some line ∧
          ShownAt line (columnOffset widths column)
            (text ++ List.replicate (room - displayWidth text) ' ')

/-- The lines that are drawn for a table. -/
def drawnTable (table : MarkdownTable) (width : Nat) : List (List Char) :=
  (renderTable table.lines width).map fun line => line.text.toList

/-! ### When it is -/

/-- The cells of the rows as the renderer reads them. -/
def readCells (table : MarkdownTable) : List (List (List Char)) := table.rows.map splitTableRow

/-- What a table has to meet to be drawn as it should be. -/
structure Drawable (table : MarkdownTable) (width : Nat) : Prop where
  room : lineWidth (measuredWidths (readCells table)) ≤ width
  dashes : ∀ row ∈ table.rows, isSeparatorTableRow row = false
  columns : columnCount (readCells table) = table.columns
  texts : ∀ row ∈ table.rows, ∀ column text, (markdownCells row)[column]? = some text →
    displayWidth text ≤ measuredWidth (readCells table) column →
      ∃ spaces, (splitTableRow row)[column]?.getD [] = text ++ List.replicate spaces ' '

/-! ### Rows as they are read -/

theorem stripEnds_split (c : Char) (text : List Char) :
    ∃ front back : List Char, text = front ++ stripEnds c text ++ back ∧
      (∀ item ∈ front, item = c) ∧ ∀ item ∈ back, item = c := by
  have hfront : ∃ front : List Char,
      text = front ++ (if text.head? = some c then text.tail else text) ∧
        ∀ item ∈ front, item = c := by
    by_cases hhead : text.head? = some c
    · rw [if_pos hhead]
      exact ⟨[c], (List.cons_head?_tail hhead).symm, by simp⟩
    · rw [if_neg hhead]
      exact ⟨[], rfl, by simp⟩
  obtain ⟨front, htext, hfront⟩ := hfront
  rw [stripEnds]
  generalize (if text.head? = some c then text.tail else text) = middle at htext ⊢
  by_cases hlast : middle.getLast? = some c
  · refine ⟨front, [c], ?_, hfront, by simp⟩
    rw [htext]
    simp only [if_pos hlast]
    rw [List.append_assoc, List.dropLast_append_getLast? c hlast]
  · refine ⟨front, [], ?_, hfront, by simp⟩
    rw [htext]
    simp only [if_neg hlast, List.append_nil]

/-- A text that neither begins nor ends with the character is not taken apart. -/
theorem trimMatches_of_ends {c : Char} {front text back : List Char}
    (hfront : ∀ item ∈ front, item = c) (hback : ∀ item ∈ back, item = c) (hne : text ≠ [])
    (hhead : text.head? ≠ some c) (hlast : text.getLast? ≠ some c) :
    trimMatches c (front ++ text ++ back) = text := by
  have hdrop : ∀ ends more : List Char, (∀ item ∈ ends, item = c) → more.head? ≠ some c →
      (ends ++ more).dropWhile (· = c) = more := by
    intro ends more hends hmore
    rw [List.dropWhile_append_of_pos (by simpa using hends)]
    cases more with
    | nil => rfl
    | cons first rest =>
      rw [List.dropWhile_cons_of_neg]
      simpa using hmore
  have hmiddle : (text ++ back).head? ≠ some c := by
    rwa [List.head?_append_of_ne_nil text hne]
  rw [trimMatches, List.append_assoc, hdrop front _ hfront hmiddle, List.reverse_append,
    hdrop back.reverse _ (by simpa using hback) (by rwa [List.head?_reverse]),
    List.reverse_reverse]

theorem trimMatches_eq_stripEnds {c : Char} {text : List Char} (hne : stripEnds c text ≠ [])
    (hhead : (stripEnds c text).head? ≠ some c) (hlast : (stripEnds c text).getLast? ≠ some c) :
    trimMatches c text = stripEnds c text := by
  obtain ⟨front, back, htext, hfront, hback⟩ := stripEnds_split c text
  have htrim := trimMatches_of_ends hfront hback hne hhead hlast
  rwa [← htext] at htrim

/-- When no cell is empty, the renderer reads the texts, less the colons around them. -/
theorem splitTableRow_of_filled {row : List Char} (h : ∀ cell ∈ markdownCells row, cell ≠ []) :
    splitTableRow row = (markdownCells row).map (trimMatches ':') := by
  have hempty : [] ∉ (stripEnds '|' (trim row)).splitOn '|' := by
    intro hmem
    exact h [] (List.mem_map.mpr ⟨[], hmem, rfl⟩) rfl
  have hbars : trimMatches '|' (trim row) = stripEnds '|' (trim row) := by
    refine trimMatches_eq_stripEnds ?_ ?_ ?_
    · intro hnil
      rw [hnil, List.splitOn_nil] at hempty
      exact hempty List.mem_cons_self
    · intro hhead
      rw [← List.cons_head?_tail hhead, List.splitOn_cons_eq_if_modifyHead, if_pos (by simp)]
        at hempty
      exact hempty List.mem_cons_self
    · intro hlast
      rw [← List.dropLast_append_getLast? '|' hlast, List.splitOn_append_cons_self,
        List.splitOn_nil] at hempty
      exact hempty (List.mem_append_right _ List.mem_cons_self)
  rw [splitTableRow, hbars, markdownCells, List.map_map]
  rfl

theorem trimMatches_delimiter {cell : List Char} (h : isDelimiterCell cell = true) :
    trimMatches ':' cell ≠ [] ∧ (trimMatches ':' cell).all (· = '-') = true := by
  rw [isDelimiterCell, Bool.and_eq_true, decide_eq_true_eq] at h
  obtain ⟨hne, hdashes⟩ := h
  have hnone : ':' ∉ stripEnds ':' cell := by
    intro hmem
    have hdash := List.all_eq_true.mp hdashes ':' hmem
    exact absurd hdash (by decide)
  have htrim : trimMatches ':' cell = stripEnds ':' cell := by
    refine trimMatches_eq_stripEnds hne ?_ ?_
    · intro hhead
      exact hnone (List.mem_of_head? hhead)
    · intro hlast
      exact hnone (List.mem_of_getLast? hlast)
  rw [htrim]
  exact ⟨hne, hdashes⟩

namespace MarkdownTable

variable (table : MarkdownTable)

theorem splitTableRow_separator : ∀ cell ∈ splitTableRow table.separator,
    cell ≠ [] ∧ cell.all (· = '-') = true := by
  have hfilled : ∀ cell ∈ markdownCells table.separator, cell ≠ [] := by
    rintro cell hcell rfl
    exact absurd (table.separator_cells [] hcell) (by decide)
  intro cell hcell
  rw [splitTableRow_of_filled hfilled, List.mem_map] at hcell
  obtain ⟨text, htext, rfl⟩ := hcell
  exact trimMatches_delimiter (table.separator_cells text htext)

theorem isSeparatorTableRow_separator : isSeparatorTableRow table.separator = true := by
  rw [isSeparatorTableRow, List.all_eq_true]
  intro cell hcell
  obtain ⟨hne, hdashes⟩ := table.splitTableRow_separator cell hcell
  rw [Bool.and_eq_true, decide_eq_true_eq]
  exact ⟨hne, hdashes⟩

theorem isTableHeader_header : isTableHeader (some table.header) (some table.separator) = true := by
  rw [isTableHeader, Bool.and_eq_true, Bool.and_eq_true, decide_eq_true_eq, decide_eq_true_eq,
    List.all_eq_true]
  refine ⟨⟨table.header_bar, table.separator_bar⟩, ?_⟩
  intro cell hcell
  obtain ⟨hne, hdashes⟩ := table.splitTableRow_separator cell hcell
  rw [Bool.and_eq_true, decide_eq_true_eq, List.all_eq_true]
  refine ⟨hne, ?_⟩
  intro c hc
  exact List.all_eq_true.mp hdashes c (List.mem_filter.mp hc).1

/-- The lines of a table are found in front of a line without a bar. -/
theorem takeTable_lines {rest : List (List Char)} (hrest : ∀ line ∈ rest.head?, '|' ∉ line) :
    takeTable (table.lines ++ rest) = some (table.lines, rest) := by
  have hdata : ∀ row ∈ table.data, decide ('|' ∈ row) = true := by
    intro row hrow
    exact decide_eq_true (table.data_bars row hrow)
  have hstop : rest.takeWhile ('|' ∈ ·) = [] ∧ rest.dropWhile ('|' ∈ ·) = rest := by
    cases rest with
    | nil => exact ⟨rfl, rfl⟩
    | cons line rest =>
      have hline : ¬ decide ('|' ∈ line) = true := by simpa using hrest line rfl
      exact ⟨List.takeWhile_cons_of_neg hline, List.dropWhile_cons_of_neg hline⟩
  rw [takeTable, lines, List.cons_append, List.cons_append, List.getElem?_cons_zero,
    List.getElem?_cons_succ, List.getElem?_cons_zero, if_pos table.isTableHeader_header]
  simp only [List.take_succ_cons, List.take_zero, List.drop_succ_cons, List.drop_zero]
  rw [List.takeWhile_append_of_pos hdata, List.dropWhile_append_of_pos hdata, hstop.1, hstop.2]
  simp

theorem tableCells_lines :
    tableCells table.lines =
      (table.rows.filter fun row => !isSeparatorTableRow row).map splitTableRow := by
  rw [tableCells, lines, rows, List.filter_cons, List.filter_cons, List.filter_cons,
    table.isSeparatorTableRow_separator]
  rfl

end MarkdownTable

/-! ### The lines that are drawn -/

variable {table : MarkdownTable} {width : Nat}

/-- The lines of a table with these rows. -/
def drawnLines (widths : List Nat) (first : List (List Char)) (rest : List (List (List Char))) :
    List (List Char) :=
  border widths '┌' '┬' '┐' :: rowText widths first :: border widths '├' '┼' '┤' ::
    rest.map (rowText widths) ++ [border widths '└' '┴' '┘']

theorem le_largest {values : List Nat} {value : Nat} (h : value ∈ values) :
    value ≤ largest values := by
  induction values with
  | nil => cases h
  | cons first rest ih =>
    rw [largest, List.foldr_cons]
    rcases List.mem_cons.mp h with rfl | h
    · exact Nat.le_max_left _ _
    · exact Nat.le_trans (ih h) (Nat.le_max_right _ _)

theorem splitTableRow_ne_nil (row : List Char) : splitTableRow row ≠ [] := by
  rw [splitTableRow, ne_eq, List.map_eq_nil_iff]
  exact List.splitOn_ne_nil _ _

theorem columnCount_pos {cells : List (List (List Char))} {row : List Char}
    (h : splitTableRow row ∈ cells) : 0 < columnCount cells := by
  have hle : (splitTableRow row).length ≤ columnCount cells :=
    le_largest (List.mem_map_of_mem h)
  have hpos := List.length_pos_iff.mpr (splitTableRow_ne_nil row)
  omega

theorem length_measuredWidths (cells : List (List (List Char))) :
    (measuredWidths cells).length = columnCount cells := by
  rw [measuredWidths, List.length_map, List.length_range]

theorem length_columnWidths (cells : List (List (List Char))) (width : Nat) :
    (columnWidths cells width).length = columnCount cells := by
  rw [columnWidths, length_shrink, length_measuredWidths]

theorem rowLines_flatten (widths : List Nat) (first : List (List Char))
    (rest : List (List (List Char))) :
    ((first :: rest).mapIdx (rowLines widths)).flatten.map (fun line => line.text.toList) =
      rowText widths first :: border widths '├' '┼' '┤' :: rest.map (rowText widths) := by
  have hrest : ∀ (rows : List (List (List Char))),
      (rows.mapIdx fun index row => rowLines widths (index + 1) row).flatten.map
        (fun line => line.text.toList) = rows.map (rowText widths) := by
    intro rows
    have hsame : (fun (index : Nat) row => rowLines widths (index + 1) row) =
        fun _ row => [plainLine (rowText widths row) (({} : Theme).style .plain)] := by
      funext index row
      rw [rowLines, if_neg (Nat.succ_ne_zero index)]
    rw [hsame]
    induction rows with
    | nil => rfl
    | cons row rows ih =>
      rw [List.mapIdx_cons, List.flatten_cons, List.map_append, ih]
      simp
  rw [List.mapIdx_cons, List.flatten_cons, List.map_append, hrest, rowLines, if_pos rfl]
  simp

/-- A table with a row that is drawn. -/
theorem drawnTable_eq {first : List (List Char)} {rest : List (List (List Char))}
    (hcells : tableCells table.lines = first :: rest) :
    drawnTable table width =
      drawnLines (columnWidths (first :: rest) width) first rest := by
  have hfirst : first ∈ tableCells table.lines := by
    rw [hcells]
    exact List.mem_cons_self
  obtain ⟨row, -, hrow⟩ := List.mem_map.mp hfirst
  have hpos : 0 < columnCount (first :: rest) := by
    refine @columnCount_pos _ row ?_
    rw [hrow]
    exact List.mem_cons_self
  rw [drawnTable, renderTable, hcells]
  simp only [if_neg (Nat.ne_of_gt hpos)]
  rw [List.cons_append, List.map_cons, List.map_append, rowLines_flatten]
  simp [drawnLines]

theorem drawnTable_nil (hcells : tableCells table.lines = []) : drawnTable table width = [] := by
  rw [drawnTable, renderTable, hcells]
  rfl

theorem length_drawnLines (widths : List Nat) (first : List (List Char))
    (rest : List (List (List Char))) :
    (drawnLines widths first rest).length = rest.length + 4 := by
  simp [drawnLines]

/-- Every line that is drawn is as wide as the others. -/
theorem even_drawnLines {widths : List Nat} (hne : widths ≠ []) (first : List (List Char))
    (rest : List (List (List Char))) :
    ∀ line ∈ drawnLines widths first rest, displayWidth line = lineWidth widths := by
  intro line hline
  simp only [drawnLines, List.cons_append, List.mem_cons, List.mem_append, List.mem_map,
    List.not_mem_nil, or_false] at hline
  rcases hline with rfl | rfl | rfl | ⟨row, -, rfl⟩ | rfl
  · exact displayWidth_border hne (by decide) (by decide) (by decide)
  · exact displayWidth_rowText hne first
  · exact displayWidth_border hne (by decide) (by decide) (by decide)
  · exact displayWidth_rowText hne row
  · exact displayWidth_border hne (by decide) (by decide) (by decide)

/-- The line of a row. -/
theorem drawnLines_row {widths : List Nat} {first : List (List Char)}
    {rest : List (List (List Char))} {index : Nat} {row : List (List Char)}
    (h : (first :: rest)[index]? = some row) :
    (drawnLines widths first rest)[rowLine index]? = some (rowText widths row) := by
  cases index with
  | zero =>
    cases h
    rfl
  | succ index =>
    rw [List.getElem?_cons_succ] at h
    have hplace : (rest.map (rowText widths))[index]? = some (rowText widths row) := by
      rw [List.getElem?_map, h, Option.map_some]
    rw [rowLine, if_neg (Nat.succ_ne_zero index)]
    change ((rest.map (rowText widths)) ++ _)[index]? = _
    rw [List.getElem?_append_left (List.getElem?_eq_some_iff.mp hplace).1, hplace]

/-- The rules tell the widths of the columns. -/
theorem border_injective {widths widths' : List Nat} (hne : widths ≠ []) (hne' : widths' ≠ [])
    (h : border widths '┌' '┬' '┐' = border widths' '┌' '┬' '┐') : widths = widths' := by
  have hrule : ∀ (values : List Nat), ∀ part ∈ values.map fun width =>
      List.replicate (width + 2) '─', '┬' ∉ part := by
    intro values part hpart hmem
    obtain ⟨value, -, rfl⟩ := List.mem_map.mp hpart
    exact absurd (List.eq_of_mem_replicate hmem) (by decide)
  rw [border, border, List.cons_append, List.cons_append, List.cons.injEq] at h
  have hsplit := congrArg (List.splitOn '┬') (List.append_cancel_right h.2)
  rw [List.splitOn_intercalate _ (hrule widths) (by simpa using hne),
    List.splitOn_intercalate _ (hrule widths') (by simpa using hne')] at hsplit
  refine List.map_injective_iff.mpr ?_ hsplit
  intro value value' hvalue
  have hlength := congrArg List.length hvalue
  rw [List.length_replicate, List.length_replicate] at hlength
  omega

/-! ### The texts that are drawn -/

theorem getLast?_trim (text : List Char) : (trim text).getLast? ≠ some ' ' := by
  intro hlast
  rw [trim, trimEnd, List.getLast?_reverse] at hlast
  have hnot := List.head?_dropWhile_not Tea.Tui.isWhitespace (trimStart text).reverse
  rw [hlast] at hnot
  exact absurd hnot (by decide)

/-- A text with spaces behind it, told from another one. -/
theorem spaces_cancel {text text' : List Char} {spaces spaces' : Nat}
    (hlast : text.getLast? ≠ some ' ')
    (h : text ++ List.replicate spaces ' ' = text' ++ List.replicate spaces' ' ') :
    ∃ more, text' = text ++ List.replicate more ' ' := by
  rcases Nat.le_total spaces' spaces with hle | hle
  · refine ⟨spaces - spaces', ?_⟩
    have hsum : spaces = (spaces - spaces') + spaces' := by omega
    rw [hsum, ← List.replicate_append_replicate, ← List.append_assoc] at h
    exact (List.append_cancel_right h).symm
  · have hsum : spaces' = (spaces' - spaces) + spaces := by omega
    rw [hsum, ← List.replicate_append_replicate, ← List.append_assoc] at h
    have heq := List.append_cancel_right h
    rcases Nat.eq_zero_or_pos (spaces' - spaces) with hzero | hpos
    · refine ⟨0, ?_⟩
      rw [hzero, List.replicate_zero, List.append_nil] at heq
      rw [heq, List.replicate_zero, List.append_nil]
    · exfalso
      apply hlast
      have hne : List.replicate (spaces' - spaces) ' ' ≠ [] := by
        rw [ne_eq, List.replicate_eq_nil_iff]
        omega
      rw [heq, List.getLast?_append_of_ne_nil _ hne, List.getLast?_replicate,
        if_neg (Nat.ne_of_gt hpos)]

theorem displayWidth_le_measuredWidth {cells : List (List (List Char))} {row : List (List Char)}
    (hrow : row ∈ cells) (column : Nat) :
    displayWidth (row[column]?.getD []) ≤ measuredWidth cells column := by
  have hle : (row[column]?.elim 0 displayWidth) ≤ measuredWidth cells column :=
    Nat.le_trans (le_largest (List.mem_map.mpr ⟨row, hrow, rfl⟩)) (Nat.le_max_left _ _)
  cases hcell : row[column]? with
  | none => exact Nat.zero_le _
  | some cell =>
    rw [hcell] at hle
    exact hle

/-- A text is drawn as it is in a column with room for it, just when the renderer reads it with
    nothing but spaces behind it. -/
theorem shownAt_iff {cells : List (List (List Char))} {row : List (List Char)} {column : Nat}
    {text : List Char} (hrow : row ∈ cells) (hcolumn : column < columnCount cells)
    (hlast : text.getLast? ≠ some ' ') (hroom : displayWidth text ≤ measuredWidth cells column) :
    ShownAt (rowText (measuredWidths cells) row) (columnOffset (measuredWidths cells) column)
        (text ++ List.replicate (measuredWidth cells column - displayWidth text) ' ') ↔
      ∃ spaces, row[column]?.getD [] = text ++ List.replicate spaces ' ' := by
  have hwidth : (measuredWidths cells)[column]? = some (measuredWidth cells column) := by
    rw [measuredWidths, List.getElem?_map, List.getElem?_range hcolumn, Option.map_some]
  have hshown := shownAt_rowText hwidth row
  have hfits := displayWidth_le_measuredWidth hrow column
  rw [padDisplay_of_fits hfits] at hshown
  constructor
  · intro h
    refine spaces_cancel hlast (h.unique hshown ?_)
    rw [displayWidth_append, displayWidth_append, displayWidth_replicate charWidth_space,
      displayWidth_replicate charWidth_space]
    omega
  · rintro ⟨spaces, hcell⟩
    rw [hcell] at hshown hfits
    rw [displayWidth_append, displayWidth_replicate charWidth_space] at hshown hfits
    rw [List.append_assoc, List.replicate_append_replicate] at hshown
    have hsum : spaces + (measuredWidth cells column - (displayWidth text + spaces)) =
        measuredWidth cells column - displayWidth text := by omega
    rwa [hsum] at hshown

/-! ### The columns -/

/-- The columns are as wide as their texts when there is room for them. -/
theorem columnWidths_of_room {cells : List (List (List Char))}
    (h : lineWidth (measuredWidths cells) ≤ width) :
    columnWidths cells width = measuredWidths cells := by
  rw [lineWidth, length_measuredWidths] at h
  refine shrink_of_le ?_
  rw [columnBudget]
  omega

/-- Columns that are shrunk are still two cells too wide, each of them. -/
theorem room_of_columnWidths {cells : List (List (List Char))} (hpos : 0 < columnCount cells)
    (hwidth : 6 * columnCount cells + 1 ≤ width)
    (h : lineWidth (columnWidths cells width) ≤ width) :
    lineWidth (measuredWidths cells) ≤ width := by
  rcases Nat.lt_or_ge (columnBudget (columnCount cells) width) (total (measuredWidths cells)) with
    hwide | hfits
  · exfalso
    have hroom : (measuredWidths cells).length * 3 ≤
        columnBudget (columnCount cells) width := by
      rw [length_measuredWidths, columnBudget]
      omega
    have hshrunk := total_shrink hwide hroom
    rw [lineWidth, length_columnWidths, columnWidths, hshrunk, columnBudget] at h
    omega
  · rwa [columnWidths, shrink_of_le hfits] at h

theorem columns_pos (table : MarkdownTable) : 0 < table.columns := by
  have hle : (markdownCells table.header).length ≤ table.columns :=
    le_largest (List.mem_map.mpr ⟨table.header, List.mem_cons_self, rfl⟩)
  have hne : markdownCells table.header ≠ [] := by
    rw [markdownCells, ne_eq, List.map_eq_nil_iff]
    exact List.splitOn_ne_nil _ _
  have hpos := List.length_pos_iff.mpr hne
  omega

theorem column_lt {row : List Char} (hrow : row ∈ table.rows) {column : Nat} {text : List Char}
    (htext : (markdownCells row)[column]? = some text) : column < table.columns := by
  have hle : (markdownCells row).length ≤ table.columns :=
    le_largest (List.mem_map.mpr ⟨row, hrow, rfl⟩)
  have hlt := (List.getElem?_eq_some_iff.mp htext).1
  omega

/-! ### Tables that are drawn as they should be -/

/-- When no row is left out, all of them are read. -/
theorem tableCells_of_dashes (h : ∀ row ∈ table.rows, isSeparatorTableRow row = false) :
    tableCells table.lines = readCells table := by
  rw [table.tableCells_lines, List.filter_eq_self.mpr, readCells]
  intro row hrow
  rw [h row hrow]
  rfl

/-- A table with a line for each row has none left out. -/
theorem dashes_of_count (h : (drawnTable table width).length = table.data.length + 4) :
    ∀ row ∈ table.rows, isSeparatorTableRow row = false := by
  have hcells := table.tableCells_lines
  have hfull : (table.rows.filter fun row => !isSeparatorTableRow row).length =
      table.rows.length := by
    have hlength := congrArg List.length hcells
    rw [List.length_map] at hlength
    rw [← hlength]
    cases hdrawn : tableCells table.lines with
    | nil =>
      rw [drawnTable_nil hdrawn, List.length_nil] at h
      omega
    | cons first rest =>
      rw [drawnTable_eq hdrawn, length_drawnLines] at h
      rw [List.length_cons, MarkdownTable.rows, List.length_cons]
      omega
  intro row hrow
  have hkept := List.length_filter_eq_length_iff.mp hfull row hrow
  simpa using hkept

theorem readCells_cons (table : MarkdownTable) :
    readCells table = splitTableRow table.header :: table.data.map splitTableRow := rfl

theorem readCells_pos (table : MarkdownTable) : 0 < columnCount (readCells table) :=
  columnCount_pos (List.mem_map.mpr ⟨table.header, List.mem_cons_self, rfl⟩)

/-- The lines of a table with no row left out. -/
theorem drawnTable_of_dashes (h : ∀ row ∈ table.rows, isSeparatorTableRow row = false) :
    drawnTable table width =
      drawnLines (columnWidths (readCells table) width) (splitTableRow table.header)
        (table.data.map splitTableRow) := by
  have hcells := tableCells_of_dashes h
  rw [readCells_cons] at hcells
  rw [drawnTable_eq hcells, readCells_cons]

theorem Drawable.laidOut (h : Drawable table width) :
    LaidOut table width (drawnTable table width) (measuredWidths (readCells table)) := by
  have hdrawn := @drawnTable_of_dashes table width h.dashes
  rw [columnWidths_of_room h.room] at hdrawn
  have hne : measuredWidths (readCells table) ≠ [] := by
    rw [← List.length_pos_iff, length_measuredWidths]
    exact readCells_pos table
  rw [hdrawn]
  refine ⟨?_, rfl, ?_, ?_, ?_⟩
  · rw [length_measuredWidths, h.columns]
  · rw [length_drawnLines, List.length_map]
  · exact ⟨_, h.room, even_drawnLines hne _ _⟩
  · intro index row hrow column text htext room hroom hfits
    have hmem := List.mem_of_getElem? hrow
    have hcolumn : column < columnCount (readCells table) := by
      rw [h.columns]
      exact column_lt hmem htext
    rw [measuredWidths, List.getElem?_map, List.getElem?_range hcolumn, Option.map_some,
      Option.some.injEq] at hroom
    subst hroom
    have hcells : (readCells table)[index]? = some (splitTableRow row) := by
      rw [readCells, List.getElem?_map, hrow, Option.map_some]
    refine ⟨_, drawnLines_row hcells, ?_⟩
    have hread : splitTableRow row ∈ readCells table := List.mem_map_of_mem hmem
    have hlast : text.getLast? ≠ some ' ' := by
      obtain ⟨piece, -, rfl⟩ := List.mem_map.mp (List.mem_of_getElem? htext)
      exact getLast?_trim piece
    exact (shownAt_iff hread hcolumn hlast hfits).mpr (h.texts row hmem column text htext hfits)

theorem LaidOut.drawable {widths : List Nat} (hwidth : 6 * table.columns + 1 ≤ width)
    (h : LaidOut table width (drawnTable table width) widths) : Drawable table width := by
  have hdashes := dashes_of_count h.count
  have hdrawn := @drawnTable_of_dashes table width hdashes
  have hpos := readCells_pos table
  have hne : columnWidths (readCells table) width ≠ [] := by
    rw [← List.length_pos_iff, length_columnWidths]
    exact hpos
  have hne' : widths ≠ [] := by
    rw [← List.length_pos_iff, h.columns]
    exact columns_pos table
  have hwidths : widths = columnWidths (readCells table) width := by
    have hruled := h.ruled
    rw [hdrawn] at hruled
    exact (border_injective hne hne' (Option.some.inj hruled)).symm
  have hcolumns : columnCount (readCells table) = table.columns := by
    rw [← h.columns, hwidths, length_columnWidths]
  have hroom : lineWidth (measuredWidths (readCells table)) ≤ width := by
    obtain ⟨common, hle, heven⟩ := h.even
    rw [hdrawn] at heven
    have htop := heven _ List.mem_cons_self
    have hruled := even_drawnLines hne (splitTableRow table.header)
      (table.data.map splitTableRow) _ List.mem_cons_self
    refine room_of_columnWidths hpos (by rwa [hcolumns]) ?_
    rw [← hruled, htop]
    exact hle
  rw [columnWidths_of_room hroom] at hwidths hdrawn
  refine ⟨hroom, hdashes, hcolumns, ?_⟩
  intro row hrow column text htext hfits
  obtain ⟨index, hindex⟩ := List.mem_iff_getElem?.mp hrow
  have hcolumn : column < columnCount (readCells table) := by
    rw [hcolumns]
    exact column_lt hrow htext
  have hread : splitTableRow row ∈ readCells table := List.mem_map_of_mem hrow
  have hlast : text.getLast? ≠ some ' ' := by
    obtain ⟨piece, -, rfl⟩ := List.mem_map.mp (List.mem_of_getElem? htext)
    exact getLast?_trim piece
  have hplace : widths[column]? = some (measuredWidth (readCells table) column) := by
    rw [hwidths, measuredWidths, List.getElem?_map, List.getElem?_range hcolumn, Option.map_some]
  obtain ⟨line, hline, hshown⟩ := h.shown index row hindex column text htext _ hplace hfits
  have hcells : (readCells table)[index]? = some (splitTableRow row) := by
    rw [readCells, List.getElem?_map, hindex, Option.map_some]
  rw [hdrawn, drawnLines_row hcells, Option.some.injEq] at hline
  subst hline
  rw [hwidths] at hshown
  exact (shownAt_iff hread hcolumn hlast hfits).mp hshown

/-- A table of one column and one text of nine letters. -/
def nineLetters : MarkdownTable where
  header := ['|', 'n', 'i', 'n', 'e', '-', 'f', 'o', 'l', 'd', '|']
  separator := ['|', '-', '|']
  data := []
  header_bar := by decide
  separator_bar := by decide
  separator_cells := by decide
  data_bars := by decide

end Tea.Contract
