/-
  Tea/Tui/Cursor.lean
  ===================
  **A cursor between two parts of a text.**  What each operation of the prompt buffer does
  there, and that each leaves such a cursor behind.
-/
import Tea.Tui.Composer
import Tea.Tui.Rows
import Mathlib.Data.List.DropRight

namespace Tea.Tui.Composer

open Tea.Encoding

/-- The text in front of the cursor and the text behind it. -/
def between (before after : List Char) : Composer :=
  { text := before ++ after, cursor := utf8Length before }

@[simp] theorem between_text (before after : List Char) :
    (between before after).text = before ++ after := rfl

@[simp] theorem between_cursor (before after : List Char) :
    (between before after).cursor = utf8Length before := rfl

/-- The cursor is a character boundary of the text. -/
def Sound (composer : Composer) : Prop := OnBoundary composer.text composer.cursor

theorem sound_iff (composer : Composer) :
    composer.Sound ↔ ∃ before after, composer = between before after := by
  constructor
  · rintro ⟨before, after, htext, hcursor⟩
    refine ⟨before, after, ?_⟩
    rw [between, ← htext, ← hcursor]
  · rintro ⟨before, after, rfl⟩
    exact onBoundary_append before after

/-- An operation that moves the cursor to a boundary of the text. -/
def Moves (composer : Composer) (moved : Option Composer) : Prop :=
  ∃ cursor, moved = some { composer with cursor } ∧ OnBoundary composer.text cursor

/-! ### Clusters -/

variable (before after : List Char)

theorem clusterStart_reverse : ∃ kept passed, before = kept ++ passed ∧
    clusterStart before.reverse = utf8Length kept := by
  induction before using List.reverseRecOn with
  | nil => exact ⟨[], [], rfl, rfl⟩
  | append_singleton before c ih =>
    rw [List.reverse_append, List.reverse_singleton, List.singleton_append, clusterStart]
    split_ifs with hzero
    · obtain ⟨kept, passed, rfl, hstart⟩ := ih
      exact ⟨kept, passed ++ [c], List.append_assoc _ _ _, hstart⟩
    · exact ⟨before, [c], rfl, utf8Length_reverse before⟩

theorem previousClusterStart_append : ∃ kept passed, before = kept ++ passed ∧
    previousClusterStart (before ++ after) (utf8Length before) = some (utf8Length kept) := by
  obtain ⟨kept, passed, hbefore, hstart⟩ := clusterStart_reverse before
  refine ⟨kept, passed, hbefore, ?_⟩
  rw [previousClusterStart, cut_append, Option.map_some, hstart]

@[simp] theorem nextCharacter_append :
    nextCharacter (before ++ after) (utf8Length before) = some after.head? := by
  rw [nextCharacter, cut_append, Option.map_some]

theorem skipMarks_append :
    skipMarks (before ++ after) (utf8Length before) =
      some (utf8Length (before ++ after.takeWhile isZeroWidth)) := by
  induction after generalizing before with
  | nil =>
    have hnext := nextCharacter_append before []
    rw [skipMarks]
    split
    all_goals rename_i h; rw [hnext] at h
    · cases h
    · simp
    · cases h
  | cons c after ih =>
    have hnext := nextCharacter_append before (c :: after)
    rw [skipMarks]
    split
    all_goals rename_i h; rw [hnext] at h
    · cases h
    · cases h
    · obtain rfl := Option.some.inj (Option.some.inj h)
      have hrest := ih (before ++ [c])
      rw [List.append_assoc, List.singleton_append, utf8Length_append] at hrest
      by_cases hzero : isZeroWidth c
      · rw [if_pos hzero, List.takeWhile_cons_of_pos hzero]
        simpa using hrest
      · rw [if_neg hzero, List.takeWhile_cons_of_neg hzero, List.append_nil]

/-- Behind a character the marks on it are skipped. -/
theorem skipMarks_cons (c : Char) :
    skipMarks (before ++ c :: after) (utf8Length before + c.utf8Size) =
      some (utf8Length (before ++ c :: after.takeWhile isZeroWidth)) := by
  have hmarks := skipMarks_append (before ++ [c]) after
  rwa [utf8Length_append, List.append_assoc, List.append_assoc] at hmarks

/-! ### Words -/

theorem lastCharacter_append (c : Char) :
    lastCharacter (before ++ [c] ++ after) (utf8Length (before ++ [c])) =
      some (utf8Length before, c) := by
  rw [lastCharacter, cut_append]
  simp only [Option.bind_eq_bind, Option.bind_some, List.getLast?_concat, List.dropLast_concat]

theorem scanLeft_append (skips : Char → Bool) :
    scanLeft skips (before ++ after) (utf8Length before) =
      some (utf8Length (before.rdropWhile skips)) := by
  induction before using List.reverseRecOn generalizing after with
  | nil => simp [scanLeft]
  | append_singleton before c ih =>
    have hlast := lastCharacter_append before after c
    have hpos : utf8Length (before ++ [c]) ≠ 0 := by
      have := Char.utf8Size_pos c
      rw [utf8Length_append, utf8Length_cons]
      omega
    rw [scanLeft, if_neg hpos]
    split
    all_goals rename_i h; rw [hlast] at h
    · cases h
    · obtain ⟨rfl, rfl⟩ := Prod.mk.inj (Option.some.inj h)
      by_cases hskips : skips c
      · rw [if_pos hskips, List.rdropWhile_concat_pos _ _ _ hskips, List.append_assoc]
        exact ih _
      · rw [if_neg hskips, List.rdropWhile_concat_neg _ _ _ hskips]

theorem scanRight_append (skips : Char → Bool) :
    scanRight skips (before ++ after) (utf8Length before) =
      some (utf8Length (before ++ after.takeWhile skips)) := by
  induction after generalizing before with
  | nil => simp [scanRight]
  | cons c after ih =>
    have hnext := nextCharacter_append before (c :: after)
    have hlt : utf8Length before < utf8Length (before ++ c :: after) := by
      have := Char.utf8Size_pos c
      rw [utf8Length_append, utf8Length_cons]
      omega
    rw [scanRight, if_pos hlt]
    split
    all_goals rename_i h; rw [hnext] at h
    · cases h
    · cases h
    · obtain rfl := Option.some.inj (Option.some.inj h)
      have hrest := ih (before ++ [c])
      rw [List.append_assoc, List.singleton_append, utf8Length_append] at hrest
      by_cases hskips : skips c
      · rw [if_pos hskips, List.takeWhile_cons_of_pos hskips]
        simpa using hrest
      · rw [if_neg hskips, List.takeWhile_cons_of_neg hskips, List.append_nil]

/-! ### Lines -/

/-- A line starts with the text or behind a line break. -/
theorem lineStart_append : ∃ kept line, before = kept ++ line ∧
    (kept = [] ∨ ∃ lines, kept = lines ++ ['\n']) ∧
    lineStart (before ++ after) (utf8Length before) = some (utf8Length kept) := by
  rw [lineStart, cut_append, Option.map_some]
  cases hfind : rfind '\n' before with
  | none => exact ⟨[], before, rfl, .inl rfl, rfl⟩
  | some offset =>
    obtain ⟨lines, line, rfl, rfl⟩ := rfind_eq_some hfind
    refine ⟨lines ++ ['\n'], line, ?_, .inr ⟨lines, rfl⟩, ?_⟩
    · simp
    · simp

/-- A line ends in front of a line break or with the text. -/
theorem lineEnd_append : ∃ line rest, after = line ++ rest ∧
    (rest = [] ∨ ∃ lines, rest = '\n' :: lines) ∧
    lineEnd (before ++ after) (utf8Length before) = some (utf8Length (before ++ line)) := by
  rw [lineEnd, cut_append, Option.map_some]
  cases hfind : Encoding.find '\n' after with
  | none => exact ⟨after, [], (List.append_nil _).symm, .inl rfl, rfl⟩
  | some offset =>
    obtain ⟨line, lines, rfl, rfl⟩ := find_eq_some hfind
    refine ⟨line, '\n' :: lines, rfl, .inr ⟨lines, rfl⟩, ?_⟩
    simp

/-- A place in a line is a place in the text. -/
theorem onBoundary_line (line : List Char) (column : Nat) :
    OnBoundary (before ++ line ++ after) (charOffset line column + utf8Length before) := by
  obtain ⟨first, second, hline, hoffset⟩ := onBoundary_charOffset line column
  refine ⟨before ++ first, second ++ after, ?_, ?_⟩
  · rw [hline]
    simp
  · rw [hoffset, utf8Length_append, Nat.add_comm]

theorem moveLineUp_moves : Moves (between before after) (between before after).moveLineUp := by
  obtain ⟨kept, line, rfl, hkept, hstart⟩ := lineStart_append before after
  simp only [moveLineUp, between, hstart, Option.bind_eq_bind, Option.bind_some]
  rcases hkept with rfl | ⟨lines, rfl⟩
  · exact ⟨_, rfl, onBoundary_append _ after⟩
  · obtain ⟨kept, previous, rfl, -, hprevious⟩ := lineStart_append lines ('\n' :: (line ++ after))
    have htext : kept ++ previous ++ ['\n'] ++ line ++ after =
        kept ++ previous ++ '\n' :: (line ++ after) := by simp
    have hend : utf8Length (kept ++ previous ++ ['\n']) - 1 = utf8Length (kept ++ previous) := by
      simp
    rw [if_neg (by simp), slice_append, Option.bind_some, hend, htext, hprevious,
      Option.bind_some, slice_append, Option.bind_some]
    exact ⟨_, rfl, onBoundary_line kept _ previous _⟩

theorem moveLineDown_moves :
    Moves (between before after) (between before after).moveLineDown := by
  obtain ⟨kept, column, rfl, -, hstart⟩ := lineStart_append before after
  obtain ⟨line, rest, rfl, hrest, hend⟩ := lineEnd_append (kept ++ column) after
  generalize hcomposer : between (kept ++ column) (line ++ rest) = composer
  have htext : composer.text = kept ++ column ++ (line ++ rest) := by
    rw [← hcomposer, between]
  have hcursor : composer.cursor = utf8Length (kept ++ column) := by
    rw [← hcomposer, between]
  simp only [moveLineDown, htext, hcursor, hstart, hend, Option.bind_eq_bind, Option.bind_some]
  rcases hrest with rfl | ⟨lines, rfl⟩
  · rw [if_pos (by simp)]
    refine ⟨composer.cursor, rfl, ?_⟩
    rw [htext, hcursor]
    exact onBoundary_append _ _
  · obtain ⟨next, rest, rfl, -, hnext⟩ :=
      lineEnd_append (kept ++ column ++ line ++ ['\n']) lines
    have hbreak : utf8Length (kept ++ column ++ line) + 1 =
        utf8Length (kept ++ column ++ line ++ ['\n']) := by
      rw [utf8Length_append _ ['\n']]
      rfl
    have hlines : kept ++ column ++ (line ++ '\n' :: (next ++ rest)) =
        kept ++ column ++ line ++ ['\n'] ++ next ++ rest := by
      simp
    rw [← List.append_assoc _ next rest] at hnext
    rw [if_neg (by simp), slice_append, Option.bind_some, hbreak, hlines, hnext,
      Option.bind_some, slice_append, Option.bind_some]
    refine ⟨charOffset next column.length + utf8Length (kept ++ column ++ line ++ ['\n']), ?_, ?_⟩
    · rw [htext, hlines]
    · rw [htext, hlines]
      exact onBoundary_line _ rest next _

/-! ### Every operation -/

theorem moveLeft_moves : Moves (between before after) (between before after).moveLeft := by
  obtain ⟨kept, passed, rfl, hstart⟩ := previousClusterStart_append before after
  refine ⟨utf8Length kept, ?_, kept, passed ++ after, List.append_assoc _ _ _, rfl⟩
  simp only [moveLeft, between, hstart, Option.map_some]

theorem moveRight_moves : Moves (between before after) (between before after).moveRight := by
  cases after with
  | nil =>
    refine ⟨utf8Length before, ?_, onBoundary_append before []⟩
    simp only [moveRight, between, nextCharacter_append, Option.bind_eq_bind, Option.bind_some,
      List.head?_nil]
  | cons c after =>
    refine ⟨utf8Length (before ++ c :: after.takeWhile isZeroWidth), ?_, ?_⟩
    · simp only [moveRight, between, nextCharacter_append, Option.bind_eq_bind, Option.bind_some,
        List.head?_cons, skipMarks_cons]
    · refine ⟨_, after.dropWhile isZeroWidth, ?_, rfl⟩
      rw [List.append_assoc, List.cons_append, List.takeWhile_append_dropWhile, between]

theorem moveWordLeft_moves :
    Moves (between before after) (between before after).moveWordLeft := by
  obtain ⟨spaces, hspaces⟩ := List.rdropWhile_prefix isWhitespace before
  generalize hrest : before.rdropWhile isWhitespace = rest at hspaces
  obtain ⟨word, hword⟩ := List.rdropWhile_prefix (fun c => !isWhitespace c) rest
  have hsecond := scanLeft_append rest (spaces ++ after) (fun c => !isWhitespace c)
  rw [← List.append_assoc, hspaces] at hsecond
  refine ⟨utf8Length (rest.rdropWhile fun c => !isWhitespace c), ?_, _,
    word ++ (spaces ++ after), ?_, rfl⟩
  · simp only [moveWordLeft, between, scanLeft_append, hrest, hsecond, Option.bind_eq_bind,
      Option.bind_some]
  · rw [between, ← List.append_assoc, hword, ← List.append_assoc, hspaces]

theorem moveWordRight_moves :
    Moves (between before after) (between before after).moveWordRight := by
  have hspaces := List.takeWhile_append_dropWhile (p := isWhitespace) (l := after)
  generalize hrest : after.dropWhile isWhitespace = rest at hspaces
  generalize hspace : after.takeWhile isWhitespace = spaces at hspaces
  have hword := List.takeWhile_append_dropWhile (p := fun c => !isWhitespace c) (l := rest)
  have hsecond := scanRight_append (before ++ spaces) rest (fun c => !isWhitespace c)
  rw [List.append_assoc, hspaces] at hsecond
  refine ⟨utf8Length (before ++ spaces ++ rest.takeWhile fun c => !isWhitespace c), ?_, _,
    rest.dropWhile fun c => !isWhitespace c, ?_, rfl⟩
  · simp only [moveWordRight, between, scanRight_append, hspace, hsecond, Option.bind_eq_bind,
      Option.bind_some]
  · rw [between, List.append_assoc, hword, List.append_assoc, hspaces]

theorem home_moves : Moves (between before after) (between before after).home := by
  obtain ⟨kept, line, rfl, -, hstart⟩ := lineStart_append before after
  refine ⟨utf8Length kept, ?_, kept, line ++ after, List.append_assoc _ _ _, rfl⟩
  simp only [home, between, hstart, Option.map_some]

theorem end_moves : Moves (between before after) (between before after).end := by
  obtain ⟨line, rest, rfl, -, hend⟩ := lineEnd_append before after
  refine ⟨utf8Length (before ++ line), ?_, before ++ line, rest, ?_, rfl⟩
  · simp only [«end», between, hend, Option.map_some]
  · exact (List.append_assoc _ _ _).symm

/-! ### Visual lines -/

/-- The characters of a row that end within the desired column. -/
theorem reach_spec {desiredColumn column : Nat} (cursor : Nat) (symbols : List Char)
    (h : column ≤ desiredColumn) :
    ∃ reached rest, symbols = reached ++ rest ∧
      reach desiredColumn column cursor symbols = cursor + utf8Length reached ∧
      column + textWidth reached ≤ desiredColumn ∧
      (rest = [] ↔ column + textWidth symbols ≤ desiredColumn) := by
  induction symbols generalizing column cursor with
  | nil => exact ⟨[], [], rfl, rfl, h, by simpa [textWidth] using h⟩
  | cons symbol symbols ih =>
    rw [reach]
    by_cases hwide : desiredColumn < column + displayWidth symbol
    · refine ⟨[], symbol :: symbols, rfl, ?_, h, ?_⟩
      · rw [if_pos hwide]
        rfl
      · simp only [textWidth, reduceCtorEq, false_iff]
        omega
    · obtain ⟨reached, rest, rfl, hreach, hreached, hrest⟩ :=
        ih (cursor + symbol.utf8Size) (Nat.le_of_not_lt hwide)
      refine ⟨symbol :: reached, rest, rfl, ?_, ?_, ?_⟩
      · rw [if_neg hwide, hreach, utf8Length_cons, Nat.add_assoc]
      · rwa [textWidth, ← Nat.add_assoc]
      · rwa [textWidth, ← Nat.add_assoc]

section

variable (width : UInt16) (direction : Int)

/-- The row to which a visual movement goes. -/
def targetRow : Int := (place (contentWidth width) 0 before after).1 + direction

/-- The rows of the text. -/
def textRows : List (List Char × Ending) := rowsFrom (contentWidth width) 0 (before ++ after)

theorem moveVisualLine_outside
    (h : targetRow before after width direction < 0 ∨
      (textRows before after width).length ≤ targetRow before after width direction) :
    (between before after).moveVisualLine width direction = some (between before after, false) := by
  rw [moveVisualLine, between, measure_rows, (measure_place before after width).1,
    visualRows_length]
  exact if_pos h

/-- The cursor goes behind the characters of the row that end within the column it had. -/
theorem moveVisualLine_inside
    (h : ¬ (targetRow before after width direction < 0 ∨
      (textRows before after width).length ≤ targetRow before after width direction)) :
    ∃ reached rest ending,
      (textRows before after width)[(targetRow before after width direction).toNat]? =
        some (reached ++ rest, ending) ∧
      (between before after).moveVisualLine width direction =
        some ({ text := before ++ after
                cursor := utf8Length (flat ((textRows before after width).take
                  (targetRow before after width direction).toNat) ++ reached) }, true) ∧
      textWidth reached ≤ (place (contentWidth width) 0 before after).2 ∧
      (rest = [] ↔
        textWidth (reached ++ rest) ≤ (place (contentWidth width) 0 before after).2) := by
  rw [moveVisualLine, between, measure_rows, (measure_place before after width).1,
    visualRows_length]
  generalize htarget : targetRow before after width direction = target at h
  have hrows : rowsFrom (contentWidth width) 0 (before ++ after) = textRows before after width :=
    rfl
  have hflat := flat_rowsFrom (contentWidth width) 0 (before ++ after)
  obtain ⟨passed, ahead, ending, hrow, hbefore, hcolumn, -⟩ :=
    place_spec (contentWidth width) 0 before after
  rw [hrows] at hflat hrow hbefore ⊢
  rw [targetRow] at htarget
  generalize place (contentWidth width) 0 before after = found at *
  generalize textRows before after width = rows at *
  obtain ⟨⟨line, lineEnding⟩, hline⟩ : ∃ line, rows[target.toNat]? = some line :=
    ⟨_, List.getElem?_eq_getElem (by omega)⟩
  obtain ⟨reached, rest, rfl, hreach, hreached, hall⟩ :=
    reach_spec (utf8Length (flat (rows.take target.toNat))) line (Nat.zero_le found.2)
  have hslice : slice (before ++ after) (utf8Length (flat (rows.take found.1)))
      (utf8Length before) = some passed := by
    have hpassed := slice_append (flat (rows.take found.1)) passed after
    rwa [← hbefore] at hpassed
  have hsymbols := slice_row hline
  rw [hflat] at hsymbols
  have hdesired : textWidth passed = found.2 := by
    simpa [base] using hcolumn.symm
  rw [← utf8Length_append] at hreach
  refine ⟨reached, rest, lineEnding, hline, ?_, ?_, ?_⟩
  · simp only [htarget, if_neg h, visualRows_getElem, hrow, hline, Option.map_some, Nat.zero_add,
      Option.bind_eq_bind, Option.bind_some, hslice, hsymbols, hdesired, hreach]
  · rwa [Nat.zero_add] at hreached
  · rwa [Nat.zero_add] at hall

theorem moveVisualLine_moves :
    ∃ moved, (between before after).moveVisualLine width direction = some moved ∧
      Moves (between before after) (some moved.1) := by
  by_cases h : targetRow before after width direction < 0 ∨
      (textRows before after width).length ≤ targetRow before after width direction
  · exact ⟨_, moveVisualLine_outside before after width direction h, _, rfl,
      onBoundary_append before after⟩
  · obtain ⟨reached, rest, ending, hrow, hmoved, -⟩ :=
      moveVisualLine_inside before after width direction h
    obtain ⟨behind, hbehind⟩ := flat_getElem hrow
    rw [textRows, flat_rowsFrom, ← List.append_assoc, List.append_assoc _ rest] at hbehind
    exact ⟨_, hmoved, _, rfl, _, rest ++ behind, hbehind, rfl⟩

end

/-! ### Edits -/

/-- An operation leaves a cursor on a boundary behind. -/
def Keeps (edited : Option Composer) : Prop := ∃ composer, edited = some composer ∧ composer.Sound

theorem sound_ofText (text : List Char) : Sound { text, cursor := utf8Length text } :=
  ⟨text, [], (List.append_nil text).symm, rfl⟩

theorem insertText_keeps (text : List Char) : Keeps ((between before after).insertText text) := by
  refine ⟨between (before ++ text) after, ?_, onBoundary_append _ after⟩
  rw [insertText, between, cut_append, Option.map_some, between, utf8Length_append]

theorem drain_append (kept passed : List Char) :
    drain (kept ++ passed ++ after) (utf8Length kept) (utf8Length (kept ++ passed)) =
      some (kept ++ after) := by
  rw [drain, cut_append]
  simp only [Option.bind_eq_bind, Option.bind_some, cut_append]

theorem backspace_keeps : Keeps (between before after).backspace := by
  rw [backspace]
  split_ifs with hstart
  · exact ⟨_, rfl, onBoundary_append before after⟩
  · obtain ⟨kept, passed, rfl, hcluster⟩ := previousClusterStart_append before after
    refine ⟨between kept after, ?_, onBoundary_append kept after⟩
    simp only [between, hcluster, drain_append, Option.bind_eq_bind, Option.bind_some]

theorem delete_keeps : Keeps (between before after).delete := by
  cases after with
  | nil =>
    refine ⟨between before [], ?_, onBoundary_append before []⟩
    simp only [delete, between, nextCharacter_append, Option.bind_eq_bind, Option.bind_some,
      List.head?_nil]
  | cons c after =>
    have hmarks := List.takeWhile_append_dropWhile (p := isZeroWidth) (l := after)
    have hdrain := drain_append (after.dropWhile isZeroWidth) before
      (c :: after.takeWhile isZeroWidth)
    rw [List.append_assoc, List.cons_append, hmarks] at hdrain
    refine ⟨between before (after.dropWhile isZeroWidth), ?_, onBoundary_append before _⟩
    simp only [delete, between, nextCharacter_append, Option.bind_eq_bind, Option.bind_some,
      List.head?_cons, skipMarks_cons, hdrain]

end Tea.Tui.Composer
