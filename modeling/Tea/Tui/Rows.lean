/-
  Tea/Tui/Rows.lean
  =================
  **Rows of characters.**  The rows of a text and the place of a cursor among them, as
  functions of the characters alone, and `measure` as these two (`measure_rows`,
  `measure_place`).
-/
import Tea.Tui.VisualLayout

namespace Tea.Tui

open Tea.Encoding

/-! ### Rows and places -/

/-- How a row ends: at a line break, where the next character does not fit, or with the text. -/
inductive Ending where
  | hard | soft | last
deriving DecidableEq

/-- A character that does not fit on the row any more. -/
def Overflows (content used : Nat) (c : Char) : Prop := used ≠ 0 ∧ content < used + displayWidth c

instance (content used : Nat) (c : Char) : Decidable (Overflows content used c) :=
  inferInstanceAs (Decidable (_ ∧ _))

/-- The character is put in front of the first row. -/
def onFirstRow (c : Char) : List (List Char × Ending) → List (List Char × Ending)
  | [] => []
  | (chars, ending) :: rows => (c :: chars, ending) :: rows

/-- The rows of a text, the first of them behind `used` columns. -/
def rowsFrom (content : Nat) : Nat → List Char → List (List Char × Ending)
  | _, [] => [([], .last)]
  | used, c :: cs =>
      if c = '\n' then ([], .hard) :: rowsFrom content 0 cs
      else if Overflows content used c then
        ([], .soft) :: onFirstRow c (rowsFrom content (displayWidth c) cs)
      else onFirstRow c (rowsFrom content (used + displayWidth c) cs)

/-- The row and the column of a cursor between two parts of a text, the first of them behind
    `used` columns. -/
def place (content : Nat) : Nat → List Char → List Char → Nat × Nat
  | used, [], [] => (0, used)
  | used, [], c :: _ =>
      if c = '\n' then (0, used) else if Overflows content used c then (1, 0) else (0, used)
  | used, c :: before, after =>
      if c = '\n' then
        let found := place content 0 before after
        (found.1 + 1, found.2)
      else if Overflows content used c then
        let found := place content (displayWidth c) before after
        (found.1 + 1, found.2)
      else place content (used + displayWidth c) before after

/-- Rows as they are measured: of the first one, which starts at `start`, the text up to `offset`
    is `rowText`. -/
def visualRows : Nat → Nat → List Char → List (List Char × Ending) → List VisualRow
  | _, _, _, [] => []
  | start, offset, rowText, (chars, ending) :: rows =>
      let stop := offset + utf8Length chars
      let next := if ending = .hard then stop + 1 else stop
      { text := "❯ ".toList ++ (rowText ++ chars), start, stop } :: visualRows next next [] rows

/-- The characters of rows, with their line breaks. -/
def flat : List (List Char × Ending) → List Char
  | [] => []
  | (chars, ending) :: rows => chars ++ (if ending = .hard then ['\n'] else []) ++ flat rows

/-! ### Rows are the text -/

theorem rowsFrom_cons (content used : Nat) (text : List Char) :
    ∃ chars ending rows, rowsFrom content used text = (chars, ending) :: rows := by
  induction text generalizing used with
  | nil => exact ⟨[], .last, [], rfl⟩
  | cons c text ih =>
    rw [rowsFrom]
    split_ifs
    · exact ⟨_, _, _, rfl⟩
    · exact ⟨_, _, _, rfl⟩
    · obtain ⟨chars, ending, rows, hrows⟩ := ih (used + displayWidth c)
      rw [hrows]
      exact ⟨_, _, _, rfl⟩

@[simp] theorem flat_rowsFrom (content used : Nat) (text : List Char) :
    flat (rowsFrom content used text) = text := by
  induction text generalizing used with
  | nil => rfl
  | cons c text ih =>
    rw [rowsFrom]
    split_ifs with hbreak
    · simp [flat, ih, hbreak]
    · obtain ⟨chars, ending, rows, hrows⟩ := rowsFrom_cons content (displayWidth c) text
      have hflat := ih (displayWidth c)
      rw [hrows] at hflat ⊢
      simpa [flat, onFirstRow] using hflat
    · obtain ⟨chars, ending, rows, hrows⟩ := rowsFrom_cons content (used + displayWidth c) text
      have hflat := ih (used + displayWidth c)
      rw [hrows] at hflat ⊢
      simpa [flat, onFirstRow] using hflat

@[simp] theorem onFirstRow_length (c : Char) (rows : List (List Char × Ending)) :
    (onFirstRow c rows).length = rows.length := by
  cases rows <;> rfl

theorem onFirstRow_ending {c : Char} {rows : List (List Char × Ending)} {row : Nat}
    {chars : List Char} {ending : Ending} (h : (onFirstRow c rows)[row]? = some (chars, ending)) :
    ∃ shorter, rows[row]? = some (shorter, ending) := by
  cases rows with
  | nil => simp [onFirstRow] at h
  | cons first rows =>
    cases row with
    | zero =>
      obtain ⟨-, hending⟩ := Prod.mk.inj (Option.some.inj h)
      exact ⟨first.1, by rw [← hending]; rfl⟩
    | succ row => exact ⟨chars, h⟩

theorem rowsFrom_length_pos (content used : Nat) (text : List Char) :
    0 < (rowsFrom content used text).length := by
  obtain ⟨chars, ending, rows, hrows⟩ := rowsFrom_cons content used text
  simp [hrows]

/-- The last row is the one that ends with the text. -/
theorem rowsFrom_last {content used : Nat} {text : List Char} {row : Nat} {chars : List Char}
    {ending : Ending} (h : (rowsFrom content used text)[row]? = some (chars, ending)) :
    ending = .last ↔ row + 1 = (rowsFrom content used text).length := by
  induction text generalizing used row chars with
  | nil =>
    cases row with
    | zero =>
      obtain ⟨-, rfl⟩ := Prod.mk.inj (Option.some.inj h)
      simp [rowsFrom]
    | succ row => simp [rowsFrom] at h
  | cons c text ih =>
    rw [rowsFrom] at h ⊢
    split_ifs at h ⊢
    · cases row with
      | zero =>
        obtain ⟨-, rfl⟩ := Prod.mk.inj (Option.some.inj h)
        have hpos := rowsFrom_length_pos content 0 text
        simp only [reduceCtorEq, false_iff, List.length_cons]
        omega
      | succ row => rw [ih h, List.length_cons, Nat.add_right_cancel_iff]
    · cases row with
      | zero =>
        obtain ⟨-, rfl⟩ := Prod.mk.inj (Option.some.inj h)
        have hpos := rowsFrom_length_pos content (displayWidth c) text
        simp only [reduceCtorEq, false_iff, List.length_cons, onFirstRow_length]
        omega
      | succ row =>
        obtain ⟨shorter, hrow⟩ := onFirstRow_ending h
        rw [ih hrow, List.length_cons, onFirstRow_length, Nat.add_right_cancel_iff]
    · obtain ⟨shorter, hrow⟩ := onFirstRow_ending h
      rw [ih hrow, onFirstRow_length]

/-- The columns in front of a row. -/
def base (used row : Nat) : Nat := if row = 0 then used else 0

/-- **Where the cursor is.**  It stands in a row behind some of its characters, and not at the end
    of a row that ends where a character does not fit. -/
theorem place_spec (content used : Nat) (before after : List Char) :
    ∃ chars rest ending,
      (rowsFrom content used (before ++ after))[(place content used before after).1]? =
        some (chars ++ rest, ending) ∧
      before = flat ((rowsFrom content used (before ++ after)).take
        (place content used before after).1) ++ chars ∧
      (place content used before after).2 =
        base used (place content used before after).1 + textWidth chars ∧
      (rest = [] → ending ≠ .soft) := by
  induction before generalizing used with
  | nil =>
    cases after with
    | nil => exact ⟨[], [], .last, rfl, rfl, rfl, fun _ h => nomatch h⟩
    | cons c after =>
      rw [List.nil_append, place, rowsFrom]
      split_ifs with hbreak hover
      · exact ⟨[], [], .hard, rfl, rfl, rfl, fun _ h => nomatch h⟩
      · obtain ⟨chars, ending, rows, hrows⟩ := rowsFrom_cons content (displayWidth c) after
        rw [hrows]
        exact ⟨[], c :: chars, ending, rfl, rfl, rfl, fun h => nomatch h⟩
      · obtain ⟨chars, ending, rows, hrows⟩ :=
          rowsFrom_cons content (used + displayWidth c) after
        rw [hrows]
        exact ⟨[], c :: chars, ending, rfl, rfl, rfl, fun h => nomatch h⟩
  | cons c before ih =>
    rw [List.cons_append, place, rowsFrom]
    split_ifs with hbreak hover
    · obtain ⟨chars, rest, ending, hrow, hbefore, hcolumn, hend⟩ := ih 0
      refine ⟨chars, rest, ending, hrow, ?_, ?_, hend⟩
      · rw [hbreak]
        exact congrArg ('\n' :: ·) hbefore
      · simpa [base] using hcolumn
    · obtain ⟨chars, rest, ending, hrow, hbefore, hcolumn, hend⟩ := ih (displayWidth c)
      generalize place content (displayWidth c) before after = found at *
      obtain ⟨row, column⟩ := found
      obtain ⟨first, firstEnding, rows, hrows⟩ :=
        rowsFrom_cons content (displayWidth c) (before ++ after)
      rw [hrows] at hrow hbefore ⊢
      cases row with
      | zero =>
        obtain ⟨rfl, rfl⟩ := Prod.mk.inj (Option.some.inj hrow)
        refine ⟨c :: chars, rest, firstEnding, rfl, ?_, ?_, hend⟩
        · exact congrArg (c :: ·) hbefore
        · simpa [base, textWidth] using hcolumn
      | succ row =>
        refine ⟨chars, rest, ending, hrow, ?_, ?_, hend⟩
        · exact congrArg (c :: ·) hbefore
        · simpa [base] using hcolumn
    · obtain ⟨chars, rest, ending, hrow, hbefore, hcolumn, hend⟩ := ih (used + displayWidth c)
      generalize place content (used + displayWidth c) before after = found at *
      obtain ⟨row, column⟩ := found
      obtain ⟨first, firstEnding, rows, hrows⟩ :=
        rowsFrom_cons content (used + displayWidth c) (before ++ after)
      rw [hrows] at hrow hbefore ⊢
      cases row with
      | zero =>
        obtain ⟨rfl, rfl⟩ := Prod.mk.inj (Option.some.inj hrow)
        refine ⟨c :: chars, rest, firstEnding, rfl, ?_, ?_, hend⟩
        · exact congrArg (c :: ·) hbefore
        · simpa [base, textWidth, Nat.add_assoc] using hcolumn
      | succ row =>
        refine ⟨chars, rest, ending, hrow, ?_, ?_, hend⟩
        · exact congrArg (c :: ·) hbefore
        · simpa [base] using hcolumn

/-- Behind some characters of a row that starts with one more the same place is found without
    it, or the place is in front of it. -/
theorem onFirstRow_getElem {c : Char} {rows : List (List Char × Ending)} {row : Nat}
    {chars rest : List Char} {ending : Ending}
    (h : (onFirstRow c rows)[row]? = some (chars ++ rest, ending)) :
    (row = 0 ∧ chars = [] ∧ rest ≠ []) ∨
      ∃ shorter, rows[row]? = some (shorter ++ rest, ending) ∧
        flat ((onFirstRow c rows).take row) ++ chars = c :: (flat (rows.take row) ++ shorter) ∧
        textWidth chars = base (displayWidth c) row + textWidth shorter := by
  cases rows with
  | nil => simp [onFirstRow] at h
  | cons first rows =>
    obtain ⟨first, firstEnding⟩ := first
    cases row with
    | zero =>
      obtain ⟨hchars, hending⟩ := Prod.mk.inj (Option.some.inj h)
      cases chars with
      | nil =>
        left
        refine ⟨rfl, rfl, ?_⟩
        rw [← List.nil_append rest, ← hchars]
        simp
      | cons c' chars =>
        obtain ⟨rfl, hfirst⟩ := List.cons.inj hchars
        right
        refine ⟨chars, ?_, rfl, rfl⟩
        rw [hfirst, hending]
        rfl
    | succ row =>
      right
      refine ⟨chars, h, rfl, ?_⟩
      simp [base]

/-- **What a place in a row is.**  Behind some characters of a row the cursor is in that row,
    unless these are all of it and the next character does not fit. -/
theorem place_at (content used : Nat) {text : List Char} {row : Nat} {chars rest : List Char}
    {ending : Ending}
    (h : (rowsFrom content used text)[row]? = some (chars ++ rest, ending)) :
    ∃ after, text = flat ((rowsFrom content used text).take row) ++ chars ++ after ∧
      place content used (flat ((rowsFrom content used text).take row) ++ chars) after =
        if rest = [] ∧ ending = .soft then (row + 1, 0)
        else (row, base used row + textWidth chars) := by
  induction text generalizing used row chars with
  | nil =>
    cases row with
    | zero =>
      obtain ⟨hchars, rfl⟩ := Prod.mk.inj (Option.some.inj h)
      obtain ⟨rfl, rfl⟩ := List.append_eq_nil_iff.mp hchars.symm
      exact ⟨[], rfl, rfl⟩
    | succ row => cases h
  | cons c text ih =>
    by_cases hbreak : c = '\n'
    · rw [rowsFrom, if_pos hbreak] at h ⊢
      cases row with
      | zero =>
        obtain ⟨hchars, rfl⟩ := Prod.mk.inj (Option.some.inj h)
        obtain ⟨rfl, rfl⟩ := List.append_eq_nil_iff.mp hchars.symm
        refine ⟨c :: text, rfl, ?_⟩
        simp [flat, place, hbreak, base, textWidth]
      | succ row =>
        obtain ⟨after, htext, hplace⟩ := ih 0 h
        refine ⟨after, ?_, ?_⟩
        · rw [hbreak]
          exact congrArg ('\n' :: ·) htext
        · rw [List.take_succ_cons, flat, if_pos rfl, List.nil_append, List.cons_append,
            List.cons_append, List.nil_append, place, if_pos rfl, hplace]
          split_ifs <;> simp [base]
    · by_cases hover : Overflows content used c
      · rw [rowsFrom, if_neg hbreak, if_pos hover] at h ⊢
        cases row with
        | zero =>
          obtain ⟨hchars, rfl⟩ := Prod.mk.inj (Option.some.inj h)
          obtain ⟨rfl, rfl⟩ := List.append_eq_nil_iff.mp hchars.symm
          refine ⟨c :: text, rfl, ?_⟩
          simp [flat, place, hbreak, hover]
        | succ row =>
          rw [List.take_succ_cons, flat, if_neg (by simp), List.nil_append, List.nil_append]
          rcases onFirstRow_getElem h with ⟨rfl, rfl, hrest⟩ | ⟨shorter, hrow, hflat, hwidth⟩
          · refine ⟨c :: text, rfl, ?_⟩
            simp [flat, place, hbreak, hover, hrest, base, textWidth]
          · obtain ⟨after, htext, hplace⟩ := ih (displayWidth c) hrow
            refine ⟨after, ?_, ?_⟩
            · rw [hflat]
              exact congrArg (c :: ·) htext
            · rw [hflat, place, if_neg hbreak, if_pos hover, hplace, hwidth]
              split_ifs <;> simp [base]
      · rw [rowsFrom, if_neg hbreak, if_neg hover] at h ⊢
        rcases onFirstRow_getElem h with ⟨rfl, rfl, hrest⟩ | ⟨shorter, hrow, hflat, hwidth⟩
        · refine ⟨c :: text, rfl, ?_⟩
          simp [flat, place, hbreak, hover, hrest, base, textWidth]
        · obtain ⟨after, htext, hplace⟩ := ih (used + displayWidth c) hrow
          refine ⟨after, ?_, ?_⟩
          · rw [hflat]
            exact congrArg (c :: ·) htext
          · rw [hflat, place, if_neg hbreak, if_neg hover, hplace, hwidth]
            split_ifs
            · rfl
            · cases row <;> simp [base, Nat.add_assoc]

/-! ### The measured layout -/

/-- The character is put on the row. -/
def Measuring.put (m : Measuring) (c : Char) : Measuring :=
  { m with
    rowText := m.rowText ++ [c], used := m.used + displayWidth c, offset := m.offset + c.utf8Size }

/-- Noting the cursor changes its row and its column only. -/
theorem Measuring.note_eq (m : Measuring) (cursor : Nat) :
    ∃ cursorRow cursorColumn, m.note cursor = { m with cursorRow, cursorColumn } := by
  rw [Measuring.note]
  split_ifs
  · exact ⟨_, _, rfl⟩
  · exact ⟨_, _, rfl⟩

theorem Measuring.note_of_ne {m : Measuring} {cursor : Nat} (h : cursor ≠ m.offset) :
    m.note cursor = m := by
  rw [Measuring.note, if_neg h]

theorem Measuring.step_break (content cursor : Nat) (m : Measuring) :
    m.step content cursor '\n' =
      { (m.note cursor).push (m.offset + 1) with offset := m.offset + 1 } := rfl

theorem Measuring.step_overflow {content : Nat} (cursor : Nat) {m : Measuring} {c : Char}
    (hbreak : c ≠ '\n') (hover : Overflows content m.used c) :
    m.step content cursor c = ((m.push m.offset).note cursor).put c := by
  obtain ⟨cursorRow, cursorColumn, hnote⟩ := (m.push m.offset).note_eq cursor
  simp only [Measuring.step, if_neg hbreak, if_pos (show m.used ≠ 0 ∧ _ from hover), hnote,
    Measuring.put]
  rfl

theorem Measuring.step_fits {content : Nat} (cursor : Nat) {m : Measuring} {c : Char}
    (hbreak : c ≠ '\n') (hover : ¬ Overflows content m.used c) :
    m.step content cursor c = (m.note cursor).put c := by
  obtain ⟨cursorRow, cursorColumn, hnote⟩ := m.note_eq cursor
  simp only [Measuring.step, if_neg hbreak, if_neg (show ¬ (m.used ≠ 0 ∧ _) from hover), hnote,
    Measuring.put]

theorem visualRows_onFirstRow (start offset : Nat) (rowText : List Char) (c : Char)
    (rows : List (List Char × Ending)) :
    visualRows start offset rowText (onFirstRow c rows) =
      visualRows start (offset + c.utf8Size) (rowText ++ [c]) rows := by
  cases rows with
  | nil => rfl
  | cons first rows => simp [onFirstRow, visualRows, Nat.add_assoc]

/-- The rows that are measured from a state of the loop on. -/
theorem foldl_rows (content cursor : Nat) (text : List Char) (m : Measuring) :
    (text.foldl (Measuring.step content cursor) m).rows ++
        [(text.foldl (Measuring.step content cursor) m).row] =
      m.rows ++ visualRows m.rowStart m.offset m.rowText (rowsFrom content m.used text) := by
  induction text generalizing m with
  | nil => simp [rowsFrom, visualRows, Measuring.row]
  | cons c text ih =>
    rw [List.foldl_cons, ih, rowsFrom]
    by_cases hbreak : c = '\n'
    · obtain ⟨cursorRow, cursorColumn, hnote⟩ := m.note_eq cursor
      subst hbreak
      rw [if_pos rfl, Measuring.step_break, hnote, visualRows]
      simp [Measuring.push, Measuring.row]
    · rw [if_neg hbreak]
      by_cases hover : Overflows content m.used c
      · obtain ⟨cursorRow, cursorColumn, hnote⟩ := (m.push m.offset).note_eq cursor
        rw [if_pos hover, Measuring.step_overflow cursor hbreak hover, hnote, visualRows,
          visualRows_onFirstRow]
        simp [Measuring.push, Measuring.put, Measuring.row]
      · obtain ⟨cursorRow, cursorColumn, hnote⟩ := m.note_eq cursor
        rw [if_neg hover, Measuring.step_fits cursor hbreak hover, hnote, visualRows_onFirstRow]
        rfl

/-- Behind the cursor nothing is noted any more. -/
theorem foldl_note_of_lt (content cursor : Nat) (text : List Char) {m : Measuring}
    (h : cursor < m.offset) :
    ((text.foldl (Measuring.step content cursor) m).note cursor).cursorRow = m.cursorRow ∧
      ((text.foldl (Measuring.step content cursor) m).note cursor).cursorColumn =
        m.cursorColumn := by
  induction text generalizing m with
  | nil =>
    rw [List.foldl_nil, Measuring.note_of_ne (Nat.ne_of_lt h)]
    exact ⟨rfl, rfl⟩
  | cons c text ih =>
    rw [List.foldl_cons]
    by_cases hbreak : c = '\n'
    · subst hbreak
      rw [Measuring.step_break, Measuring.note_of_ne (Nat.ne_of_lt h)]
      exact ih (Nat.lt_succ_of_lt h)
    · by_cases hover : Overflows content m.used c
      · rw [Measuring.step_overflow cursor hbreak hover,
          Measuring.note_of_ne (m := m.push _) (Nat.ne_of_lt h)]
        exact ih (Nat.lt_add_right _ h)
      · rw [Measuring.step_fits cursor hbreak hover, Measuring.note_of_ne (Nat.ne_of_lt h)]
        exact ih (Nat.lt_add_right _ h)

/-- The place of a cursor that is still ahead. -/
theorem foldl_place (content cursor : Nat) (before after : List Char) {m : Measuring}
    (h : cursor = m.offset + utf8Length before) :
    (((before ++ after).foldl (Measuring.step content cursor) m).note cursor).cursorRow =
        m.rows.length + (place content m.used before after).1 ∧
      (((before ++ after).foldl (Measuring.step content cursor) m).note cursor).cursorColumn =
        2 + (place content m.used before after).2 := by
  induction before generalizing m with
  | nil =>
    obtain rfl : cursor = m.offset := h
    cases after with
    | nil => simp [Measuring.note, place]
    | cons c after =>
      have hpos := Char.utf8Size_pos c
      rw [List.nil_append, List.foldl_cons, place]
      by_cases hbreak : c = '\n'
      · subst hbreak
        rw [Measuring.step_break, if_pos rfl]
        have hlater := foldl_note_of_lt content m.offset after
          (m := { (m.note m.offset).push (m.offset + 1) with offset := m.offset + 1 })
          (Nat.lt_succ_self _)
        simpa [Measuring.note, Measuring.push] using hlater
      · rw [if_neg hbreak]
        by_cases hover : Overflows content m.used c
        · rw [Measuring.step_overflow m.offset hbreak hover, if_pos hover]
          have hlater := foldl_note_of_lt content m.offset after
            (m := ((m.push m.offset).note m.offset).put c)
            (by simp [Measuring.note, Measuring.push, Measuring.put, hpos])
          simpa [Measuring.note, Measuring.push, Measuring.put] using hlater
        · rw [Measuring.step_fits m.offset hbreak hover, if_neg hover]
          have hlater := foldl_note_of_lt content m.offset after
            (m := (m.note m.offset).put c) (by simp [Measuring.note, Measuring.put, hpos])
          simpa [Measuring.note, Measuring.put] using hlater
  | cons c before ih =>
    rw [utf8Length_cons, ← Nat.add_assoc] at h
    rw [List.cons_append, List.foldl_cons, place]
    by_cases hbreak : c = '\n'
    · obtain ⟨cursorRow, cursorColumn, hnote⟩ := m.note_eq cursor
      subst hbreak
      rw [Measuring.step_break, if_pos rfl, hnote]
      have hrest := ih (m := { Measuring.push { m with cursorRow, cursorColumn } (m.offset + 1) with
        offset := m.offset + 1 }) h
      simpa [Measuring.push, Nat.add_assoc, Nat.add_comm 1] using hrest
    · rw [if_neg hbreak]
      by_cases hover : Overflows content m.used c
      · obtain ⟨cursorRow, cursorColumn, hnote⟩ := (m.push m.offset).note_eq cursor
        rw [Measuring.step_overflow cursor hbreak hover, if_pos hover, hnote]
        have hrest := ih (m := Measuring.put { m.push m.offset with cursorRow, cursorColumn } c) h
        simpa [Measuring.push, Measuring.put, Nat.add_assoc, Nat.add_comm 1] using hrest
      · obtain ⟨cursorRow, cursorColumn, hnote⟩ := m.note_eq cursor
        rw [Measuring.step_fits cursor hbreak hover, if_neg hover, hnote]
        exact ih (m := Measuring.put { m with cursorRow, cursorColumn } c) h

/-- **The rows are measured as they are.** -/
theorem measure_rows (text : List Char) (cursor : Nat) (width : UInt16) :
    (VisualLayout.measure text cursor width).rows =
      visualRows 0 0 [] (rowsFrom (contentWidth width) 0 text) := by
  obtain ⟨cursorRow, cursorColumn, hnote⟩ := (text.foldl (Measuring.step (contentWidth width)
    (min cursor (utf8Length text))) {}).note_eq (min cursor (utf8Length text))
  rw [VisualLayout.measure, hnote]
  exact foldl_rows (contentWidth width) (min cursor (utf8Length text)) text {}

@[simp] theorem visualRows_length (start offset : Nat) (rowText : List Char)
    (rows : List (List Char × Ending)) :
    (visualRows start offset rowText rows).length = rows.length := by
  induction rows generalizing start offset rowText with
  | nil => rfl
  | cons line rows ih => simp [visualRows, ih]

/-- A measured row is where the rows before it end. -/
theorem visualRows_getElem (start : Nat) (rows : List (List Char × Ending)) (row : Nat) :
    (visualRows start start [] rows)[row]? = rows[row]?.map fun line =>
      { text := "❯ ".toList ++ line.1
        start := start + utf8Length (flat (rows.take row))
        stop := start + utf8Length (flat (rows.take row) ++ line.1) } := by
  induction rows generalizing start row with
  | nil => simp [visualRows]
  | cons line rows ih =>
    obtain ⟨chars, ending⟩ := line
    cases row with
    | zero => simp [visualRows, flat]
    | succ row =>
      rw [visualRows, List.getElem?_cons_succ, List.getElem?_cons_succ, ih]
      by_cases hhard : ending = .hard
      · simp [flat, hhard, Nat.add_assoc]
      · simp [flat, hhard, Nat.add_assoc]

theorem flat_append (rows rows' : List (List Char × Ending)) :
    flat (rows ++ rows') = flat rows ++ flat rows' := by
  induction rows with
  | nil => rfl
  | cons line rows ih => simp [flat, ih]

theorem flat_take_succ {rows : List (List Char × Ending)} {row : Nat} {chars : List Char}
    {ending : Ending} (h : rows[row]? = some (chars, ending)) :
    flat (rows.take (row + 1)) =
      flat (rows.take row) ++ chars ++ (if ending = .hard then ['\n'] else []) := by
  rw [List.take_add_one, h, flat_append]
  simp [flat]

/-- A row is a part of the text. -/
theorem flat_getElem {rows : List (List Char × Ending)} {row : Nat} {chars : List Char}
    {ending : Ending} (h : rows[row]? = some (chars, ending)) :
    ∃ after, flat rows = flat (rows.take row) ++ chars ++ after := by
  refine ⟨(if ending = .hard then ['\n'] else []) ++ flat (rows.drop (row + 1)), ?_⟩
  rw [← List.append_assoc, ← flat_take_succ h, ← flat_append, List.take_append_drop]

theorem slice_row {rows : List (List Char × Ending)} {row : Nat} {chars : List Char}
    {ending : Ending} (h : rows[row]? = some (chars, ending)) :
    slice (flat rows) (utf8Length (flat (rows.take row)))
      (utf8Length (flat (rows.take row) ++ chars)) = some chars := by
  obtain ⟨after, hflat⟩ := flat_getElem h
  rw [hflat]
  exact slice_append _ _ _

/-- The row behind starts where a row ends if the next character did not fit on it. -/
theorem next_start_iff {content : Nat} {text : List Char} {row : Nat} {chars : List Char}
    {ending : Ending} (h : (rowsFrom content 0 text)[row]? = some (chars, ending)) :
    (∃ next, (visualRows 0 0 [] (rowsFrom content 0 text))[row + 1]? = some next ∧
      next.start = utf8Length (flat ((rowsFrom content 0 text).take row) ++ chars)) ↔
      ending = .soft := by
  have hlast := rowsFrom_last h
  have hnext := flat_take_succ h
  generalize rowsFrom content 0 text = rows at *
  rw [visualRows_getElem]
  constructor
  · rintro ⟨next, hsome, hstart⟩
    obtain ⟨line, hline, rfl⟩ := Option.map_eq_some_iff.mp hsome
    obtain ⟨hlt, -⟩ := List.getElem?_eq_some_iff.mp hline
    cases ending with
    | hard =>
      rw [hnext] at hstart
      simp at hstart
    | soft => rfl
    | last => exact absurd (hlast.mp rfl) (Nat.ne_of_lt hlt)
  · intro hsoft
    obtain ⟨hlt, -⟩ := List.getElem?_eq_some_iff.mp h
    have hne : row + 1 ≠ rows.length := fun heq => by
      rw [hsoft] at hlast
      cases hlast.mpr heq
    have hget := List.getElem?_eq_getElem (l := rows) (i := row + 1) (by omega)
    refine ⟨_, by rw [hget, Option.map_some], ?_⟩
    rw [hnext, hsoft]
    simp

/-- **The cursor is measured where it is.** -/
theorem measure_place (before after : List Char) (width : UInt16) :
    (VisualLayout.measure (before ++ after) (utf8Length before) width).cursorRow =
        (place (contentWidth width) 0 before after).1 ∧
      (VisualLayout.measure (before ++ after) (utf8Length before) width).cursorColumn =
        min (2 + (place (contentWidth width) 0 before after).2) (max width.toNat 1 - 1) := by
  have hcursor : min (utf8Length before) (utf8Length (before ++ after)) = utf8Length before := by
    rw [utf8Length_append]
    omega
  obtain ⟨hrow, hcolumn⟩ := foldl_place (contentWidth width) (utf8Length before) before after
    (m := {}) (Nat.zero_add _).symm
  simp only [VisualLayout.measure, hcursor, hrow, hcolumn]
  simp

end Tea.Tui
