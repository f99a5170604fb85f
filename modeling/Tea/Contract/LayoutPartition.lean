/-
  Tea/Contract/LayoutPartition.lean
  =================================
  **The measured rows are the text, cut at its line breaks and where it does not fit.**
  A row that is too wide has one wide scalar, and only scalars without width in front of
  it; the row of the cursor contains it.
-/
import Tea.Tui.Cursor

namespace Tea.Contract

open Tea.Encoding Tea.Tui Tea.Tui.Composer

/-! ### What a layout promises -/

/-- A row that is wider than the content has one scalar of a width, the last one. -/
def OneWide (content : Nat) (chars : List Char) : Prop :=
  ∃ lead wide, chars = lead ++ [wide] ∧ (∀ c ∈ lead, displayWidth c = 0) ∧
    content < displayWidth wide

/-- A row reads a part of the text without line breaks, starts with the text or behind the row
    before it, and ends with the text or at most a line break before the next row. -/
structure RowOf (text : List Char) (content : Nat) (layout : VisualLayout) (index : Nat)
    (row : VisualRow) (chars : List Char) : Prop where
  read : slice text row.start row.stop = some chars
  prompt : row.text = "❯ ".toList ++ chars
  unbroken : '\n' ∉ chars
  first : index = 0 → row.start = 0
  last : index + 1 = layout.rows.length → row.stop = utf8Length text
  next : ∀ next, layout.rows[index + 1]? = some next →
    next.start = row.stop ∨ slice text row.stop next.start = some ['\n']
  width : textWidth chars ≤ content ∨ OneWide content chars

/-- The rows are the text, and the cursor is in its row. -/
structure Partitions (text : List Char) (cursor content : Nat) (layout : VisualLayout) : Prop where
  nonempty : 0 < layout.rows.length
  rows : ∀ index row, layout.rows[index]? = some row →
    ∃ chars, RowOf text content layout index row chars
  cursor : ∃ row, layout.rows[layout.cursorRow]? = some row ∧
    row.start ≤ cursor ∧ cursor ≤ row.stop

/-! ### Widths of rows -/

/-- What a row behind `used` columns is like. -/
def RowFits (content used : Nat) (chars : List Char) : Prop :=
  '\n' ∉ chars ∧
    (used + textWidth chars ≤ content ∨ chars = [] ∨ (used = 0 ∧ OneWide content chars))

theorem rowFits_nil (content used : Nat) : RowFits content used [] :=
  ⟨List.not_mem_nil, .inr (.inl rfl)⟩

/-- A character that fits is put in front of a row. -/
theorem RowFits.cons {content used : Nat} {c : Char} {chars : List Char} (hbreak : c ≠ '\n')
    (hover : used = 0 ∨ used + displayWidth c ≤ content)
    (h : RowFits content (used + displayWidth c) chars) : RowFits content used (c :: chars) := by
  obtain ⟨hunbroken, hwidth⟩ := h
  constructor
  · rw [List.mem_cons, not_or]
    exact ⟨hbreak.symm, hunbroken⟩
  · rcases hwidth with hwidth | rfl | ⟨hused, lead, wide, rfl, hlead, hwide⟩
    · left
      rwa [textWidth, ← Nat.add_assoc]
    · by_cases hfits : used + displayWidth c ≤ content
      · left
        simpa [textWidth] using hfits
      · obtain rfl := hover.resolve_right hfits
        right; right
        exact ⟨rfl, [], c, rfl, by simp, by omega⟩
    · right; right
      obtain ⟨rfl, hzero⟩ := Nat.add_eq_zero_iff.mp hused
      exact ⟨rfl, c :: lead, wide, rfl, List.forall_mem_cons.mpr ⟨hzero, hlead⟩, hwide⟩

/-- The first of the rows fits behind `used` columns, and the others on rows of their own. -/
def AllFit (content used : Nat) (rows : List (List Char × Ending)) : Prop :=
  ∀ index chars ending, rows[index]? = some (chars, ending) →
    RowFits content (base used index) chars

theorem AllFit.cons {content used : Nat} {chars : List Char} {ending : Ending}
    {rows : List (List Char × Ending)} (hfirst : RowFits content used chars)
    (h : AllFit content 0 rows) : AllFit content used ((chars, ending) :: rows) := by
  intro index chars' ending' hrow
  cases index with
  | zero =>
    obtain ⟨rfl, -⟩ := Prod.mk.inj (Option.some.inj hrow)
    exact hfirst
  | succ index =>
    have hfits := h index chars' ending' hrow
    rwa [base, ite_self] at hfits

theorem AllFit.onFirstRow {content used : Nat} {c : Char} {rows : List (List Char × Ending)}
    (hbreak : c ≠ '\n') (hover : used = 0 ∨ used + displayWidth c ≤ content)
    (h : AllFit content (used + displayWidth c) rows) :
    AllFit content used (onFirstRow c rows) := by
  cases rows with
  | nil => exact fun index chars ending hrow => by simp [Tui.onFirstRow] at hrow
  | cons line rows =>
    refine AllFit.cons (RowFits.cons hbreak hover (h 0 line.1 line.2 rfl)) ?_
    intro index chars ending hrow
    have hfits := h (index + 1) chars ending hrow
    rwa [base, if_neg (Nat.succ_ne_zero index), ← ite_self (c := index = 0) 0] at hfits

theorem allFit_rowsFrom (content used : Nat) (text : List Char) :
    AllFit content used (rowsFrom content used text) := by
  induction text generalizing used with
  | nil => exact AllFit.cons (rowFits_nil content used) fun index _ _ hrow => by simp at hrow
  | cons c text ih =>
    rw [rowsFrom]
    split_ifs with hbreak hover
    · exact AllFit.cons (rowFits_nil content used) (ih 0)
    · refine AllFit.cons (rowFits_nil content used) (AllFit.onFirstRow hbreak (.inl rfl) ?_)
      rw [Nat.zero_add]
      exact ih (displayWidth c)
    · refine AllFit.onFirstRow hbreak ?_ (ih (used + displayWidth c))
      rw [Overflows, not_and_or, not_not, Nat.not_lt] at hover
      exact hover

/-! ### The measured layout -/

/-- **The measured rows are the text.**  Every text is partitioned into rows, of which the row of
    the cursor contains it, wherever the cursor is and however wide the terminal. -/
theorem measure_partitions {text : List Char} {cursor : Nat} (h : OnBoundary text cursor)
    (width : UInt16) :
    Partitions text cursor (contentWidth width) (VisualLayout.measure text cursor width) := by
  obtain ⟨before, after, rfl, rfl⟩ := h
  have hrows := measure_rows (before ++ after) (utf8Length before) width
  have hplace := (measure_place before after width).1
  have hflat := flat_rowsFrom (contentWidth width) 0 (before ++ after)
  generalize VisualLayout.measure (before ++ after) (utf8Length before) width = layout at *
  refine ⟨?_, ?_, ?_⟩
  · rw [hrows, visualRows_length]
    exact rowsFrom_length_pos _ _ _
  · intro index row hrow
    rw [hrows, visualRows_getElem] at hrow
    obtain ⟨⟨chars, ending⟩, hline, rfl⟩ := Option.map_eq_some_iff.mp hrow
    obtain ⟨hunbroken, hwidth⟩ := allFit_rowsFrom _ _ _ index chars ending hline
    have hread := slice_row hline
    have hlast := rowsFrom_last hline
    have hsucc := flat_take_succ hline
    rw [hflat] at hread
    generalize rowsFrom (contentWidth width) 0 (before ++ after) = rows at *
    refine ⟨chars, ?_, rfl, hunbroken, ?_, ?_, ?_, ?_⟩
    · simpa using hread
    · rintro rfl
      simp [flat]
    · intro hindex
      rw [hrows, visualRows_length] at hindex
      have hall : flat (rows.take (index + 1)) = before ++ after := by
        rw [hindex, List.take_length, hflat]
      rw [hall, if_neg (by rw [hlast.mpr hindex]; exact Ending.noConfusion)] at hsucc
      simp [hsucc]
    · intro next hnext
      rw [hrows, visualRows_getElem] at hnext
      obtain ⟨following, -, rfl⟩ := Option.map_eq_some_iff.mp hnext
      by_cases hhard : ending = .hard
      · right
        rw [if_pos hhard] at hsucc
        have hbreak := slice_append (flat (rows.take index) ++ chars) ['\n']
          (flat (rows.drop (index + 1)))
        rw [← hsucc, ← flat_append, List.take_append_drop, hflat] at hbreak
        simpa only [Nat.zero_add] using hbreak
      · left
        rw [if_neg hhard, List.append_nil] at hsucc
        rw [hsucc]
    · rw [base, ite_self, Nat.zero_add] at hwidth
      rcases hwidth with hwidth | rfl | ⟨-, hwide⟩
      · exact .inl hwidth
      · exact .inl (Nat.zero_le _)
      · exact .inr hwide
  · obtain ⟨chars, rest, ending, hrow, hbefore, -⟩ := place_spec (contentWidth width) 0 before after
    generalize rowsFrom (contentWidth width) 0 (before ++ after) = rows at *
    have hget := visualRows_getElem 0 rows (place (contentWidth width) 0 before after).1
    rw [hrow, Option.map_some, ← hrows, ← hplace] at hget
    have hlength := congrArg utf8Length hbefore
    rw [← hplace] at hlength
    refine ⟨_, hget, ?_⟩
    simp only [utf8Length_append] at hlength ⊢
    omega

theorem measure_partitions_start :
    Partitions "界\u0301界".toList 0 (contentWidth 3)
      (VisualLayout.measure "界\u0301界".toList 0 3) :=
  measure_partitions ⟨[], _, rfl, rfl⟩ 3

/-! ### Wide rows -/

/-- A row that is wider than the content is a wide scalar with the scalars without width that
    follow it. -/
def WideWithFollowers (content : Nat) (chars : List Char) : Prop :=
  ∃ wide follow, chars = wide :: follow ∧ (∀ c ∈ follow, displayWidth c = 0) ∧
    content < displayWidth wide

/-- Of two wide scalars with a mark between them, the second one is on the row of the mark. -/
theorem mark_leads :
    ∃ row chars, (VisualLayout.measure "界\u0301界".toList 0 3).rows[1]? = some row ∧
      slice "界\u0301界".toList row.start row.stop = some chars ∧
      ¬ (textWidth chars ≤ contentWidth 3 ∨ WideWithFollowers (contentWidth 3) chars) := by
  refine ⟨{ text := "❯ \u0301界".toList, start := 3, stop := 8 }, "\u0301界".toList, by decide,
    by decide, ?_⟩
  rintro (hwidth | ⟨wide, follow, hchars, -, hwide⟩)
  · exact absurd hwidth (by decide)
  · obtain rfl : '\u0301' = wide := (List.cons.inj hchars).1
    exact absurd hwide (by decide)

end Tea.Contract
