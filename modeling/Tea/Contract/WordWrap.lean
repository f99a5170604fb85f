/-
  Tea/Contract/WordWrap.lean
  ==========================
  **Wrapping loses nothing but white space**: rows fit, the other characters keep their order
  and their styles, and a line has a row.

  A styled line always wraps so (`wrapStyledLine_keeps`).  Raw text does just when no line of
  it is made of white space alone (`wrapRawText_keeps_iff`): such a line is trimmed to nothing
  before its first row, and only the empty line is given one.
-/
import Tea.Render.Wrap

namespace Tea.Contract

open Tea.Tui Tea.Render

/-! ### Raw text -/

/-- Rows of a text that lose nothing. -/
structure KeepsText (text : List Char) (width : Nat) : Prop where
  fits : ∀ row ∈ wrapRawText text width, FitsRow width row
  kept : (wrapRawText text width).flatten.filter visible = text.filter visible
  shown : ∀ logical ∈ text.splitOn '\n', wrapLogical width logical ≠ []

/-- A line of white space, not empty. -/
def Blank (logical : List Char) : Prop :=
  logical ≠ [] ∧ ∀ symbol ∈ logical, isWhitespace symbol = true

/-- A separator that is not kept can be left out. -/
theorem filter_intercalate {α : Type} {p : α → Bool} {sep : α} (hsep : p sep = false)
    (parts : List (List α)) : ([sep].intercalate parts).filter p = parts.flatten.filter p := by
  induction parts with
  | nil => simp
  | cons part parts ih =>
    cases parts with
    | nil => simp
    | cons next parts =>
      rw [List.intercalate_cons_cons, List.filter_append, List.filter_append, ih,
        List.flatten_cons, List.filter_append]
      simp [hsep]

theorem visible_wrapRawText (text : List Char) {width : Nat} (hwidth : 0 < width) :
    (wrapRawText text width).flatten.filter visible = text.filter visible := by
  have hlines : ∀ lines : List (List Char),
      (lines.flatMap (wrapLogical width)).flatten.filter visible =
        lines.flatten.filter visible := by
    intro lines
    induction lines with
    | nil => rfl
    | cons logical lines ih =>
      rw [List.flatMap_cons, List.flatten_append, List.filter_append, ih, visible_wrapLogical,
        List.flatten_cons, List.filter_append]
  have hbreak : visible '\n' = false := by decide
  rw [wrapRawText, if_neg (Nat.ne_of_gt hwidth), hlines, ← filter_intercalate hbreak,
    List.intercalate_splitOn]

theorem wrapRawText_keeps_iff (text : List Char) {width : Nat} (hwidth : 0 < width) :
    KeepsText text width ↔ ∀ logical ∈ text.splitOn '\n', ¬ Blank logical := by
  constructor
  · intro hkeeps logical hlogical hblank
    exact hkeeps.shown logical hlogical (wrapLogical_eq_nil.mpr hblank)
  · intro hlines
    refine ⟨?_, visible_wrapRawText text hwidth, ?_⟩
    · intro row hrow
      rw [wrapRawText, if_neg (Nat.ne_of_gt hwidth), List.mem_flatMap] at hrow
      obtain ⟨logical, -, hrow⟩ := hrow
      exact fitsRow_wrapLogical hrow
    · intro logical hlogical hnone
      exact hlines logical hlogical (wrapLogical_eq_nil.mp hnone)

/-! ### Styled lines -/

/-- Every character of the line has a style. -/
def Styled (line : RenderLine) : Prop :=
  ∀ styles, line.characterStyles = some styles → styles.length = line.text.toList.length

/-- Rows of a styled line that lose nothing. -/
structure KeepsLine (line : RenderLine) (width : Nat) (preserveIndentation : Bool) : Prop where
  whole : (styledCharacters line).map (·.1) = line.text.toList
  fits : ∀ row ∈ wrapStyledLine line width preserveIndentation, FitsRow width row.text.toList
  styled : ∀ row ∈ wrapStyledLine line width preserveIndentation, Styled row
  kept :
    ((wrapStyledLine line width preserveIndentation).flatMap styledCharacters).filter
        visibleCharacter =
      (styledCharacters line).filter visibleCharacter
  shown : wrapStyledLine line width preserveIndentation ≠ []

theorem symbols_styledCharacters {line : RenderLine} (h : Styled line) :
    (styledCharacters line).map (·.1) = line.text.toList := by
  refine List.map_fst_zip ?_
  cases hstyles : line.characterStyles with
  | none => simp
  | some styles => rw [Option.getD_some, h styles hstyles]

theorem styled_styledLine (style : Style) (row : List (Char × Style)) :
    Styled (styledLine style row) := by
  intro styles hstyles
  rw [characterStyles_styledLine, Option.some.injEq] at hstyles
  rw [← hstyles, styledLine, String.toList_ofList, List.length_map, List.length_map]

/-- The characters that `wrap_styled_line` wraps. -/
def wrappedCharacters (line : RenderLine) (preserveIndentation : Bool) : List (Char × Style) :=
  if preserveIndentation then styledCharacters line
  else (styledCharacters line).dropWhile fun character => isWhitespace character.1

theorem visible_wrappedCharacters (line : RenderLine) (preserveIndentation : Bool) :
    (wrappedCharacters line preserveIndentation).filter visibleCharacter =
      (styledCharacters line).filter visibleCharacter := by
  have hdrop := filter_dropWhile (fun character : Char × Style => isWhitespace character.1)
    (styledCharacters line)
  cases preserveIndentation with
  | true => rw [wrappedCharacters, if_pos rfl]
  | false =>
    rw [wrappedCharacters, if_neg (by decide)]
    exact hdrop

theorem wrapStyledLine_eq (line : RenderLine) {width : Nat} (hwidth : 0 < width)
    (preserveIndentation : Bool) :
    wrapStyledLine line width preserveIndentation =
      if wrappedCharacters line preserveIndentation = [] then
        [{ text := "", style := line.style }]
      else (wrapCharacters width (wrappedCharacters line preserveIndentation)).map
        (styledLine line.style) := by
  rw [wrapStyledLine, if_neg (Nat.ne_of_gt hwidth)]
  rfl

/-- **A styled line** loses nothing. -/
theorem wrapStyledLine_keeps {line : RenderLine} (hstyled : Styled line) {width : Nat}
    (hwidth : 0 < width) (preserveIndentation : Bool) :
    KeepsLine line width preserveIndentation := by
  have hkept := visible_wrappedCharacters line preserveIndentation
  have hrows := wrapStyledLine_eq line hwidth preserveIndentation
  by_cases hempty : wrappedCharacters line preserveIndentation = []
  · rw [if_pos hempty] at hrows
    rw [hempty] at hkept
    refine ⟨symbols_styledCharacters hstyled, ?_, ?_, ?_, ?_⟩
    · intro row hrow
      rw [hrows, List.mem_singleton] at hrow
      rw [hrow]
      exact .inl (Nat.zero_le _)
    · intro row hrow styles hstyles
      rw [hrows, List.mem_singleton] at hrow
      rw [hrow] at hstyles
      cases hstyles
    · rw [hrows, ← hkept]
      rfl
    · rw [hrows]
      exact List.cons_ne_nil _ _
  · rw [if_neg hempty] at hrows
    refine ⟨symbols_styledCharacters hstyled, ?_, ?_, ?_, ?_⟩
    · intro row hrow
      rw [hrows, List.mem_map] at hrow
      obtain ⟨characters, hcharacters, rfl⟩ := hrow
      rw [styledLine, String.toList_ofList]
      exact fitsRow_wrapCharacters hcharacters
    · intro row hrow
      rw [hrows, List.mem_map] at hrow
      obtain ⟨characters, -, rfl⟩ := hrow
      exact styled_styledLine line.style characters
    · have hcharacters :
          ((wrapCharacters width (wrappedCharacters line preserveIndentation)).map
            (styledLine line.style)).flatMap styledCharacters =
          (wrapCharacters width (wrappedCharacters line preserveIndentation)).flatten := by
        rw [List.flatMap_map]
        simp only [styledCharacters_styledLine]
        exact List.flatMap_id
      rw [hrows, hcharacters, visible_wrapCharacters, hkept]
    · rw [hrows]
      intro hnone
      exact wrapCharacters_ne_nil hempty (List.map_eq_nil_iff.mp hnone)

/-! ### Both -/

/-- **Word wrapping** loses nothing of a text and of a styled line, just when no line of the
    text is made of white space alone. -/
theorem wrapping_keeps_iff (text : List Char) {line : RenderLine} (hstyled : Styled line)
    {width : Nat} (hwidth : 0 < width) (preserveIndentation : Bool) :
    (KeepsText text width ∧ KeepsLine line width preserveIndentation) ↔
      ∀ logical ∈ text.splitOn '\n', ¬ Blank logical := by
  rw [wrapRawText_keeps_iff text hwidth]
  exact and_iff_left (wrapStyledLine_keeps hstyled hwidth preserveIndentation)

/-- Two words and an indented line, eight cells wide. -/
theorem wrapping_keeps_words :
    (KeepsText ['a', ' ', 'b'] 8 ∧ KeepsLine { text := " c", style := {} } 8 false) ↔
      ∀ logical ∈ ['a', ' ', 'b'].splitOn '\n', ¬ Blank logical :=
  wrapping_keeps_iff _ (by intro styles hstyles; cases hstyles) (by decide) false

/-- A line of one space has no row. -/
theorem wrapping_loses_blank_line : ¬ KeepsText ['a', '\n', ' ', '\n', 'b'] 8 := by
  intro hkeeps
  refine hkeeps.shown [' '] (by decide) (wrapLogical_eq_nil.mpr ⟨by simp, ?_⟩)
  intro symbol hsymbol
  rw [List.mem_singleton.mp hsymbol]
  rfl

end Tea.Contract
