/-
  Tea/Render/Wrap.lean
  ====================
  **Word wrapping** (`wrap_raw_text`, `wrap_styled_line` and the width helpers of
  `render.rs`): rows of a text that are at most so many cells wide, broken at white space
  where there is any.

  The loops of the source walk over an index into the characters; here they walk over the
  characters that are left, and positions are counted from their front.  A byte offset of
  the source is the number of characters in front of it.
-/
import Tea.Tui.Grid
import Tea.Tui.Commands
import Mathlib.Data.List.TakeWhile

namespace Tea.Render

open Tea.Tui

/-! ### Widths -/

/-- `display_width` -/
def displayWidth : List Char → Nat
  | [] => 0
  | symbol :: rest => charWidth symbol + displayWidth rest

@[simp] theorem displayWidth_nil : displayWidth [] = 0 := rfl

@[simp] theorem displayWidth_cons (symbol : Char) (rest : List Char) :
    displayWidth (symbol :: rest) = charWidth symbol + displayWidth rest := rfl

@[simp] theorem displayWidth_append (text more : List Char) :
    displayWidth (text ++ more) = displayWidth text + displayWidth more := by
  induction text with
  | nil => simp
  | cons symbol rest ih => simp [ih, Nat.add_assoc]

theorem displayWidth_sublist {text more : List Char} (h : text.Sublist more) :
    displayWidth text ≤ displayWidth more := by
  induction h with
  | slnil => exact Nat.le_refl _
  | cons symbol _ ih =>
    rw [displayWidth_cons]
    omega
  | cons_cons symbol _ ih =>
    rw [displayWidth_cons, displayWidth_cons]
    omega

/-- `str::trim_start` -/
def trimStart (text : List Char) : List Char := text.dropWhile isWhitespace

/-- `str::trim_end` -/
def trimEnd (text : List Char) : List Char := (text.reverse.dropWhile isWhitespace).reverse

/-- A character that is no white space. -/
def visible (symbol : Char) : Bool := !isWhitespace symbol

theorem filter_dropWhile {α : Type} (p : α → Bool) (items : List α) :
    (items.dropWhile p).filter (fun item => !p item) = items.filter fun item => !p item := by
  induction items with
  | nil => rfl
  | cons item rest ih =>
    by_cases h : p item = true
    · rw [List.dropWhile_cons_of_pos h, ih]
      simp [h]
    · rw [List.dropWhile_cons_of_neg h]

@[simp] theorem filter_trimStart (text : List Char) :
    (trimStart text).filter visible = text.filter visible :=
  filter_dropWhile isWhitespace text

@[simp] theorem filter_trimEnd (text : List Char) :
    (trimEnd text).filter visible = text.filter visible := by
  have h := filter_dropWhile isWhitespace text.reverse
  rw [List.filter_reverse, ← List.reverse_inj, List.reverse_reverse, ← List.filter_reverse] at h
  exact h

theorem trimEnd_begins (text : List Char) : trimEnd text <+: text := by
  have h := List.reverse_prefix.mpr (List.dropWhile_suffix isWhitespace (l := text.reverse))
  rwa [List.reverse_reverse] at h

/-! ### How much fits -/

/-- The inner loop: how many of the symbols fit behind `used` cells, and where the last
    white space among them is.  Positions are counted from `index`. -/
def scan (width : Nat) : Nat → Nat → Option Nat → List Char → Nat × Option Nat
  | _, index, lastSpace, [] => (index, lastSpace)
  | used, index, lastSpace, symbol :: rest =>
      if width < used + charWidth symbol then (index, lastSpace)
      else
        scan width (used + charWidth symbol) (index + 1)
          (if isWhitespace symbol then some index else lastSpace) rest

/-- The symbols that the inner loop takes have room behind `used` cells; the first one that it
    leaves does not; and the place it tells is a white space among those it took. -/
theorem scan_spec (width used index : Nat) (before : Option Nat) (symbols : List Char) :
    ∃ count ≤ symbols.length, (scan width used index before symbols).1 = index + count ∧
      (0 < count → used + displayWidth (symbols.take count) ≤ width) ∧
      (count = 0 → ∀ symbol ∈ symbols.head?, width < used + charWidth symbol) ∧
      ((scan width used index before symbols).2 = before ∨
        ∃ place < count, (scan width used index before symbols).2 = some (index + place) ∧
          ∀ symbol ∈ symbols[place]?, isWhitespace symbol = true) := by
  induction symbols generalizing used index before with
  | nil => exact ⟨0, Nat.le_refl _, rfl, by simp, by simp, .inl rfl⟩
  | cons symbol rest ih =>
    rw [scan]
    by_cases hfull : width < used + charWidth symbol
    · rw [if_pos hfull]
      refine ⟨0, Nat.zero_le _, rfl, by simp, ?_, .inl rfl⟩
      intro _ first hfirst
      rw [List.head?_cons, Option.mem_some_iff] at hfirst
      rwa [← hfirst]
    · rw [if_neg hfull]
      obtain ⟨count, hle, hstop, hfits, htight, hspace⟩ :=
        ih (used + charWidth symbol) (index + 1)
          (if isWhitespace symbol then some index else before)
      refine ⟨count + 1, Nat.succ_le_succ hle, by rw [hstop]; omega, ?_, by simp, ?_⟩
      · intro _
        rw [List.take_succ_cons, displayWidth_cons]
        rcases Nat.eq_zero_or_pos count with rfl | hpos
        · rw [List.take_zero, displayWidth_nil]
          omega
        · have hrest := hfits hpos
          omega
      · rcases hspace with hkept | ⟨place, hlt, hplace, hwhite⟩
        · rw [hkept]
          by_cases hwhite : isWhitespace symbol = true
          · right
            refine ⟨0, Nat.succ_pos _, by rw [if_pos hwhite]; rfl, ?_⟩
            intro first hfirst
            rw [List.getElem?_cons_zero, Option.mem_some_iff] at hfirst
            rwa [← hfirst]
          · left
            rw [if_neg hwhite]
        · right
          refine ⟨place + 1, Nat.succ_lt_succ hlt, by rw [hplace]; congr 1; omega, ?_⟩
          intro first hfirst
          rw [List.getElem?_cons_succ] at hfirst
          exact hwhite first hfirst

/-- Where the symbols that fit end; one symbol is taken whatever its width. -/
def fitting (width : Nat) (symbols : List Char) : Nat :=
  if (scan width 0 0 none symbols).1 = 0 then 1 else (scan width 0 0 none symbols).1

def lastSpace (width : Nat) (symbols : List Char) : Option Nat := (scan width 0 0 none symbols).2

/-- A row fits, or it is one scalar that is wider than the row, with zero-width followers. -/
def FitsRow (width : Nat) (row : List Char) : Prop :=
  displayWidth row ≤ width ∨
    ∃ symbol followers, row = symbol :: followers ∧ width < charWidth symbol ∧
      ∀ follower ∈ followers, charWidth follower = 0

theorem fitting_pos (width : Nat) (symbols : List Char) : 0 < fitting width symbols := by
  unfold fitting
  split <;> omega

theorem fitting_le {width : Nat} {symbols : List Char} (hne : symbols ≠ []) :
    fitting width symbols ≤ symbols.length := by
  obtain ⟨count, hle, hstop, -⟩ := scan_spec width 0 0 none symbols
  have hpos := List.length_pos_iff.mpr hne
  unfold fitting
  split <;> omega

/-- A part of the symbols that fit makes a row. -/
theorem fitsRow_of_begins {width : Nat} (symbols : List Char) {row : List Char}
    (h : row <+: symbols.take (fitting width symbols)) : FitsRow width row := by
  obtain ⟨count, hle, hstop, hfits, htight, -⟩ := scan_spec width 0 0 none symbols
  rw [Nat.zero_add] at hstop
  have hwidth := displayWidth_sublist h.sublist
  rcases Nat.eq_zero_or_pos count with rfl | hpos
  · -- nothing fits: the row is the first symbol
    rw [fitting, if_pos hstop] at h hwidth
    cases symbols with
    | nil =>
      rw [List.take_nil, List.prefix_nil] at h
      rw [h]
      exact .inl (Nat.zero_le _)
    | cons symbol rest =>
      rw [List.take_succ_cons, List.take_zero] at h
      have hwide := htight rfl symbol rfl
      rw [Nat.zero_add] at hwide
      cases row with
      | nil => exact .inl (Nat.zero_le _)
      | cons first followers =>
        rw [List.cons_prefix_cons, List.prefix_nil] at h
        obtain ⟨rfl, rfl⟩ := h
        exact .inr ⟨first, [], rfl, hwide, by simp⟩
  · left
    rw [fitting, hstop, if_neg (Nat.ne_of_gt hpos)] at hwidth
    have hroom := hfits hpos
    omega

theorem lastSpace_spec {width place : Nat} {symbols : List Char}
    (h : lastSpace width symbols = some place) :
    place < fitting width symbols ∧ ∀ symbol ∈ symbols[place]?, isWhitespace symbol = true := by
  obtain ⟨count, -, hstop, -, -, hspace⟩ := scan_spec width 0 0 none symbols
  rw [lastSpace] at h
  rw [Nat.zero_add] at hstop
  rcases hspace with hnone | ⟨found, hlt, hfound, hwhite⟩
  · rw [h] at hnone
    cases hnone
  · rw [hfound, Nat.zero_add, Option.some.injEq] at h
    subst h
    refine ⟨?_, hwhite⟩
    unfold fitting
    split <;> omega

/-! ### Raw text -/

/-- Where a row of the text that remains is cut off. -/
def rawCut (width : Nat) (remaining : List Char) : Nat :=
  if fitting width remaining < remaining.length then
    ((lastSpace width remaining).filter (0 < ·)).getD (fitting width remaining)
  else fitting width remaining

theorem rawCut_bounds (width : Nat) (remaining : List Char) :
    0 < rawCut width remaining ∧ rawCut width remaining ≤ fitting width remaining := by
  have hpos := fitting_pos width remaining
  unfold rawCut
  split
  · cases hspace : (lastSpace width remaining).filter (0 < ·) with
    | none => exact ⟨hpos, Nat.le_refl _⟩
    | some place =>
      obtain ⟨hlast, hplace⟩ := Option.filter_eq_some_iff.mp hspace
      exact ⟨by simpa using hplace, Nat.le_of_lt (lastSpace_spec hlast).1⟩
  · exact ⟨hpos, Nat.le_refl _⟩

theorem length_trimStart_le (text : List Char) : (trimStart text).length ≤ text.length :=
  (List.dropWhile_sublist isWhitespace).length_le

/-- The loop of `wrap_raw_text_inner` over the text that remains of a line.  Every round takes a
    symbol at least, so it comes to an end. -/
def wrapRemaining (width : Nat) (remaining : List Char) : List (List Char) :=
  if _h : remaining = [] then []
  else
    trimEnd (remaining.take (rawCut width remaining)) ::
      wrapRemaining width (trimStart (remaining.drop (rawCut width remaining)))
termination_by remaining.length
decreasing_by
  have hpos := (rawCut_bounds width remaining).1
  have hlength := List.length_pos_iff.mpr _h
  have hle := length_trimStart_le (remaining.drop (rawCut width remaining))
  rw [List.length_drop] at hle
  omega

/-- What `wrap_raw_text_inner` does with a line. -/
def wrapLogical (width : Nat) (logical : List Char) : List (List Char) :=
  if logical = [] then [[]] else wrapRemaining width (trimStart logical)

/-- `wrap_raw_text` -/
def wrapRawText (text : List Char) (width : Nat) : List (List Char) :=
  if width = 0 then [] else (text.splitOn '\n').flatMap (wrapLogical width)

theorem fitsRow_wrapRemaining {width : Nat} {remaining row : List Char}
    (h : row ∈ wrapRemaining width remaining) : FitsRow width row := by
  fun_induction wrapRemaining width remaining with
  | case1 => cases h
  | case2 remaining hne ih =>
    rcases List.mem_cons.mp h with rfl | h
    · refine fitsRow_of_begins remaining ?_
      exact (trimEnd_begins _).trans
        (List.take_prefix_take_left (rawCut_bounds width remaining).2)
    · exact ih h

theorem visible_wrapRemaining (width : Nat) (remaining : List Char) :
    (wrapRemaining width remaining).flatten.filter visible = remaining.filter visible := by
  fun_induction wrapRemaining width remaining with
  | case1 => rfl
  | case2 remaining hne ih =>
    rw [List.flatten_cons, List.filter_append, ih, filter_trimEnd, filter_trimStart,
      ← List.filter_append, List.take_append_drop]

theorem fitsRow_wrapLogical {width : Nat} {logical row : List Char}
    (h : row ∈ wrapLogical width logical) : FitsRow width row := by
  unfold wrapLogical at h
  split at h
  · rw [List.mem_singleton.mp h]
    exact .inl (Nat.zero_le _)
  · exact fitsRow_wrapRemaining h

theorem visible_wrapLogical (width : Nat) (logical : List Char) :
    (wrapLogical width logical).flatten.filter visible = logical.filter visible := by
  unfold wrapLogical
  split
  next hempty => rw [hempty]; rfl
  next => rw [visible_wrapRemaining, filter_trimStart]

/-- A line has no row when it is not empty and all white space. -/
theorem wrapLogical_eq_nil {width : Nat} {logical : List Char} :
    wrapLogical width logical = [] ↔
      logical ≠ [] ∧ ∀ symbol ∈ logical, isWhitespace symbol = true := by
  unfold wrapLogical
  split
  next hempty => simp [hempty]
  next hne =>
    rw [wrapRemaining]
    split
    next hblank =>
      rw [trimStart, List.dropWhile_eq_nil_iff] at hblank
      simpa [hne] using hblank
    next hsome =>
      rw [trimStart, List.dropWhile_eq_nil_iff] at hsome
      simpa [hne] using hsome

/-! ### Styled lines -/

/-- The characters of a line with their styles. -/
def styledCharacters (line : RenderLine) : List (Char × Style) :=
  line.text.toList.zip
    (line.characterStyles.getD (List.replicate line.text.toList.length line.style))

/-- The row in front of the styled characters, and how many of them it is done with. -/
def styledCut (width : Nat) (characters : List (Char × Style)) : Nat :=
  let symbols := characters.map (·.1)
  if fitting width symbols < characters.length then
    (lastSpace width symbols).getD (fitting width symbols)
  else fitting width symbols

/-- Where the next row starts: behind the white space at which this one is cut. -/
def nextStart (width : Nat) (characters : List (Char × Style)) : Nat :=
  let cut := styledCut width characters
  let next :=
    if 0 < cut ∧ cut < characters.length ∧
        (characters[cut]?.elim false fun character => isWhitespace character.1) then cut + 1
    else cut
  max next 1

/-- The loop of `wrap_styled_line` over the characters that are left. -/
def wrapCharacters (width : Nat) (characters : List (Char × Style)) :
    List (List (Char × Style)) :=
  if _h : characters = [] then []
  else
    characters.take (styledCut width characters) ::
      wrapCharacters width (characters.drop (nextStart width characters))
termination_by characters.length
decreasing_by
  have hpos : 1 ≤ nextStart width characters := Nat.le_max_right _ _
  have hlength := List.length_pos_iff.mpr _h
  rw [List.length_drop]
  omega

/-- `RenderLine::styled` -/
def styledLine (style : Style) (row : List (Char × Style)) : RenderLine :=
  { text := String.ofList (row.map (·.1)), style, characterStyles := some (row.map (·.2)) }

/-- `wrap_styled_line` -/
def wrapStyledLine (line : RenderLine) (width : Nat) (preserveIndentation : Bool) :
    List RenderLine :=
  if width = 0 then []
  else
    let characters :=
      if preserveIndentation then styledCharacters line
      else (styledCharacters line).dropWhile fun character => isWhitespace character.1
    if characters = [] then [{ text := "", style := line.style }]
    else (wrapCharacters width characters).map (styledLine line.style)

theorem styledCut_le (width : Nat) (characters : List (Char × Style)) :
    styledCut width characters ≤ fitting width (characters.map (·.1)) := by
  unfold styledCut
  dsimp only
  split
  · cases hspace : lastSpace width (characters.map (·.1)) with
    | none => exact Nat.le_refl _
    | some place => exact Nat.le_of_lt (lastSpace_spec hspace).1
  · exact Nat.le_refl _

/-- A row that is cut in front of the first character is cut at white space. -/
theorem white_of_styledCut {width : Nat} {characters : List (Char × Style)}
    (h : styledCut width characters = 0) :
    ∀ character ∈ characters[0]?, isWhitespace character.1 = true := by
  unfold styledCut at h
  dsimp only at h
  have hpos := fitting_pos width (characters.map (·.1))
  split at h
  · cases hspace : lastSpace width (characters.map (·.1)) with
    | none =>
      rw [hspace, Option.getD_none] at h
      omega
    | some place =>
      rw [hspace, Option.getD_some] at h
      subst h
      have hwhite := (lastSpace_spec hspace).2
      intro character hcharacter
      refine hwhite character.1 ?_
      rw [List.getElem?_map, Option.mem_def] at *
      rw [hcharacter, Option.map_some]
  · omega

/-- A character that is no white space. -/
def visibleCharacter (character : Char × Style) : Bool := visible character.1

theorem nextStart_cases (width : Nat) (characters : List (Char × Style)) :
    nextStart width characters = styledCut width characters ∨
      (nextStart width characters = styledCut width characters + 1 ∧
        ∀ character ∈ characters[styledCut width characters]?,
          isWhitespace character.1 = true) := by
  unfold nextStart
  dsimp only
  split
  next hwhite =>
    right
    refine ⟨by omega, ?_⟩
    intro character hcharacter
    have hspace := hwhite.2.2
    rw [Option.mem_def.mp hcharacter] at hspace
    exact hspace
  next =>
    rcases Nat.eq_zero_or_pos (styledCut width characters) with hzero | hpos
    · right
      rw [hzero]
      exact ⟨rfl, white_of_styledCut hzero⟩
    · left
      omega

/-- What lies between a row and the next one is white space. -/
theorem visible_nextStart (width : Nat) (characters : List (Char × Style)) :
    (characters.take (styledCut width characters)).filter visibleCharacter ++
      (characters.drop (nextStart width characters)).filter visibleCharacter =
    characters.filter visibleCharacter := by
  have hsplit : (characters.drop (nextStart width characters)).filter visibleCharacter =
      (characters.drop (styledCut width characters)).filter visibleCharacter := by
    rcases nextStart_cases width characters with heq | ⟨heq, hwhite⟩
    · rw [heq]
    · rw [heq]
      by_cases hlt : styledCut width characters < characters.length
      · have hspace := hwhite characters[styledCut width characters]
          (List.getElem?_eq_getElem hlt)
        rw [List.drop_eq_getElem_cons hlt, List.filter_cons_of_neg]
        simp [visibleCharacter, visible, hspace]
      · rw [List.drop_of_length_le (by omega), List.drop_of_length_le (by omega)]
  rw [hsplit, ← List.filter_append, List.take_append_drop]

theorem fitsRow_wrapCharacters {width : Nat} {characters row : List (Char × Style)}
    (h : row ∈ wrapCharacters width characters) : FitsRow width (row.map (·.1)) := by
  fun_induction wrapCharacters width characters with
  | case1 => cases h
  | case2 characters hne ih =>
    rcases List.mem_cons.mp h with rfl | h
    · refine fitsRow_of_begins (characters.map (·.1)) ?_
      rw [List.map_take]
      exact List.take_prefix_take_left (styledCut_le width characters)
    · exact ih h

theorem visible_wrapCharacters (width : Nat) (characters : List (Char × Style)) :
    (wrapCharacters width characters).flatten.filter visibleCharacter =
      characters.filter visibleCharacter := by
  fun_induction wrapCharacters width characters with
  | case1 => rfl
  | case2 characters hne ih =>
    rw [List.flatten_cons, List.filter_append, ih, visible_nextStart]

theorem wrapCharacters_ne_nil {width : Nat} {characters : List (Char × Style)}
    (hne : characters ≠ []) : wrapCharacters width characters ≠ [] := by
  rw [wrapCharacters, dif_neg hne]
  exact List.cons_ne_nil _ _

@[simp] theorem characterStyles_styledLine (style : Style) (row : List (Char × Style)) :
    (styledLine style row).characterStyles = some (row.map (·.2)) := rfl

@[simp] theorem styledCharacters_styledLine (style : Style) (row : List (Char × Style)) :
    styledCharacters (styledLine style row) = row := by
  simp only [styledCharacters, styledLine, String.toList_ofList, Option.getD_some]
  exact (List.zip_of_prod rfl rfl).symm

end Tea.Render
