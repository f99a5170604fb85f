/-
  Tea/Tui/VisualLayout.lean
  =========================
  **The geometry of the composer** (`ui/visual_layout.rs`): `measure` walks through the
  text, ends a row at a line break or where the next character does not fit, and notes
  where the cursor is.
-/
import Tea.Encoding.Offsets

namespace Tea.Tui

/-! ### Widths -/

/-- A joiner, a variation selector or a combining mark. -/
def isZeroWidth (c : Char) : Bool :=
  let n := c.toNat
  n = 0x200d || n = 0xfe0e || n = 0xfe0f || (0x300 ≤ n && n ≤ 0x36f) ||
    (0x1ab0 ≤ n && n ≤ 0x1aff) || (0x20d0 ≤ n && n ≤ 0x20ff) || (0xfe20 ≤ n && n ≤ 0xfe2f)

/-- A character of two cells, if it has any. -/
def isWide (c : Char) : Bool :=
  let n := c.toNat
  (0x1100 ≤ n && n ≤ 0x115f) || (0x2329 ≤ n && n ≤ 0x232a) || (0x2e80 ≤ n && n ≤ 0xa4cf) ||
    (0xac00 ≤ n && n ≤ 0xd7a3) || (0xf900 ≤ n && n ≤ 0xfaff) || (0xfe10 ≤ n && n ≤ 0xfe19) ||
    (0xfe30 ≤ n && n ≤ 0xfe6f) || (0xff00 ≤ n && n ≤ 0xff60) || (0xffe0 ≤ n && n ≤ 0xffe6) ||
    (0x1f300 ≤ n && n ≤ 0x1faff)

/-- `display_width` -/
def displayWidth (symbol : Char) : Nat :=
  if isZeroWidth symbol then 0 else if isWide symbol then 2 else 1

/-- The display widths of a text, added up. -/
def textWidth : List Char → Nat
  | [] => 0
  | c :: cs => displayWidth c + textWidth cs

/-! ### Rows -/

structure VisualRow where
  text : List Char
  start : Nat
  stop : Nat
deriving DecidableEq

structure VisualLayout where
  rows : List VisualRow
  cursorRow : Nat
  cursorColumn : Nat
  cursorByte : Nat
deriving DecidableEq

/-- The variables of the loop. -/
structure Measuring where
  rows : List VisualRow := []
  rowStart : Nat := 0
  used : Nat := 0
  rowText : List Char := []
  cursorRow : Nat := 0
  cursorColumn : Nat := 2
  offset : Nat := 0

namespace Measuring

/-- The row that ends at the offset. -/
def row (m : Measuring) : VisualRow :=
  { text := "❯ ".toList ++ m.rowText, start := m.rowStart, stop := m.offset }

/-- A row is pushed, and the next one starts. -/
def push (m : Measuring) (rowStart : Nat) : Measuring :=
  { m with rows := m.rows ++ [m.row], rowStart, rowText := [], used := 0 }

/-- The cursor is noted if it is here. -/
def note (m : Measuring) (cursor : Nat) : Measuring :=
  if cursor = m.offset then { m with cursorRow := m.rows.length, cursorColumn := 2 + m.used }
  else m

/-- One character. -/
def step (contentWidth cursor : Nat) (m : Measuring) (symbol : Char) : Measuring :=
  let next := m.offset + symbol.utf8Size
  if symbol = '\n' then { (m.note cursor).push next with offset := next }
  else
    let symbolWidth := displayWidth symbol
    let m := if m.used ≠ 0 ∧ contentWidth < m.used + symbolWidth then m.push m.offset else m
    let m := m.note cursor
    { m with rowText := m.rowText ++ [symbol], used := m.used + symbolWidth, offset := next }

end Measuring

/-- The columns of a row without the prompt. -/
def contentWidth (width : UInt16) : Nat := max (max width.toNat 1 - 2) 1

/-- `measure` -/
def VisualLayout.measure (text : List Char) (cursor : Nat) (width : UInt16) : VisualLayout :=
  let cursor := min cursor (Tea.Encoding.utf8Length text)
  let m := text.foldl (Measuring.step (contentWidth width) cursor) {}
  let m := m.note cursor
  { rows := m.rows ++ [m.row]
    cursorRow := m.cursorRow
    cursorColumn := min m.cursorColumn (max width.toNat 1 - 1)
    cursorByte := cursor }

end Tea.Tui
