/-
  Tea/Tui/Grid.lean
  =================
  **Frames** (`grid.rs`, and `put_text`, `put_line` and `char_width` of `render.rs`): a
  grid of cells, the text put into it, and what changed from one frame to the next.  A wide
  scalar is stored in its first cell; the second one holds a space.
-/

import Mathlib.Algebra.Group.Nat.Defs
import Mathlib.Data.List.Basic

namespace Tea.Tui

inductive Color where
  | black
  | darkGrey
  | red
  | darkRed
  | green
  | darkGreen
  | yellow
  | darkYellow
  | blue
  | darkBlue
  | magenta
  | darkMagenta
  | cyan
  | darkCyan
  | white
  | grey
deriving DecidableEq, Repr

structure Style where
  foreground : Option Color := none
  background : Option Color := none
  bold : Bool := false
deriving DecidableEq, Repr

/-- One printable scalar and its style. -/
structure Cell where
  symbol : Char
  style : Style := {}
deriving DecidableEq, Repr

def Cell.blank : Cell := { symbol := ' ' }

/-! ### Grids -/

/-- A frame: its cells, row by row.  Coordinates are 16-bit numbers. -/
structure Grid where
  width : Nat
  height : Nat
  cells : List Cell
  fits : width < 2 ^ 16 ∧ height < 2 ^ 16
  size : cells.length = width * height
deriving DecidableEq

namespace Grid

/-- `new` -/
def new (width height : Nat) (fits : width < 2 ^ 16 ∧ height < 2 ^ 16) : Grid where
  width := width
  height := height
  cells := List.replicate (width * height) .blank
  fits := fits
  size := List.length_replicate

def index (g : Grid) (x y : Nat) : Option Nat :=
  if x < g.width ∧ y < g.height then some (y * g.width + x) else none

def get (g : Grid) (x y : Nat) : Option Cell := (g.index x y).bind fun i => g.cells[i]?

/-- `set`; an error outside the frame changes nothing, and the callers ignore it. -/
def set (g : Grid) (x y : Nat) (cell : Cell) : Grid :=
  match g.index x y with
  | some i => { g with cells := g.cells.set i cell, size := by rw [List.length_set, g.size] }
  | none => g

structure CellChange where
  x : Nat
  y : Nat
  cell : Cell
deriving DecidableEq, Repr

structure FrameDiff where
  fullRedraw : Bool
  changes : List CellChange
deriving DecidableEq, Repr

def dimensionsChanged (g : Grid) (previous : Option Grid) : Bool :=
  previous.elim true fun frame => frame.width ≠ g.width || frame.height ≠ g.height

/-- The change of one cell, if it has to be drawn. -/
def change (g : Grid) (previous : Option Grid) (y x : Nat) : Option CellChange :=
  (g.get x y).bind fun cell =>
    if g.dimensionsChanged previous || (previous.bind fun frame => frame.get x y) ≠ some cell then
      some { x, y, cell }
    else none

/-- `diff` -/
def diff (g : Grid) (previous : Option Grid) : FrameDiff where
  fullRedraw := g.dimensionsChanged previous
  changes := (List.range g.height).flatMap fun y =>
    (List.range g.width).filterMap (g.change previous y)

theorem get_isSome {g : Grid} {x y : Nat} (hx : x < g.width) (hy : y < g.height) :
    ∃ cell, g.get x y = some cell := by
  have hindex : y * g.width + x < g.cells.length := by
    rw [g.size, Nat.mul_comm g.width]
    calc y * g.width + x < y * g.width + g.width := by omega
      _ = (y + 1) * g.width := by rw [Nat.succ_mul]
      _ ≤ g.height * g.width := Nat.mul_le_mul_right _ hy
  refine ⟨g.cells[y * g.width + x], ?_⟩
  rw [get, index, if_pos ⟨hx, hy⟩, Option.bind_some, List.getElem?_eq_getElem hindex]

theorem get_bound {g : Grid} {x y : Nat} {cell : Cell} (h : g.get x y = some cell) :
    x < g.width ∧ y < g.height := by
  by_contra hnot
  rw [get, index, if_neg hnot] at h
  cases h

theorem get_new {width height x y : Nat} {fits : width < 2 ^ 16 ∧ height < 2 ^ 16} {cell : Cell}
    (h : (new width height fits).get x y = some cell) : cell = .blank := by
  obtain ⟨i, -, hi⟩ := Option.bind_eq_some_iff.mp h
  exact List.eq_of_mem_replicate (List.mem_of_getElem? hi)

/-- A cell of a frame is the one that was set, or was there before. -/
theorem get_set {g : Grid} {x y x' y' : Nat} {cell cell' : Cell}
    (h : (g.set x y cell).get x' y' = some cell') : cell' = cell ∨ g.get x' y' = some cell' := by
  unfold set at h
  cases hindex : g.index x y with
  | none =>
    rw [hindex] at h
    exact .inr h
  | some i =>
    rw [hindex] at h
    obtain ⟨j, hj, hcell⟩ := Option.bind_eq_some_iff.mp h
    change (g.cells.set i cell)[j]? = some cell' at hcell
    by_cases heq : i = j
    · subst heq
      left
      have hlength := (List.getElem?_eq_some_iff.mp hcell).1
      rw [List.length_set] at hlength
      rw [List.getElem?_set_self hlength] at hcell
      exact (Option.some_inj.mp hcell).symm
    · right
      rw [List.getElem?_set_ne heq] at hcell
      have hj' : g.index x' y' = some j := hj
      rw [get, hj', Option.bind_some, hcell]

end Grid

/-! ### Text -/

/-- `char_width` -/
def charWidth (symbol : Char) : Nat :=
  let code := symbol.toNat
  if code = 0x200d ∨ code = 0xfe0e ∨ code = 0xfe0f ∨
      (0x300 ≤ code ∧ code ≤ 0x36f) ∨
      (0x1ab0 ≤ code ∧ code ≤ 0x1aff) ∨
      (0x20d0 ≤ code ∧ code ≤ 0x20ff) ∨
      (0xfe20 ≤ code ∧ code ≤ 0xfe2f) then 0
  else if (0x1100 ≤ code ∧ code ≤ 0x115f) ∨
      (0x2329 ≤ code ∧ code ≤ 0x232a) ∨
      (0x2e80 ≤ code ∧ code ≤ 0xa4cf) ∨
      (0xac00 ≤ code ∧ code ≤ 0xd7a3) ∨
      (0xf900 ≤ code ∧ code ≤ 0xfaff) ∨
      (0xfe10 ≤ code ∧ code ≤ 0xfe19) ∨
      (0xfe30 ≤ code ∧ code ≤ 0xfe6f) ∨
      (0xff00 ≤ code ∧ code ≤ 0xff60) ∨
      (0xffe0 ≤ code ∧ code ≤ 0xffe6) ∨
      (0x1f300 ≤ code ∧ code ≤ 0x1faff) then 2
  else 1

/-- `saturating_add` of 16-bit numbers. -/
def saturatingAdd (a b : Nat) : Nat := min (a + b) (2 ^ 16 - 1)

/-- The loop of `put_text` and `put_line` over the symbols of a line. -/
def putSymbols (x y width : Nat) : List (Char × Style) → Nat → Grid → Grid
  | [], _, grid => grid
  | (symbol, style) :: rest, column, grid =>
      if symbol = '\r' then putSymbols x y width rest column grid
      else if symbol = '\n' then grid
      else
        let symbolWidth := charWidth symbol
        if symbolWidth = 0 then putSymbols x y width rest column grid
        else if saturatingAdd column symbolWidth > width then grid
        else
          let grid := grid.set (saturatingAdd x column) y { symbol, style }
          -- the sum wraps around in a line of 65,535 columns
          let second := (column + 1) % 2 ^ 16
          let grid :=
            if symbolWidth = 2 ∧ second < width then
              grid.set (saturatingAdd x second) y { symbol := ' ', style }
            else grid
          putSymbols x y width rest (saturatingAdd column symbolWidth) grid

def putText (grid : Grid) (x y width : Nat) (text : String) (style : Style) : Grid :=
  putSymbols x y width (text.toList.map fun symbol => (symbol, style)) 0 grid

structure RenderLine where
  text : String
  style : Style
  characterStyles : Option (List Style) := none
deriving DecidableEq, Repr

/-- The style of a character: its own, or that of the line. -/
def RenderLine.styleAt (line : RenderLine) (index : Nat) : Style :=
  (line.characterStyles.bind fun styles => styles[index]?).getD line.style

def putLine (grid : Grid) (x y width : Nat) (line : RenderLine) : Grid :=
  putSymbols x y width
    (line.text.toList.zipIdx.map fun (symbol, index) => (symbol, line.styleAt index)) 0 grid

end Tea.Tui
