/-
  Tea/Terminal/Draw.lean
  ======================
  **Drawing** (`TerminalGuard::draw`, and `redraw` of `app/runtime.rs`): what a frame
  difference writes, as commands, and a terminal that carries them out.  The terminal knows
  wide scalars as `char_width` does; its rows behave as in `Tea.Terminal.Strip`.
-/

import Tea.Terminal.Strip
import Tea.Tui.Grid
import Tea.Async.Execution

namespace Tea.Terminal

open Tea.Async Tea.Tui

/-! ### Commands -/

/-- What a terminal is told; rows and columns are counted from one. -/
inductive Command where
  | clear
  | moveTo (row column : Nat)
  | reset
  | foreground (color : Nat)
  | background (color : Nat)
  | bold
  | print (symbol : Char)
  | showCursor
  | hideCursor
deriving DecidableEq, Repr

/-- `color_index` -/
def colorIndex : Color → Nat
  | .black => 0
  | .darkGrey => 8
  | .red => 9
  | .darkRed => 1
  | .green => 10
  | .darkGreen => 2
  | .yellow => 11
  | .darkYellow => 3
  | .blue => 12
  | .darkBlue => 4
  | .magenta => 13
  | .darkMagenta => 5
  | .cyan => 14
  | .darkCyan => 6
  | .white => 15
  | .grey => 7

/-- `apply_style` -/
def applyStyle (style : Style) : List Command :=
  .reset :: (style.foreground.map fun color => Command.foreground (colorIndex color)).toList ++
    (style.background.map fun color => Command.background (colorIndex color)).toList ++
    if style.bold then [.bold] else []

def moveTo (x y : Nat) : Command := .moveTo (saturatingAdd y 1) (saturatingAdd x 1)

/-- What the loop over the changes writes for one; a cleared terminal is blank already. -/
def drawChange (fullRedraw : Bool) (change : Grid.CellChange) : List Command :=
  if fullRedraw && change.cell = .blank then []
  else moveTo change.x change.y :: applyStyle change.cell.style ++ [.print change.cell.symbol]

def drawCursor : Option (Nat × Nat) → List Command
  | some (x, y) => [moveTo x y, .showCursor]
  | none => [.hideCursor]

/-- `draw`, with the cursor position of the last draw. -/
def draw (cursorPosition : Option (Nat × Nat)) (diff : Grid.FrameDiff)
    (cursor : Option (Nat × Nat)) : List Command :=
  if diff.changes = [] ∧ cursorPosition = cursor then []
  else
    (if diff.fullRedraw then [.clear, .moveTo 1 1] else []) ++
      diff.changes.flatMap (drawChange diff.fullRedraw) ++ [.reset] ++ drawCursor cursor

/-! ### The terminal -/

/-- How what is printed looks. -/
structure Pen where
  foreground : Option Nat := none
  background : Option Nat := none
  bold : Bool := false
deriving DecidableEq, Repr

/-- What one print puts on the screen. -/
structure Glyph where
  symbol : Char
  pen : Pen := {}
deriving DecidableEq, Repr

def Glyph.blank : Glyph := { symbol := ' ' }

def Glyph.wide (glyph : Glyph) : Bool := charWidth glyph.symbol = 2

/-- A terminal: what each row shows, and where and how the next print goes. -/
structure Screen where
  width : Nat
  height : Nat
  rows : Nat → Nat → Shown Glyph
  row : Nat := 0
  column : Nat := 0
  pen : Pen := {}
  cursorShown : Bool := false

namespace Screen

/-- One command.  Where a print leaves the cursor does not matter: each one follows a
    move. -/
def obey (s : Screen) : Command → Screen
  | .clear => { s with rows := fun _ _ => .whole .blank }
  | .moveTo row column => { s with row := row - 1, column := column - 1 }
  | .reset => { s with pen := {} }
  | .foreground color => { s with pen := { s.pen with foreground := some color } }
  | .background color => { s with pen := { s.pen with background := some color } }
  | .bold => { s with pen := { s.pen with bold := true } }
  | .print symbol =>
      { s with
        rows := Function.update s.rows s.row
          (put Glyph.wide .blank s.width (s.rows s.row) s.column { symbol, pen := s.pen })
        column := s.column + charWidth symbol }
  | .showCursor => { s with cursorShown := true }
  | .hideCursor => { s with cursorShown := false }

def obeyAll (s : Screen) (commands : List Command) : Screen := commands.foldl obey s

theorem obeyAll_append (s : Screen) (first second : List Command) :
    s.obeyAll (first ++ second) = (s.obeyAll first).obeyAll second :=
  List.foldl_append

end Screen

/-! ### Redraws -/

/-- The application's side of the terminal: the frame it takes for the shown one, and the
    cursor that was drawn last. -/
structure Display where
  screen : Screen
  previous : Option Grid := none
  cursorPosition : Option (Nat × Nat) := none

/-- A redraw, or something behind which the screen is unknown: a draw that failed, another
    program in between. -/
inductive DisplayStep where
  | redraw (frame : Grid) (cursor : Option (Nat × Nat))
  | lost

/-- A text of printable scalars. -/
def Printable (text : String) : Prop :=
  ∀ c ∈ text.toList, ¬ (c.toNat ≤ 0x1f ∨ (0x7f ≤ c.toNat ∧ c.toNat ≤ 0x9f))

/-- The frames that `put_text` and `put_line` build. -/
inductive Built : Grid → Prop
  | new (width height : Nat) (fits : width < 2 ^ 16 ∧ height < 2 ^ 16) :
      Built (.new width height fits)
  | text {g : Grid} (x y width : Nat) (text : String) (style : Style) (built : Built g)
      (printable : Printable text) : Built (putText g x y width text style)
  | line {g : Grid} (x y width : Nat) (line : RenderLine) (built : Built g)
      (printable : Printable line.text) : Built (putLine g x y width line)

/-- The terminal has the size of the frame; it keeps its content if it had that size
    before. -/
structure Sized (frame : Grid) (before after : Screen) : Prop where
  width : after.width = frame.width
  height : after.height = frame.height
  kept : before.width = frame.width → before.height = frame.height → after = before

/-- `redraw`: a frame is drawn against the previous one. -/
inductive Displays : Display → DisplayStep → Display → Prop
  | redraw {d : Display} {frame : Grid} {screen : Screen} (cursor : Option (Nat × Nat))
      (built : Built frame) (sized : Sized frame d.screen screen) :
      Displays d (.redraw frame cursor)
        { screen := screen.obeyAll (draw d.cursorPosition (frame.diff d.previous) cursor)
          previous := some frame
          cursorPosition := cursor }
  | lost {d : Display} (screen : Screen) (cursorPosition : Option (Nat × Nat)) :
      Displays d .lost { screen, previous := none, cursorPosition }

end Tea.Terminal
