/-
  Tea/Render/Surface.lean
  =======================
  **A temporary surface** (`render_surface`): the frame of the lines of a menu, a picker or a
  detail view between its rules.
-/
import Tea.Render.Theme
import Tea.Render.Wrap
import Tea.Tui.Picker

namespace Tea.Render

open Tea.Tui
open Tea.Provider.Registry (ProviderRegistry)

/-- `wrap_lines` -/
def wrapLines (text : String) (width : Nat) (style : Style) : List RenderLine :=
  (wrapRawText text.toList width).map fun row => plainLine row style

/-! ### Rows of lines -/

/-- A row of a line, and where it is put. -/
structure Placement where
  line : Nat
  row : RenderLine
  y : Nat

/-- The rows of a line from `y` on, and where the next row goes; it stops at the limit. -/
def placeRows (line limit : Nat) : List RenderLine → Nat → List Placement × Nat
  | [], y => ([], y)
  | row :: rest, y =>
    if limit ≤ y then ([], y)
    else
      let (placed, next) := placeRows line limit rest (saturatingAdd y 1)
      (⟨line, row, y⟩ :: placed, next)

/-- The loop of `render_surface` over the lines from the number `line` on. -/
def placeLines (width limit : Nat) (style : Style) (line : Nat) : List String → Nat →
    List Placement
  | [], _ => []
  | text :: rest, y =>
    let (placed, next) := placeRows line limit (wrapLines text width style) y
    if limit ≤ next then placed
    else placed ++ placeLines width limit style (line + 1) rest next

def putPlacement (width : Nat) (grid : Grid) (placement : Placement) : Grid :=
  putLine grid 0 placement.y width placement.row

/-! ### The frame -/

/-- The lines of a surface; `footer` is what `footer_lines` shows. -/
def surfaceText (footer : String × String) (state : AppState) (registry : ProviderRegistry) :
    List String :=
  match state.surface with
  | .help =>
    if state.surfaceLines = [] then
      ["Commands", "", "General", "  /help  show keybindings and commands"]
    else state.surfaceLines
  | .cost =>
    if state.surfaceLines = [] then ["Cost and context", "", footer.1, footer.2]
    else state.surfaceLines
  | .toolDetail =>
    if state.surfaceLines = [] then ["No transcript yet."] else state.surfaceLines
  | .none => []
  | _ => (state.picker.map (·.linesVisible registry usizeMax)).getD []

def surfaceHint : UiSurface → String
  | .help => "↑↓ Navigate · Enter Open · Esc Close"
  | .toolDetail => "↑↓ Scroll · Ctrl+O Close · Esc Close"
  | .modelPicker => "↑↓ Navigate · Enter Select · Esc Close"
  | .customModel => "↑↓ Navigate · Enter Select · Esc Close"
  | .sessionPicker => "↑↓ Navigate · Enter Select · Esc Close"
  | _ => "Esc Close"

def rule (width : Nat) : String := String.ofList (List.replicate width '─')

/-- The rows of a surface with their places. -/
def surfacePlacements (footer : String × String) (state : AppState) (registry : ProviderRegistry)
    (width height : Nat) : List Placement :=
  let lines := surfaceText footer state registry
  let start := min state.surfaceOffset lines.length
  placeLines width (height - 2) (({} : Theme).style .text) start (lines.drop start) 2

/-- `render_surface` -/
def renderSurface (footer : String × String) (state : AppState) (registry : ProviderRegistry)
    (width height : Nat) (fits : width < 2 ^ 16 ∧ height < 2 ^ 16) : Grid :=
  let theme : Theme := {}
  let grid := Grid.new width height fits
  if height = 0 then grid
  else
    let grid := putText grid 0 0 width "┃ " (theme.style .text)
    let grid :=
      if 1 < height then putText grid 0 1 width (rule width) (theme.style .muted) else grid
    let grid :=
      (surfacePlacements footer state registry width height).foldl (putPlacement width) grid
    if 2 < height then
      let grid := putText grid 0 (height - 2) width (rule width) (theme.style .muted)
      putText grid 0 (height - 1) width (surfaceHint state.surface) (theme.style .muted)
    else grid

end Tea.Render
