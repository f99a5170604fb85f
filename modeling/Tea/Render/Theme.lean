/-
  Tea/Render/Theme.lean
  =====================
  **The default palette** (`theme.rs`): the style of text by what it is for.
-/
import Tea.Tui.Grid

namespace Tea.Render

open Tea.Tui

/-- What a text is for. -/
inductive Role where
  | plain
  | accent
  | muted
  | text
  | error
  | success
  | activity
deriving DecidableEq, Repr

/-- `Theme`: one color for each role. -/
structure Theme where
  accent : Color := .cyan
  muted : Color := .darkGrey
  text : Color := .white
  error : Color := .red
  success : Color := .green
  activity : Color := .yellow
deriving DecidableEq, Repr

/-- `Theme::style` -/
def Theme.style (theme : Theme) (role : Role) : Style where
  foreground := some <|
    match role with
    | .plain => theme.text
    | .accent => theme.accent
    | .muted => theme.muted
    | .text => theme.text
    | .error => theme.error
    | .success => theme.success
    | .activity => theme.activity
  bold := role = .accent || role = .text || role = .error

/-- `RenderLine::plain` -/
def plainLine (text : List Char) (style : Style) : RenderLine :=
  { text := String.ofList text, style }

@[simp] theorem text_plainLine (text : List Char) (style : Style) :
    (plainLine text style).text.toList = text :=
  String.toList_ofList

end Tea.Render
