/-
  Tea/Tui/History.lean
  ====================
  **The history of prompts** (`state.rs`, `input.rs`): the prompts that were submitted, the cursor
  in them, and the draft that the composer held when the cursor left it.
-/
import Tea.Tui.Commands

namespace Tea.Tui

/-- The history, and the text of the composer. -/
structure PromptLine where
  history : List String := []
  historyIndex : Option Nat := none
  historyDraft : Option String := none
  text : String := ""
deriving DecidableEq

namespace PromptLine

variable (s : PromptLine)

def recordHistory (prompt : String) : PromptLine :=
  if isBlank prompt then s
  else
    { s with
      history := if s.history.getLast? = some prompt then s.history else s.history ++ [prompt]
      historyIndex := none
      historyDraft := none }

def beginHistoryNavigation : PromptLine :=
  if s.historyIndex.isNone then { s with historyDraft := some s.text } else s

def historyPrevious : Option String × PromptLine :=
  if s.history = [] then (none, s)
  else
    let index := s.historyIndex.getD s.history.length - 1
    (s.history[index]?, { s with historyIndex := some index })

def historyNext : Option String × PromptLine :=
  match s.historyIndex with
  | none => (none, s)
  | some index =>
    if s.history.length ≤ index + 1 then
      (some (s.historyDraft.getD ""), { s with historyIndex := none, historyDraft := none })
    else (s.history[index + 1]?, { s with historyIndex := some (index + 1) })

/-- `replace_from_editor` of a prompt that was found. -/
def replaceFromEditor : Option String × PromptLine → PromptLine
  | (some text, s) => { s with text }
  | (none, s) => s

/-- Up in the first row of the composer. -/
def up : PromptLine := replaceFromEditor s.beginHistoryNavigation.historyPrevious

/-- Down in the last row of the composer. -/
def down : PromptLine := replaceFromEditor s.historyNext

/-- `submit_composer`, as far as the history goes. -/
def submit : PromptLine :=
  if isBlank s.text then { s with text := "" } else { s with text := "" }.recordHistory s.text

def clearHistory : PromptLine :=
  { s with history := [], historyIndex := none, historyDraft := none }

end PromptLine

/-- What a key does with the history and the composer. -/
inductive LineKey where
  | up
  | down
  | edit (text : String)
  | submit
  | clear
deriving DecidableEq

def LineKey.apply (s : PromptLine) : LineKey → PromptLine
  | .up => s.up
  | .down => s.down
  | .edit text => { s with text }
  | .submit => s.submit
  | .clear => s.clearHistory

end Tea.Tui
