/-
  Tea/Tui/Composer.lean
  =====================
  **The prompt buffer** (`composer.rs`): a text and a cursor, the byte offset at which the
  next operation slices the text.  An operation is `none` where the program panics.
-/
import Tea.Tui.Commands
import Tea.Tui.VisualLayout

namespace Tea.Tui

open Tea.Encoding

inductive ComposerError where
  | newline
deriving DecidableEq

structure Composer where
  text : List Char := []
  cursor : Nat := 0
deriving DecidableEq

namespace Composer

def new : Composer := {}

/-- What a fallible operation leaves behind and answers. -/
abbrev Edited := Composer × Except ComposerError Unit

/-! ### Text -/

/-- `self.text.insert_str(self.cursor, text)`, and the cursor behind it. -/
def insertText (composer : Composer) (text : List Char) : Option Composer :=
  (cut composer.text composer.cursor).map fun parts =>
    { text := parts.1 ++ text ++ parts.2, cursor := composer.cursor + utf8Length text }

/-- A line break is refused by the operations on one line. -/
def breaksLine (symbol : Char) : Bool := symbol = '\n' || symbol = '\r'

def insert (composer : Composer) (symbol : Char) : Option Edited :=
  if breaksLine symbol then some (composer, .error .newline)
  else (composer.insertText [symbol]).map fun edited => (edited, .ok ())

def insertNewline (composer : Composer) : Option Composer := composer.insertText ['\n']

def insertStr (composer : Composer) (text : List Char) : Option Edited :=
  if text.any breaksLine then some (composer, .error .newline)
  else (composer.insertText text).map fun edited => (edited, .ok ())

def insertStrMultiline (composer : Composer) (text : List Char) : Option Composer :=
  composer.insertText text

def replaceFromEditor (_composer : Composer) (text : List Char) : Composer :=
  { text, cursor := utf8Length text }

def replace (composer : Composer) (text : List Char) : Edited :=
  if text.any breaksLine then (composer, .error .newline)
  else ({ text, cursor := utf8Length text }, .ok ())

def clear (_composer : Composer) : Composer := {}

def take (composer : Composer) : List Char × Composer := (composer.text, {})

def submit (composer : Composer) : List Char × Composer := (composer.text, {})

/-! ### Clusters -/

/-- The start of the last character of a reversed text that is not a mark on the one before it. -/
def clusterStart : List Char → Nat
  | [] => 0
  | c :: cs => if isZeroWidth c then clusterStart cs else utf8Length cs

/-- `previous_cluster_start` -/
def previousClusterStart (text : List Char) (cursor : Nat) : Option Nat :=
  (cut text cursor).map fun parts => clusterStart parts.1.reverse

/-- The first character from an offset on; the slice panics where it is no boundary. -/
def nextCharacter (text : List Char) (offset : Nat) : Option (Option Char) :=
  (cut text offset).map fun parts => parts.2.head?

theorem nextCharacter_lt {text : List Char} {offset : Nat} {c : Char}
    (h : nextCharacter text offset = some (some c)) :
    utf8Length text - (offset + c.utf8Size) < utf8Length text - offset := by
  obtain ⟨⟨before, after⟩, hcut, hhead⟩ := Option.map_eq_some_iff.mp h
  obtain ⟨rfl, rfl⟩ := cut_eq_some hcut
  have hpos := Char.utf8Size_pos c
  cases after with
  | nil => simp at hhead
  | cons c' after =>
    obtain rfl : c' = c := by simpa using hhead
    rw [utf8Length_append, utf8Length_cons]
    omega

/-- The offset behind the marks that follow. -/
def skipMarks (text : List Char) (offset : Nat) : Option Nat :=
  match _h : nextCharacter text offset with
  | none => none
  | some none => some offset
  | some (some c) => if isZeroWidth c then skipMarks text (offset + c.utf8Size) else some offset
termination_by utf8Length text - offset
decreasing_by exact nextCharacter_lt ‹_›

def moveLeft (composer : Composer) : Option Composer :=
  (previousClusterStart composer.text composer.cursor).map fun cursor => { composer with cursor }

def moveRight (composer : Composer) : Option Composer := do
  match ← nextCharacter composer.text composer.cursor with
  | none => some composer
  | some c =>
      let cursor ← skipMarks composer.text (composer.cursor + c.utf8Size)
      some { composer with cursor }

/-- `self.text.drain(start..stop)` -/
def drain (text : List Char) (start stop : Nat) : Option (List Char) := do
  let (before, after) ← cut text stop
  let (kept, _) ← cut before start
  some (kept ++ after)

def backspace (composer : Composer) : Option Composer :=
  if composer.cursor = 0 then some composer
  else do
    let clusterStart ← previousClusterStart composer.text composer.cursor
    let text ← drain composer.text clusterStart composer.cursor
    some { text, cursor := clusterStart }

def delete (composer : Composer) : Option Composer := do
  match ← nextCharacter composer.text composer.cursor with
  | none => some composer
  | some c =>
      let stop ← skipMarks composer.text (composer.cursor + c.utf8Size)
      let text ← drain composer.text composer.cursor stop
      some { composer with text }

/-! ### Words -/

/-- The last character before an offset and its start; the program expects one there. -/
def lastCharacter (text : List Char) (offset : Nat) : Option (Nat × Char) := do
  let (before, _) ← cut text offset
  let c ← before.getLast?
  some (utf8Length before.dropLast, c)

theorem lastCharacter_lt {text : List Char} {offset start : Nat} {c : Char}
    (h : lastCharacter text offset = some (start, c)) : start < offset := by
  obtain ⟨⟨before, after⟩, hcut, h⟩ := Option.bind_eq_some_iff.mp h
  obtain ⟨last, hlast, h⟩ := Option.bind_eq_some_iff.mp h
  obtain ⟨rfl, -⟩ := Prod.mk.inj (Option.some.inj h)
  have hpos := Char.utf8Size_pos last
  have hbefore := List.dropLast_append_getLast? last hlast
  rw [(cut_eq_some hcut).2]
  calc utf8Length before.dropLast
    _ < utf8Length (before.dropLast ++ [last]) := by
      rw [utf8Length_append, utf8Length_cons]
      omega
    _ = utf8Length before := by rw [hbefore]

/-- `while` the character before the cursor is skipped, the cursor moves in front of it. -/
def scanLeft (skips : Char → Bool) (text : List Char) (cursor : Nat) : Option Nat :=
  if cursor = 0 then some cursor
  else
    match _h : lastCharacter text cursor with
    | none => none
    | some (start, c) => if skips c then scanLeft skips text start else some cursor
termination_by cursor
decreasing_by exact lastCharacter_lt ‹_›

/-- `while` the character at the cursor is skipped, the cursor moves behind it. -/
def scanRight (skips : Char → Bool) (text : List Char) (cursor : Nat) : Option Nat :=
  if cursor < utf8Length text then
    match _h : nextCharacter text cursor with
    | none => none
    | some none => none
    | some (some c) =>
        if skips c then scanRight skips text (cursor + c.utf8Size) else some cursor
  else some cursor
termination_by utf8Length text - cursor
decreasing_by exact nextCharacter_lt ‹_›

def moveWordLeft (composer : Composer) : Option Composer := do
  let cursor ← scanLeft isWhitespace composer.text composer.cursor
  let cursor ← scanLeft (fun c => !isWhitespace c) composer.text cursor
  some { composer with cursor }

def moveWordRight (composer : Composer) : Option Composer := do
  let cursor ← scanRight isWhitespace composer.text composer.cursor
  let cursor ← scanRight (fun c => !isWhitespace c) composer.text cursor
  some { composer with cursor }

/-! ### Lines -/

/-- The start of the logical line that an offset is on. -/
def lineStart (text : List Char) (offset : Nat) : Option Nat :=
  (cut text offset).map fun parts => ((rfind '\n' parts.1).map (· + 1)).getD 0

/-- The end of the logical line that an offset is on. -/
def lineEnd (text : List Char) (offset : Nat) : Option Nat :=
  (cut text offset).map fun parts =>
    ((Encoding.find '\n' parts.2).map (offset + ·)).getD (utf8Length text)

def home (composer : Composer) : Option Composer :=
  (lineStart composer.text composer.cursor).map fun cursor => { composer with cursor }

def «end» (composer : Composer) : Option Composer :=
  (lineEnd composer.text composer.cursor).map fun cursor => { composer with cursor }

def moveLineUp (composer : Composer) : Option Composer := do
  let currentStart ← lineStart composer.text composer.cursor
  if currentStart = 0 then some composer
  else
    let column ← slice composer.text currentStart composer.cursor
    let previousEnd := currentStart - 1
    let previousStart ← lineStart composer.text previousEnd
    let previous ← slice composer.text previousStart previousEnd
    some { composer with cursor := charOffset previous column.length + previousStart }

def moveLineDown (composer : Composer) : Option Composer := do
  let currentStart ← lineStart composer.text composer.cursor
  let currentEnd ← lineEnd composer.text composer.cursor
  if currentEnd = utf8Length composer.text then some composer
  else
    let column ← slice composer.text currentStart composer.cursor
    let nextStart := currentEnd + 1
    let nextEnd ← lineEnd composer.text nextStart
    let next ← slice composer.text nextStart nextEnd
    some { composer with cursor := charOffset next column.length + nextStart }

/-! ### Visual lines -/

/-- The offset behind the characters that end within the desired column. -/
def reach (desiredColumn : Nat) : Nat → Nat → List Char → Nat
  | _, cursor, [] => cursor
  | column, cursor, symbol :: symbols =>
      let symbolWidth := displayWidth symbol
      if desiredColumn < column + symbolWidth then cursor
      else reach desiredColumn (column + symbolWidth) (cursor + symbol.utf8Size) symbols

/-- `move_visual_line`, with whether the cursor moved. -/
def moveVisualLine (composer : Composer) (width : UInt16) (direction : Int) :
    Option (Composer × Bool) := do
  let layout := VisualLayout.measure composer.text composer.cursor width
  let target := layout.cursorRow + direction
  if target < 0 ∨ layout.rows.length ≤ target then some (composer, false)
  else
    let currentRow ← layout.rows[layout.cursorRow]?
    let targetRow ← layout.rows[target.toNat]?
    let passed ← slice composer.text currentRow.start composer.cursor
    let symbols ← slice composer.text targetRow.start targetRow.stop
    some ({ composer with cursor := reach (textWidth passed) 0 targetRow.start symbols }, true)

def moveVisualLineUp (composer : Composer) (width : UInt16) : Option (Composer × Bool) :=
  composer.moveVisualLine width (-1)

def moveVisualLineDown (composer : Composer) (width : UInt16) : Option (Composer × Bool) :=
  composer.moveVisualLine width 1

end Composer

end Tea.Tui
