/-
  Tea/Coding/Edit.lean
  ====================
  **The edit tool** (`tools/edit.rs`): every edit is looked up in the original file, and
  the spans found are replaced from the last one to the first.  A file is its bytes; a
  replacement that would cut a character is a panic (`none`).
-/

import Tea.Coding.Arguments
import Tea.Encoding.Occurrences
import Tea.Encoding.Utf8
import Mathlib.Data.List.Sort

namespace Tea.Coding

open Tea.Core Tea.Encoding

structure EditSpec where
  old : String
  new : String
deriving DecidableEq, Repr

def EditSpec.oldBytes (edit : EditSpec) : List UInt8 := encodeUtf8 edit.old.toList

def EditSpec.newBytes (edit : EditSpec) : List UInt8 := encodeUtf8 edit.new.toList

/-! ### Arguments -/

section

variable {F : Type}

def parseEdit (name : String) (edit : JsonValue F) : Except ToolError EditSpec :=
  match edit with
  | .mapping fields => do
      let old ← stringField name fields "oldText"
      let new ← stringField name fields "newText"
      return { old, new }
  | _ => .error (invalid name "each edit must be an object")

/-- `parse_edit_args` -/
def parseEditArgs (parse : String → Option (JsonValue F)) (name : String)
    (call : AgentToolCall) : Except ToolError (String × List EditSpec) := do
  let fields ← parseObject parse name call
  let path ← stringField name fields "path"
  let edits ← match ← field name fields "edits" with
    | .array edits => pure edits
    | _ => .error (invalid name "argument \"edits\" must be an array")
  if edits.isEmpty then .error (invalid name "argument \"edits\" cannot be empty")
  else return (path, ← edits.mapM (parseEdit name))

end

/-! ### Locations -/

/-- Where an edit was found: its span, and the edit. -/
structure Location where
  start : Nat
  finish : Nat
  edit : EditSpec
deriving DecidableEq

/-- The one place of an edit. -/
def locate (text : List UInt8) (edit : EditSpec) : Except ToolError Location :=
  if edit.old = "" then .error (.invalidArguments "edit" "oldText cannot be empty")
  else
    match matchIndices edit.oldBytes text with
    | [start] => .ok { start, finish := start + edit.oldBytes.length, edit }
    | found => .error (.execution "edit" ("oldText must match exactly once; found " ++
        toString found.length ++ " matches"))

/-- `windows(2)`: a span ends behind the beginning of the next one. -/
def overlap : List Location → Bool
  | first :: second :: rest => decide (second.start < first.finish) || overlap (second :: rest)
  | _ => false

/-- The spans in the order of their beginnings. -/
def sortedLocations (locations : List Location) : List Location :=
  locations.insertionSort fun a b => a.start ≤ b.start

/-! ### Replacement -/

/-- `is_char_boundary` -/
def isCharBoundary (text : List UInt8) (index : Nat) : Bool :=
  index = 0 || index = text.length || (text[index]?).any fun byte => !isContinuation byte

/-- `replace_range` -/
def replaceRange (text : List UInt8) (start finish : Nat) (new : List UInt8) :
    Option (List UInt8) :=
  if isCharBoundary text start && isCharBoundary text finish then
    some (text.take start ++ new ++ text.drop finish)
  else none

/-- The loop over the locations, the last one first. -/
def applyEdits (text : List UInt8) (locations : List Location) : Option (List UInt8) :=
  locations.reverse.foldlM
    (fun text location =>
      replaceRange text location.start location.finish location.edit.newBytes) text

/-- The edits of a text: an error, or the new text. -/
def editText (text : List UInt8) (edits : List EditSpec) :
    Option (Except ToolError (List UInt8)) :=
  match edits.mapM (locate text) with
  | .error error => some (.error error)
  | .ok locations =>
      let locations := sortedLocations locations
      if overlap locations then
        some (.error (.execution "edit" "edits overlap in the original file"))
      else (applyEdits text locations).map .ok

/-! ### The tool -/

/-- What a call returns, and what it has handed to `write_file`. -/
structure EditOutcome (P : Type) where
  result : Except ToolError AgentToolResult
  written : Option (P × List UInt8) := none

variable {F P : Type}

/-- `execute` -/
def execute (parse : String → Option (JsonValue F)) (operations : CodingOperations P)
    (call : AgentToolCall) : Option (EditOutcome P) :=
  match parseEditArgs parse "edit" call with
  | .error error => some { result := .error error }
  | .ok (path, edits) =>
      match operations.resolveExisting path with
      | .error error => some { result := .error (operationFailure "edit" error) }
      | .ok resolved =>
          if operations.isCancelled then some { result := .error (.cancelled "edit") }
          else
            match operations.readFile resolved with
            | .error error => some { result := .error (operationFailure "edit" error) }
            | .ok original =>
                match fromUtf8 original with
                | .error _ =>
                    some { result := .error (.execution "edit" "file is not valid UTF-8") }
                | .ok _ =>
                    (editText original edits).map fun
                      | .error error => { result := .error error }
                      | .ok text =>
                          { result :=
                              match operations.writeFile resolved text with
                              | some error => .error (operationFailure "edit" error)
                              | none => .ok (resultOk call ("Successfully replaced " ++
                                  toString edits.length ++ " block(s) in " ++ path ++ "."))
                            written := some (resolved, text) }

end Tea.Coding
