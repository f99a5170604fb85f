/-
  Tea/Coding/Read.lean
  ====================
  **The read tool** (`tools/read.rs`): the lines of a file from an offset on, cut to the
  first of them by `truncate_read_output`, with a mark behind what was cut.  How a
  fractional number of the arguments reads as an integer is a parameter.
-/
import Tea.Coding.Arguments
import Tea.Encoding.Utf8

namespace Tea.Coding

open Tea.Core Tea.Encoding

/-! ### The first lines of a text -/

/-- `MAX_OUTPUT_BYTES` -/
def maxOutputBytes : Nat := 50 * 1024

/-- `MAX_OUTPUT_LINES` -/
def maxOutputLines : Nat := 2000

/-- The length of a text in bytes. -/
def byteLength (text : List Char) : Nat := (encodeUtf8 text).length

/-- Lines joined by line breaks. -/
def joinLines (lines : List (List Char)) : List Char := ['\n'].intercalate lines

/-- The lines of a text: a line break at its end opens no further line. -/
def outputLines (text : List Char) : List (List Char) :=
  if text.getLast? = some '\n' then (text.splitOn '\n').dropLast else text.splitOn '\n'

/-- The loop over the lines, behind `count` of them. -/
def pushLines (output : List Char) (count : Nat) : List (List Char) → List Char
  | [] => output
  | line :: rest =>
      let separator := if count = 0 then 0 else 1
      if maxOutputBytes < byteLength output + separator + byteLength line then output
      else pushLines (if separator = 0 then output ++ line else output ++ '\n' :: line)
        (count + 1) rest

/-- `truncate_read_output` -/
def truncateReadOutput (bytes : List UInt8) : List Char × Bool :=
  let text := fromUtf8Lossy bytes
  let lines := outputLines text
  if lines.length ≤ maxOutputLines ∧ byteLength text ≤ maxOutputBytes then (text, false)
  else (pushLines [] 0 (lines.take maxOutputLines), true)

/-! ### The tool -/

/-- The suffix of what was cut. -/
def truncatedMark : List Char := "\n[truncated]".toList

/-- What a call answers once the file has been read. -/
def readLines (bytes : List UInt8) (offset limit : Option Nat) : Except ToolError (List Char) :=
  let lines := (fromUtf8Lossy bytes).splitOn '\n'
  let start := offset.getD 1
  if lines.length < start ∧ lines ≠ [] then
    .error (.execution "read" ("offset " ++ toString start ++ " is beyond end of file"))
  else
    let first := min (start - 1) lines.length
    let selected := match limit with
      | some limit => joinLines ((lines.drop first).take limit)
      | none => joinLines (lines.drop first)
    let (output, truncated) := truncateReadOutput (encodeUtf8 selected)
    .ok (output ++ if truncated then truncatedMark else [])

section

variable {F P : Type}

/-- `number_to_usize` -/
def numberToUsize (whole : F → Option Nat) (name key : String) (value : JsonValue F) :
    Except ToolError Nat :=
  match value with
  | .number number =>
      let integer := match number with
        | .unsigned n => some n.toNat
        | .signed n => some n.toInt.toNat
        | .float f => whole f
      match integer.filter (0 < ·) with
      | some n => .ok n
      | none => .error (invalid name ("argument " ++ debugStr key ++ " must be a positive integer"))
  | _ => .error (invalid name ("argument " ++ debugStr key ++ " must be a number"))

/-- `optional_positive_usize` -/
def optionalPositiveUsize (whole : F → Option Nat) (name : String)
    (fields : List (String × JsonValue F)) (key : String) : Except ToolError (Option Nat) :=
  match JsonValue.lookupField key fields with
  | some value => (numberToUsize whole name key value).map some
  | none => .ok none

/-- The arguments of a call: the path, the offset and the limit. -/
def parseReadArgs (parse : String → Option (JsonValue F)) (whole : F → Option Nat)
    (call : AgentToolCall) : Except ToolError (String × Option Nat × Option Nat) := do
  let fields ← parseObject parse "read" call
  let path ← stringField "read" fields "path"
  let offset ← optionalPositiveUsize whole "read" fields "offset"
  let limit ← optionalPositiveUsize whole "read" fields "limit"
  return (path, offset, limit)

/-- `execute` -/
def executeRead (parse : String → Option (JsonValue F)) (whole : F → Option Nat)
    (operations : CodingOperations P) (call : AgentToolCall) : Except ToolError AgentToolResult :=
  match parseReadArgs parse whole call with
  | .error error => .error error
  | .ok (path, offset, limit) =>
      match operations.resolveExisting path with
      | .error error => .error (operationFailure "read" error)
      | .ok resolved =>
          if operations.isCancelled then .error (.cancelled "read")
          else
            match operations.readFile resolved with
            | .error error => .error (operationFailure "read" error)
            | .ok bytes =>
                (readLines bytes offset limit).map fun content =>
                  resultOk call (String.ofList content)

end

end Tea.Coding
