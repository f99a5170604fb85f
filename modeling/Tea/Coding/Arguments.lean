/-
  Tea/Coding/Arguments.lean
  =========================
  **Arguments of the coding tools** (`tools/arguments.rs`), and the file operations that
  their host provides (`tools/contract.rs`).
-/

import Tea.Core.Event
import Tea.Encoding.Json

namespace Tea.Coding

open Tea.Core Tea.Encoding

/-- A host-side failure from a coding-tool operation. -/
structure OperationError where
  message : String
deriving DecidableEq, Repr

/-- What the host's operations do in one call of a tool, on paths in `P`; a call of
    `writeFile` that fails says why. -/
structure CodingOperations (P : Type) where
  isCancelled : Bool
  resolveExisting : String → Except OperationError P
  readFile : P → Except OperationError (List UInt8)
  writeFile : P → List UInt8 → Option OperationError

/-- `invalid` -/
def invalid (name message : String) : ToolError := .invalidArguments name message

/-- `operation_failure` -/
def operationFailure (name : String) (error : OperationError) : ToolError :=
  if error.message = "cancelled" then .cancelled name else .execution name error.message

/-- `result_ok` -/
def resultOk (call : AgentToolCall) (content : String) : AgentToolResult :=
  { toolCallId := call.id, content }

section

variable {F : Type}

/-- `parse_object` -/
def parseObject (parse : String → Option (JsonValue F)) (name : String) (call : AgentToolCall) :
    Except ToolError (List (String × JsonValue F)) :=
  match parse call.arguments.text with
  | some (.mapping fields) => .ok fields
  | some _ => .error (invalid name "arguments must be a JSON object")
  | none => .error (invalid name "arguments must be valid JSON")

/-- `field` -/
def field (name : String) (fields : List (String × JsonValue F)) (key : String) :
    Except ToolError (JsonValue F) :=
  match JsonValue.lookupField key fields with
  | some value => .ok value
  | none => .error (invalid name ("missing required argument " ++ debugStr key))

/-- `string_field` -/
def stringField (name : String) (fields : List (String × JsonValue F)) (key : String) :
    Except ToolError String := do
  match ← field name fields key with
  | .string value => .ok value
  | _ => .error (invalid name ("argument " ++ debugStr key ++ " must be a string"))

end

end Tea.Coding
