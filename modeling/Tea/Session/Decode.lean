/-
  Tea/Session/Decode.lean
  =======================
  **Reading a session file** (`decode_file` of `app/session.rs`): the header, then
  every line that parses as JSON, folded into the model, the thinking level and the
  messages.
-/

import Tea.Session.Record
import Tea.Tui.Commands
import Tea.Encoding.Utf8

namespace Tea.Session

open Tea.Core Tea.Encoding

/-! ### Fields -/

section

variable {F : Type}

abbrev Fields (F : Type) := List (String × JsonValue F)

def contract {α : Type} (path message : String) : Except SessionError α :=
  .error (.contract path message)

def expectObject (path : String) (value : JsonValue F) : Except SessionError (Fields F) :=
  match value.asObject with
  | some object => .ok object
  | none => contract path "entry must be an object"

def requiredString (path : String) (object : Fields F) (field : String) :
    Except SessionError String :=
  match (JsonValue.lookupField field object).bind (·.asStr) with
  | some value => .ok value
  | none => contract path (field ++ " must be a string")

def optionalStringAt (path : String) (object : Fields F) (field : String) :
    Except SessionError (Option String) :=
  match JsonValue.lookupField field object with
  | none | some .null => .ok none
  | some (.string value) => .ok (some value)
  | some _ => contract path (field ++ " must be a string or null")

/-- `ToolCallId::new` -/
def toolCallIdOf (value : String) : Option ToolCallId :=
  if h : value = "" then none else some ⟨value, h⟩

def parseThinking (path value : String) : Except SessionError ThinkingLevel :=
  if value = "off" then .ok .off
  else if value = "minimal" then .ok .minimal
  else if value = "low" then .ok .low
  else if value = "medium" then .ok .medium
  else if value = "high" then .ok .high
  else if value = "xhigh" then .ok .xHigh
  else if value = "max" then .ok .max
  else contract path ("unknown thinking level " ++ debugStr value)

def parseStopReason (path value : String) : Except SessionError StopReason :=
  if value = "pending" ∨ value = "deferred" then .ok .stop
  else if value = "stop" then .ok .stop
  else if value = "toolUse" ∨ value = "tool_use" then .ok .toolUse
  else if value = "length" then .ok .length
  else if value = "aborted" then .ok .aborted
  else if value = "error" then .ok .error
  else if value = "cancelled" then .ok .cancelled
  else contract path ("unknown stop reason " ++ debugStr value)

/-! ### Messages -/

def decodeContent (path : String) (value : Option (JsonValue F)) : Except SessionError String :=
  match value with
  | none => contract path "message content is missing"
  | some value =>
      match value.asStr with
      | some text => .ok text
      | none =>
          match value.asArray with
          | none => contract path "message content must be text or an array"
          | some values =>
              .ok (String.join (values.filterMap fun value => (value.get "text").bind (·.asStr)))

def decodeStringArray (value : Option (JsonValue F)) : List String :=
  match value.bind (·.asArray) with
  | some values => values.filterMap (·.asStr)
  | none => []

variable (codec : JsonCodec F)

/-- The text of a value, or of null where there is none. -/
def argumentsText (value : Option (JsonValue F)) : String :=
  match value with
  | some value => codec.print value
  | none => "null"

/-- One block of an assistant message, behind what was read of the blocks before it. -/
def decodeBlock (path : String) (found : String × List AgentToolCall) (value : JsonValue F) :
    Except SessionError (String × List AgentToolCall) := do
  let object ← expectObject path value
  let kind ← requiredString path object "type"
  if kind = "text" then
    let text ← requiredString path object "text"
    return (found.1 ++ text, found.2)
  else if kind = "toolCall" then
    let id ← requiredString path object "id"
    match toolCallIdOf id with
    | none => contract path "tool call ID cannot be empty"
    | some id =>
        let name ← requiredString path object "name"
        let arguments := argumentsText codec (JsonValue.lookupField "arguments" object)
        let call : AgentToolCall := { id, name, arguments := ⟨arguments⟩ }
        return (found.1, found.2 ++ [call])
  else return found

def decodeAssistantContent (path : String) (value : Option (JsonValue F)) :
    Except SessionError (String × List AgentToolCall) :=
  match value with
  | none => contract path "assistant content is missing"
  | some value =>
      match value.asStr with
      | some text => .ok (text, [])
      | none =>
          match value.asArray with
          | none => contract path "assistant content must be text or an array"
          | some values => values.foldlM (decodeBlock codec path) ("", [])

def decodeSerializedJson (value : Option (JsonValue F)) : Option SerializedJson :=
  match value with
  | none | some .null => none
  | some value => some ⟨codec.print value⟩

def jsonScalarText (value : JsonValue F) : String :=
  match value.asStr with
  | some text => text
  | none => codec.print value

def decodeUsage (path : String) (value : Option (JsonValue F)) :
    Except SessionError (Option Usage) :=
  match value with
  | none | some .null => .ok none
  | some value => do
      let object ← expectObject path value
      let count (field : String) : Option Nat :=
        ((JsonValue.lookupField field object).bind (·.asU64)).map (·.toNat)
      return some {
        inputTokens := count "input"
        outputTokens := count "output"
        reasoningTokens := none
        cacheReadTokens := count "cacheRead"
        cacheWriteTokens := count "cacheWrite"
        cost := (((JsonValue.lookupField "cost" object).bind (·.get "total")).map
          (jsonScalarText codec)) }

def decodeMessage (path : String) (value : JsonValue F) (id : MessageId) :
    Except SessionError AgentMessage := do
  let object ← expectObject path value
  let role ← requiredString path object "role"
  let field (name : String) := JsonValue.lookupField name object
  if role = "user" then
    let content ← decodeContent path (field "content")
    return .user id content
  else if role = "assistant" then
    let (content, toolCalls) ← decodeAssistantContent codec path (field "content")
    let stopReason ← match (field "stopReason").bind (·.asStr) with
      | some value => (parseStopReason path value).map some
      | none => .ok none
    let errorMessage ← optionalStringAt path object "errorMessage"
    return .assistant id content toolCalls stopReason errorMessage
  else if role = "toolResult" then
    let toolCallId ← requiredString path object "toolCallId"
    match toolCallIdOf toolCallId with
    | none => contract path "toolCallId cannot be empty"
    | some toolCallId =>
        let toolName ← requiredString path object "toolName"
        let content ← decodeContent path (field "content")
        let details := decodeSerializedJson codec (field "details")
        let usage ← decodeUsage codec path (field "usage")
        let isError := ((field "isError").bind (·.asBool)).getD false
        return .toolResult id toolCallId toolName content details usage
          (decodeStringArray (field "addedToolNames")) false isError none
  else contract path ("unsupported message role " ++ debugStr role)

/-! ### Files -/

/-- `str::lines`; `line` holds the letters of the line being read. -/
def linesFrom (line : List Char) : List Char → List String
  | [] => if line = [] then [] else [String.ofList line]
  | c :: rest =>
      if c = '\n' then
        String.ofList (if line.getLast? = some '\r' then line.dropLast else line) ::
          linesFrom [] rest
      else linesFrom (line ++ [c]) rest

def linesOf (source : String) : List String := linesFrom [] source.toList

/-- What the lines read so far amount to. -/
structure Reading where
  model : Option ModelDescriptor
  thinkingLevel : ThinkingLevel
  messages : List AgentMessage

/-- The model that two fields name. -/
def modelOf (provider model : Option (JsonValue F)) : Option ModelDescriptor :=
  match provider.bind (·.asStr), model.bind (·.asStr) with
  | some provider, some model => some { provider, model, revision := none }
  | _, _ => none

/-- An entry behind the header. -/
def decodeEntry (path : String) (reading : Reading) (value : JsonValue F) :
    Except SessionError Reading := do
  let object ← expectObject path value
  let kind ← requiredString path object "type"
  if kind = "model_change" then
    let provider ← requiredString path object "provider"
    let model ← requiredString path object "modelId"
    return { reading with model := some { provider, model, revision := none } }
  else if kind = "thinking_level_change" then
    let level ← requiredString path object "thinkingLevel"
    let thinkingLevel ← parseThinking path level
    return { reading with thinkingLevel }
  else if kind = "message" then
    match JsonValue.lookupField "message" object with
    | none => contract path "message entry has no message"
    | some message =>
        let decoded ← decodeMessage codec path message
          ⟨UInt64.ofNat (reading.messages.length + 1)⟩
        let model :=
          if reading.model.isNone ∧ decoded.isAssistant then
            (modelOf (message.get "provider") (message.get "model")).filter fun model =>
              model.provider ≠ "" ∧ model.model ≠ ""
          else reading.model
        return { reading with model, messages := reading.messages ++ [decoded] }
  else return reading

/-- A line behind the header; a line that is blank or not JSON is passed over. -/
def decodeLine (path : String) (reading : Reading) (line : String) :
    Except SessionError Reading :=
  if Tui.isBlank line then .ok reading
  else
    match codec.parse line with
    | none => .ok reading
    | some value => decodeEntry codec path reading value

/-- The text of a session file. -/
def decodeSource (path source : String) : Except SessionError SessionRecord :=
  match linesOf source with
  | [] => contract path "session has no header"
  | headerLine :: lines =>
      match codec.parse headerLine with
      | none => .error (.json path 1 "invalid JSON")
      | some header => do
          let object ← expectObject path header
          let field (name : String) := JsonValue.lookupField name object
          let kind ← requiredString path object "type"
          if kind ≠ "session" then contract path "first entry is not a session header"
          else
            let version := ((field "version").bind (·.asU64)).getD 1
            if ¬ (1 ≤ version ∧ version ≤ SESSION_VERSION) then
              contract path ("unsupported session version " ++ toString version.toNat)
            else
              let id ← requiredString path object "id"
              match validateSessionId id with
              | .error message => contract path message
              | .ok () =>
                  let timestamp ← requiredString path object "timestamp"
                  let cwd := ((field "cwd").bind (·.asStr)).getD ""
                  let thinkingLevel ← match (field "thinkingLevel").bind (·.asStr) with
                    | some value => parseThinking path value
                    | none => .ok .off
                  let reading ← lines.foldlM (decodeLine codec path) {
                    model := modelOf (field "provider") (field "modelId")
                    thinkingLevel, messages := [] }
                  return {
                    id, timestamp, cwd, model := reading.model
                    thinkingLevel := reading.thinkingLevel, messages := reading.messages }

/-- `decode_file` on the bytes of a file. -/
def decodeFile (path : String) (bytes : List UInt8) : Except SessionError SessionRecord :=
  if MAX_SESSION_BYTES < bytes.length then
    contract path "session exceeds the 16 MiB safety limit"
  else
    match fromUtf8 bytes with
    | .error _ => .error (.io path "stream did not contain valid UTF-8")
    | .ok letters => decodeSource codec path (String.ofList letters)

end

end Tea.Session
