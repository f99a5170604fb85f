/-
  Tea/Provider/CommandCode.lean
  =============================
  **Command Code responses** (`commandcode/response.rs`, and `string_field` of
  `commandcode/payload.rs`): a body of JSON lines, the report of a gateway error, and the
  errors after which a request is sent again.
-/

import Tea.Provider.OpenRouterSse
import Tea.Session.Decode
import Tea.Encoding.Occurrences

namespace Tea.Provider.CommandCode

open Tea.Core Tea.Encoding Tea.Session

section

variable {F : Type} (codec : JsonCodec F)

/-! ### Gateway errors -/

inductive CommandCodeErrorSource where
  | gateway | adapter
deriving DecidableEq

structure CommandCodeErrorReport where
  source : CommandCodeErrorSource
  message : String
  statusCode : Option Nat
  errorType : Option String
  errorCode : Option String
  retryable : Option Bool
deriving DecidableEq

/-- A text field that is present and not empty. -/
def fullText (value : Option (JsonValue F)) : Option String :=
  (value.bind (·.asStr)).filter (· ≠ "")

/-- `redact_diagnostic_text` -/
def redactDiagnosticText (value apiKey : String) : String :=
  let letters := if apiKey = "" then value.toList
    else replaceAll [(apiKey.toList, "[redacted]".toList)] value.toList
  if letters.length ≤ 4096 then String.ofList letters
  else String.ofList (letters.take 4096) ++ "… [truncated]"

/-- `diagnostic_text` -/
def diagnosticText (value : Option (JsonValue F)) (apiKey : String) : Option String :=
  (fullText value).map fun value => redactDiagnosticText value apiKey

/-- `status_code` -/
def statusCode (value : Option (JsonValue F)) : Option Nat :=
  ((value.bind (·.asU64)).map (·.toNat)).filter (· ≤ 65535)

/-- `has_terminal_marker` -/
def hasTerminalMarker (message : String) : Bool :=
  let message := message.toList.map OpenRouterSse.asciiLower
  ["premium_credits_exhausted", "model_not_in_plan", "insufficient credits"].any
    (OpenRouterSse.contains message)

/-- `is_retryable` -/
def isRetryable (statusCode : Option Nat) (reported : Option Bool) (message : String) : Bool :=
  if reported = some true then true
  else
    match statusCode with
    | some statusCode => decide (statusCode = 429 ∨ 500 ≤ statusCode ∧ statusCode ≤ 599)
    | none => decide (reported ≠ some false) && !hasTerminalMarker message

/-- `str::parse::<u16>` -/
def parseU16 (text : String) : Option Nat :=
  let digits := if text.toList.head? = some '+' then text.toList.drop 1 else text.toList
  if digits ≠ [] ∧ digits.all Char.isDigit then
    (some (Nat.ofDigitChars 10 digits 0)).filter (· ≤ 65535)
  else none

structure EmbeddedGatewayError where
  message : String
  statusCode : Option Nat
  errorType : Option String

/-- `parse_embedded_error` -/
def parseEmbeddedError (message : String) : Option EmbeddedGatewayError := do
  let payload ← codec.parse (String.ofList (message.toList.dropWhile (· ≠ '\x7b')))
  let error ← payload.get "error"
  let error ← error.asObject
  let embedded ← JsonValue.lookupField "message" error
  let embedded ← embedded.asStr
  let embeddedMessage := Tui.trim embedded
  if message.toList.contains '\x7b' ∧ embeddedMessage ≠ "" then
    some {
      message := embeddedMessage
      statusCode := parseU16 (Tui.trim (String.ofList (message.toList.takeWhile (· ≠ '\x7b'))))
      errorType := fullText (JsonValue.lookupField "type" error) }
  else none

/-- What `parse_gateway_error` reads from the event: message, status, hint, type and code. -/
def gatewayFields (event : Fields F) (apiKey : String) :
    String × Option Nat × Option Bool × Option String × Option String :=
  match JsonValue.lookupField "error" event with
  | some (.mapping error) =>
      let field (name : String) := JsonValue.lookupField name error
      ((fullText (field "message")).getD "Command Code gateway emitted an error without a message",
        (statusCode (field "statusCode")).or (statusCode (field "status")),
        (field "isRetryable").bind (·.asBool), diagnosticText (field "type") apiKey,
        diagnosticText (field "code") apiKey)
  | other =>
      match fullText other with
      | some message => (message, none, none, none, none)
      | none =>
          ("Command Code gateway emitted an error without diagnostic details", none, none, none,
            none)

/-- `parse_gateway_error` -/
def parseGatewayError (event : Fields F) (apiKey : String) : CommandCodeErrorReport :=
  let (message, directStatus, directRetryable, errorType, errorCode) := gatewayFields event apiKey
  match parseEmbeddedError codec message with
  | some embedded =>
      let status := embedded.statusCode.or directStatus
      { source := .gateway, message := redactDiagnosticText embedded.message apiKey
        statusCode := status
        errorType := (embedded.errorType.or errorType).map fun value =>
          redactDiagnosticText value apiKey
        errorCode, retryable := some (isRetryable status directRetryable embedded.message) }
  | none =>
      { source := .gateway, message := redactDiagnosticText message apiKey
        statusCode := directStatus, errorType, errorCode
        retryable := some (isRetryable directStatus directRetryable message) }

/-! ### Records -/

structure ParsedCommandCodeResponse where
  events : List ModelStreamEvent := []
  usage : Usage := {}
  error : Option CommandCodeErrorReport := none
deriving DecidableEq

/-- The response so far, and whether its terminal event was read. -/
structure Ndjson extends ParsedCommandCodeResponse where
  terminal : Bool := false

/-- `finish_reason` -/
def finishReason (value : Option (JsonValue F)) : StopReason :=
  match value.bind (·.asStr) with
  | some "tool-calls" => .toolUse
  | some "length" => .length
  | _ => .stop

def tokenCount (value : Option (JsonValue F)) : Option Nat :=
  (value.bind (·.asU64)).map (·.toNat)

/-- `parse_usage` -/
def parseUsage (value : Option (JsonValue F)) : Usage :=
  match value.bind (·.asObject) with
  | none => {}
  | some value =>
      let field (name : String) := tokenCount (JsonValue.lookupField name value)
      { inputTokens := field "inputTokens", outputTokens := field "outputTokens"
        reasoningTokens := (field "reasoningTokens").or (field "reasoning_tokens") }

/-- `string_field` -/
def stringField (object : Fields F) (key subject : String) : Except String String :=
  match fullText (JsonValue.lookupField key object) with
  | some value => .ok value
  | none => .error (subject ++ " did not contain " ++ key)

/-- A text delta. -/
def textDelta (event : Fields F) : Except String ModelStreamEvent := do
  let text ← stringField event "text" "Command Code text delta"
  .ok (.textDelta text)

/-- A tool call; its input is an object under one of two names. -/
def toolCall (event : Fields F) : Except String ModelStreamEvent := do
  let id ← stringField event "toolCallId" "Command Code tool call"
  let name ← stringField event "toolName" "Command Code tool call"
  match (JsonValue.lookupField "input" event).or (JsonValue.lookupField "args" event) with
  | some (.mapping fields) =>
      match toolCallIdOf id with
      | some id => .ok (.toolCall { id, name, arguments := ⟨codec.print (.mapping fields)⟩ })
      | none => .error "Command Code tool call omitted its identifier"
  | _ => .error "Command Code tool call did not contain object input"

/-- The type of an event: `none` for an untyped error envelope. -/
def eventType (event : Fields F) : Except String (Option String) :=
  match (JsonValue.lookupField "type" event).bind (·.asStr) with
  | some eventType =>
      if eventType ≠ "" then .ok (some eventType)
      else .error "Command Code NDJSON event did not contain type"
  | none =>
      if (JsonValue.lookupField "error" event).isSome then .ok none
      else .error "Command Code NDJSON event did not contain type"

/-- The event in the place of a gateway error. -/
def providerError : ModelStreamEvent := .error "Command Code provider returned an error"

/-- The branches for an error event or envelope. -/
def readError (apiKey : String) (event : Fields F) (s : Ndjson) : Ndjson :=
  { s with
    error := some (parseGatewayError codec event apiKey)
    events := s.events ++ [providerError]
    terminal := true }

/-- The branches for an event before the terminal one. -/
def readTyped (apiKey : String) (eventType : String) (event : Fields F) (s : Ndjson) :
    Except String Ndjson :=
  if eventType = "text-delta" then do
    let delta ← textDelta event
    .ok { s with events := s.events ++ [delta] }
  else if eventType = "reasoning-start" ∨ eventType = "reasoning-delta" then .ok s
  else if eventType = "tool-call" then do
    let call ← toolCall codec event
    .ok { s with events := s.events ++ [call] }
  else if eventType = "finish" then
    .ok { s with
      usage := parseUsage (JsonValue.lookupField "totalUsage" event)
      events := s.events ++ [.end_ (finishReason (JsonValue.lookupField "finishReason" event))]
      terminal := true }
  else if eventType = "error" then .ok (readError codec apiKey event s)
  else if eventType = "abort" then
    .ok { s with events := s.events ++ [.aborted "Command Code stream aborted"], terminal := true }
  else .ok s

/-- One line of the body. -/
def readLine (apiKey : String) (s : Ndjson) (line : String) : Except String Ndjson :=
  match codec.parse line with
  | none => .error "Command Code returned invalid NDJSON"
  | some value =>
      match value.asObject with
      | none => .error "Command Code NDJSON event must be an object"
      | some event =>
          match eventType event with
          | .error message => .error message
          | .ok none => .ok (readError codec apiKey event s)
          | .ok (some eventType) =>
              if s.terminal then
                if eventType = "provider-metadata" then .ok s
                else .error "Command Code response contained events after its terminal event"
              else readTyped codec apiKey eventType event s

/-- The lines of a body that are not blank. -/
def recordLines (response : String) : List String :=
  (linesOf response).filter fun line => !Tui.isBlank line

/-- `parse_ndjson_response` -/
def parseNdjsonResponse (bytes : List UInt8) (apiKey : String) :
    Except String ParsedCommandCodeResponse :=
  match fromUtf8 bytes with
  | .error _ => .error "Command Code returned a non-UTF-8 NDJSON response"
  | .ok response => do
      let s ← (recordLines (String.ofList response)).foldlM (readLine codec apiKey) {}
      if s.terminal then .ok s.toParsedCommandCodeResponse
      else .error "Command Code stream ended without a terminal event"

/-- `is_retryable_response_error` -/
def isRetryableResponseError (message : String) : Bool :=
  [ "Command Code returned a non-UTF-8 NDJSON",
    "Command Code returned invalid NDJSON",
    "Command Code NDJSON event did not contain type",
    "Command Code NDJSON event must be an object",
    "Command Code stream ended without a terminal event",
    "Command Code response contained events after its terminal event" ].contains message

end

end Tea.Provider.CommandCode
