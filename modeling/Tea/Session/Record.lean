/-
  Tea/Session/Record.lean
  =======================
  **Session records and their files** (`app/session.rs`): the JSON Lines that
  `encode_file` writes.  The counter behind the entry identifiers and the clock are
  what an entry finds when it is written (`Stamp`); the text codec is a parameter.
-/

import Tea.Core.State
import Tea.Encoding.Json

namespace Tea.Session

open Tea.Core Tea.Encoding

/-! ### Records -/

def SESSION_VERSION : UInt64 := 3

def MAX_SESSION_BYTES : Nat := 16 * 1024 * 1024

/-- A linear session. -/
structure SessionRecord where
  id : String
  timestamp : String
  cwd : String
  model : Option ModelDescriptor
  thinkingLevel : ThinkingLevel
  messages : List AgentMessage
deriving DecidableEq

/-- Failures at the persistence boundary. -/
inductive SessionError where
  | io (path message : String)
  | contract (path message : String)
  | json (path : String) (line : Nat) (message : String)
deriving DecidableEq

/-- `char::is_ascii_alphanumeric` -/
def isAsciiAlphanumeric (c : Char) : Bool :=
  ('a' ≤ c && c ≤ 'z') || ('A' ≤ c && c ≤ 'Z') || ('0' ≤ c && c ≤ '9')

/-- `validate_session_id`.  Every letter it allows is one byte. -/
def validateSessionId (id : String) : Except String Unit :=
  let letters := id.toList
  if letters = [] ∨ 128 < id.utf8ByteSize ∨ ¬ letters.head?.any isAsciiAlphanumeric ∨
      ¬ letters.getLast?.any isAsciiAlphanumeric ∨
      ¬ letters.all (fun c => isAsciiAlphanumeric c || c = '-' || c = '_' || c = '.') then
    .error "session ID contains forbidden characters"
  else .ok ()

/-! ### Timestamps -/

/-- `{:0width$}` -/
def zeroPadded (width : Nat) (n : Int) : String :=
  let digits := toString n.natAbs
  if n < 0 then "-" ++ "".pushn '0' (width - 1 - digits.length) ++ digits
  else "".pushn '0' (width - digits.length) ++ digits

/-- `civil_from_days`; the divisions truncate. -/
def civilFromDays (days : Int) : Int × Int × Int :=
  let z := days + 719468
  let era := (if 0 ≤ z then z else z - 146096).tdiv 146097
  let doe := z - era * 146097
  let yoe := (doe - doe.tdiv 1460 + doe.tdiv 36524 - doe.tdiv 146096).tdiv 365
  let year := yoe + era * 400
  let doy := doe - (365 * yoe + yoe.tdiv 4 - yoe.tdiv 100)
  let mp := (5 * doy + 2).tdiv 153
  let day := doy - (153 * mp + 2).tdiv 5 + 1
  let month := mp + if mp < 10 then 3 else -9
  (year + if month ≤ 2 then 1 else 0, month, day)

def timestampIso (milliseconds : UInt64) : String :=
  let seconds := milliseconds.toNat / 1000
  let millis := milliseconds.toNat % 1000
  let (year, month, day) := civilFromDays (seconds / 86400 : Nat)
  let secondsToday := seconds % 86400
  zeroPadded 4 year ++ "-" ++ zeroPadded 2 month ++ "-" ++ zeroPadded 2 day ++ "T" ++
    zeroPadded 2 (secondsToday / 3600 : Nat) ++ ":" ++
    zeroPadded 2 (secondsToday / 60 % 60 : Nat) ++ ":" ++
    zeroPadded 2 (secondsToday % 60 : Nat) ++ "." ++ zeroPadded 3 millis ++ "Z"

/-- What one entry finds when it is written: `NEXT_ID`, the clock at its timestamp, and
    the clock at the timestamp of its message. -/
structure Stamp where
  nextId : UInt64
  entryMs : UInt64
  messageMs : UInt64
deriving DecidableEq

/-- `entry_id`: the counter in hexadecimal, eight letters wide. -/
def entryId (stamp : Stamp) : String :=
  let digits := String.ofList (Nat.toDigits 16 stamp.nextId.toNat)
  "".pushn '0' (8 - digits.length) ++ digits

/-! ### Names -/

def thinkingName : ThinkingLevel → String
  | .off => "off"
  | .minimal => "minimal"
  | .low => "low"
  | .medium => "medium"
  | .high => "high"
  | .xHigh => "xhigh"
  | .max => "max"

def stopReasonName : StopReason → String
  | .stop => "stop"
  | .toolUse => "toolUse"
  | .length => "length"
  | .aborted => "aborted"
  | .cancelled => "cancelled"
  | .error => "error"

/-! ### Encoding -/

section

variable {F : Type} (codec : JsonCodec F)

def optionalString : Option String → JsonValue F
  | some value => .string value
  | none => .null

def number (value : Nat) : JsonValue F := .number (.unsigned (UInt64.ofNat value))

def optionalNumber : Option Nat → JsonValue F
  | some value => number value
  | none => .null

/-- `parse_or_string` -/
def parseOrString (value : String) : JsonValue F := (codec.parse value).getD (.string value)

def totalTokens (usage : Usage) : Option Nat :=
  usage.inputTokens.bind fun input => usage.outputTokens.map fun output => satAdd input output

def costFields (usage : Usage) : List (String × JsonValue F) :=
  [("input", .null), ("output", .null), ("cacheRead", .null), ("cacheWrite", .null),
   ("total", optionalString usage.cost)]

def usageFields (usage : Usage) : List (String × JsonValue F) :=
  [("input", optionalNumber usage.inputTokens), ("output", optionalNumber usage.outputTokens),
   ("cacheRead", optionalNumber usage.cacheReadTokens),
   ("cacheWrite", optionalNumber usage.cacheWriteTokens),
   ("totalTokens", optionalNumber (totalTokens usage)), ("cost", .object (costFields usage))]

def encodeUsage (usage : Usage) : JsonValue F := .object (usageFields usage)

def textFields (content : String) : List (String × JsonValue F) :=
  [("type", .string "text"), ("text", .string content)]

def toolCallFields (call : AgentToolCall) : List (String × JsonValue F) :=
  [("type", .string "toolCall"), ("id", .string call.id.text), ("name", .string call.name),
   ("arguments", parseOrString codec call.arguments.text)]

def encodeBlocks (content : String) (toolCalls : List AgentToolCall) : List (JsonValue F) :=
  (if content = "" then [] else [.object (textFields content)]) ++
    toolCalls.map fun call => .object (toolCallFields codec call)

def encodeDetails (details : Option SerializedJson) : JsonValue F :=
  (details.map fun value => parseOrString codec value.text).getD .null

/-- The fields of a message; `ms` is the clock at its timestamp. -/
def messageFields (model : Option ModelDescriptor) (ms : UInt64) :
    AgentMessage → List (String × JsonValue F)
  | .user _ content =>
      [("role", .string "user"), ("content", .string content),
       ("timestamp", .number (.unsigned ms))]
  | .assistant _ content toolCalls stopReason errorMessage =>
      [("role", .string "assistant"), ("content", .array (encodeBlocks codec content toolCalls)),
       ("provider", .string ((model.map (·.provider)).getD "")),
       ("model", .string ((model.map (·.model)).getD "")),
       ("stopReason", .string ((stopReason.map stopReasonName).getD "stop")),
       ("timestamp", .number (.unsigned ms))] ++
        (errorMessage.map fun error => ("errorMessage", .string error)).toList
  | .toolResult _ toolCallId toolName content details usage addedToolNames _ isError _ =>
      [("role", .string "toolResult"), ("toolCallId", .string toolCallId.text),
       ("toolName", .string toolName), ("content", .array [.object (textFields content)]),
       ("details", encodeDetails codec details),
       ("usage", (usage.map encodeUsage).getD .null), ("isError", .bool isError),
       ("timestamp", .number (.unsigned ms))] ++
        if addedToolNames = [] then []
        else [("addedToolNames", .array (addedToolNames.map .string))]

def encodeMessage (model : Option ModelDescriptor) (ms : UInt64) (message : AgentMessage) :
    JsonValue F :=
  .object (messageFields codec model ms message)

/-- The fields of an entry behind the header, linked to its parent. -/
def entryFields (kind : String) (parent : Option String) (stamp : Stamp)
    (fields : List (String × JsonValue F)) : List (String × JsonValue F) :=
  [("type", .string kind), ("id", .string (entryId stamp)), ("parentId", optionalString parent),
   ("timestamp", .string (timestampIso stamp.entryMs))] ++ fields

def entry (kind : String) (parent : Option String) (stamp : Stamp)
    (fields : List (String × JsonValue F)) : JsonValue F :=
  .object (entryFields kind parent stamp fields)

/-- The message entries; `stamps` are those still to come. -/
def encodeMessages (model : Option ModelDescriptor) :
    Option String → (Nat → Stamp) → List AgentMessage → List (JsonValue F)
  | _, _, [] => []
  | parent, stamps, message :: messages =>
      entry "message" parent (stamps 0)
          [("message", encodeMessage codec model (stamps 0).messageMs message)] ::
        encodeMessages model (some (entryId (stamps 0))) (fun k => stamps (k + 1)) messages

def headerFields (record : SessionRecord) : List (String × JsonValue F) :=
  [("type", .string "session"), ("version", .number (.unsigned SESSION_VERSION)),
   ("id", .string record.id), ("timestamp", .string record.timestamp),
   ("cwd", .string record.cwd)]

/-- `encode_file` -/
def encodeFile (record : SessionRecord) (stamps : Nat → Stamp) : List (JsonValue F) :=
  let header : JsonValue F := .object (headerFields record)
  let thinking (parent : Option String) (stamp : Stamp) : JsonValue F :=
    entry "thinking_level_change" parent stamp
      [("thinkingLevel", .string (thinkingName record.thinkingLevel))]
  match record.model with
  | some model =>
      header ::
        entry "model_change" none (stamps 0)
          [("provider", .string model.provider), ("modelId", .string model.model)] ::
        thinking (some (entryId (stamps 0))) (stamps 1) ::
        encodeMessages codec record.model (some (entryId (stamps 1))) (fun k => stamps (k + 2))
          record.messages
  | none =>
      header :: thinking none (stamps 0) ::
        encodeMessages codec record.model (some (entryId (stamps 0))) (fun k => stamps (k + 1))
          record.messages

/-- The source of a session file: one value a line. -/
def encodeSource (record : SessionRecord) (stamps : Nat → Stamp) : String :=
  String.join ((encodeFile codec record stamps).map fun value => codec.print value ++ "\n")

end

end Tea.Session
