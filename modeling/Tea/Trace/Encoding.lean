/-
  Tea/Trace/Encoding.lean
  =======================
  **The encodings of a trace** (`encoding/mod.rs`, `encoding/json.rs`, `encoding/cbor.rs`): what
  the two sinks write for an event.
-/
import Tea.Encoding.Cbor
import Tea.Encoding.JsonText
import Tea.Trace.Observer

namespace Tea.Trace

open Tea.Encoding

def traceSchemaVersion : UInt16 := 0

def eventType : TraceEvent → String
  | .episodeHeader _ => "episode_header"
  | .turn _ => "turn"
  | .tool _ => "tool"
  | .episodeEnd _ => "episode_end"

def endReasonName : EndReason → String
  | .completed => "completed"
  | .cancelled => "cancelled"
  | .failed => "failed"
  | .aborted => "aborted"
  | .other value => value

/-! ### CBOR -/

def cborMajorLength (major : UInt8) (value : UInt64) : List UInt8 :=
  if value.toNat ≤ 23 then [(major <<< 5) ||| value.toUInt8]
  else if value.toNat ≤ 255 then [(major <<< 5) ||| 24, value.toUInt8]
  else if value.toNat ≤ 65535 then
    ((major <<< 5) ||| 25) :: Cbor.beBytes 2 value.toUInt16.toNat
  else if value.toNat ≤ 4294967295 then
    ((major <<< 5) ||| 26) :: Cbor.beBytes 4 value.toUInt32.toNat
  else ((major <<< 5) ||| 27) :: Cbor.beBytes 8 value.toNat

def cborUnsigned (value : UInt64) : List UInt8 := cborMajorLength 0 value

def cborMap (length : Nat) : List UInt8 := cborMajorLength 5 (UInt64.ofNat length)

def cborText (value : String) : List UInt8 :=
  cborMajorLength 3 (UInt64.ofNat (encodeUtf8 value.toList).length) ++ encodeUtf8 value.toList

def cborOptionalUnsigned : Option UInt64 → List UInt8
  | some value => cborUnsigned value
  | none => [0xf6]

def cborOptionalText : Option String → List UInt8
  | some value => cborText value
  | none => [0xf6]

def writeCborHeader (header : EpisodeHeader) : List UInt8 :=
  cborText "episode_id" ++ cborText header.episodeId ++
  cborText "metadata" ++ cborMap header.metadata.length ++
  (header.metadata.flatMap fun entry => cborText entry.1 ++ cborText entry.2) ++
  cborText "started_at_ms" ++ cborOptionalUnsigned header.startedAtMs

def writeCborTurn (turn : Turn) : List UInt8 :=
  cborText "index" ++ cborUnsigned turn.index.toUInt64 ++
  cborText "input" ++ cborText turn.input ++
  cborText "output" ++ cborOptionalText turn.output ++
  cborText "stop_reason" ++ cborOptionalText turn.stopReason

def writeCborTool (tool : Tool) : List UInt8 :=
  cborText "turn_index" ++ cborUnsigned tool.turnIndex.toUInt64 ++
  cborText "call_id" ++ cborText tool.callId ++
  cborText "name" ++ cborText tool.name ++
  cborText "input" ++ cborText tool.input ++
  cborText "output" ++ cborOptionalText tool.output ++
  cborText "error" ++ cborOptionalText tool.error

def writeCborEnd (episodeEnd : EpisodeEnd) : List UInt8 :=
  cborText "reason" ++ cborText (endReasonName episodeEnd.reason) ++
  cborText "error" ++ cborOptionalText episodeEnd.error ++
  cborText "finished_at_ms" ++ cborOptionalUnsigned episodeEnd.finishedAtMs

def cborFieldCount : TraceEvent → Nat
  | .episodeHeader _ => 5
  | .turn _ => 6
  | .episodeEnd _ => 5
  | .tool _ => 8

def writeCborEvent (event : TraceEvent) : List UInt8 :=
  cborMap (cborFieldCount event) ++
  cborText "schema_version" ++ cborUnsigned traceSchemaVersion.toUInt64 ++
  cborText "type" ++ cborText (eventType event) ++
  match event with
  | .episodeHeader header => writeCborHeader header
  | .turn turn => writeCborTurn turn
  | .tool tool => writeCborTool tool
  | .episodeEnd episodeEnd => writeCborEnd episodeEnd

/-! ### JSON Lines -/

/-- `json_string`, whose arms are those of `escape`. -/
def jsonString (value : String) : List Char := printString value

def jsonFieldName (name : String) : List Char := jsonString name ++ [':']

def jsonFieldString (name value : String) : List Char := jsonFieldName name ++ jsonString value

def jsonFieldOptionalString (name : String) (value : Option String) : List Char :=
  jsonFieldName name ++ (value.map jsonString).getD ['n', 'u', 'l', 'l']

def jsonFieldOptionalNumber (name : String) (value : Option UInt64) : List Char :=
  jsonFieldName name ++
    (value.map fun value => Nat.toDigits 10 value.toNat).getD ['n', 'u', 'l', 'l']

def jsonMap (values : List (String × String)) : List Char :=
  '\x7b' :: (([','].intercalate (values.map fun entry => jsonFieldString entry.1 entry.2)) ++
    ['\x7d'])

def writeJsonHeader (header : EpisodeHeader) : List Char :=
  ',' :: jsonFieldString "episode_id" header.episodeId ++
  ',' :: jsonFieldName "metadata" ++ jsonMap header.metadata ++
  ',' :: jsonFieldOptionalNumber "started_at_ms" header.startedAtMs

def writeJsonTurn (turn : Turn) : List Char :=
  ',' :: jsonFieldName "index" ++ Nat.toDigits 10 turn.index.toNat ++
  ',' :: jsonFieldString "input" turn.input ++
  ',' :: jsonFieldOptionalString "output" turn.output ++
  ',' :: jsonFieldOptionalString "stop_reason" turn.stopReason

def writeJsonTool (tool : Tool) : List Char :=
  ',' :: jsonFieldName "turn_index" ++ Nat.toDigits 10 tool.turnIndex.toNat ++
  ',' :: jsonFieldString "call_id" tool.callId ++
  ',' :: jsonFieldString "name" tool.name ++
  ',' :: jsonFieldString "input" tool.input ++
  ',' :: jsonFieldOptionalString "output" tool.output ++
  ',' :: jsonFieldOptionalString "error" tool.error

def writeJsonEnd (episodeEnd : EpisodeEnd) : List Char :=
  ',' :: jsonFieldString "reason" (endReasonName episodeEnd.reason) ++
  ',' :: jsonFieldOptionalString "error" episodeEnd.error ++
  ',' :: jsonFieldOptionalNumber "finished_at_ms" episodeEnd.finishedAtMs

def writeJsonEvent (event : TraceEvent) : List Char :=
  '\x7b' :: jsonFieldName "schema_version" ++ Nat.toDigits 10 traceSchemaVersion.toNat ++
  ',' :: jsonFieldName "type" ++ jsonString (eventType event) ++
  (match event with
    | .episodeHeader header => writeJsonHeader header
    | .turn turn => writeJsonTurn turn
    | .tool tool => writeJsonTool tool
    | .episodeEnd episodeEnd => writeJsonEnd episodeEnd) ++ ['\x7d']

/-! ### Sinks -/

/-- A sink of JSON Lines over a writer that takes every byte. -/
structure JsonLinesSink where
  writer : List UInt8

instance : TraceSink JsonLinesSink where
  append sink event := (⟨sink.writer ++ encodeUtf8 (writeJsonEvent event) ++ [10]⟩, true)

/-- A sink of CBOR records over a writer that takes every byte. -/
structure CborSink where
  writer : List UInt8

instance : TraceSink CborSink where
  append sink event := (⟨sink.writer ++ writeCborEvent event⟩, true)

end Tea.Trace
