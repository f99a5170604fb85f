/-
  Tea/Run/Context.lean
  ====================
  **The pure functions of a transcript that a run computes**: the projection of
  tool results at the model boundary (`tool.rs`, `project_model_context`), the
  token estimates, and the split made for an automatic compaction.
-/
import Tea.Run.Handle

namespace Tea.Run

open Tea.Core

/-! ### Projection of tool results -/

def fnvOffset : UInt64 := 0xcbf29ce484222325

def fnvPrime : UInt64 := 0x100000001b3

def fnvBytes (hash : UInt64) (value : String) : UInt64 :=
  value.toUTF8.toList.foldl (fun hash byte => (hash ^^^ byte.toUInt64) * fnvPrime) hash

def dispositionCode : ToolFailureDisposition → UInt64
  | .cancelled => 1
  | .invalidArguments => 2
  | .recoverable => 3
  | .retryable => 4
  | .fatal => 5

def dispositionText : ToolFailureDisposition → String
  | .cancelled => "cancelled"
  | .invalidArguments => "invalid_arguments"
  | .recoverable => "recoverable"
  | .retryable => "retryable"
  | .fatal => "fatal"

/-- `error_fingerprint` -/
def errorFingerprint (content : String) (details : Option SerializedJson)
    (failure : Option ToolFailure) : UInt64 :=
  let signature := ((failure.bind (·.signature)).map (·.text)).getD ""
  let hash := fnvBytes (fnvBytes (fnvBytes fnvOffset content) ((details.map (·.text)).getD ""))
    signature
  match failure with
  | none => hash
  | some failure =>
      let hash := (hash ^^^ dispositionCode failure.disposition) * fnvPrime
      match failure.recoveryGuidance with
      | none => hash
      | some guidance => fnvBytes hash guidance

/-- `append_projected_section` -/
def appendProjectedSection (totalLimit : Nat) (output section_ : String) : String :=
  if section_ = "" then output
  else
    let separatorBytes := if output = "" then 0 else 1
    let available := totalLimit - output.utf8ByteSize
    if available ≤ separatorBytes then output
    else
      output ++ (if separatorBytes ≠ 0 then "\n" else "") ++
        truncateMiddle section_ (available - separatorBytes)

/-- `project_tool_result_as_text`: the projected content and the error payloads seen. -/
def projectToolResultAsText (policy : ToolResultProjectionPolicy) (content : String)
    (details : Option SerializedJson) (isError : Bool) (failure : Option ToolFailure)
    (seen : List UInt64) : String × List UInt64 :=
  let fingerprint := errorFingerprint content details failure
  if isError && policy.deduplicateRepeatedErrors && seen.contains fingerprint then
    ("[repeated tool error omitted; see the earlier matching result]", seen)
  else
    let append := appendProjectedSection policy.maxTotalBytes
    let status := match failure with
      | some failure => dispositionText failure.disposition
      | none => "recoverable"
    let header := if isError then append "" ("[tool error status: " ++ status ++ "]") else ""
    let header := match isError, failure.bind (·.recoveryGuidance) with
      | true, some guidance =>
          append header
            ("[recovery guidance: " ++ truncateMiddle guidance policy.maxDetailsBytes ++ "]")
      | _, _ => header
    let body := append header (truncateMiddle content policy.maxContentBytes)
    let body := match details with
      | some details =>
          append body ("[tool details (serialized JSON): " ++
            truncateMiddle details.text policy.maxDetailsBytes ++ "]")
      | none => body
    (body, if isError then fingerprint :: seen else seen)

def projectMessages (policy : ToolResultProjectionPolicy) :
    List AgentMessage → List UInt64 → List AgentMessage
  | [], _ => []
  | .toolResult id toolCallId toolName content details usage added terminate isError failure
      :: rest, seen =>
      let (content, seen) := projectToolResultAsText policy content details isError failure seen
      .toolResult id toolCallId toolName content none usage added terminate isError failure ::
        projectMessages policy rest seen
  | message :: rest, seen => message :: projectMessages policy rest seen

/-- `project_model_context`: the canonical transcript stays raw. -/
def projectModelContext (policy : ToolResultProjectionPolicy) (context : ContextEnvelope) :
    ContextEnvelope :=
  { context with messages := projectMessages policy context.messages [] }

/-! ### Estimates -/

/-- `Iterator::sum` -/
def sum (values : List Nat) : Nat := values.foldl (· + ·) 0

def estimateMessageBytes : AgentMessage → Nat
  | .user _ content => satAdd content.utf8ByteSize 16
  | .assistant _ content toolCalls _ errorMessage =>
      let calls := sum (toolCalls.map fun call =>
        satAdd (satAdd call.id.text.utf8ByteSize call.name.utf8ByteSize)
          call.arguments.text.utf8ByteSize)
      satAdd (satAdd (satAdd content.utf8ByteSize ((errorMessage.map (·.utf8ByteSize)).getD 0))
        calls) 32
  | .toolResult _ toolCallId toolName content details _ _ _ _ failure =>
      let guidance := ((failure.bind (·.recoveryGuidance)).map (·.utf8ByteSize)).getD 0
      satAdd (satAdd (satAdd (satAdd (satAdd toolCallId.text.utf8ByteSize toolName.utf8ByteSize)
        content.utf8ByteSize) ((details.map (·.text.utf8ByteSize)).getD 0)) guidance) 32

def estimateMessageTokens (message : AgentMessage) : Nat :=
  satAdd (estimateMessageBytes message) 3 / 4

def estimateMessagesTokens (messages : List AgentMessage) : Nat :=
  sum (messages.map estimateMessageTokens)

def estimateMessagesBytes (messages : List AgentMessage) : Nat :=
  sum (messages.map estimateMessageBytes)

def toolResultBytes : AgentMessage → Option Nat
  | .toolResult _ _ _ content details .. =>
      some (satAdd content.utf8ByteSize ((details.map (·.text.utf8ByteSize)).getD 0))
  | _ => none

def estimateToolResultBytes (messages : List AgentMessage) : Nat :=
  sum (messages.filterMap toolResultBytes)

/-- Context accounting: a provider-confirmed input checkpoint plus the messages
    appended after that request. -/
structure ContextEstimator where
  lastValidInput : Option (Nat × Nat) := none
deriving DecidableEq

namespace ContextEstimator

def observeValidInput (estimator : ContextEstimator) (inputTokens : Option Nat)
    (requestMessageCount : Nat) : ContextEstimator :=
  match inputTokens with
  | some tokens =>
      if tokens ≠ 0 then { lastValidInput := some (tokens, requestMessageCount) } else estimator
  | none => estimator

def estimate (estimator : ContextEstimator) (messages : List AgentMessage) : Nat :=
  match estimator.lastValidInput with
  | some (inputTokens, sourceMessageCount) =>
      if sourceMessageCount ≤ messages.length then
        satAdd inputTokens (estimateMessagesTokens (messages.drop sourceMessageCount))
      else estimateMessagesTokens messages
  | none => estimateMessagesTokens messages

end ContextEstimator

/-! ### The split of an automatic compaction -/

/-- The start of the recent suffix: move back until enough tokens are retained. -/
def recentStart (messages : List AgentMessage) (recentTokens : Nat) : Nat → Nat → Nat
  | 0, _ => 0
  | start + 1, retained =>
      if retained < recentTokens then
        recentStart messages recentTokens start
          (satAdd retained ((messages[start]?.map estimateMessageTokens).getD 0))
      else start + 1

/-- A tool result cannot begin a retained transcript. -/
def skipToolResults (messages : List AgentMessage) : Nat → Nat
  | 0 => 0
  | start + 1 =>
      if (messages[start + 1]?.map (·.isToolResult)).getD false then skipToolResults messages start
      else start + 1

/-- The last user message before `start`. -/
def lastUserBefore (messages : List AgentMessage) : Nat → Option Nat
  | 0 => none
  | start + 1 =>
      if (messages[start]?.map (·.isUser)).getD false then some start
      else lastUserBefore messages start

structure CompactionSplit where
  prefixMessages : List AgentMessage
  retainedMessages : List AgentMessage
  splitTurnPrefix : List AgentMessage
deriving DecidableEq

def automaticCompactionSplit (messages : List AgentMessage) (recentTokens : Nat) :
    CompactionSplit :=
  if messages = [] ∨ recentTokens = 0 then ⟨messages, [], []⟩
  else
    let start := skipToolResults messages (recentStart messages recentTokens messages.length 0)
    let turnStart := if (messages[start]?.map (·.isAssistant)).getD false then
      lastUserBefore messages start else none
    match turnStart with
    | some turnStart =>
        ⟨messages.take turnStart, messages.drop start, (messages.take start).drop turnStart⟩
    | none => ⟨messages.take start, messages.drop start, []⟩

end Tea.Run
