/-
  Tea/Core/State.lean
  ===================
  **Canonical agent and run state** (`state/*.rs`, the data of `tool.rs`).

  Identifiers are the 64-bit counters of the source; a tool-call identifier carries
  the proof that it is not empty, since `ToolCallId::new` is its only constructor.
  The aggregate of `ModelAccountingSnapshot` is a function of the recorded turns
  and is not stored beside them.
-/
import Tea.Core.Text

namespace Tea.Core

/-! ### Identifiers -/

structure MessageId where
  val : UInt64
deriving DecidableEq, Repr

structure RunId where
  val : UInt64
deriving DecidableEq, Repr

structure TurnId where
  val : UInt64
deriving DecidableEq, Repr

/-- A provider-supplied identifier of one tool invocation; never empty. -/
structure ToolCallId where
  text : String
  nonempty : text ≠ ""
deriving DecidableEq

/-- A serialized JSON value at an integration boundary. -/
structure SerializedJson where
  text : String
deriving DecidableEq, Repr

inductive ThinkingLevel where
  | off | minimal | low | medium | high | xHigh | max
deriving DecidableEq, Repr

structure ModelDescriptor where
  provider : String
  model : String
  revision : Option String
deriving DecidableEq, Repr

/-! ### Provider accounting -/

structure Usage where
  inputTokens : Option Nat := none
  outputTokens : Option Nat := none
  reasoningTokens : Option Nat := none
  cacheReadTokens : Option Nat := none
  cacheWriteTokens : Option Nat := none
  cost : Option String := none
deriving DecidableEq, Repr

/-- Merge a later provider update without turning unknown fields into zero. -/
def Usage.merge (current update : Usage) : Usage where
  inputTokens := update.inputTokens <|> current.inputTokens
  outputTokens := update.outputTokens <|> current.outputTokens
  reasoningTokens := update.reasoningTokens <|> current.reasoningTokens
  cacheReadTokens := update.cacheReadTokens <|> current.cacheReadTokens
  cacheWriteTokens := update.cacheWriteTokens <|> current.cacheWriteTokens
  cost := update.cost <|> current.cost

structure ModelTurnAccounting where
  runId : RunId
  turnId : TurnId
  model : Option ModelDescriptor
  usage : Usage
deriving DecidableEq, Repr

/-! ### Tool failures and results -/

structure FailureSignature where
  text : String
deriving DecidableEq, Repr

inductive ToolFailureDisposition where
  | cancelled | invalidArguments | recoverable | retryable | fatal
deriving DecidableEq, Repr

structure ToolFailure where
  disposition : ToolFailureDisposition
  signature : Option FailureSignature := none
  recoveryGuidance : Option String := none
deriving DecidableEq, Repr

def ToolFailure.cancelledFailure : ToolFailure := { disposition := .cancelled }
def ToolFailure.invalidArgumentsFailure : ToolFailure := { disposition := .invalidArguments }
def ToolFailure.recoverableFailure : ToolFailure := { disposition := .recoverable }

/-- A tool call embedded in an assistant message (`AgentToolCall`), and the
    invocation made of it (`ToolCall`), which has the same three fields. -/
structure ToolCall where
  id : ToolCallId
  name : String
  arguments : SerializedJson
deriving DecidableEq

abbrev AgentToolCall := ToolCall

structure AgentToolResult where
  toolCallId : ToolCallId
  content : String
  details : Option SerializedJson := none
  usage : Option Usage := none
  addedToolNames : List String := []
  terminate : Bool := false
  isError : Bool := false
  failure : Option ToolFailure := none
deriving DecidableEq

/-- A partial update emitted during tool execution. -/
structure ToolUpdate where
  content : String
  details : Option SerializedJson := none
deriving DecidableEq, Repr

/-! ### Messages -/

inductive StopReason where
  | stop | toolUse | length | aborted | cancelled | error
deriving DecidableEq, Repr

/-- A message retained in the canonical conversation history. -/
inductive AgentMessage where
  | user (id : MessageId) (content : String)
  | assistant (id : MessageId) (content : String) (toolCalls : List AgentToolCall)
      (stopReason : Option StopReason) (errorMessage : Option String)
  | toolResult (id : MessageId) (toolCallId : ToolCallId) (toolName content : String)
      (details : Option SerializedJson) (usage : Option Usage)
      (addedToolNames : List String) (terminate isError : Bool)
      (failure : Option ToolFailure)
deriving DecidableEq

namespace AgentMessage

/-- `message_id` of `compaction.rs` and `lifecycle.rs`. -/
def id : AgentMessage → MessageId
  | .user id _ => id
  | .assistant id .. => id
  | .toolResult id .. => id

def isAssistant : AgentMessage → Bool
  | .assistant .. => true
  | _ => false

def isUser : AgentMessage → Bool
  | .user .. => true
  | _ => false

def isToolResult : AgentMessage → Bool
  | .toolResult .. => true
  | _ => false

/-- A message without one is partial, where it is an assistant message. -/
def stopReason : AgentMessage → Option StopReason
  | .assistant _ _ _ stopReason _ => stopReason
  | _ => none

/-- The tool calls a message carries. -/
def calls : AgentMessage → List AgentToolCall
  | .assistant _ _ toolCalls _ _ => toolCalls
  | _ => []

/-- The call a tool-result message closes. -/
def resultOf : AgentMessage → Option (ToolCallId × String)
  | .toolResult _ toolCallId toolName .. => some (toolCallId, toolName)
  | _ => none

end AgentMessage

/-! ### Lifecycle -/

/-- The externally observable agent ownership phase. -/
inductive AgentPhase where
  | idle
  | running (runId : RunId)
  | cancelling (runId : RunId)
deriving DecidableEq, Repr

/-- `matches!(phase, Running(id) | Cancelling(id) if id == run_id)` -/
def AgentPhase.ownedBy (phase : AgentPhase) (runId : RunId) : Bool :=
  phase = .running runId || phase = .cancelling runId

/-- The run that an active agent names in `ActiveRun` errors. -/
def AgentPhase.active : AgentPhase → Option RunId
  | .idle => none
  | .running runId => some runId
  | .cancelling runId => some runId

inductive RunPhase where
  | created | running | settling | succeeded | failed | cancelled
deriving DecidableEq, Repr

/-- Whether no further run transition is legal. -/
def RunPhase.isTerminal : RunPhase → Bool
  | .succeeded => true
  | .failed => true
  | .cancelled => true
  | _ => false

/-- `phase_name` of `run/mod.rs`. -/
def RunPhase.name : RunPhase → String
  | .created => "created"
  | .running => "running"
  | .settling => "settling"
  | .succeeded => "succeeded"
  | .failed => "failed"
  | .cancelled => "cancelled"

/-- Mutable state owned by an agent. -/
structure AgentState where
  systemPrompt : String := ""
  model : Option ModelDescriptor := none
  thinkingLevel : ThinkingLevel := .off
  messages : List AgentMessage := []
  hostMessages : List SerializedJson := []
  phase : AgentPhase := .idle
  partialResponse : Option String := none
  isStreaming : Bool := false
  pendingToolCalls : List ToolCallId := []
  lastError : Option String := none
  accounting : List ModelTurnAccounting := []
  nextMessageId : UInt64 := 1
deriving DecidableEq

namespace AgentState

/-- Allocate the next message identifier. -/
def allocateMessageId (state : AgentState) : MessageId × AgentState :=
  (⟨state.nextMessageId⟩, { state with nextMessageId := satSucc state.nextMessageId })

/-- Append a message built around a freshly allocated identifier. -/
def pushMessage (state : AgentState) (build : MessageId → AgentMessage) : AgentMessage × AgentState :=
  let (id, state) := state.allocateMessageId
  let message := build id
  (message, { state with messages := state.messages ++ [message] })

/-- The larger of two identifiers, as `Ord::max` on `u64`. -/
def maxId (a b : UInt64) : UInt64 := if a < b then b else a

/-- Replace retained history after the compaction transaction has validated it.
    The next identifier advances beyond every identifier of the replacement. -/
def replaceMessages (state : AgentState) (messages : List AgentMessage) : AgentState :=
  let nextId := (messages.map fun message => satSucc message.id.val).foldl maxId 1
  { state with nextMessageId := maxId state.nextMessageId nextId, messages }

/-- Clear what a settled agent may not keep: the partial response, the streaming
    flag and the pending tool calls. -/
def clearTransient (state : AgentState) : AgentState :=
  { state with partialResponse := none, isStreaming := false, pendingToolCalls := [] }

end AgentState

end Tea.Core
