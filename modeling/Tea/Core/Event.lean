/-
  Tea/Core/Event.lean
  ===================
  **Errors and lifecycle events** (`error.rs`, `event.rs`, and the error and
  outcome types of `compaction.rs`), with the texts that `Display` gives them:
  the settlement code writes these texts into the transcript.
-/
import Tea.Core.State

namespace Tea.Core

/-! ### Errors -/

structure StateTransitionError where
  entity : String
  source : String
  operation : String
deriving DecidableEq, Repr

def StateTransitionError.display (e : StateTransitionError) : String :=
  e.entity ++ " cannot perform " ++ e.operation ++ " from " ++ e.source

/-- A failure produced by a host hook. -/
structure HookError where
  hook : String
  message : String
deriving DecidableEq, Repr

def HookError.display (e : HookError) : String := e.hook ++ " hook failed: " ++ e.message

inductive ToolError where
  | invalidArguments (tool message : String)
  | blocked (tool reason : String)
  | execution (tool message : String)
  | classified (tool message : String) (failure : ToolFailure)
  | cancelled (tool : String)
deriving DecidableEq, Repr

/-- What a model stream fails with. -/
inductive SchedulerError where
  | unknownToolCall (toolCallId : ToolCallId)
  | duplicateCompletion (toolCallId : ToolCallId)
deriving DecidableEq

def SchedulerError.display : SchedulerError → String
  | .unknownToolCall id => "unknown tool call ToolCallId(" ++ debugStr id.text ++ ")"
  | .duplicateCompletion id => "duplicate completion for ToolCallId(" ++ debugStr id.text ++ ")"

inductive CompactionError where
  | failed (message : String)
  | invalidReplacement (message : String)
deriving DecidableEq, Repr

def CompactionError.display : CompactionError → String
  | .failed message => "compactor failed: " ++ message
  | .invalidReplacement message => "invalid compacted conversation: " ++ message

/-- Why an automatic compaction transaction was requested. -/
inductive AutomaticCompactionReason where
  | threshold | overflow
deriving DecidableEq, Repr

def AutomaticCompactionReason.debug : AutomaticCompactionReason → String
  | .threshold => "Threshold"
  | .overflow => "Overflow"

/-- The top-level error returned by state-owning interfaces. -/
inductive CoreError where
  | activeRun (runId : RunId)
  | invalidTransition (error : StateTransitionError)
  | runFinished (runId : RunId)
  | cancelled
  | missingModelProvider
  | modelProvider (message : String)
  | modelError (message : String)
  | modelAborted (message : String)
  | hook (error : HookError)
  | unsupportedModelStream (message : String)
  | compaction (error : CompactionError)
  | missingCompactor
  | automaticCompactionUnavailable (reason : AutomaticCompactionReason)
  | automaticCompaction (reason : AutomaticCompactionReason) (message : String)
  | invalidAutomaticCompactionPolicy (message : String)
  | invalidToolResultProjectionPolicy (message : String)
  | toolCircuitBreaker (message : String)
deriving DecidableEq, Repr

def CoreError.display : CoreError → String
  | .activeRun runId => "agent already has active run RunId(" ++ toString runId.val.toNat ++ ")"
  | .invalidTransition error => error.display
  | .runFinished runId => "run RunId(" ++ toString runId.val.toNat ++ ") is already finished"
  | .cancelled => "operation was cancelled"
  | .missingModelProvider => "agent has no model provider"
  | .modelProvider message => "model provider failed: " ++ message
  | .modelError message => "model response failed: " ++ message
  | .modelAborted message => "model response aborted: " ++ message
  | .hook error => error.display
  | .unsupportedModelStream message => "unsupported model stream behavior: " ++ message
  | .compaction error => error.display
  | .missingCompactor => "agent has no configured compactor"
  | .automaticCompactionUnavailable reason =>
      "automatic compaction is unavailable for " ++ reason.debug
  | .automaticCompaction reason message =>
      "automatic compaction failed for " ++ reason.debug ++ ": " ++ message
  | .invalidAutomaticCompactionPolicy message => message
  | .invalidToolResultProjectionPolicy message => message
  | .toolCircuitBreaker message => "tool circuit breaker stopped the run: " ++ message

/-! ### Events -/

inductive CompactionOutcome where
  | succeeded (retainedMessageCount : Nat)
  | failed (message : String)
  | cancelled
deriving DecidableEq, Repr

inductive AutomaticCompactionOutcome where
  | succeeded (estimatedTokensAfter : Option Nat)
  | failed (message : String)
  | cancelled
  | limitReached
  | stillAboveThreshold
  | unavailable
deriving DecidableEq, Repr

inductive ProviderRequestSkipReason where
  | automaticCompaction | toolCircuitBreaker
deriving DecidableEq, Repr

/-- Lifecycle payloads emitted by the core. -/
inductive AgentEventKind where
  | compactionStart (sourceMessageCount : Nat)
  | compactionResult (retainedMessageCount : Nat) (usage : Option Usage)
  | compactionEnd (outcome : CompactionOutcome)
  | automaticCompactionStart (reason : AutomaticCompactionReason) (sourceMessageCount : Nat)
      (estimatedTokensBefore : Option Nat) (retryProviderRequest : Bool) (count : Nat)
  | automaticCompactionEnd (reason : AutomaticCompactionReason) (retryProviderRequest : Bool)
      (outcome : AutomaticCompactionOutcome)
  | contextEstimate (estimatedContextTokens : Option Nat)
      (inputBytes messageCount messageBytes toolResultBytes : Nat)
  | providerRequestSkipped (reason : ProviderRequestSkipReason)
  | agentStart
  | turnStart (turnId : TurnId)
  | messageStart (message : AgentMessage)
  | messageUpdate (message : AgentMessage) (textDelta : Option String)
  | messageEnd (message : AgentMessage)
  | toolExecutionStart (toolCallId : ToolCallId) (toolName : String) (arguments : SerializedJson)
  | toolExecutionUpdate (toolCallId : ToolCallId) (toolName : String) (update : ToolUpdate)
  | toolExecutionEnd (toolCallId : ToolCallId) (toolName : String) (result : AgentToolResult)
  | toolFailureObserved (toolCallId : ToolCallId) (disposition : ToolFailureDisposition)
      (signature : Option String) (consecutiveCount : Nat) (terminal : Bool) (message : String)
  | turnEnd (turnId : TurnId) (reason : StopReason)
  | modelTurnUsage (accounting : ModelTurnAccounting)
  | agentEnd (messages : List AgentMessage)
deriving DecidableEq

/-- An event envelope with stable run identity and local ordering. -/
structure AgentEvent where
  runId : RunId
  sequence : UInt64
  kind : AgentEventKind
deriving DecidableEq

/-- Mutable state retained by one run handle. -/
structure RunState where
  id : RunId
  phase : RunPhase := .created
  turnId : Option TurnId := none
  stopReason : Option StopReason := none
  error : Option String := none
  eventCount : UInt64 := 0
  events : List AgentEvent := []
deriving DecidableEq

/-- `RunState::created` -/
def RunState.create (id : RunId) : RunState := { id }

/-- The payloads of the recorded events, in source order. -/
def RunState.kinds (run : RunState) : List AgentEventKind := run.events.map (·.kind)

/-- `record_event`: append an event with the run's next local sequence. -/
def RunState.recordEvent (run : RunState) (kind : AgentEventKind) : AgentEvent × RunState :=
  let eventCount := satSucc run.eventCount
  let event : AgentEvent := { runId := run.id, sequence := eventCount, kind }
  (event, { run with eventCount, events := run.events ++ [event] })

@[simp] theorem RunState.recordEvent_kinds (run : RunState) (kind : AgentEventKind) :
    (run.recordEvent kind).2.kinds = run.kinds ++ [kind] := by
  simp [RunState.recordEvent, RunState.kinds]

@[simp] theorem RunState.recordEvent_phase (run : RunState) (kind : AgentEventKind) :
    (run.recordEvent kind).2.phase = run.phase := rfl

@[simp] theorem RunState.recordEvent_turnId (run : RunState) (kind : AgentEventKind) :
    (run.recordEvent kind).2.turnId = run.turnId := rfl

@[simp] theorem RunState.recordEvent_id (run : RunState) (kind : AgentEventKind) :
    (run.recordEvent kind).2.id = run.id := rfl

end Tea.Core
