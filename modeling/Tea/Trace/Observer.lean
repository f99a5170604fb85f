/-
  Tea/Trace/Observer.lean
  =======================
  **The trace observer** (`trace.rs` of the core, `event.rs` and `sink.rs` of the trace
  crate): the records of an episode, a sink whose failures are counted, and the state that
  `record` carries from one lifecycle event to the next.
-/
import Tea.Core.Event
import Mathlib.Logic.Function.Basic

namespace Tea.Trace

open Tea.Core

/-! ### Records -/

structure EpisodeHeader where
  episodeId : String
  metadata : List (String × String) := []
  startedAtMs : Option UInt64 := none
deriving DecidableEq

structure Turn where
  index : UInt32
  input : String
  output : Option String := none
  stopReason : Option String := none
deriving DecidableEq

structure Tool where
  turnIndex : UInt32
  callId : String
  name : String
  input : String
  output : Option String := none
  error : Option String := none
deriving DecidableEq

inductive EndReason where
  | completed | cancelled | failed | aborted
  | other (reason : String)
deriving DecidableEq

structure EpisodeEnd where
  reason : EndReason
  error : Option String
  finishedAtMs : Option UInt64
deriving DecidableEq

inductive TraceEvent where
  | episodeHeader (header : EpisodeHeader)
  | turn (turn : Turn)
  | tool (tool : Tool)
  | episodeEnd (episodeEnd : EpisodeEnd)
deriving DecidableEq

/-- The record of an executed tool, failed or not. -/
def Tool.settle (tool : Tool) (result : AgentToolResult) : Tool :=
  if result.isError then { tool with error := some result.content, output := none }
  else { tool with output := some result.content, error := none }

/-! ### Sinks -/

/-- A sink takes an event, or fails; it may have changed in both cases. -/
class TraceSink (S : Type) where
  append : S → TraceEvent → S × Bool

/-- The sink that keeps every event. -/
instance : TraceSink (List TraceEvent) where
  append events event := (events ++ [event], true)

structure IsolatedSink (S : Type) where
  inner : S
  failedEvents : UInt64 := 0

/-- `IsolatedSink::append`: a failure is counted. -/
def IsolatedSink.append {S : Type} [TraceSink S] (sink : IsolatedSink S) (event : TraceEvent) :
    IsolatedSink S :=
  let (inner, taken) := TraceSink.append sink.inner event
  { inner, failedEvents := if taken then sink.failedEvents else satSucc sink.failedEvents }

/-- The sink behind the events of a list. -/
def IsolatedSink.appendAll {S : Type} [TraceSink S] (sink : IsolatedSink S)
    (events : List TraceEvent) : IsolatedSink S := events.foldl IsolatedSink.append sink

/-! ### The observer -/

structure PendingTurn where
  index : UInt32
  input : String
  output : Option String
  lastInputMessage : Option MessageId
deriving DecidableEq

structure TraceState (S : Type) where
  sink : IsolatedSink S
  currentTurn : Option PendingTurn := none
  pendingTools : ToolCallId → Option Tool := fun _ => none
  endReason : EndReason := .completed
  error : Option String := none

/-- `TraceObserver::new` -/
def TraceState.new {S : Type} (sink : S) : TraceState S := { sink := { inner := sink } }

/-- `trace_turn_index` -/
def traceTurnIndex (turnId : UInt64) : UInt32 :=
  UInt32.ofNat (min (turnId.toNat - 1) 4294967295)

/-- `stop_reason_name` -/
def stopReasonName : StopReason → String
  | .stop => "end_turn"
  | .toolUse => "tool_use"
  | .length => "length"
  | .aborted => "aborted"
  | .cancelled => "cancelled"
  | .error => "error"

/-- `end_reason` -/
def endReason : StopReason → EndReason
  | .stop | .toolUse | .length => .completed
  | .aborted => .aborted
  | .cancelled => .cancelled
  | .error => .failed

/-- A turn that has recorded nothing yet. -/
def PendingTurn.begin (turnId : TurnId) : PendingTurn :=
  { index := traceTurnIndex turnId.val, input := "", output := none, lastInputMessage := none }

/-- `record_message`, in an open turn. -/
def PendingTurn.recordMessage (turn : PendingTurn) : AgentMessage → PendingTurn
  | .user id content =>
      if turn.lastInputMessage ≠ some id then
        let separator := if turn.input = "" then "" else "\n"
        { turn with input := turn.input ++ separator ++ content, lastInputMessage := some id }
      else turn
  | .assistant _ content .. => { turn with output := some content }
  | .toolResult .. => turn

section

variable {S : Type}

/-- What a message event changes. -/
def TraceState.recordMessage (state : TraceState S) (message : AgentMessage) : TraceState S :=
  { state with
    error := match message with
      | .assistant _ _ _ _ errorMessage => errorMessage
      | _ => state.error
    currentTurn := state.currentTurn.map (·.recordMessage message) }

@[simp] theorem TraceState.recordMessage_sink (state : TraceState S) (message : AgentMessage) :
    (state.recordMessage message).sink = state.sink := rfl

@[simp] theorem TraceState.recordMessage_currentTurn (state : TraceState S)
    (message : AgentMessage) : (state.recordMessage message).currentTurn =
      state.currentTurn.map (·.recordMessage message) := rfl

@[simp] theorem TraceState.recordMessage_pendingTools (state : TraceState S)
    (message : AgentMessage) :
    (state.recordMessage message).pendingTools = state.pendingTools := rfl

@[simp] theorem TraceState.recordMessage_endReason (state : TraceState S)
    (message : AgentMessage) : (state.recordMessage message).endReason = state.endReason := rfl

/-- The index under which a tool is recorded. -/
def TraceState.turnIndex (state : TraceState S) : UInt32 :=
  match state.currentTurn with
  | some turn => turn.index
  | none => 0

variable [TraceSink S]

def TraceState.append (state : TraceState S) (event : TraceEvent) : TraceState S :=
  { state with sink := state.sink.append event }

/-- `record` -/
def TraceState.record (episodeId : String) (state : TraceState S) :
    AgentEventKind → TraceState S
  | .compactionStart _ | .compactionResult .. | .compactionEnd _ => state
  | .automaticCompactionStart .. | .contextEstimate .. | .providerRequestSkipped _ => state
  | .automaticCompactionEnd _ _ (.failed message) => { state with error := some message }
  | .automaticCompactionEnd .. => state
  | .agentStart =>
      { state with
        currentTurn := none
        pendingTools := fun _ => none
        endReason := .completed
        error := none }.append (.episodeHeader { episodeId })
  | .turnStart turnId => { state with currentTurn := some (.begin turnId) }
  | .messageStart message | .messageUpdate message _ | .messageEnd message =>
      state.recordMessage message
  | .toolExecutionStart toolCallId toolName arguments =>
      let tool : Tool :=
        { turnIndex := state.turnIndex, callId := toolCallId.text, name := toolName,
          input := arguments.text }
      { state with pendingTools := Function.update state.pendingTools toolCallId (some tool) }
  | .toolExecutionEnd toolCallId toolName result =>
      let tool := (state.pendingTools toolCallId).getD
        { turnIndex := state.turnIndex, callId := toolCallId.text, name := toolName, input := "" }
      { state with pendingTools := Function.update state.pendingTools toolCallId none }.append
        (.tool (tool.settle result))
  | .toolExecutionUpdate .. => state
  | .toolFailureObserved _ _ _ _ true message => { state with error := some message }
  | .toolFailureObserved .. => state
  | .turnEnd turnId reason =>
      let pending := state.currentTurn.getD (.begin turnId)
      let turn : Turn :=
        { index := pending.index, input := pending.input, output := pending.output,
          stopReason := some (stopReasonName reason) }
      let appended := { state with currentTurn := none }.append (.turn turn)
      { appended with endReason := Tea.Trace.endReason reason }
  | .modelTurnUsage _ => state
  | .agentEnd _ =>
      state.append (.episodeEnd
        { reason := state.endReason, error := state.error, finishedAtMs := none })

/-- The observer behind a sequence of events. -/
def TraceState.recordAll (episodeId : String) (state : TraceState S)
    (kinds : List AgentEventKind) : TraceState S := kinds.foldl (TraceState.record episodeId) state

end

end Tea.Trace
