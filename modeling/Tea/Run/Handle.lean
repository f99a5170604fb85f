/-
  Tea/Run/Handle.lean
  ===================
  **The run handle** (`RunHandle` of `run/mod.rs`): its immutable part, the awaited
  delivery of an event, the run-state transitions, and the code that settles a
  run whose loop has returned an error.
-/
import Tea.Core.World

namespace Tea.Run

open Tea.Async Tea.Core

/-- The capabilities of an agent that cannot be replaced while a run owns it. -/
structure AgentCapabilities where
  hasProvider : Bool := true
  hasCompactor : Bool := false
  automaticCompaction : AutomaticCompactionPolicy := {}
  toolResultProjection : ToolResultProjectionPolicy := {}
  toolFailureCircuitBreaker : ToolFailureCircuitBreaker := {}

/-- The immutable part of `RunHandle`. -/
structure RunHandle where
  initialMessages : List AgentMessage := []
  messageStartIndex : Nat := 0
  skipInitialSteering : Bool := false
  configuration : AgentConfiguration := {}
  agent : AgentCapabilities := {}

/-! ### Reading the shared state -/

def isCancelled : Drive Bool := .read (·.cancelled)

/-- A critical section on the agent state (`agent.state.lock()`). -/
def lockAgent {α : Type} (f : AgentState → α × AgentState) : Drive α :=
  .section_ fun w => ((f w.agent).1, { w with agent := (f w.agent).2 })

def modifyAgent (f : AgentState → AgentState) : Drive Unit :=
  .modify fun w => { w with agent := f w.agent }

/-- A critical section on the run's policy state. -/
def lockPolicy {α : Type} (f : RunPolicyState → α × RunPolicyState) : Drive α :=
  .section_ fun w => ((f w.policy).1, { w with policy := (f w.policy).2 })

/-- `if condition { future.await? }` -/
def whenever (condition : Bool) (p : Drive Unit) : Drive Unit := if condition then p else pure ()

/-- The iterations of a source loop beyond the fuel of the model. -/
def exhausted {α : Type} : Drive α := .call .exhausted nofun

/-- `expect` on a value that is not there. -/
def panicked {α : Type} : Drive α := .call .panicked nofun

def transitionError {α : Type} (entity source operation : String) : Except CoreError α :=
  .error (.invalidTransition { entity, source, operation })

/-- `matches!(state.phase, AgentPhase::Running(_) | AgentPhase::Cancelling(_))` -/
def contextOf (agent : AgentState) : Except CoreError ContextEnvelope :=
  match agent.phase with
  | .idle => transitionError "agent" "not-running" "current_context"
  | _ => .ok { messages := agent.messages, hostMessages := agent.hostMessages }

def currentContext : Drive ContextEnvelope := do
  let context ← Future.read fun w => contextOf w.agent
  .ofExcept context

/-! ### Event delivery -/

/-- `record_event` -/
def recordEvent (kind : AgentEventKind) : Drive AgentEvent :=
  .section_ fun w => ((w.run.recordEvent kind).1, { w with run := (w.run.recordEvent kind).2 })

/-- Await the registered observers in order; the first rejection ends the delivery. -/
def deliver (event : AgentEvent) : List ObserverId → Drive Unit
  | [] => pure ()
  | observer :: rest => do
      let accepted ← Future.ask (.observe observer event)
      Future.ofExcept accepted
      deliver event rest

/-- Record an event, publish it, await its observers, publish it to the bounded
    subscriptions. -/
def emit (kind : AgentEventKind) : Drive Unit := do
  let event ← recordEvent kind
  Future.modify fun w => { w with subscriptions := w.subscriptions.publishLossless event }
  let observers ← Future.read (·.observers)
  deliver event observers
  Future.modify fun w => { w with subscriptions := w.subscriptions.publish event }

/-- Announce a message that is in the transcript already. -/
def announce (message : AgentMessage) : Drive Unit := do
  emit (.messageStart message)
  emit (.messageEnd message)

/-- Append a message under a fresh identifier. -/
def pushMessage (build : MessageId → AgentMessage) : Drive AgentMessage :=
  lockAgent fun agent => agent.pushMessage build

/-! ### Run-state transitions -/

/-- `start_turn`: begin the first model turn. -/
def startTurn (turnId : TurnId) : Drive Unit := do
  let started ← Future.section_ fun w =>
    if w.run.phase = .created then
      (.ok (), { w with run := { w.run with phase := .running, turnId := some turnId } })
    else (transitionError "run" w.run.phase.name "start_turn", w)
  .ofExcept started

/-- `advance_turn` -/
def advanceTurn (turnId : TurnId) : Drive Unit := do
  let advanced ← Future.section_ fun w =>
    if w.run.phase = .running then
      (.ok (), { w with run := { w.run with turnId := some turnId } })
    else (transitionError "run" w.run.phase.name "advance_turn", w)
  .ofExcept advanced

/-- `finish`: the run state becomes terminal in one critical section and the agent
    is settled in the next. -/
def finish (phase : RunPhase) (reason : StopReason) (error : Option String) : Drive Unit := do
  let finished ← Future.section_ fun w =>
    if w.run.phase.isTerminal then ((.error (.runFinished w.run.id) : Except CoreError Unit), w)
    else (.ok (), { w with run := { w.run with phase, stopReason := some reason, error } })
  Future.ofExcept finished
  Future.modify (World.settleAgent .idle error)

def succeed (reason : StopReason) : Drive Unit := finish .succeeded reason none

def fail (message : String) : Drive Unit := finish .failed .error (some message)

/-- `get(message_start_index..).unwrap_or_default()`: the messages from the index at
    which the run was claimed. -/
def newMessages (h : RunHandle) : Drive (List AgentMessage) :=
  .read fun w => w.agent.messages.drop h.messageStartIndex

def emitAgentEnd (h : RunHandle) : Drive Unit := do
  let messages ← newMessages h
  emit (.agentEnd messages)

/-! ### Settlement -/

/-- `let _ = future.await` -/
def ignore (p : Drive Unit) : Drive Unit := do
  let _ ← p.attempt
  pure ()

/-- `snapshot().turn_id.unwrap_or(TurnId(1))` -/
def lastTurn : Drive TurnId := .read fun w => w.run.turnId.getD ⟨1⟩

def failureMessage (error : CoreError) (id : MessageId) : AgentMessage :=
  .assistant id "" [] (some .error) (some error.display)

/-- Append the failure message and clear what a failed response left behind. -/
def failAgentState (error : CoreError) (agent : AgentState) : AgentMessage × AgentState :=
  let (message, agent) := agent.pushMessage (failureMessage error)
  (message, { agent with partialResponse := none, pendingToolCalls := [] })

def settleFailure (h : RunHandle) (error : CoreError) : Drive Unit := do
  let held ← Future.read (·.held)
  if held then
    let failure ← lockAgent (failAgentState error)
    let turnId ← lastTurn
    ignore (emit (.messageStart failure))
    ignore (emit (.messageEnd failure))
    ignore (emit (.turnEnd turnId .error))
    ignore (emitAgentEnd h)
    ignore (fail error.display)
  else ignore (fail error.display)

def settleCompactionBoundaryFailure (h : RunHandle) (error : CoreError) : Drive Unit := do
  let held ← Future.read (·.held)
  if held then
    modifyAgent (·.clearTransient)
    let turnId ← lastTurn
    ignore (emit (.turnEnd turnId .error))
    ignore (emitAgentEnd h)
    ignore (fail error.display)
  else ignore (fail error.display)

def settleCompactionBoundaryCancellation (h : RunHandle) : Drive Unit := do
  let held ← Future.read (·.held)
  if held then
    modifyAgent (·.clearTransient)
    let turnId ← lastTurn
    ignore (emit (.turnEnd turnId .cancelled))
    ignore (emitAgentEnd h)
    ignore (finish .cancelled .cancelled none)
  else ignore (finish .cancelled .cancelled none)

def abortedMessage (id : MessageId) : AgentMessage :=
  .assistant id "" [] (some .aborted) (some "Operation aborted")

/-- The last message says already that the response was aborted. -/
def endsAborted (messages : List AgentMessage) : Bool :=
  match messages.getLast? with
  | some (.assistant _ _ _ (some .aborted) _) => true
  | _ => false

/-- Clear the transient state, and append the aborted message unless it is there. -/
def abortAgentState (agent : AgentState) : Option AgentMessage × AgentState :=
  let agent := agent.clearTransient
  if endsAborted agent.messages then (none, agent)
  else
    let (message, agent) := agent.pushMessage abortedMessage
    (some message, agent)

def announceAborted : Option AgentMessage → Drive Unit
  | some message => do
      ignore (emit (.messageStart message))
      ignore (emit (.messageEnd message))
  | none => pure ()

def settleCancellation (h : RunHandle) : Drive Unit := do
  let held ← Future.read (·.held)
  if held then
    let turnId ← lastTurn
    let failure ← lockAgent abortAgentState
    announceAborted failure
    ignore (emit (.turnEnd turnId .aborted))
    ignore (emitAgentEnd h)
    ignore (finish .cancelled .aborted none)
  else ignore (finish .cancelled .aborted none)

/-- The part of `drive` that settles a run whose loop has returned `error`. -/
def settle (h : RunHandle) (error : CoreError) : Drive Unit := do
  let cancelled ← isCancelled
  if cancelled then
    let compactionCancelled ← Future.read (·.policy.compactionCancelled)
    if compactionCancelled then settleCompactionBoundaryCancellation h
    else settleCancellation h
  else
    match error with
    | .automaticCompaction .. => settleCompactionBoundaryFailure h error
    | .automaticCompactionUnavailable _ => settleCompactionBoundaryFailure h error
    | _ => settleFailure h error

end Tea.Run
