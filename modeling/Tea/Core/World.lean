/-
  Tea/Core/World.lean
  ===================
  **The state shared by a run and the other owners of its agent**
  (`AgentInner`, `ActiveRun` and the interior of `RunHandle`).

  One agent owns at most one active run, so the world holds the run that was
  claimed last: its state, its cancellation token and its policy state.  Other
  clones of the agent, the handle and the token act through `ClientOp`; the
  operations that are rejected while a run owns the agent (`reset`, the `start_*`
  and `replace_*` calls) are no part of it.
-/
import Tea.Async.Logic
import Tea.Core.Capability
import Tea.Core.Queue

namespace Tea.Core

open Tea.Async

/-! ### Run-local state -/

/-- Mutable policy state owned by exactly one run handle. -/
structure RunPolicyState where
  failureStreak : Option (FailureSignature × Nat) := none
  automaticCompactions : Nat := 0
  overflowRetries : Nat := 0
  overflowRetriedThisContinuation : Bool := false
  compactionBlockedMessageCount : Option Nat := none
  compactionCancelled : Bool := false
deriving DecidableEq

/-- One update captured by a tool callback: call id, tool name, update. -/
structure PendingToolUpdate where
  toolCallId : ToolCallId
  toolName : String
  update : ToolUpdate
deriving DecidableEq

/-- Tool updates captured by the callbacks of one batch.  `sinks` are the callbacks
    handed out; those of an earlier batch write to a queue nobody reads. -/
structure PendingToolUpdates where
  updates : List PendingToolUpdate := []
  closedCalls : List ToolCallId := []
  sinks : List (ToolCallId × String) := []
deriving DecidableEq

def PendingToolUpdates.push (state : PendingToolUpdates) (update : PendingToolUpdate) :
    PendingToolUpdates :=
  if (update.toolCallId, update.toolName) ∉ state.sinks then state
  else if update.toolCallId ∈ state.closedCalls then state
  else { state with updates := state.updates ++ [update] }

def PendingToolUpdates.take (state : PendingToolUpdates) :
    Option (List PendingToolUpdate) × PendingToolUpdates :=
  if state.updates = [] then (none, state) else (some state.updates, { state with updates := [] })

def PendingToolUpdates.close (state : PendingToolUpdates) (callId : ToolCallId) :
    PendingToolUpdates :=
  { state with closedCalls := callId :: state.closedCalls }

/-! ### Event subscriptions -/

structure LosslessSubscriber where
  id : Nat
  queue : List AgentEvent := []
deriving DecidableEq

structure Subscriber where
  id : Nat
  capacity : Nat
  queue : List AgentEvent := []
  dropped : Nat := 0
deriving DecidableEq

/-- The registered event channels with what they hold. -/
structure Subscriptions where
  lossless : List LosslessSubscriber := []
  bounded : List Subscriber := []
  nextId : Nat := 0
deriving DecidableEq

def Subscriptions.publishLossless (subscriptions : Subscriptions) (event : AgentEvent) :
    Subscriptions :=
  { subscriptions with
    lossless := subscriptions.lossless.map fun s => { s with queue := s.queue ++ [event] } }

/-- `try_send`: a full channel drops the event and counts it. -/
def Subscriptions.publish (subscriptions : Subscriptions) (event : AgentEvent) : Subscriptions :=
  { subscriptions with
    bounded := subscriptions.bounded.map fun s =>
      if s.queue.length < s.capacity then { s with queue := s.queue ++ [event] }
      else { s with dropped := s.dropped + 1 } }

/-! ### The world -/

structure World where
  agent : AgentState := {}
  queues : AgentQueues := {}
  activeRun : Option RunId := none
  steeringMode : QueueMode := .oneAtATime
  followUpMode : QueueMode := .oneAtATime
  observers : List ObserverId := []
  nextObserverId : ObserverId := 0
  subscriptions : Subscriptions := {}
  nextRunId : UInt64 := 0
  /-- Some clone of the agent is alive (`Weak::upgrade` succeeds). -/
  held : Bool := true
  /-- The run claimed last; before the first one, a settled placeholder. -/
  run : RunState := { id := ⟨0⟩, phase := .succeeded }
  cancelled : Bool := false
  policy : RunPolicyState := {}
  updates : PendingToolUpdates := {}
  /-- Ghost: the run loop has returned an error that is being settled.  Nothing
      in the model reads it. -/
  settling : Bool := false
deriving DecidableEq

namespace World

/-- `RunHandle::settle_agent` -/
def settleAgent (phase : AgentPhase) (error : Option String) (w : World) : World :=
  if w.held then
    { w with agent := { w.agent.clearTransient with lastError := error, phase }, activeRun := none }
  else w

/-- `RunHandle::abort`: a run that is being driven settles in `drive`, one that was
    never driven settles here. -/
def abortRun (w : World) : World :=
  let w := { w with cancelled := true }
  if w.run.phase.isTerminal then w
  else if w.run.phase = .created then
    { w with run := { w.run with phase := .cancelled, stopReason := some .cancelled } }.settleAgent
      .idle none
  else if w.held then { w with agent := { w.agent with phase := .cancelling w.run.id } }
  else w

/-- `Agent::abort` -/
def abortAgent (w : World) : World :=
  match w.activeRun with
  | none => w
  | some id =>
      let settleImmediately := w.run.phase = .created
      let run := if settleImmediately then
        { w.run with phase := .cancelled, stopReason := some .cancelled } else w.run
      let phase := if settleImmediately then .idle
        else if w.agent.phase ≠ .idle then .cancelling id else w.agent.phase
      { w with
        cancelled := true, run
        agent := { w.agent.clearTransient with phase }
        queues := w.queues.clear
        activeRun := if settleImmediately then none else w.activeRun }

def steer (content : String) (w : World) : World :=
  { w with queues := { w.queues with steering := (w.queues.steering.push content).2 } }

def followUp (content : String) (w : World) : World :=
  { w with queues := { w.queues with followUp := (w.queues.followUp.push content).2 } }

end World

/-! ### Other clients -/

/-- What clones of the agent, of the run handle and of the cancellation token, and
    the callbacks of running tools, may do at any time during a run. -/
inductive ClientOp where
  | cancel
  | abortRun
  | abortAgent
  | steer (content : String)
  | followUp (content : String)
  | clearSteering
  | clearFollowUp
  | clearQueues
  | setSteeringMode (mode : QueueMode)
  | setFollowUpMode (mode : QueueMode)
  | subscribe
  | unsubscribe (observer : ObserverId)
  | subscribeLossless
  | subscribeNonblocking (capacity : Nat)
  | dropSubscription (id : Nat)
  | tryRecv (id : Nat)
  | pushUpdate (update : PendingToolUpdate)
deriving DecidableEq

def ClientOp.apply : ClientOp → World → World
  | .cancel, w => { w with cancelled := true }
  | .abortRun, w => w.abortRun
  | .abortAgent, w => w.abortAgent
  | .steer content, w => w.steer content
  | .followUp content, w => w.followUp content
  | .clearSteering, w => { w with queues := { w.queues with steering := w.queues.steering.clear } }
  | .clearFollowUp, w => { w with queues := { w.queues with followUp := w.queues.followUp.clear } }
  | .clearQueues, w => { w with queues := w.queues.clear }
  | .setSteeringMode steeringMode, w => { w with steeringMode }
  | .setFollowUpMode followUpMode, w => { w with followUpMode }
  | .subscribe, w =>
      { w with
        nextObserverId := w.nextObserverId + 1
        observers := w.observers ++ [w.nextObserverId + 1] }
  | .unsubscribe observer, w => { w with observers := w.observers.filter (· ≠ observer) }
  | .subscribeLossless, w =>
      { w with
        subscriptions := { w.subscriptions with
          nextId := w.subscriptions.nextId + 1
          lossless := w.subscriptions.lossless ++ [{ id := w.subscriptions.nextId + 1 }] } }
  | .subscribeNonblocking capacity, w =>
      { w with
        subscriptions := { w.subscriptions with
          nextId := w.subscriptions.nextId + 1
          bounded := w.subscriptions.bounded ++
            [{ id := w.subscriptions.nextId + 1, capacity }] } }
  | .dropSubscription id, w =>
      { w with
        subscriptions := { w.subscriptions with
          lossless := w.subscriptions.lossless.filter (·.id ≠ id)
          bounded := w.subscriptions.bounded.filter (·.id ≠ id) } }
  | .tryRecv id, w =>
      { w with
        subscriptions := { w.subscriptions with
          lossless := w.subscriptions.lossless.map fun s =>
            if s.id = id then { s with queue := s.queue.tail } else s
          bounded := w.subscriptions.bounded.map fun s =>
            if s.id = id then { s with queue := s.queue.tail } else s } }
  | .pushUpdate update, w => { w with updates := w.updates.push update }

/-! ### The programs of the run loop -/

/-- A part of the future that `drive` returns. -/
abbrev Drive (α : Type) : Type := Future World Query Reply CoreError α

abbrev Now : Type := Moment World Query Reply

abbrev Host : Type := Environment World Query Reply

/-- A host whose other clients do what `acts` admits, and which replies as
    `answers` admits. -/
def Host.of (acts : Now → ClientOp → Prop)
    (answers : Now → (query : Query) → Reply query → Prop) : Host where
  interferes m s := ∃ op, acts m op ∧ s = op.apply m.state
  answers := answers

/-- The run starts with no past. -/
def Now.start (w : World) : Now := ⟨[], w⟩

end Tea.Core
