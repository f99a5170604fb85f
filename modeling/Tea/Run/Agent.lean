/-
  Tea/Run/Agent.lean
  ==================
  **The operations of an agent that claim, release or reset it** (`agent/mod.rs`,
  `start_compaction` of `compaction.rs`, `Drop for RunHandle`).
-/
import Tea.Run.Drive

namespace Tea.Run

open Tea.Async Tea.Core

/-- What an agent was built with. -/
structure Agent where
  configuration : AgentConfiguration := {}
  capabilities : AgentCapabilities := {}

/-- The initial messages of a run, appended under fresh identifiers. -/
def pushContents : List String → AgentState → List AgentMessage × AgentState
  | [], agent => ([], agent)
  | content :: rest, agent =>
      let (message, agent) := agent.pushMessage fun id => .user id content
      let (messages, agent) := pushContents rest agent
      (message :: messages, agent)

/-- Give the agent to a new run or compaction. -/
def claim (runId : RunId) (phase : RunPhase) (agent : AgentState) (w : World) : World :=
  { w with
    agent := { agent.clearTransient with phase := .running runId, lastError := none }
    activeRun := some runId
    run := { RunState.create runId with phase }
    cancelled := false, policy := {}, updates := {}, settling := false }

/-- `next_run_id.fetch_add(1)`, and the identifier made of the previous value. -/
def nextRun (w : World) : RunId × World :=
  (⟨satSucc w.nextRunId⟩, { w with nextRunId := w.nextRunId + 1 })

/-- `Agent::start_run` -/
def startRun (a : Agent) (contents : List String) (skipInitialSteering : Bool) (w : World) :
    Except CoreError RunHandle × World :=
  let (runId, w) := nextRun w
  match w.agent.phase.active with
  | some active => (.error (.activeRun active), w)
  | none =>
      let (initialMessages, agent) := pushContents contents w.agent
      let handle : RunHandle := {
        initialMessages, messageStartIndex := w.agent.messages.length, skipInitialSteering
        configuration := a.configuration, agent := a.capabilities }
      (.ok handle, claim runId .created agent w)

/-- `Agent::start_prompt` -/
def startPrompt (a : Agent) (prompt : String) (w : World) : Except CoreError RunHandle × World :=
  startRun a [prompt] false w

/-- `drain_continue_tail_messages`: steering first, follow-up where there is none. -/
def drainContinueTail (w : World) : List QueuedMessage × World :=
  let steering := w.queues.steering.drain w.steeringMode
  let w := { w with queues := { w.queues with steering := steering.2 } }
  if steering.1 ≠ [] then (steering.1, w)
  else
    let followUp := w.queues.followUp.drain w.followUpMode
    (followUp.1, { w with queues := { w.queues with followUp := followUp.2 } })

/-- `Agent::start_continue` -/
def startContinue (a : Agent) (w : World) : Except CoreError RunHandle × World :=
  match w.agent.phase.active with
  | some active => (.error (.activeRun active), w)
  | none =>
      match w.agent.messages.getLast? with
      | none => (transitionError "agent" "empty" "continue", w)
      | some last =>
          if last.isAssistant then
            let (queued, w) := drainContinueTail w
            if queued = [] then (transitionError "agent" "assistant-tail" "continue", w)
            else startRun a (queued.map (·.content)) true w
          else startRun a [] false w

/-- `Agent::start_compaction`: the operation is running from the start. -/
def startCompaction (a : Agent) (w : World) : Except CoreError Unit × World :=
  let (runId, w) := nextRun w
  match w.agent.phase.active with
  | some active => (.error (.activeRun active), w)
  | none =>
      if a.capabilities.hasCompactor then (.ok (), claim runId .running w.agent w)
      else (.error .missingCompactor, w)

/-- `Drop for RunHandle` -/
def dropHandle (w : World) : World := if w.run.phase.isTerminal then w else w.abortRun

/-- `Agent::reset` -/
def reset (w : World) : Except CoreError Unit × World :=
  match w.agent.phase.active with
  | some active => (.error (.activeRun active), w)
  | none =>
      (.ok (), { w with
        agent := { w.agent.clearTransient with
          messages := [], hostMessages := [], lastError := none, accounting := [] }
        queues := w.queues.clear })

/-- `Agent::restore_messages` -/
def restoreMessages (messages : List AgentMessage) (w : World) : Except CoreError Unit × World :=
  match w.agent.phase.active with
  | some active => (.error (.activeRun active), w)
  | none =>
      match validateMessages messages with
      | .error error => (.error (.compaction error), w)
      | .ok () =>
          (.ok (), { w with
            agent := { (w.agent.replaceMessages messages).clearTransient with
              lastError := none, accounting := [] }
            queues := w.queues.clear })

/-- An agent that a run owns rejects every start and reset; only the counter of run
    identifiers moves. -/
theorem start_of_active {a : Agent} {w : World} {active : RunId}
    (h : w.agent.phase.active = some active) :
    (∀ contents skip, startRun a contents skip w = (.error (.activeRun active), (nextRun w).2)) ∧
      startContinue a w = (.error (.activeRun active), w) ∧
      startCompaction a w = (.error (.activeRun active), (nextRun w).2) ∧
      reset w = (.error (.activeRun active), w) ∧
      ∀ messages, restoreMessages messages w = (.error (.activeRun active), w) := by
  refine ⟨fun contents skip => ?_, ?_, ?_, ?_, fun messages => ?_⟩
  · simp [startRun, nextRun, h]
  · simp [startContinue, h]
  · simp [startCompaction, nextRun, h]
  · simp [reset, h]
  · simp [restoreMessages, h]

end Tea.Run
