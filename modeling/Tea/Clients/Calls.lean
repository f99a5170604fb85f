/-
  Tea/Clients/Calls.lean
  ======================
  **The calls on clones of an agent and on its handles, section by section**
  (`agent/mod.rs`, `start_compaction` of `compaction.rs`, the transitions of
  `run/mod.rs`).

  Each critical section of the source is one step from a point to the next.  The lock
  of the active run that `settle_agent` takes inside that of the agent state belongs to
  the same section.  Of `drive` only the sections are kept that touch the phase of the
  agent, the active run or the state of the run.  The callers hold a clone of the agent,
  so that its handles can be upgraded.
-/
import Tea.Async.Sections
import Tea.Run.Agent

namespace Tea.Clients

open Tea.Async Tea.Core Tea.Run

/-! ### The shared state -/

/-- The shared part of a run (`ActiveRun`): its state and its cancellation token. -/
structure Claimed where
  state : RunState := { id := ⟨0⟩, phase := .succeeded }
  cancelled : Bool := false
  /-- Ghost: the run has been written to the slot of the active run. -/
  published : Bool := false
  /-- Ghost: the agent has been released. -/
  settled : Bool := false

/-- `AgentInner`, with every run that was claimed: old ones are still reached through
    their handles.  A client refers to a run by its number. -/
structure Shared where
  agent : AgentState := {}
  queues : AgentQueues := {}
  steeringMode : QueueMode := .oneAtATime
  followUpMode : QueueMode := .oneAtATime
  nextRunId : UInt64 := 0
  activeRun : Option Nat := none
  runs : Nat → Claimed := fun _ => {}
  /-- The number of runs claimed so far. -/
  claims : Nat := 0

namespace Shared

def idOf (s : Shared) (run : Nat) : RunId := (s.runs run).state.id

def modifyRun (s : Shared) (run : Nat) (f : Claimed → Claimed) : Shared :=
  { s with runs := Function.update s.runs run (f (s.runs run)) }

/-- A section on the state of a run. -/
def setPhase (s : Shared) (run : Nat) (phase : RunPhase) (reason : Option StopReason)
    (error : Option String) : Shared :=
  s.modifyRun run fun entry =>
    { entry with state := { entry.state with phase, stopReason := reason, error } }

def cancel (s : Shared) (run : Nat) : Shared :=
  s.modifyRun run fun entry => { entry with cancelled := true }

/-- The agent is released, on behalf of the run. -/
def release (s : Shared) (run : Nat) : Shared :=
  { s with agent := { s.agent with phase := .idle } }.modifyRun run
    fun entry => { entry with settled := true }

end Shared

/-! ### Points -/

/-- What a call has returned. -/
inductive Returned where
  | done
  | sequence (sequence : UInt64)
  | run (run : Nat) (handle : RunHandle)
  | failed (error : CoreError)

/-- Where a call stands: the section that comes next, with the local variables. -/
inductive Point where
  | returned (result : Returned)
  -- `start_continue`
  | checkTail
  | readSteeringMode
  | readFollowUpMode (steering : QueueMode)
  | drainTail (steering followUp : QueueMode)
  -- `start_run`
  | fetchRunId (contents : List String) (skip : Bool)
  | claim (id : RunId) (contents : List String) (skip : Bool)
  | publish (run : Nat) (handle : RunHandle)
  -- `start_compaction`
  | fetchCompactionId
  | checkIdle (id : RunId)
  | readCompactor (id : RunId)
  | claimCompaction (id : RunId)
  -- `steer` and `follow_up`
  | pushSteering (content : String)
  | pushFollowUp (content : String)
  -- `Agent::abort`
  | readSlot
  | cancelActive (run : Nat)
  | stopCreated (run : Nat)
  | markAgent (run : Nat) (settleImmediately : Bool)
  | clearQueues (run : Nat) (settleImmediately : Bool)
  | releaseSlot (run : Nat)
  -- `RunHandle::abort` and `Drop for RunHandle`
  | checkTerminal (run : Nat)
  | cancelRun (run : Nat)
  | stopRun (run : Nat)
  | markRun (run : Nat)
  -- the transitions of `drive`
  | startTurn (run : Nat) (turnId : TurnId)
  | beginSettlement (run : Nat)
  | finish (run : Nat) (phase : RunPhase) (reason : StopReason) (error : Option String)
  | settleAgent (run : Nat) (error : Option String)

def Point.isReturned : Point → Bool
  | .returned _ => true
  | _ => false

/-! ### The sections -/

def failed (error : CoreError) : Point := .returned (.failed error)

def invalid (entity source operation : String) : Point :=
  failed (.invalidTransition { entity, source, operation })

/-- The first section of `start_continue`. -/
def checkTail (s : Shared) : Point :=
  match s.agent.phase.active with
  | some active => failed (.activeRun active)
  | none =>
      match s.agent.messages.getLast? with
      | none => invalid "agent" "empty" "continue"
      | some last => if last.isAssistant then .readSteeringMode else .fetchRunId [] false

/-- What `start_continue` does with the messages it has drained. -/
def continueWith (queued : List QueuedMessage) : Point :=
  if queued = [] then invalid "agent" "assistant-tail" "continue"
  else .fetchRunId (queued.map (·.content)) true

/-- The section of `drain_continue_tail_messages` on the queues. -/
def drainTail (steeringMode followUpMode : QueueMode) (s : Shared) : Point × Shared :=
  let steering := s.queues.steering.drain steeringMode
  let followUp := s.queues.followUp.drain followUpMode
  if steering.1 ≠ [] then
    (continueWith steering.1, { s with queues := { s.queues with steering := steering.2 } })
  else
    (continueWith followUp.1, { s with queues := { steering := steering.2, followUp := followUp.2 } })

/-- `next_run_id.fetch_add(1)` -/
def fetchRunId (next : RunId → Point) (s : Shared) : Point × Shared :=
  (next ⟨satSucc s.nextRunId⟩, { s with nextRunId := s.nextRunId + 1 })

/-- The agent is given to a new run, whose state nobody else can reach yet. -/
def Shared.give (s : Shared) (id : RunId) (phase : RunPhase) (agent : AgentState) : Shared :=
  { s with
    agent := { agent.clearTransient with phase := .running id, lastError := none }
    runs := Function.update s.runs s.claims { state := { RunState.create id with phase } }
    claims := s.claims + 1 }

/-- The section of `start_run` on the agent state. -/
def claim (a : Agent) (id : RunId) (contents : List String) (skip : Bool) (s : Shared) :
    Point × Shared :=
  match s.agent.phase.active with
  | some active => (failed (.activeRun active), s)
  | none =>
      let (initialMessages, agent) := pushContents contents s.agent
      (.publish s.claims {
          initialMessages, messageStartIndex := s.agent.messages.length
          skipInitialSteering := skip, configuration := a.configuration, agent := a.capabilities },
        s.give id .created agent)

/-- The active run is set. -/
def publish (run : Nat) (s : Shared) : Shared :=
  { s.modifyRun run fun entry => { entry with published := true } with activeRun := some run }

def checkIdle (next : Point) (s : Shared) : Point :=
  match s.agent.phase.active with
  | some active => failed (.activeRun active)
  | none => next

/-- The last section of `start_compaction` on the agent state. -/
def claimCompaction (a : Agent) (id : RunId) (s : Shared) : Point × Shared :=
  match s.agent.phase.active with
  | some active => (failed (.activeRun active), s)
  | none =>
      (.publish s.claims {
          skipInitialSteering := true, configuration := a.configuration, agent := a.capabilities },
        s.give id .running s.agent)

/-- The section of `Agent::abort` on the agent state. -/
def markAgent (run : Nat) (settleImmediately : Bool) (s : Shared) : Shared :=
  let s := { s with agent := s.agent.clearTransient }
  if settleImmediately then s.release run
  else if s.agent.phase ≠ .idle then
    { s with agent := { s.agent with phase := .cancelling (s.idOf run) } }
  else s

/-- `settle_agent` with the phase `Idle`. -/
def settleAgent (run : Nat) (error : Option String) (s : Shared) : Shared :=
  let s := s.release run
  { s with agent := { s.agent.clearTransient with lastError := error }, activeRun := none }

/-- An un-driven run is cancelled in one section. -/
def stopCreated (run : Nat) (s : Shared) : Shared :=
  if (s.runs run).state.phase = .created then
    s.setPhase run .cancelled (some .cancelled) (s.runs run).state.error
  else s

/-- The critical section that comes next. -/
def section_ (a : Agent) (p : Point) (s : Shared) : Point × Shared :=
  match p with
  | .returned result => (.returned result, s)
  | .checkTail => (checkTail s, s)
  | .readSteeringMode => (.readFollowUpMode s.steeringMode, s)
  | .readFollowUpMode steering => (.drainTail steering s.followUpMode, s)
  | .drainTail steering followUp => drainTail steering followUp s
  | .fetchRunId contents skip => fetchRunId (fun id => .claim id contents skip) s
  | .claim id contents skip => claim a id contents skip s
  | .publish run handle => (.returned (.run run handle), publish run s)
  | .fetchCompactionId => fetchRunId .checkIdle s
  | .checkIdle id => (checkIdle (.readCompactor id) s, s)
  | .readCompactor id =>
      (if a.capabilities.hasCompactor then .claimCompaction id else failed .missingCompactor, s)
  | .claimCompaction id => claimCompaction a id s
  | .pushSteering content =>
      let pushed := s.queues.steering.push content
      (.returned (.sequence pushed.1), { s with queues := { s.queues with steering := pushed.2 } })
  | .pushFollowUp content =>
      let pushed := s.queues.followUp.push content
      (.returned (.sequence pushed.1), { s with queues := { s.queues with followUp := pushed.2 } })
  | .readSlot =>
      match s.activeRun with
      | none => (.returned .done, s)
      | some run => (.cancelActive run, s)
  | .cancelActive run => (.stopCreated run, s.cancel run)
  | .stopCreated run =>
      (.markAgent run ((s.runs run).state.phase = .created), stopCreated run s)
  | .markAgent run immediately => (.clearQueues run immediately, markAgent run immediately s)
  | .clearQueues run immediately =>
      (if immediately then .releaseSlot run else .returned .done,
        { s with queues := s.queues.clear })
  | .releaseSlot run =>
      (.returned .done,
        if s.activeRun.map s.idOf = some (s.idOf run) then { s with activeRun := none } else s)
  | .checkTerminal run =>
      (if (s.runs run).state.phase.isTerminal then .returned .done else .cancelRun run, s)
  | .cancelRun run => (.stopRun run, s.cancel run)
  | .stopRun run =>
      if (s.runs run).state.phase.isTerminal then (.returned .done, s)
      else (if (s.runs run).state.phase = .created then .settleAgent run none else .markRun run,
        stopCreated run s)
  | .markRun run =>
      (.returned .done, { s with agent := { s.agent with phase := .cancelling (s.idOf run) } })
  | .startTurn run turnId =>
      if (s.runs run).state.phase = .created then
        (.returned .done, s.modifyRun run fun entry =>
          { entry with state := { entry.state with phase := .running, turnId := some turnId } })
      else (invalid "run" (s.runs run).state.phase.name "start_turn", s)
  | .beginSettlement run =>
      if (s.runs run).state.phase.isTerminal then (failed (.runFinished (s.idOf run)), s)
      else (.returned .done, s.modifyRun run fun entry =>
        { entry with state := { entry.state with phase := .settling } })
  | .finish run phase reason error =>
      if (s.runs run).state.phase.isTerminal then (failed (.runFinished (s.idOf run)), s)
      else (.settleAgent run error, s.setPhase run phase (some reason) error)
  | .settleAgent run error => (.returned .done, settleAgent run error s)

/-! ### Calls -/

inductive Call where
  | startPrompt (prompt : String)
  | startContinue
  | startCompaction
  | steer (content : String)
  | followUp (content : String)
  | abort
  | abortRun (run : Nat)
  | dropRun (run : Nat)
  | startTurn (run : Nat) (turnId : TurnId)
  | beginSettlement (run : Nat)
  | finish (run : Nat) (phase : RunPhase) (reason : StopReason) (error : Option String)

def Call.entry : Call → Point
  | .startPrompt prompt => .fetchRunId [prompt] false
  | .startContinue => .checkTail
  | .startCompaction => .fetchCompactionId
  | .steer content => .pushSteering content
  | .followUp content => .pushFollowUp content
  | .abort => .readSlot
  | .abortRun run => .cancelRun run
  | .dropRun run => .checkTerminal run
  | .startTurn run turnId => .startTurn run turnId
  | .beginSettlement run => .beginSettlement run
  | .finish run phase reason error => .finish run phase reason error

/-- The run whose handle the call is made on. -/
def Call.run? : Call → Option Nat
  | .abortRun run => some run
  | .dropRun run => some run
  | .startTurn run _ => some run
  | .beginSettlement run => some run
  | .finish run .. => some run
  | _ => none

/-- A run has a handle when its start has set the active run; `finish` is private, and
    its callers pass the three terminal phases. -/
def Call.admitted (s : Shared) (call : Call) : Bool :=
  (match call.run? with
    | some run => run < s.claims && (s.runs run).published
    | none => true) &&
  (match call with
    | .finish _ phase .. => phase.isTerminal
    | _ => true)

def calls (a : Agent) : Sections Shared Call Point where
  entry := Call.entry
  admits := Call.admitted
  returned := Point.isReturned
  section_ := section_ a

/-- Clients that have made no call yet. -/
def unused (s : Shared) : Clients Nat Shared Point where
  state := s
  point _ := .returned .done

/-! ### What the sections do to the runs -/

variable {a : Agent} {s : Shared} {id : RunId}

theorem claim_idle {contents : List String} {skip : Bool}
    (hidle : s.agent.phase.active = none) :
    claim a id contents skip s =
      (.publish s.claims {
          initialMessages := (pushContents contents s.agent).1
          messageStartIndex := s.agent.messages.length
          skipInitialSteering := skip, configuration := a.configuration, agent := a.capabilities },
        s.give id .created (pushContents contents s.agent).2) := by
  simp only [claim, hidle]

theorem claim_active {contents : List String} {skip : Bool} {active : RunId}
    (hactive : s.agent.phase.active = some active) :
    claim a id contents skip s = (failed (.activeRun active), s) := by
  simp only [claim, hactive]

theorem claimCompaction_idle (hidle : s.agent.phase.active = none) :
    claimCompaction a id s =
      (.publish s.claims {
          skipInitialSteering := true, configuration := a.configuration, agent := a.capabilities },
        s.give id .running s.agent) := by
  simp only [claimCompaction, hidle]

theorem claimCompaction_active {active : RunId} (hactive : s.agent.phase.active = some active) :
    claimCompaction a id s = (failed (.activeRun active), s) := by
  simp only [claimCompaction, hactive]

/-- The drain of the tail touches the queues only, and not even them where it finds
    nothing. -/
theorem drainTail_spec (steering followUp : QueueMode) (s : Shared) :
    ∃ queued queues, drainTail steering followUp s = (continueWith queued, { s with queues }) ∧
      (queued = [] → queues = s.queues) := by
  unfold drainTail
  by_cases hsteering : (s.queues.steering.drain steering).1 = []
  · refine ⟨_, _, if_neg (not_not_intro hsteering), fun hfollowUp => ?_⟩
    rw [MessageQueue.drain_empty hsteering, MessageQueue.drain_empty hfollowUp]
  · exact ⟨_, _, if_pos hsteering, fun hempty => absurd hempty hsteering⟩

theorem modifyRun_same (s : Shared) (run : Nat) (f : Claimed → Claimed) :
    (s.modifyRun run f).runs run = f (s.runs run) := by
  simp [Shared.modifyRun]

theorem modifyRun_other (s : Shared) {run other : Nat} (f : Claimed → Claimed)
    (hne : other ≠ run) : (s.modifyRun run f).runs other = s.runs other := by
  simp [Shared.modifyRun, hne]

/-- A change of a run says of every run what it says of this one. -/
theorem modifyRun_all {α : Type} (s : Shared) (run : Nat) {f : Claimed → Claimed}
    {g : Claimed → α} (hf : ∀ entry, g (f entry) = g entry) (other : Nat) :
    g ((s.modifyRun run f).runs other) = g (s.runs other) := by
  by_cases hother : other = run
  · rw [hother, modifyRun_same, hf]
  · rw [modifyRun_other s f hother]

theorem modifyRun_idOf (s : Shared) (run : Nat) {f : Claimed → Claimed}
    (hf : ∀ entry, (f entry).state.id = entry.state.id) : (s.modifyRun run f).idOf = s.idOf :=
  funext fun other => modifyRun_all s run (g := fun entry => entry.state.id) hf other

end Tea.Clients
