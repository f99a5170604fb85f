/-
  Tea/Lifecycle/Stage.lean
  ========================
  **The lifecycle of a run as an abstract machine.**

  A control state, or *stage*, says how far a run has come: which part of its
  event grammar has been recorded, which message is being written, which queued
  messages it holds and which tool calls are open.  The machine lists the critical
  sections that a run may make in a stage (`Own`) and the replies that it may get
  (`Replies`); everything else that the program does leaves the `core` of the
  shared state alone (`Own.quiet`).

  The machine is permissive where the program is: the settlement of a failed loop
  closes a turn and announces its end whatever was open.
-/
import Tea.Async.Machine
import Tea.Run.Agent

namespace Tea.Lifecycle

open Tea.Async Tea.Core Tea.Run

/-! ### Stages -/

/-- How far the run has come. -/
inductive Life where
  | created
  /-- `start_turn` refused the run, which had been aborted before. -/
  | rejected
  | opening
  | started
  | turnOpen
  | turnClosed
  /-- The hooks have let the run go on: the steering queue is polled next. -/
  | polling
  /-- The steering queue has been polled, and the follow-up queue may be. -/
  | polled
  | drained
  | advanced
  | ended
  /-- The loop has returned an error, and nothing of it is settled. -/
  | failing
  | settling
  | settledTurn
  | settledEnd
  | finished (phase : RunPhase)
  | settled (phase : RunPhase)
deriving DecidableEq

/-- The loop is running, or its error is being settled. -/
def Life.running : Life → Bool
  | .created => false
  | .rejected => false
  | .finished _ => false
  | .settled _ => false
  | _ => true

/-- The loop has recorded events and may still record some. -/
def Life.looping : Life → Bool
  | .started => true
  | .turnOpen => true
  | .turnClosed => true
  | .polling => true
  | .polled => true
  | .drained => true
  | .advanced => true
  | .ended => true
  | _ => false

/-- The queues are being polled, and nothing else is done. -/
def Life.polls : Life → Bool
  | .polling => true
  | .polled => true
  | _ => false

/-- The loop is running, or its error is being settled, outside the polls. -/
def Life.works (life : Life) : Bool := life.running && !life.polls

/-- Where the message that is being written stands. -/
inductive Speech where
  | silent
  /-- In the transcript, not announced. -/
  | pushed (message : AgentMessage)
  /-- Announced, complete, and its end not yet announced. -/
  | announced (message : AgentMessage)
  /-- An assistant message whose text streams into the last place of the transcript. -/
  | streaming (message : AgentMessage) (announced : Bool)

/-- What made the loop fail, where that matters afterwards. -/
inductive Fault where
  | observer
  | boundaryHook
  | stream
deriving DecidableEq

structure Stage where
  runId : RunId
  life : Life := .created
  turn : TurnId := ⟨1⟩
  speech : Speech := .silent
  /-- Queued messages drained and not yet appended. -/
  batch : List QueuedMessage := []
  /-- Tool calls of the transcript without a result. -/
  calls : List ToolCall := []
  /-- The events of the last response. -/
  response : List ModelStreamEvent := []
  /-- The response is not in the transcript yet. -/
  reading : Bool := false
  /-- Whether the overflow of the last response may be retried, once decided. -/
  decision : Option Bool := none
  polled : Bool := false
  asked : Bool := false
  /-- The turn may make a provider request. -/
  due : Bool := false
  /-- A compaction has been counted whose compactor is not called yet. -/
  reserved : Bool := false
  /-- The length of the transcript at the last request. -/
  mark : Option Nat := none
  /-- The messages read for `AgentEnd`. -/
  report : Option (List AgentMessage) := none
  /-- The last replacement proposed by the compactor. -/
  proposal : Option (List AgentMessage) := none
  fault : Option Fault := none

/-! ### Responses -/

/-- The local variables of the response after its events; text apart. -/
def collect (events : List ModelStreamEvent) : Response := events.foldl Response.receive {}

def hasText (events : List ModelStreamEvent) : Bool :=
  events.any fun
    | .textDelta _ => true
    | _ => false

/-- The reasons with which a response may carry tool calls. -/
def endsForTools (events : List ModelStreamEvent) : Prop :=
  (collect events).reason = some .toolUse ∨ (collect events).reason = some .length

/-- The policy asks for a retry after an overflow. -/
def retriesOverflow (h : RunHandle) : Prop :=
  h.agent.automaticCompaction.enabled = true ∧
    h.agent.automaticCompaction.overflowRecovery = .compactAndRetry

/-- The response ends the run, or its tool calls are refused. -/
def BadEnd (h : RunHandle) (s : Stage) : Prop :=
  ¬ endsForTools s.response ∧
    ((collect s.response).contextOverflow = true → retriesOverflow h → s.decision = some false)

def Stage.receive (s : Stage) : Except SchedulerError (Option ModelStreamEvent) → Stage
  | .error _ => { s with fault := some .stream }
  | .ok none => if (collect s.response).reason.isNone then { s with fault := some .stream } else s
  | .ok (some event) =>
      if (collect s.response).reason.isSome then { s with fault := some .stream }
      else { s with response := s.response ++ [event] }

/-! ### Failures -/

/-- A turn is open, and nothing has failed in it. -/
structure TurnOpen (s : Stage) : Prop where
  life : s.life = .turnOpen
  fault : s.fault = none

/-- A turn is open and no message is being written. -/
structure InTurn (s : Stage) : Prop where
  life : s.life = .turnOpen
  speech : s.speech = .silent
  fault : s.fault = none

theorem InTurn.turnOpen {s : Stage} (hs : InTurn s) : TurnOpen s := ⟨hs.life, hs.fault⟩

/-- A message may be announced. -/
def Speaking (s : Stage) : Prop := TurnOpen s ∨ s.life = .settling

/-- No message waits for its announcement, unless an observer has failed. -/
def Unspoken (s : Stage) : Prop :=
  s.fault = some .observer ∨ s.speech = .silent ∨ ∃ message, s.speech = .streaming message true

/-- The stages in which the loop may have returned an error. -/
def LoopFailed (h : RunHandle) (s : Stage) : Prop :=
  match s.fault with
  | some .observer => s.life.looping = true
  | some .boundaryHook => s.life = .turnClosed ∧ s.speech = .silent ∧ s.batch = [] ∧ s.calls = []
  | some .stream =>
      s.life = .turnOpen ∧ s.batch = [] ∧ s.calls = [] ∧
        (s.speech = .silent ∨ ∃ message, s.speech = .streaming message true)
  | none =>
      s.life = .rejected ∨ (∃ phase, s.life = .settled phase ∧ phase ≠ .succeeded) ∨
        (s.life = .turnOpen ∧ s.speech = .silent ∧ s.batch = [] ∧ (s.calls = [] ∨ BadEnd h s))

/-! ### Events -/

/-- The events outside the brackets of agent, turn and message. -/
def isSide : AgentEventKind → Bool
  | .agentStart => false
  | .agentEnd _ => false
  | .turnStart _ => false
  | .turnEnd .. => false
  | .messageStart _ => false
  | .messageUpdate .. => false
  | .messageEnd _ => false
  | _ => true

def isAgentEnd : AgentEventKind → Bool
  | .agentEnd _ => true
  | _ => false

/-- The event grammar that the run follows. -/
inductive Records (h : RunHandle) : Stage → AgentEventKind → Stage → Prop where
  | agentStart {s} (life : s.life = .opening) :
      Records h s .agentStart { s with life := .started }
  | turnStart {s} (life : s.life = .started ∨ s.life = .advanced) :
      Records h s (.turnStart s.turn) { s with life := .turnOpen, due := true }
  | messageStart {s message} (speaking : Speaking s)
      (speech : s.speech = .pushed message) :
      Records h s (.messageStart message) { s with speech := .announced message }
  | promptStart {s message} (turn : InTurn s)
      (fresh : s.polled = false ∧ s.asked = false) (initial : message ∈ h.initialMessages) :
      Records h s (.messageStart message) { s with speech := .announced message }
  | textStart {s id text} (turn : TurnOpen s)
      (speech : s.speech = .streaming (partialMessage id text) false) :
      Records h s (.messageStart (partialMessage id ""))
        { s with speech := .streaming (partialMessage id text) true }
  | textUpdate {s message delta} (turn : TurnOpen s)
      (speech : s.speech = .streaming message true) :
      Records h s (.messageUpdate message delta) s
  | messageEnd {s message} (speaking : Speaking s)
      (speech : s.speech = .announced message) :
      Records h s (.messageEnd message) { s with speech := .silent }
  | side {s kind} (turn : InTurn s) (side : isSide kind = true) : Records h s kind s
  | turnEnd {s reason} (turn : InTurn s)
      (batch : s.batch = []) (calls : s.calls = [] ∨ BadEnd h s) :
      Records h s (.turnEnd s.turn reason)
        { s with life := .turnClosed, report := none, mark := none }
  | agentEnd {s messages} (life : s.life = .turnClosed ∨ s.life = .drained)
      (batch : s.batch = []) (fault : s.fault = none) (report : s.report = some messages) :
      Records h s (.agentEnd messages) { s with life := .ended }
  | settleTurnEnd {s reason} (life : s.life = .settling) (unspoken : Unspoken s) :
      Records h s (.turnEnd s.turn reason) { s with life := .settledTurn, report := none }
  | settleAgentEnd {s messages} (life : s.life = .settledTurn)
      (report : s.report = some messages) :
      Records h s (.agentEnd messages) { s with life := .settledEnd }

/-! ### Transcript -/

/-- The messages that the run appends whole. -/
inductive Appends : Stage → AgentMessage → Stage → Prop where
  | user {s id queued rest} (turn : InTurn s) (calls : s.calls = [])
      (unmarked : s.mark = none) (batch : s.batch = queued :: rest) :
      Appends s (.user id queued.content)
        { s with speech := .pushed (.user id queued.content), batch := rest }
  | result {s message call rest} (turn : InTurn s)
      (asked : s.asked = true) (calls : s.calls = call :: rest)
      (result : message.resultOf = some (call.id, call.name)) :
      Appends s message { s with speech := .pushed message, calls := rest }
  | response {s id text reason} (turn : InTurn s)
      (asked : s.asked = true) (reading : s.reading = true) (calls : s.calls = [])
      (terminal : (collect s.response).reason = some reason) :
      Appends s (.assistant id text (collect s.response).toolCalls (some reason)
          (collect s.response).errorMessage)
        { s with
          speech := .pushed (.assistant id text (collect s.response).toolCalls (some reason)
            (collect s.response).errorMessage)
          calls := (collect s.response).toolCalls, reading := false }
  | failure {s id reason error} (life : s.life = .failing) :
      Appends s (.assistant id "" [] (some reason) error)
        { s with
          life := .settling
          speech := .pushed (.assistant id "" [] (some reason) error) }

/-! ### The core of the shared state -/

/-- What the quiet steps of a run leave alone. -/
structure Core where
  messages : List AgentMessage
  nextMessageId : UInt64
  agentPhase : AgentPhase
  queues : AgentQueues
  activeRun : Option RunId
  held : Bool
  run : RunState
  cancelled : Bool
  policy : RunPolicyState
  settling : Bool

def core (w : World) : Core where
  messages := w.agent.messages
  nextMessageId := w.agent.nextMessageId
  agentPhase := w.agent.phase
  queues := w.queues
  activeRun := w.activeRun
  held := w.held
  run := w.run
  cancelled := w.cancelled
  policy := w.policy
  settling := w.settling

/-- Nothing of the core changes, and streaming does not begin. -/
structure Quiet (w w' : World) : Prop where
  core_eq : core w' = core w
  streaming : w'.agent.isStreaming = true → w.agent.isStreaming = true

/-! ### Steps -/

/-- The critical sections of the run of handle `h`. -/
inductive Own (h : RunHandle) : Stage → World → World → Stage → Prop where
  | still {s w} (idle : s.life.polls = false) : Own h s w w s
  | quiet {s w w'} (life : s.life.works = true) (quiet : Quiet w w') : Own h s w w' s
  | begin {s w} (life : s.life = .created) (phase : w.run.phase = .created) :
      Own h s w { w with run := { w.run with phase := .running, turnId := some ⟨1⟩ } }
        { s with life := .opening, turn := ⟨1⟩ }
  | reject {s w} (life : s.life = .created) (phase : w.run.phase ≠ .created) :
      Own h s w w { s with life := .rejected }
  | record {s w kind s'} (records : Records h s kind s') :
      Own h s w { w with run := (w.run.recordEvent kind).2 } s'
  | advance {s w} (life : s.life = .polled ∨ s.life = .drained) :
      Own h s w { w with run := { w.run with turnId := some (nextTurnId s.turn) } }
        { s with life := .advanced, turn := nextTurnId s.turn }
  | firstSteering {s w} (turn : InTurn s) (fresh : s.polled = false ∧ s.asked = false)
      (polls : h.skipInitialSteering = false) (batch : s.batch = []) :
      Own h s w
        { w with queues := { w.queues with steering := (w.queues.steering.drain w.steeringMode).2 } }
        { s with batch := (w.queues.steering.drain w.steeringMode).1, polled := true }
  | drainSteering {s w} (life : s.life = .polling) (batch : s.batch = []) :
      Own h s w
        { w with queues := { w.queues with steering := (w.queues.steering.drain w.steeringMode).2 } }
        { s with
          life := .polled, batch := (w.queues.steering.drain w.steeringMode).1, polled := true }
  | drainFollowUp {s w} (life : s.life = .polled) (batch : s.batch = []) :
      Own h s w
        { w with queues := { w.queues with followUp := (w.queues.followUp.drain w.followUpMode).2 } }
        { s with
          life := .drained, batch := (w.queues.followUp.drain w.followUpMode).1, polled := true }
  | append {s w w' message s'} (appends : Appends s message s')
      (id : message.id = ⟨w.agent.nextMessageId⟩)
      (core_eq : core w' = { core w with
        messages := w.agent.messages ++ [message]
        nextMessageId := satSucc w.agent.nextMessageId }) :
      Own h s w w' s'
  | openText {s w w' text} (turn : InTurn s) (asked : s.asked = true)
      (reading : s.reading = true) (calls : s.calls = []) (hasText : hasText s.response = true)
      (core_eq : core w' = { core w with
        messages := w.agent.messages ++ [partialMessage ⟨w.agent.nextMessageId⟩ text]
        nextMessageId := satSucc w.agent.nextMessageId }) :
      Own h s w w'
        { s with speech := .streaming (partialMessage ⟨w.agent.nextMessageId⟩ text) false }
  | extendText {s w w' id old text} (turn : TurnOpen s)
      (speech : s.speech = .streaming (partialMessage id old) true)
      (core_eq : core w' = { core w with
        messages := setLast w.agent.messages (partialMessage id text) }) :
      Own h s w w' { s with speech := .streaming (partialMessage id text) true }
  | closeText {s w w' id text reason} (turn : TurnOpen s)
      (speech : s.speech = .streaming (partialMessage id text) true) (reading : s.reading = true)
      (calls : s.calls = []) (terminal : (collect s.response).reason = some reason)
      (core_eq : core w' = { core w with
        messages := setLast w.agent.messages (.assistant id text (collect s.response).toolCalls
          (some reason) (collect s.response).errorMessage) }) :
      Own h s w w' { s with
        speech := .announced (.assistant id text (collect s.response).toolCalls (some reason)
          (collect s.response).errorMessage)
        calls := (collect s.response).toolCalls, reading := false }
  | mark {s w} (turn : InTurn s) (calls : s.calls = []) :
      Own h s w w { s with mark := some w.agent.messages.length }
  | claim {s w} (turn : InTurn s) :
      Own h s w { w with agent := { w.agent with isStreaming := true } } { s with asked := true }
  | report {s w}
      (life : s.life = .turnClosed ∨ s.life = .drained ∨ s.life = .settledTurn) :
      Own h s w w { s with report := some (w.agent.messages.drop h.messageStartIndex) }
  | policy {s w policy} (turn : InTurn s)
      (compactions : policy.automaticCompactions = w.policy.automaticCompactions)
      (retries : policy.overflowRetries = w.policy.overflowRetries)
      (retried : policy.overflowRetriedThisContinuation = w.policy.overflowRetriedThisContinuation ∨
        (policy.overflowRetriedThisContinuation = false ∧
          (collect s.response).reason ≠ none ∧ (collect s.response).contextOverflow = false)) :
      Own h s w { w with policy } s
  | reserve {s w} (turn : InTurn s) :
      Own h s w
        { w with policy := (reserveCompaction
            h.agent.automaticCompaction.maxCompactionsPerRun.toNat w.policy).2 }
        { s with reserved := !(reserveCompaction
            h.agent.automaticCompaction.maxCompactionsPerRun.toNat w.policy).1.2 }
  | decide {s w} (turn : InTurn s)
      (overflow : (collect s.response).contextOverflow = true) :
      Own h s w
        { w with policy := (allowOverflowRetry
            h.agent.automaticCompaction.maxOverflowRetriesPerRun.toNat w.policy).2 }
        { s with decision := some (allowOverflowRetry
            h.agent.automaticCompaction.maxOverflowRetriesPerRun.toNat w.policy).1 }
  | truncate {s w w' count} (turn : InTurn s) (asked : s.asked = true)
      (mark : s.mark = some count) (decision : s.decision = some true)
      (core_eq : core w' = { core w with messages := w.agent.messages.take count }) :
      Own h s w w' { s with calls := [], mark := none, due := true }
  | commit {s w replacement} (turn : InTurn s)
      (calls : s.calls = []) (proposal : s.proposal = some replacement)
      (valid : validateMessages replacement = .ok ()) (uncancelled : w.cancelled = false)
      (owned : w.agent.phase = .running w.run.id) :
      Own h s w { w with agent := w.agent.replaceMessages replacement } { s with mark := none }
  | leave {s w} (failed : LoopFailed h s) (life : s.life.looping = true) :
      Own h s w { w with settling := true } { s with life := .failing }
  | skip {s w w'} (life : s.life = .failing) (quiet : Quiet w w') :
      Own h s w w' { s with life := .settling }
  | finish {s w phase reason error} (life : s.life = .ended ∨ s.life = .settledEnd)
      (terminal : phase.isTerminal = true) :
      Own h s w
        { w with run := { w.run with phase := phase, stopReason := some reason, error := error } }
        { s with life := .finished phase }
  | settle {s w phase error} (life : s.life = .finished phase) :
      Own h s w (w.settleAgent .idle error) { s with life := .settled phase }

/-! ### Replies -/

/-- The replies that change nothing in the stage. -/
def passive : (query : Query) → Reply query → Prop
  | .observe .., _ => False
  | .nextEvent, _ => False
  | .compact _, _ => False
  | .stream _, _ => False
  | .prepareNextTurn _, reply => ∃ update, reply = .ok update
  | .shouldStopAfterTurn _, reply => reply = .ok true
  | .compactAutomatic .., _ => False
  | _, _ => True

inductive Replies : Stage → (query : Query) → Reply query → Stage → Prop where
  | accepted {s observer event} (life : s.life = .ended → isAgentEnd event.kind = true) :
      Replies s (.observe observer event) (.ok ()) s
  | refused {s observer event error} (life : s.life = .ended → isAgentEnd event.kind = true) :
      Replies s (.observe observer event) (.error error) { s with fault := some .observer }
  | opened {s request} (turn : InTurn s) (calls : s.calls = []) (due : s.due = true) :
      Replies s (.stream request) (.ok ())
        { s with response := [], reading := true, decision := none, due := false }
  | unopened {s request error} (turn : InTurn s) (calls : s.calls = []) (due : s.due = true) :
      Replies s (.stream request) (.error error)
        { s with response := [], decision := none, due := false }
  | event {s reply} (turn : TurnOpen s) (calls : s.calls = [])
      (speech : s.speech = .silent ∨ ∃ message, s.speech = .streaming message true) :
      Replies s .nextEvent reply (s.receive reply)
  | unprepared {s context error} (life : s.life = .turnClosed) (fault : s.fault = none) :
      Replies s (.prepareNextTurn context) (.error error) { s with fault := some .boundaryHook }
  | undecided {s context error} (life : s.life = .turnClosed) (fault : s.fault = none) :
      Replies s (.shouldStopAfterTurn context) (.error error)
        { s with fault := some .boundaryHook }
  | declined {s context} (life : s.life = .turnClosed) (fault : s.fault = none) :
      Replies s (.shouldStopAfterTurn context) (.ok false)
        { s with life := .polling, polled := true }
  | proposed {s context request result} (reserved : s.reserved = true) :
      Replies s (.compactAutomatic context request) (.ok result)
        { s with proposal := some result.messages, reserved := false }
  | unproposed {s context request error} (reserved : s.reserved = true) :
      Replies s (.compactAutomatic context request) (.error error) { s with reserved := false }
  | passive {s query reply} (passive : passive query reply) : Replies s query reply s

/-! ### Consistency -/

/-- The agent is settled: idle, without an active run and without transient state. -/
structure Settled (w : World) : Prop where
  phase : w.agent.phase = .idle
  activeRun : w.activeRun = none
  streaming : w.agent.isStreaming = false
  pending : w.agent.pendingToolCalls = []
  response : w.agent.partialResponse = none

/-- The agent is owned by the run. -/
structure Owned (w : World) : Prop where
  phase : w.agent.phase = .running w.run.id ∨ w.agent.phase = .cancelling w.run.id
  activeRun : w.activeRun = some w.run.id

/-- The run state that belongs to a stage. -/
def Phased (s : Stage) (w : World) : Prop :=
  match s.life with
  | .created => (w.run.phase = .created ∧ Owned w) ∨ (w.run.phase = .cancelled ∧ Settled w)
  | .rejected => w.run.phase = .cancelled ∧ Settled w
  | .finished phase => w.run.phase = phase ∧ phase.isTerminal = true
  | .settled phase => w.run.phase = phase ∧ phase.isTerminal = true ∧ Settled w
  | _ => w.run.phase = .running ∧ w.run.turnId = some s.turn ∧ Owned w

structure Consistent (s : Stage) (w : World) : Prop where
  held : w.held = true
  id : w.run.id = s.runId
  phased : Phased s w

/-- The lifecycle machine of the run of handle `h`. -/
def machine (h : RunHandle) : Machine Stage World Query Reply where
  consistent := Consistent
  own := Own h
  awaits s := s.life.running = true
  reply := Replies

end Tea.Lifecycle
