/-
  Tea/Run/Drive.lean
  ==================
  **The run loop** (`drive_inner` and `drive` of `run/mod.rs`).

  One iteration of the loop is `turn`: an automatic compaction where one is due, a
  provider request, the response, and one of its continuations.  It returns the
  loop variables of the next iteration, or nothing when the run has succeeded.
-/
import Tea.Run.Compaction

namespace Tea.Run

open Tea.Async Tea.Core

/-- The mutable variables of the loop. -/
structure LoopState where
  turnId : TurnId := ⟨1⟩
  modelOverride : Option ModelDescriptor := none
  thinkingOverride : Option ThinkingLevel := none
  estimator : ContextEstimator := {}
  completedAssistantTurn : Bool := false
  nextContext : Option ContextEnvelope := none

/-! ### Queues -/

def drainSteering : Drive (List QueuedMessage) :=
  .section_ fun w =>
    let drained := w.queues.steering.drain w.steeringMode
    (drained.1, { w with queues := { w.queues with steering := drained.2 } })

def drainFollowUp : Drive (List QueuedMessage) :=
  .section_ fun w =>
    let drained := w.queues.followUp.drain w.followUpMode
    (drained.1, { w with queues := { w.queues with followUp := drained.2 } })

/-- `inject_queued_messages`: append and announce each message, and extend the
    context of the next request by it. -/
def injectQueuedMessages (context : ContextEnvelope) : List QueuedMessage → Drive ContextEnvelope
  | [] => pure context
  | queued :: rest => do
      let message ← pushMessage fun id => .user id queued.content
      announce message
      injectQueuedMessages { context with messages := context.messages ++ [message] } rest

/-! ### The request -/

def requestContext (context : Option ContextEnvelope) (agent : AgentState) : ContextEnvelope :=
  context.getD { messages := agent.messages, hostMessages := agent.hostMessages }

/-- `model_request`: the run must own the agent, which begins to stream. -/
def modelRequest (h : RunHandle) (runId : RunId) (st : LoopState)
    (context : Option ContextEnvelope) : Drive ModelRequest := do
  let claimed ← Future.section_ fun w =>
    if w.agent.phase.ownedBy runId then
      (.ok (requestContext context w.agent, w.agent.model, w.agent.thinkingLevel),
        { w with agent := { w.agent with isStreaming := true } })
    else (transitionError "agent" "not-running" "model_request", w)
  let claimed ← Future.ofExcept claimed
  let provided ← buildProviderContext h claimed.1
  pure {
    systemPrompt := h.configuration.systemPrompt, context := provided.context
    tools := h.configuration.definitions, model := st.modelOverride <|> claimed.2.1
    thinkingLevel := st.thinkingOverride.getD claimed.2.2 }

def emitContextEstimate (request : ModelRequest) (estimator : ContextEstimator) : Drive Unit := do
  let estimated ← Future.read fun w => estimator.estimate w.agent.messages
  let messages ← Future.read (·.agent.messages)
  emit (.contextEstimate (some estimated)
    (satAdd request.systemPrompt.utf8ByteSize request.context.utf8ByteSize) messages.length
    (estimateMessagesBytes messages) (estimateToolResultBytes messages))

def stream (request : ModelRequest) : Drive (Except SchedulerError Unit) :=
  Future.ask (Query.stream request)

def openStream (h : RunHandle) (request : ModelRequest) : Drive Unit :=
  if h.agent.hasProvider then do
    let opened ← stream request
    match opened with
    | .ok () => pure ()
    | .error error => .fail (.modelProvider error.display)
  else .fail .missingModelProvider

/-! ### Overflow recovery -/

/-- Whether the failed continuation may be retried, counting the retry. -/
def allowOverflowRetry (limit : Nat) (policy : RunPolicyState) : Bool × RunPolicyState :=
  if policy.overflowRetriedThisContinuation ∨ limit ≤ policy.overflowRetries then (false, policy)
  else (true, { policy with
    overflowRetries := satSucc32 policy.overflowRetries
    overflowRetriedThisContinuation := true })

/-- A response that is not an overflow ends the retried continuation. -/
def noteContinuation (contextOverflow : Bool) : Drive Unit :=
  whenever (!contextOverflow)
    (lockPolicy fun policy => ((), { policy with overflowRetriedThisContinuation := false }))

/-- Restore the transcript of the failed request. -/
def restoreTranscript (requestMessageCount : Nat) (agent : AgentState) : AgentState :=
  { agent with
    messages := agent.messages.take requestMessageCount
    partialResponse := none, isStreaming := false }

/-- Compact and retry after a provider overflow; the estimator of the retry. -/
def recoverOverflow (h : RunHandle) (estimator : ContextEstimator) (requestMessageCount : Nat)
    (contextOverflow : Bool) : Drive (Option ContextEstimator) :=
  let policy := h.agent.automaticCompaction
  if contextOverflow ∧ policy.enabled ∧ policy.overflowRecovery = .compactAndRetry then do
    let retryAllowed ← lockPolicy (allowOverflowRetry policy.maxOverflowRetriesPerRun.toNat)
    if retryAllowed then do
      modifyAgent (restoreTranscript requestMessageCount)
      let compacted ← maybeAutomaticCompaction h estimator .overflow true
      pure (some compacted.2)
    else do
      emit (.automaticCompactionEnd .overflow true .limitReached)
      pure none
  else pure none

/-! ### The ends of a turn -/

def emitAgentEndAndSucceed (h : RunHandle) (reason : StopReason) : Drive Unit := do
  emitAgentEnd h
  succeed reason

def failureText (reason : StopReason) (errorMessage : Option String) : String :=
  errorMessage.getD (if reason = .aborted then "model response was aborted"
    else "model response failed")

/-- The model failed or aborted its response. -/
def failModelResponse (h : RunHandle) (turnId : TurnId) (reason : StopReason)
    (errorMessage : Option String) : Drive (Option LoopState) := do
  emit (.turnEnd turnId reason)
  emitAgentEnd h
  let message := failureText reason errorMessage
  if reason = .aborted then do
    let cancelled ← isCancelled
    if cancelled then do
      finish .cancelled .aborted none
      .fail .cancelled
    else do
      fail message
      .fail (.modelAborted message)
  else do
    fail message
    .fail (.modelError message)

/-- The model ended its response as cancelled. -/
def cancelModelResponse (h : RunHandle) (turnId : TurnId) : Drive (Option LoopState) := do
  emit (.turnEnd turnId .cancelled)
  emitAgentEnd h
  finish .cancelled .cancelled none
  .fail .cancelled

def tripCircuitBreaker (h : RunHandle) (turnId : TurnId) (message : String) :
    Drive (Option LoopState) := do
  emit (.providerRequestSkipped .toolCircuitBreaker)
  emit (.turnEnd turnId .error)
  emitAgentEnd h
  let error := CoreError.toolCircuitBreaker message
  fail error.display
  .fail error

/-- `{reason:?}` -/
def StopReason.debug : StopReason → String
  | .stop => "Stop"
  | .toolUse => "ToolUse"
  | .length => "Length"
  | .aborted => "Aborted"
  | .cancelled => "Cancelled"
  | .error => "Error"

def executeBatch (h : RunHandle) (fuel : Nat) (reason : StopReason)
    (toolCalls : List AgentToolCall) : Drive ToolBatchOutcome :=
  if toolCalls = [] then pure {}
  else if reason = .length then do
    failTruncatedToolCalls toolCalls
    pure {}
  else if reason ≠ .toolUse then
    .fail (.unsupportedModelStream ("assistant emitted tool calls with terminal reason " ++
      StopReason.debug reason ++ ", expected ToolUse"))
  else executeToolCalls h fuel toolCalls

/-! ### The boundary between two turns -/

def prepareNextTurn (context : ContextEnvelope) : Drive (Except HookError AgentLoopTurnUpdate) :=
  Future.ask (Query.prepareNextTurn context)

def shouldStopAfterTurn (context : ContextEnvelope) : Drive (Except HookError Bool) :=
  Future.ask (Query.shouldStopAfterTurn context)

/-- Poll the steering queue, and the follow-up queue where the run would end. -/
def pollQueues (hasMoreToolCalls : Bool) : Drive (List QueuedMessage) := do
  let queued ← drainSteering
  if !hasMoreToolCalls ∧ queued = [] then drainFollowUp else pure queued

def nextTurnId (turnId : TurnId) : TurnId := ⟨satSucc turnId.val⟩

/-- Begin the next turn where there is work for one, else end the run. -/
def nextTurn (h : RunHandle) (st : LoopState) (reason : StopReason) (hasMoreToolCalls : Bool)
    (preparedContext : ContextEnvelope) : Drive (Option LoopState) := do
  let queued ← pollQueues hasMoreToolCalls
  if hasMoreToolCalls ∨ queued ≠ [] then do
    let turnId := nextTurnId st.turnId
    advanceTurn turnId
    emit (.turnStart turnId)
    let context ← injectQueuedMessages preparedContext queued
    pure (some { st with turnId, nextContext := some context, completedAssistantTurn := true })
  else do
    emitAgentEndAndSucceed h reason
    pure none

/-- The hooks after a turn. -/
def finishTurn (h : RunHandle) (st : LoopState) (reason : StopReason) (hasMoreToolCalls : Bool) :
    Drive (Option LoopState) := do
  let current ← currentContext
  let update ← prepareNextTurn current
  let update ← ofHook update
  let preparedContext := update.context.getD current
  let st := { st with
    modelOverride := update.model <|> st.modelOverride
    thinkingOverride := update.thinkingLevel <|> st.thinkingOverride }
  let stop ← shouldStopAfterTurn preparedContext
  let stop ← ofHook stop
  if stop then do
    emitAgentEndAndSucceed h reason
    pure none
  else nextTurn h st reason hasMoreToolCalls preparedContext

def completeTurn (h : RunHandle) (fuel : Nat) (st : LoopState) (reason : StopReason)
    (toolCalls : List AgentToolCall) : Drive (Option LoopState) := do
  let toolBatch ← executeBatch h fuel reason toolCalls
  match toolBatch.terminalFailure with
  | some message => tripCircuitBreaker h st.turnId message
  | none => do
      emit (.turnEnd st.turnId reason)
      finishTurn h st reason (toolCalls ≠ [] && !toolBatch.allTerminate)

/-- What follows a response that is not retried. -/
def afterResponse (h : RunHandle) (fuel : Nat) (st : LoopState) (response : ConsumedResponse) :
    Drive (Option LoopState) :=
  if response.reason = .error ∨ response.reason = .aborted then
    failModelResponse h st.turnId response.reason response.errorMessage
  else if response.reason = .cancelled then do
    let cancelled ← isCancelled
    if cancelled then cancelModelResponse h st.turnId
    else completeTurn h fuel st response.reason response.toolCalls
  else completeTurn h fuel st response.reason response.toolCalls

/-! ### The loop -/

/-- A compaction at the boundary before a request, after a completed turn. -/
def thresholdCompaction (h : RunHandle) (st : LoopState) : Drive LoopState :=
  if st.completedAssistantTurn then do
    let compacted ← maybeAutomaticCompaction h st.estimator .threshold false
    pure { st with
      estimator := compacted.2
      nextContext := if compacted.1 then none else st.nextContext }
  else pure st

def turn (h : RunHandle) (fuel : Nat) (runId : RunId) (st : LoopState) :
    Drive (Option LoopState) := do
  let st ← thresholdCompaction h st
  let requestMessageCount ← Future.read (·.agent.messages.length)
  let request ← modelRequest h runId st st.nextContext
  whenever h.agent.automaticCompaction.enabled (emitContextEstimate request st.estimator)
  openStream h request
  let response ← consumeAssistantStream fuel st.turnId request.model
  let estimator := st.estimator.observeValidInput response.validInputTokens requestMessageCount
  noteContinuation response.contextOverflow
  let retried ← recoverOverflow h estimator requestMessageCount response.contextOverflow
  match retried with
  | some estimator =>
      pure (some { st with estimator, nextContext := none, completedAssistantTurn := false })
  | none => afterResponse h fuel { st with estimator } response

def driveLoop (h : RunHandle) (fuel : Nat) (runId : RunId) : Nat → LoopState → Drive Unit
  | 0, _ => exhausted
  | n + 1, st => do
      let next ← turn h fuel runId st
      match next with
      | some st => driveLoop h fuel runId n st
      | none => pure ()

def announceAll : List AgentMessage → Drive Unit
  | [] => pure ()
  | message :: rest => do
      announce message
      announceAll rest

/-- The first poll of the steering queue. -/
def initialSteering (h : RunHandle) : Drive (Option ContextEnvelope) :=
  if h.skipInitialSteering then pure none
  else do
    let context ← currentContext
    let queued ← drainSteering
    let context ← injectQueuedMessages context queued
    pure (some context)

/-- `drive_inner` once it holds the agent. -/
def driveHeld (h : RunHandle) (fuel : Nat) : Drive Unit := do
  let runId ← Future.read (·.run.id)
  startTurn ⟨1⟩
  let owned ← Future.read fun w => w.agent.phase.ownedBy runId
  if owned then do
    emit .agentStart
    emit (.turnStart ⟨1⟩)
    announceAll h.initialMessages
    let nextContext ← initialSteering h
    driveLoop h fuel runId fuel { nextContext }
  else .ofExcept (transitionError "agent" "not-running" "drive")

def driveInner (h : RunHandle) (fuel : Nat) : Drive Unit := do
  let held ← Future.read (·.held)
  if held then driveHeld h fuel else .ofExcept (transitionError "run" "orphaned" "drive")

/-- Look at the run's phase after its loop returned an error; a run that is not
    terminal is settled from here on. -/
def leaveLoop : Drive RunPhase :=
  .section_ fun w => (w.run.phase, { w with settling := w.settling || !w.run.phase.isTerminal })

/-- `RunHandle::drive` -/
def drive (h : RunHandle) (fuel : Nat) : Drive Unit := do
  let result ← (driveInner h fuel).attempt
  match result with
  | .ok () => pure ()
  | .error error => do
      let phase ← leaveLoop
      if phase.isTerminal then .fail error
      else do
        settle h error
        .fail error

end Tea.Run
