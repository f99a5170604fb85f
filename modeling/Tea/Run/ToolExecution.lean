/-
  Tea/Run/ToolExecution.lean
  ==========================
  **Tool preparation, execution, update delivery and result insertion**
  (`run/tool_execution.rs` and the two schedulers of `run/mod.rs`).

  A tool future is polled by the query `pollTool`; a poll of the scheduler that
  returns `Pending` is the query `wake`, after which the scheduler is polled again.
-/
import Tea.Run.Stream

namespace Tea.Run

open Tea.Async Tea.Core

/-! ### Tool results -/

def errorToolResult (call : ToolCall) (content : String) : AgentToolResult where
  toolCallId := call.id
  content := content
  isError := true
  failure := some .recoverableFailure

def toolErrorMessage : ToolError → String
  | .invalidArguments _ message => message
  | .execution _ message => message
  | .classified _ message _ => message
  | .blocked _ reason => reason
  | .cancelled _ => "Operation aborted"

def errorToolResultFromError (call : ToolCall) (error : ToolError) : AgentToolResult :=
  let failure := match error with
    | .invalidArguments .. => ToolFailure.invalidArgumentsFailure
    | .classified _ _ failure => failure
    | .cancelled _ => .cancelledFailure
    | _ => .recoverableFailure
  { errorToolResult call (toolErrorMessage error) with failure := some failure }

/-- The result of a call that the cancelled run did not finish. -/
def abortedToolResult (call : ToolCall) : AgentToolResult :=
  { errorToolResult call "Operation aborted" with failure := some .cancelledFailure }

def replaced {α : Type} (current : α) : Replacement α → α
  | .keep => current
  | .replace value => value

def applyAfterToolCall (result : AgentToolResult) (after : AfterToolCall) : AgentToolResult :=
  let failure := match after.isError with
    | .replace false => none
    | _ => result.failure
  { result with
    content := replaced result.content after.content
    details := replaced result.details after.details
    usage := match after.usage with
      | .keep => result.usage
      | .replace usage => some usage
    addedToolNames := replaced result.addedToolNames after.addedToolNames
    terminate := after.terminate.getD result.terminate
    isError := replaced result.isError after.isError
    failure := replaced failure after.failure }

/-- An error always carries a failure, and only an error does. -/
def normalizeResultFailure (result : AgentToolResult) : AgentToolResult :=
  if result.isError then { result with failure := result.failure <|> some .recoverableFailure }
  else { result with failure := none }

/-! ### Recording -/

def insertPendingToolCall (id : ToolCallId) : Drive Unit :=
  modifyAgent fun agent =>
    if id ∈ agent.pendingToolCalls then agent
    else { agent with pendingToolCalls := agent.pendingToolCalls ++ [id] }

def emitToolExecutionStart (call : ToolCall) : Drive Unit := do
  insertPendingToolCall call.id
  emit (.toolExecutionStart call.id call.name call.arguments)

def emitToolExecutionEnd (call : ToolCall) (result : AgentToolResult) : Drive Unit := do
  modifyAgent fun agent =>
    { agent with pendingToolCalls := agent.pendingToolCalls.filter (· ≠ call.id) }
  emit (.toolExecutionEnd call.id call.name result)

def toolResultMessage (call : ToolCall) (result : AgentToolResult) (id : MessageId) :
    AgentMessage :=
  .toolResult id call.id call.name result.content result.details result.usage
    result.addedToolNames result.terminate result.isError result.failure

def appendToolResultMessage (call : ToolCall) (result : AgentToolResult) : Drive Unit := do
  let message ← pushMessage (toolResultMessage call result)
  announce message

def emitToolUpdates : List PendingToolUpdate → Drive Unit
  | [] => pure ()
  | update :: rest => do
      emit (.toolExecutionUpdate update.toolCallId update.toolName update.update)
      emitToolUpdates rest

/-! ### The update queue -/

def resetUpdates : Drive Unit := .modify fun w => { w with updates := {} }

def takeUpdates : Drive (Option (List PendingToolUpdate)) :=
  .section_ fun w => (w.updates.take.1, { w with updates := w.updates.take.2 })

def closeUpdates (id : ToolCallId) : Drive Unit :=
  .modify fun w => { w with updates := w.updates.close id }

/-- Flush the callbacks that raced with an awaited hook or observer. -/
def flushToolUpdates : Nat → Drive Unit
  | 0 => exhausted
  | fuel + 1 => do
      let updates ← takeUpdates
      match updates with
      | some updates => do
          emitToolUpdates updates
          flushToolUpdates fuel
      | none => pure ()

/-! ### Preparation and completion of one call -/

inductive PreparedToolCall where
  | immediate (result : AgentToolResult) (terminate : Bool)
  | execute

def beforeToolCall (call : ToolCall) (context : ContextEnvelope) :
    Drive (Except HookError BeforeToolCall) :=
  Future.ask (Query.beforeToolCall call context)

def afterToolCall (call : ToolCall) (result : AgentToolResult) (context : ContextEnvelope) :
    Drive (Except HookError AfterToolCall) :=
  Future.ask (Query.afterToolCall call result context)

def prepareToolCall (h : RunHandle) (call : ToolCall) : Drive PreparedToolCall :=
  match h.configuration.tool call.name with
  | none => pure (.immediate (errorToolResult call ("Tool " ++ call.name ++ " not found")) false)
  | some tool =>
      match tool.validate call.arguments with
      | .error error => pure (.immediate (errorToolResultFromError call error) false)
      | .ok () => do
          let context ← currentContext
          let decision ← beforeToolCall call context
          match decision with
          | .ok (.block reason) => pure (.immediate (errorToolResult call reason) false)
          | .ok (.terminate reason) => pure (.immediate (errorToolResult call reason) true)
          | .error error => pure (.immediate (errorToolResult call error.message) false)
          | .ok .allow => do
              let cancelled ← isCancelled
              if cancelled then pure (.immediate (abortedToolResult call) false)
              else pure .execute

/-- Create the tool's future; the tool may use the update sink from now on. -/
def startToolFuture (call : ToolCall) : Drive Unit := do
  Future.modify fun w =>
    { w with updates := { w.updates with sinks := w.updates.sinks ++ [(call.id, call.name)] } }
  Future.ask (Query.executeTool call)

def pollTool (call : ToolCall) : Drive (Option (Except ToolError AgentToolResult)) :=
  Future.ask (Query.pollTool call)

def executionResult (call : ToolCall) : Except ToolError AgentToolResult → AgentToolResult
  | .ok result =>
      if result.toolCallId = call.id then result
      else errorToolResult call ("Tool " ++ call.name ++ " returned mismatched tool-call ID " ++
        result.toolCallId.text)
  | .error error => errorToolResultFromError call error

def finalizeExecutedTool (call : ToolCall) (execution : Except ToolError AgentToolResult) :
    Drive (AgentToolResult × Bool) := do
  let result := executionResult call execution
  let context ← currentContext
  let after ← afterToolCall call result context
  match after with
  | .ok after => do
      let result := applyAfterToolCall result after
      pure (result, result.terminate)
  | .error error => pure (errorToolResult call error.message, false)

/-! ### The sequential scheduler -/

inductive ToolStep where
  | updates (updates : List PendingToolUpdate)
  | completed (result : Except ToolError AgentToolResult) (updates : List PendingToolUpdate)

def cancelledOperation : Except ToolError AgentToolResult :=
  .error (.cancelled "cancelled operation")

/-- Close the call's sink and complete the step with the updates still queued. -/
def completeStep (call : ToolCall) (result : Except ToolError AgentToolResult) :
    Drive ToolStep := do
  closeUpdates call.id
  let updates ← takeUpdates
  pure (.completed result (updates.getD []))

/-- `next_tool_step`: poll one sequential tool until its callback queue has work or
    its future settles. -/
def nextToolStep : Nat → ToolCall → Bool → Drive ToolStep
  | 0, _, _ => exhausted
  | fuel + 1, call, allowOnePoll => do
      let cancelled ← isCancelled
      if cancelled && !allowOnePoll then completeStep call cancelledOperation
      else
        let updates ← takeUpdates
        match updates with
        | some updates => pure (.updates updates)
        | none => do
            -- the wakers are registered here, and both conditions are looked at again
            let updates ← takeUpdates
            match updates with
            | some updates => pure (.updates updates)
            | none => do
                let cancelled ← isCancelled
                if cancelled && !allowOnePoll then completeStep call cancelledOperation
                else
                  let polled ← pollTool call
                  match polled with
                  | some result => completeStep call result
                  | none => do
                      let updates ← takeUpdates
                      match updates with
                      | some updates => pure (.updates updates)
                      | none => do
                          let cancelled ← isCancelled
                          if cancelled then do
                            closeUpdates call.id
                            pure (.completed cancelledOperation [])
                          else do
                            Future.ask Query.wake
                            nextToolStep fuel call allowOnePoll

def runTool (fuel : Nat) : Nat → ToolCall → Bool → Drive (Except ToolError AgentToolResult)
  | 0, _, _ => exhausted
  | n + 1, call, allowOnePoll => do
      let step ← nextToolStep fuel call allowOnePoll
      match step with
      | .updates updates => do
          emitToolUpdates updates
          let cancelled ← isCancelled
          runTool fuel n call cancelled
      | .completed result updates => do
          emitToolUpdates updates
          pure result

def executeOneToolCall (h : RunHandle) (fuel : Nat) (call : ToolCall) :
    Drive (AgentToolResult × Bool) := do
  let preparation ← prepareToolCall h call
  match preparation with
  | .immediate result terminate => pure (result, terminate)
  | .execute => do
      resetUpdates
      startToolFuture call
      let cancelled ← isCancelled
      let hasUpdates ← Future.read fun w => decide (w.updates.updates ≠ [])
      let execution ← runTool fuel fuel call (cancelled && hasUpdates)
      flushToolUpdates fuel
      finalizeExecutedTool call execution

/-! ### The failure circuit breaker -/

structure ToolBatchOutcome where
  allTerminate : Bool := false
  /-- The message of the terminal tool failure. -/
  terminalFailure : Option String := none
deriving DecidableEq

/-- `saturating_add(1)` on a `u32` counter. -/
def satSucc32 (n : Nat) : Nat := min (n + 1) 4294967295

/-- Count a failure; the second component says whether it is terminal. -/
def observeFailureStreak (limit : Option Nat) (failure : ToolFailure) (policy : RunPolicyState) :
    (Nat × Bool) × RunPolicyState :=
  match failure.disposition, failure.signature with
  | .retryable, some signature =>
      let count := match policy.failureStreak with
        | some (previous, count) => if previous = signature then satSucc32 count else 1
        | none => 1
      let tripped := match limit with
        | some limit => decide (limit ≤ count)
        | none => false
      ((count, tripped), { policy with failureStreak := some (signature, count) })
  | .fatal, some signature =>
      ((1, true), { policy with failureStreak := some (signature, 1) })
  | _, _ => ((0, false), { policy with failureStreak := none })

def observeToolFailure (h : RunHandle) (call : ToolCall) (result : AgentToolResult) :
    Drive (Option String) := do
  let cancelled ← isCancelled
  if cancelled then pure none
  else if !result.isError then do
    lockPolicy fun policy => ((), { policy with failureStreak := none })
    pure none
  else do
    let failure := result.failure.getD .recoverableFailure
    let limit := h.agent.toolFailureCircuitBreaker.maxConsecutiveRetryableFailures
    let message := truncateMiddle (failure.recoveryGuidance.getD result.content) 1024
    let observed ← lockPolicy (observeFailureStreak limit failure)
    let observe := failure.disposition = .retryable ∨ failure.disposition = .fatal ∨ limit.isSome
    whenever observe (emit (.toolFailureObserved call.id failure.disposition
      (failure.signature.map (·.text)) observed.1 observed.2 message))
    pure (if observed.2 then some message else none)

/-! ### The sequential executor -/

def appendSkippedSequentialCalls (terminalMessage : String) : List AgentToolCall → Drive Unit
  | [] => pure ()
  | call :: rest => do
      let result := errorToolResult call
        ("Tool call was not executed after terminal capability failure: " ++
          truncateMiddle terminalMessage 512)
      appendToolResultMessage call { result with failure := some .recoverableFailure }
      appendSkippedSequentialCalls terminalMessage rest

def executeToolCallsSequential (h : RunHandle) (fuel : Nat) :
    List AgentToolCall → Bool → Drive ToolBatchOutcome
  | [], allTerminate => pure { allTerminate }
  | call :: rest, allTerminate => do
      emitToolExecutionStart call
      let executed ← executeOneToolCall h fuel call
      let result := normalizeResultFailure executed.1
      emitToolExecutionEnd call result
      appendToolResultMessage call result
      let terminalFailure ← observeToolFailure h call result
      match terminalFailure with
      | some message => do
          appendSkippedSequentialCalls message rest
          pure { allTerminate := false, terminalFailure := some message }
      | none => executeToolCallsSequential h fuel rest (allTerminate && executed.2)

/-! ### The parallel scheduler -/

structure PreparedToolExecution where
  sourceIndex : Nat
  call : ToolCall
  preparation : PreparedToolCall

structure PendingToolExecution where
  sourceIndex : Nat
  call : ToolCall

inductive ParallelToolStep where
  | cancelled (updates : List PendingToolUpdate)
  | updates (updates : List PendingToolUpdate)
  | completed (execution : PendingToolExecution) (result : Except ToolError AgentToolResult)
      (updates : List PendingToolUpdate)

/-- `Vec::swap_remove`: the last element takes the place of the removed one. -/
def swapRemove {α : Type} (items : List α) (index : Nat) : List α :=
  match items.getLast? with
  | none => []
  | some last => if index + 1 = items.length then items.dropLast else (items.set index last).dropLast

/-- The polling loop of `next_parallel_step` over the futures from `index` on.  Under
    cancellation only the allowed calls are polled, each once. -/
def pollPending : List PendingToolExecution → Nat → List ToolCallId →
    Drive (Option (Nat × ParallelToolStep) × List ToolCallId)
  | [], _, allowed => pure (none, allowed)
  | pending :: rest, index, allowed => do
      let cancelled ← isCancelled
      if cancelled && !allowed.contains pending.call.id then pollPending rest (index + 1) allowed
      else
        let allowed := if cancelled then allowed.filter (· ≠ pending.call.id) else allowed
        let polled ← pollTool pending.call
        match polled with
        | some result => do
            closeUpdates pending.call.id
            let updates ← takeUpdates
            pure (some (index, .completed pending result (updates.getD [])), allowed)
        | none => do
            let updates ← takeUpdates
            match updates with
            | some updates => pure (some (index, .updates updates), allowed)
            | none => pollPending rest (index + 1) allowed

/-- What one call of `next_parallel_step` leaves behind. -/
structure ParallelState where
  step : ParallelToolStep
  pending : List PendingToolExecution
  allowed : List ToolCallId

/-- `next_parallel_step`: poll one batch until its callback queue has work or one
    tool settles. -/
def nextParallelStep : Nat → List PendingToolExecution → List ToolCallId → Drive ParallelState
  | 0, _, _ => exhausted
  | fuel + 1, pending, allowed => do
      let updates ← takeUpdates
      match updates with
      | some updates => pure ⟨.updates updates, pending, allowed⟩
      | none => do
          let cancelled ← isCancelled
          if cancelled && allowed.isEmpty then pure ⟨.cancelled [], pending, allowed⟩
          else
            let updates ← takeUpdates
            match updates with
            | some updates => pure ⟨.updates updates, pending, allowed⟩
            | none => do
                let cancelled ← isCancelled
                if cancelled && allowed.isEmpty then do
                  let updates ← takeUpdates
                  pure ⟨.cancelled (updates.getD []), pending, allowed⟩
                else
                  let polled ← pollPending pending 0 allowed
                  match polled with
                  | (some (index, .completed execution result updates), allowed) =>
                      pure ⟨.completed execution result updates, swapRemove pending index, allowed⟩
                  | (some (_, step), allowed) => pure ⟨step, pending, allowed⟩
                  | (none, allowed) => do
                      let cancelled ← isCancelled
                      let updates ← takeUpdates
                      if cancelled then pure ⟨.cancelled (updates.getD []), pending, allowed⟩
                      else
                        match updates with
                        | some updates => pure ⟨.updates updates, pending, allowed⟩
                        | none => do
                            Future.ask Query.wake
                            nextParallelStep fuel pending allowed

/-! ### The parallel executor -/

/-- One slot for each call of the batch: its result and termination hint. -/
abbrev Completions : Type := List (Option (AgentToolResult × Bool))

def recordImmediate (call : ToolCall) (sourceIndex : Nat) (completions : Completions) :
    PreparedToolCall → Drive Completions
  | .execute => pure completions
  | .immediate result terminate => do
      let result := normalizeResultFailure result
      emitToolExecutionEnd call result
      pure (completions.set sourceIndex (some (result, terminate)))

/-- Announce and prepare the calls in source order. -/
def prepareBatch (h : RunHandle) : List AgentToolCall → Nat → Completions →
    Drive (List PreparedToolExecution × Completions)
  | [], _, completions => pure ([], completions)
  | call :: rest, sourceIndex, completions => do
      emitToolExecutionStart call
      let preparation ← prepareToolCall h call
      let completions ← recordImmediate call sourceIndex completions preparation
      let prepared ← prepareBatch h rest (sourceIndex + 1) completions
      pure ({ sourceIndex, call, preparation } :: prepared.1, prepared.2)

/-- Start the futures of the calls that were prepared for execution. -/
def startBatch : List PreparedToolExecution → Drive (List PendingToolExecution)
  | [] => pure []
  | { sourceIndex, call, preparation := .execute } :: rest => do
      startToolFuture call
      let pending ← startBatch rest
      pure ({ sourceIndex, call } :: pending)
  | _ :: rest => startBatch rest

/-- The cancelled batch: every pending future is dropped with an aborted result. -/
def abortPending : List PendingToolExecution → Completions → Drive Completions
  | [], completions => pure completions
  | pending :: rest, completions => do
      closeUpdates pending.call.id
      let result := abortedToolResult pending.call
      emitToolExecutionEnd pending.call result
      abortPending rest (completions.set pending.sourceIndex (some (result, false)))

def finalizeSibling (call : ToolCall) :
    Option (Except ToolError AgentToolResult) → Drive (AgentToolResult × Bool)
  | some execution => finalizeExecutedTool call execution
  | none => pure (abortedToolResult call, false)

/-- An update requested cancellation: the sibling calls are polled once and settled,
    the calls of the update keep running. -/
def settleSiblings (fuel : Nat) (updateCallIds : List ToolCallId) :
    List PendingToolExecution → Completions → Drive (List PendingToolExecution × Completions)
  | [], completions => pure ([], completions)
  | pending :: rest, completions =>
      if updateCallIds.contains pending.call.id then do
        let settled ← settleSiblings fuel updateCallIds rest completions
        pure (pending :: settled.1, settled.2)
      else do
        let execution ← pollTool pending.call
        closeUpdates pending.call.id
        flushToolUpdates fuel
        let finalized ← finalizeSibling pending.call execution
        emitToolExecutionEnd pending.call finalized.1
        settleSiblings fuel updateCallIds rest
          (completions.set pending.sourceIndex (some finalized))

/-- `BTreeSet::extend` -/
def extendAllowed (allowed ids : List ToolCallId) : List ToolCallId :=
  allowed ++ ids.filter (· ∉ allowed)

def runBatch (fuel : Nat) : Nat → List PendingToolExecution → List ToolCallId → Completions →
    Drive Completions
  | _, [], _, completions => pure completions
  | 0, _ :: _, _, _ => exhausted
  | n + 1, pending, allowed, completions => do
      let state ← nextParallelStep fuel pending allowed
      match state.step with
      | .cancelled updates => do
          emitToolUpdates updates
          abortPending state.pending completions
      | .updates updates => do
          emitToolUpdates updates
          let cancelled ← isCancelled
          if cancelled then do
            let settled ← settleSiblings fuel (updates.map (·.toolCallId)) state.pending completions
            runBatch fuel n settled.1
              (extendAllowed state.allowed (settled.1.map (·.call.id))) settled.2
          else runBatch fuel n state.pending state.allowed completions
      | .completed execution result updates => do
          emitToolUpdates updates
          let finalized ← finalizeExecutedTool execution.call result
          flushToolUpdates fuel
          emitToolExecutionEnd execution.call finalized.1
          runBatch fuel n state.pending state.allowed
            (completions.set execution.sourceIndex (some finalized))

/-- Append the results in source order once every completion is known. -/
def recordBatch (h : RunHandle) : List PreparedToolExecution → Completions → Bool →
    Option String → Drive ToolBatchOutcome
  | [], _, allTerminate, terminalFailure => pure { allTerminate, terminalFailure }
  | prepared :: rest, completions, allTerminate, terminalFailure =>
      match completions[prepared.sourceIndex]? with
      | some (some (result, terminate)) => do
          let result := normalizeResultFailure result
          appendToolResultMessage prepared.call result
          let observed ← observeToolFailure h prepared.call result
          recordBatch h rest (completions.set prepared.sourceIndex none)
            (allTerminate && terminate) (terminalFailure <|> observed)
      | _ => panicked

def executeToolCallsParallel (h : RunHandle) (fuel : Nat) (toolCalls : List AgentToolCall) :
    Drive ToolBatchOutcome := do
  resetUpdates
  let prepared ← prepareBatch h toolCalls 0 (List.replicate toolCalls.length none)
  let pending ← startBatch prepared.1
  let completions ← runBatch fuel fuel pending [] prepared.2
  recordBatch h prepared.1 completions true none

/-- One sequential tool makes the whole batch sequential. -/
def hasSequentialTool (h : RunHandle) (toolCalls : List AgentToolCall) : Bool :=
  toolCalls.any fun call =>
    match h.configuration.tool call.name with
    | some tool => tool.definition.executionMode = .sequential
    | none => false

def executeToolCalls (h : RunHandle) (fuel : Nat) (toolCalls : List AgentToolCall) :
    Drive ToolBatchOutcome :=
  if hasSequentialTool h toolCalls then executeToolCallsSequential h fuel toolCalls true
  else executeToolCallsParallel h fuel toolCalls

/-- Refuse the tool calls of a length-truncated response. -/
def failTruncatedToolCalls : List AgentToolCall → Drive Unit
  | [] => pure ()
  | call :: rest => do
      emitToolExecutionStart call
      let result := errorToolResult call ("Tool call \"" ++ call.name ++
        "\" was not executed: the response hit the output token limit, so its arguments may be " ++
        "truncated. Re-issue the tool call with complete arguments.")
      emitToolExecutionEnd call result
      appendToolResultMessage call result
      failTruncatedToolCalls rest

end Tea.Run
