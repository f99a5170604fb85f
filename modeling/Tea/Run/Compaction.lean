/-
  Tea/Run/Compaction.lean
  =======================
  **Compaction transactions**: the automatic one at a request boundary
  (`maybe_automatic_compaction`) and the explicit one driven by its own handle
  (`CompactionHandle::drive` of `compaction.rs`).
-/
import Tea.Run.ToolExecution

namespace Tea.Run

open Tea.Async Tea.Core

/-- The `?` operator on a hook's result. -/
def ofHook {α : Type} : Except HookError α → Drive α
  | .ok value => .done value
  | .error error => .fail (.hook error)

def transformContext (context : ContextEnvelope) : Drive (Except HookError ContextEnvelope) :=
  Future.ask (Query.transformContext context)

def convertToLlm (context : ContextEnvelope) : Drive (Except HookError String) :=
  Future.ask (Query.convertToLlm context)

/-- `build_provider_context`: project, transform, convert. -/
def buildProviderContext (h : RunHandle) (context : ContextEnvelope) : Drive ProviderContext := do
  let transformed ← transformContext (projectModelContext h.agent.toolResultProjection context)
  let transformed ← ofHook transformed
  let converted ← convertToLlm transformed
  let converted ← ofHook converted
  pure {
    systemPrompt := h.configuration.systemPrompt, context := converted
    activeContext := none, tools := h.configuration.definitions }

/-! ### Commit -/

def snapshotContext (agent : AgentState) : CompactionContext where
  systemPrompt := agent.systemPrompt
  model := agent.model
  messages := agent.messages
  hostMessages := agent.hostMessages

/-- `commit_replacement`: only the uncancelled owner of the agent may commit. -/
def commitReplacement (replacement : List AgentMessage) : Drive (Except CoreError Unit) :=
  .section_ fun w =>
    if w.cancelled then (.error .cancelled, w)
    else if w.agent.phase ≠ .running w.run.id then (.error .cancelled, w)
    else (.ok (), { w with agent := w.agent.replaceMessages replacement })

/-! ### Automatic compaction -/

/-- The ends that report a failure of the transaction. -/
def cancelCompaction {α : Type} (reason : AutomaticCompactionReason) (retry : Bool) : Drive α := do
  lockPolicy fun policy => ((), { policy with compactionCancelled := true })
  emit (.automaticCompactionEnd reason retry .cancelled)
  .fail .cancelled

def rejectCompaction {α : Type} (reason : AutomaticCompactionReason) (retry : Bool)
    (message : String) : Drive α := do
  emit (.automaticCompactionEnd reason retry (.failed message))
  .fail (.automaticCompaction reason message)

/-- A hook or the compactor failed: a cancelled run reports the cancellation. -/
def failCompaction {α : Type} (reason : AutomaticCompactionReason) (retry : Bool)
    (error : String) : Drive α := do
  let cancelled ← isCancelled
  if cancelled then cancelCompaction reason retry
  else rejectCompaction reason retry (truncateMiddle error 1024)

/-- The provider context of the source messages, with the complete active one. -/
def compactionProviderContext (h : RunHandle) (context : CompactionContext)
    (sourceMessages : List AgentMessage) : Drive ProviderContext := do
  let source ← buildProviderContext h
    { version := context.version, messages := sourceMessages, hostMessages := context.hostMessages }
  let active ← buildProviderContext h
    { version := context.version, messages := context.messages
      hostMessages := context.hostMessages }
  pure { source with activeContext := some active.context }

def compactAutomatic (context : CompactionContext) (request : AutomaticCompactionRequest) :
    Drive (Except CompactionError CompactionResult) :=
  Future.ask (Query.compactAutomatic context request)

/-- Reserve one of the run's compactions: its number, or the limit reached. -/
def reserveCompaction (limit : Nat) (policy : RunPolicyState) :
    (Nat × Bool) × RunPolicyState :=
  if limit ≤ policy.automaticCompactions then ((policy.automaticCompactions, true), policy)
  else
    let count := satSucc32 policy.automaticCompactions
    ((count, false), { policy with automaticCompactions := count })

/-- The end of a committed transaction. -/
def finishCompaction (h : RunHandle) (reason : AutomaticCompactionReason) (retry : Bool) :
    Drive (Bool × ContextEstimator) := do
  let policy := h.agent.automaticCompaction
  let estimator : ContextEstimator := {}
  let estimatedTokensAfter ← Future.read fun w => estimator.estimate w.agent.messages
  let stillAbove := decide (policy.thresholdTokens ≤ estimatedTokensAfter)
  whenever stillAbove do
    let messageCount ← Future.read (·.agent.messages.length)
    lockPolicy fun policy =>
      ((), { policy with compactionBlockedMessageCount := some messageCount })
  emit (.automaticCompactionEnd reason retry
    (if stillAbove then .stillAboveThreshold else .succeeded (some estimatedTokensAfter)))
  pure (true, estimator)

/-- Check the replacement and commit it. -/
def commitAutomatic (h : RunHandle) (reason : AutomaticCompactionReason) (retry : Bool)
    (retained replacement : List AgentMessage) : Drive (Bool × ContextEstimator) := do
  let cancelled ← isCancelled
  if cancelled then cancelCompaction reason retry
  else
    match validateMessages replacement with
    | .error error => rejectCompaction reason retry (truncateMiddle error.display 1024)
    | .ok () =>
        if retained ≠ [] ∧ ¬ retained.isSuffixOf replacement then
          rejectCompaction reason retry
            "automatic compactor did not preserve the requested intact recent suffix"
        else do
          let committed ← commitReplacement replacement
          match committed with
          | .error _ => cancelCompaction reason retry
          | .ok () => finishCompaction h reason retry

/-- The transaction proper: snapshot, split, ask the compactor, commit. -/
def runCompaction (h : RunHandle) (reason : AutomaticCompactionReason) (retry : Bool)
    (estimatedTokensBefore : Nat) : Drive (Bool × ContextEstimator) := do
  let policy := h.agent.automaticCompaction
  let context ← Future.read fun w => snapshotContext w.agent
  let split := automaticCompactionSplit context.messages policy.recentTokens
  let provided ← (compactionProviderContext h context
    (split.prefixMessages ++ split.splitTurnPrefix)).attempt
  match provided with
  | .error error => failCompaction reason retry error.display
  | .ok providerContext => do
      let replaced ← compactAutomatic { context with providerContext := some providerContext } {
        reason, estimatedTokensBefore := some estimatedTokensBefore
        contextBudgetTokens := policy.contextBudget, reservedTokens := policy.reservedTokens
        recentTokens := policy.recentTokens, prefixMessages := split.prefixMessages
        retainedMessages := split.retainedMessages, splitTurnPrefix := split.splitTurnPrefix
        retryProviderRequest := retry }
      match replaced with
      | .error error => failCompaction reason retry error.display
      | .ok replacement => commitAutomatic h reason retry split.retainedMessages replacement.messages

/-- The transaction once it is due: the limit, the announcement, the compactor. -/
def beginCompaction (h : RunHandle) (reason : AutomaticCompactionReason) (retry : Bool)
    (estimatedTokensBefore sourceMessageCount : Nat) : Drive (Bool × ContextEstimator) := do
  let reserved ← lockPolicy (reserveCompaction h.agent.automaticCompaction.maxCompactionsPerRun.toNat)
  if reserved.2 then do
    emit (.automaticCompactionEnd reason retry .limitReached)
    .fail (.automaticCompaction reason "automatic compaction limit reached")
  else do
    emit (.automaticCompactionStart reason sourceMessageCount (some estimatedTokensBefore) retry
      reserved.1)
    emit (.providerRequestSkipped .automaticCompaction)
    if h.agent.hasCompactor then runCompaction h reason retry estimatedTokensBefore
    else do
      emit (.automaticCompactionEnd reason retry .unavailable)
      .fail (.automaticCompactionUnavailable reason)

/-- `maybe_automatic_compaction`: whether a replacement was committed, and the
    estimator after it. -/
def maybeAutomaticCompaction (h : RunHandle) (estimator : ContextEstimator)
    (reason : AutomaticCompactionReason) (retry : Bool) : Drive (Bool × ContextEstimator) := do
  let policy := h.agent.automaticCompaction
  if !policy.enabled then pure (false, estimator)
  else
    let estimatedTokensBefore ← Future.read fun w => estimator.estimate w.agent.messages
    if reason = .threshold ∧ estimatedTokensBefore < policy.thresholdTokens then
      pure (false, estimator)
    else
      let sourceMessageCount ← Future.read (·.agent.messages.length)
      let blocked ← Future.read (·.policy.compactionBlockedMessageCount)
      if reason = .threshold ∧ blocked = some sourceMessageCount then pure (false, estimator)
      else beginCompaction h reason retry estimatedTokensBefore sourceMessageCount

/-! ### Explicit compaction -/

def compact (context : CompactionContext) : Drive (Except CompactionError CompactionResult) :=
  Future.ask (Query.compact context)

/-- `settle_emit_failure` -/
def settleEmitFailure (error : CoreError) : Drive Unit := do
  ignore (fail error.display)
  .fail error

/-- Emit one event of the transaction; an observer's rejection settles the handle. -/
def emitCompaction (kind : AgentEventKind) (next : Drive Unit) : Drive Unit := do
  let emitted ← (emit kind).attempt
  match emitted with
  | .error error => settleEmitFailure error
  | .ok () => next

/-- `CompactionHandle::settle_failure` -/
def settleCompactionFailure (error : CompactionError) : Drive Unit :=
  emitCompaction (.compactionEnd (.failed error.display)) do
    ignore (fail error.display)
    .fail (.compaction error)

/-- `CompactionHandle::settle_cancelled` -/
def settleCompactionCancelled : Drive Unit :=
  emitCompaction (.compactionEnd .cancelled) do
    finish .cancelled .cancelled none
    .fail .cancelled

def commitCompaction (replacement : CompactionResult) : Drive Unit := do
  let retainedMessageCount := replacement.messages.length
  let committed ← commitReplacement replacement.messages
  match committed with
  | .error _ => settleCompactionCancelled
  | .ok () =>
      emitCompaction (.compactionResult retainedMessageCount replacement.usage)
        (emitCompaction (.compactionEnd (.succeeded retainedMessageCount)) (succeed .stop))

/-- Ask the compactor and look at its proposal. -/
def proposeCompaction : Drive Unit := do
  let cancelled ← isCancelled
  if cancelled then settleCompactionCancelled
  else
    let context ← Future.read fun w => snapshotContext w.agent
    let replaced ← compact context
    match replaced with
    | .error error => settleCompactionFailure error
    | .ok replacement => do
        let cancelled ← isCancelled
        if cancelled then settleCompactionCancelled
        else
          match validateMessages replacement.messages with
          | .error error => settleCompactionFailure error
          | .ok () => commitCompaction replacement

/-- `CompactionHandle::drive` -/
def driveCompaction : Drive Unit := do
  let held ← Future.read (·.held)
  if held then do
    let sourceMessageCount ← Future.read (·.agent.messages.length)
    emitCompaction (.compactionStart sourceMessageCount) proposeCompaction
  else .ofExcept (transitionError "compaction" "orphaned" "drive")

end Tea.Run
