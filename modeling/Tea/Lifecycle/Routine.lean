/-
  Tea/Lifecycle/Routine.lean
  ==========================
  **The routine parts of a run.**  An account of a run reads a few of its events: the
  ends of messages, the estimates, the usages, the ends of compactions and the observed
  tool failures.  Most parts of `drive` record none of them.  A class of critical sections
  that has the sections of these parts (`Admits`) has the parts themselves, one lemma
  for each; the other parts are within it as soon as it has their events, which are the
  hypotheses of their lemmas.
-/
import Tea.Lifecycle.Runs

namespace Tea.Lifecycle

open Tea.Async Tea.Core Tea.Run

/-! ### Classes of critical sections -/

/-- The events that no account of a run reads. -/
def isRoutine : AgentEventKind → Bool
  | .messageEnd _ => false
  | .modelTurnUsage _ => false
  | .contextEstimate .. => false
  | .automaticCompactionEnd .. => false
  | .toolFailureObserved .. => false
  | _ => true

/-- The state with one more event. -/
def noted (kind : AgentEventKind) (w : World) : World :=
  { w with run := (w.run.recordEvent kind).2 }

@[simp] theorem noted_kinds (kind : AgentEventKind) (w : World) :
    (noted kind w).run.kinds = w.run.kinds ++ [kind] := RunState.recordEvent_kinds _ _

/-- No event is recorded, and neither the failure streak nor the token changes. -/
structure Unnoted (w w' : World) : Prop where
  kinds : w'.run.kinds = w.run.kinds
  streak : w'.policy.failureStreak = w.policy.failureStreak
  cancelled : w'.cancelled = w.cancelled

/-- The class has the critical sections of the routine parts. -/
structure Admits (C : World → World → Prop) : Prop where
  quiet : ∀ w w', Unnoted w w' → w'.agent.messages = w.agent.messages → C w w'
  note : ∀ w kind, isRoutine kind = true → C w (noted kind w)

/-- The class has the extensions of the transcript by one message. -/
def HasAppends (C : World → World → Prop) : Prop :=
  ∀ w w' message, Unnoted w w' → w'.agent.messages = w.agent.messages ++ [message] → C w w'

/-- The class has the announcements of the ends of automatic compactions. -/
def HasEnds (C : World → World → Prop) : Prop :=
  ∀ reason retry outcome w, C w (noted (.automaticCompactionEnd reason retry outcome) w)

/-- The class has the replacements of the transcript. -/
def HasRewrites (C : World → World → Prop) : Prop := ∀ w w', Unnoted w w' → C w w'

/-- The class has the announcements of user messages. -/
def HasUsers (C : World → World → Prop) : Prop :=
  ∀ id content w, C w (noted (.messageEnd (.user id content)) w)

/-- The class has the announcement of every message. -/
def HasMessages (C : World → World → Prop) : Prop :=
  ∀ message w, C w (noted (.messageEnd message) w)

variable {C : World → World → Prop} {h : RunHandle} {α : Type}

namespace Admits

theorem refl (hC : Admits C) (w : World) : C w w := hC.quiet w w ⟨rfl, rfl, rfl⟩ rfl

/-! ### Critical sections -/

theorem read_within (hC : Admits C) (f : World → α) : (Future.read f : Drive α).Within C :=
  Future.Within.read hC.refl

theorem isCancelled_within (hC : Admits C) : isCancelled.Within C := hC.read_within _

theorem section_within (hC : Admits C) {f : World → α × World}
    (hunnoted : ∀ w, Unnoted w (f w).2)
    (hmessages : ∀ w, (f w).2.agent.messages = w.agent.messages) :
    (Future.section_ f : Drive α).Within C :=
  Future.Within.section_ fun w => hC.quiet w _ (hunnoted w) (hmessages w)

theorem modify_within (hC : Admits C) {f : World → World} (hunnoted : ∀ w, Unnoted w (f w))
    (hmessages : ∀ w, (f w).agent.messages = w.agent.messages) :
    (Future.modify f : Drive Unit).Within C :=
  Future.Within.modify fun w => hC.quiet w _ (hunnoted w) (hmessages w)

theorem modifyAgent_within (hC : Admits C) {f : AgentState → AgentState}
    (hmessages : ∀ agent, (f agent).messages = agent.messages) : (modifyAgent f).Within C :=
  hC.modify_within (fun _ => ⟨rfl, rfl, rfl⟩) fun w => hmessages w.agent

theorem lockPolicy_within (hC : Admits C) {f : RunPolicyState → α × RunPolicyState}
    (hstreak : ∀ policy, (f policy).2.failureStreak = policy.failureStreak) :
    (lockPolicy f).Within C :=
  hC.section_within (fun w => ⟨rfl, hstreak w.policy, rfl⟩) fun _ => rfl

/-- A message is appended, and what follows knows how it was built. -/
theorem pushMessage_bind (happends : HasAppends C) {build : MessageId → AgentMessage}
    {next : AgentMessage → Drive α} (hnext : ∀ id, (next (build id)).Within C) :
    (pushMessage build >>= next).Within C :=
  fun w => ⟨happends w _ _ ⟨rfl, rfl, rfl⟩ rfl, hnext _⟩

theorem whenever_within {condition : Bool} {p : Drive Unit} (hp : p.Within C) :
    (whenever condition p).Within C := by
  unfold whenever
  split
  · exact hp
  · exact Future.Within.pure

theorem ofHook_within (result : Except HookError α) : (ofHook result).Within C := by
  cases result <;> trivial

/-! ### Events -/

theorem deliver_within (event : AgentEvent) (observers : List ObserverId) :
    (deliver event observers).Within C := by
  induction observers with
  | nil => exact Future.Within.pure
  | cons observer rest ih =>
    apply Future.Within.bind Future.Within.ask
    intro accepted
    apply Future.Within.bind Future.Within.ofExcept
    intro _
    exact ih

/-- What follows the recording of an event. -/
theorem publish_within (hC : Admits C) (event : AgentEvent) :
    (do
      Future.modify fun w => { w with subscriptions := w.subscriptions.publishLossless event }
      let observers ← Future.read (·.observers)
      deliver event observers
      Future.modify fun w => { w with subscriptions := w.subscriptions.publish event } :
        Drive Unit).Within C := by
  apply Future.Within.bind
  · exact hC.modify_within (fun _ => ⟨rfl, rfl, rfl⟩) fun _ => rfl
  intro _
  apply Future.Within.bind (hC.read_within _)
  intro observers
  apply Future.Within.bind (deliver_within event observers)
  intro _
  exact hC.modify_within (fun _ => ⟨rfl, rfl, rfl⟩) fun _ => rfl

theorem emit_within (hC : Admits C) {kind : AgentEventKind} (hnote : ∀ w, C w (noted kind w)) :
    (emit kind).Within C := by
  apply Future.Within.bind (Future.Within.section_ hnote)
  intro event
  exact hC.publish_within event

theorem routine_within (hC : Admits C) {kind : AgentEventKind} (hroutine : isRoutine kind = true) :
    (emit kind).Within C := hC.emit_within fun w => hC.note w kind hroutine

theorem announce_within (hC : Admits C) {message : AgentMessage}
    (hend : ∀ w, C w (noted (.messageEnd message) w)) : (announce message).Within C := by
  apply Future.Within.bind (hC.routine_within rfl)
  intro _
  exact hC.emit_within hend

theorem announceAll_within (hC : Admits C) {messages : List AgentMessage}
    (hend : ∀ message ∈ messages, ∀ w, C w (noted (.messageEnd message) w)) :
    (announceAll messages).Within C := by
  induction messages with
  | nil => exact Future.Within.pure
  | cons message rest ih =>
    obtain ⟨hmessage, hrest⟩ := List.forall_mem_cons.mp hend
    apply Future.Within.bind (hC.announce_within hmessage)
    intro _
    exact ih hrest

/-! ### One tool call -/

theorem emitToolExecutionStart_within (hC : Admits C) (call : ToolCall) :
    (emitToolExecutionStart call).Within C := by
  apply Future.Within.bind
  · apply hC.modifyAgent_within
    intro agent
    by_cases hmem : call.id ∈ agent.pendingToolCalls
    · rw [if_pos hmem]
    · rw [if_neg hmem]
  · intro _
    exact hC.routine_within rfl

theorem emitToolExecutionEnd_within (hC : Admits C) (call : ToolCall)
    (result : AgentToolResult) : (emitToolExecutionEnd call result).Within C := by
  apply Future.Within.bind
  · exact hC.modifyAgent_within fun _ => rfl
  · intro _
    exact hC.routine_within rfl

theorem emitToolUpdates_within (hC : Admits C) (updates : List PendingToolUpdate) :
    (emitToolUpdates updates).Within C := by
  induction updates with
  | nil => exact Future.Within.pure
  | cons update rest ih =>
    apply Future.Within.bind (hC.routine_within rfl)
    intro _
    exact ih

theorem takeUpdates_within (hC : Admits C) : takeUpdates.Within C :=
  hC.section_within (fun _ => ⟨rfl, rfl, rfl⟩) fun _ => rfl

theorem closeUpdates_within (hC : Admits C) (id : ToolCallId) : (closeUpdates id).Within C :=
  hC.modify_within (fun _ => ⟨rfl, rfl, rfl⟩) fun _ => rfl

theorem resetUpdates_within (hC : Admits C) : resetUpdates.Within C :=
  hC.modify_within (fun _ => ⟨rfl, rfl, rfl⟩) fun _ => rfl

theorem exhausted_within : (exhausted : Drive α).Within C := fun reply => nomatch reply

theorem panicked_within : (panicked : Drive α).Within C := fun reply => nomatch reply

theorem flushToolUpdates_within (hC : Admits C) (fuel : Nat) :
    (flushToolUpdates fuel).Within C := by
  induction fuel with
  | zero => exact exhausted_within
  | succ fuel ih =>
    apply Future.Within.bind hC.takeUpdates_within
    rintro (_ | updates)
    · exact Future.Within.pure
    · exact Future.Within.bind (hC.emitToolUpdates_within updates) fun _ => ih

theorem currentContext_within (hC : Admits C) : currentContext.Within C :=
  Future.Within.bind (hC.read_within _) fun _ => Future.Within.ofExcept

theorem prepareToolCall_within (hC : Admits C) (call : ToolCall) :
    (prepareToolCall h call).Within C := by
  unfold prepareToolCall
  rcases h.configuration.tool call.name with _ | tool
  · exact Future.Within.pure
  rcases hvalid : tool.validate call.arguments with error | ⟨⟩
  · simp only [hvalid]
    exact Future.Within.pure
  simp only [hvalid]
  apply Future.Within.bind hC.currentContext_within
  intro context
  apply Future.Within.bind Future.Within.ask
  rintro (error | _ | reason | reason)
  · exact Future.Within.pure
  · apply Future.Within.bind hC.isCancelled_within
    rintro (_ | _) <;> exact Future.Within.pure
  · exact Future.Within.pure
  · exact Future.Within.pure

theorem startToolFuture_within (hC : Admits C) (call : ToolCall) :
    (startToolFuture call).Within C :=
  Future.Within.bind (hC.modify_within (fun _ => ⟨rfl, rfl, rfl⟩) fun _ => rfl) fun _ =>
    Future.Within.ask

theorem finalizeExecutedTool_within (hC : Admits C) (call : ToolCall)
    (execution : Except ToolError AgentToolResult) :
    (finalizeExecutedTool call execution).Within C := by
  apply Future.Within.bind hC.currentContext_within
  intro context
  apply Future.Within.bind Future.Within.ask
  rintro (error | after) <;> exact Future.Within.pure

theorem completeStep_within (hC : Admits C) (call : ToolCall)
    (result : Except ToolError AgentToolResult) : (completeStep call result).Within C := by
  apply Future.Within.bind (hC.closeUpdates_within call.id)
  intro _
  exact Future.Within.bind hC.takeUpdates_within fun _ => Future.Within.pure

theorem nextToolStep_within (hC : Admits C) (fuel : Nat) (call : ToolCall)
    (allowOnePoll : Bool) : (nextToolStep fuel call allowOnePoll).Within C := by
  induction fuel with
  | zero => exact exhausted_within
  | succ fuel ih =>
    unfold nextToolStep
    apply Future.Within.bind hC.isCancelled_within
    intro cancelled
    by_cases hstop : (cancelled && !allowOnePoll) = true
    · simp only [hstop, if_true]
      exact hC.completeStep_within call _
    simp only [hstop]
    apply Future.Within.bind hC.takeUpdates_within
    rintro (_ | updates)
    · apply Future.Within.bind hC.takeUpdates_within
      rintro (_ | updates)
      · apply Future.Within.bind hC.isCancelled_within
        intro cancelled
        by_cases hstop : (cancelled && !allowOnePoll) = true
        · simp only [hstop, if_true]
          exact hC.completeStep_within call _
        simp only [hstop]
        apply Future.Within.bind Future.Within.ask
        rintro (_ | result)
        · apply Future.Within.bind hC.takeUpdates_within
          rintro (_ | updates)
          · apply Future.Within.bind hC.isCancelled_within
            rintro (_ | _)
            · exact Future.Within.bind Future.Within.ask fun _ => ih
            · exact Future.Within.bind (hC.closeUpdates_within call.id) fun _ =>
                Future.Within.pure
          · exact Future.Within.pure
        · exact hC.completeStep_within call result
      · exact Future.Within.pure
    · exact Future.Within.pure

theorem runTool_within (hC : Admits C) (fuel n : Nat) (call : ToolCall) (allowOnePoll : Bool) :
    (runTool fuel n call allowOnePoll).Within C := by
  induction n generalizing allowOnePoll with
  | zero => exact exhausted_within
  | succ n ih =>
    apply Future.Within.bind (hC.nextToolStep_within fuel call allowOnePoll)
    rintro (updates | ⟨result, updates⟩)
    · apply Future.Within.bind (hC.emitToolUpdates_within updates)
      intro _
      exact Future.Within.bind hC.isCancelled_within fun _ => ih _
    · exact Future.Within.bind (hC.emitToolUpdates_within updates) fun _ => Future.Within.pure

theorem executeOneToolCall_within (hC : Admits C) (fuel : Nat) (call : ToolCall) :
    (executeOneToolCall h fuel call).Within C := by
  apply Future.Within.bind (hC.prepareToolCall_within call)
  rintro (⟨result, terminate⟩ | _)
  · exact Future.Within.pure
  · apply Future.Within.bind hC.resetUpdates_within
    intro _
    apply Future.Within.bind (hC.startToolFuture_within call)
    intro _
    apply Future.Within.bind hC.isCancelled_within
    intro cancelled
    apply Future.Within.bind (hC.read_within _)
    intro hasUpdates
    apply Future.Within.bind (hC.runTool_within fuel fuel call _)
    intro execution
    apply Future.Within.bind (hC.flushToolUpdates_within fuel)
    intro _
    exact hC.finalizeExecutedTool_within call execution

/-! ### The calls of a parallel batch -/

theorem pollPending_within (hC : Admits C) (pending : List PendingToolExecution) (index : Nat)
    (allowed : List ToolCallId) : (pollPending pending index allowed).Within C := by
  induction pending generalizing index allowed with
  | nil => exact Future.Within.pure
  | cons execution rest ih =>
    unfold pollPending
    apply Future.Within.bind hC.isCancelled_within
    intro cancelled
    by_cases hskip : (cancelled && !allowed.contains execution.call.id) = true
    · simp only [hskip, if_true]
      exact ih _ _
    simp only [hskip]
    apply Future.Within.bind Future.Within.ask
    rintro (_ | result)
    · apply Future.Within.bind hC.takeUpdates_within
      rintro (_ | updates)
      · exact ih _ _
      · exact Future.Within.pure
    · apply Future.Within.bind (hC.closeUpdates_within _)
      intro _
      exact Future.Within.bind hC.takeUpdates_within fun _ => Future.Within.pure

theorem nextParallelStep_within (hC : Admits C) (fuel : Nat)
    (pending : List PendingToolExecution) (allowed : List ToolCallId) :
    (nextParallelStep fuel pending allowed).Within C := by
  induction fuel generalizing allowed with
  | zero => exact exhausted_within
  | succ fuel ih =>
    unfold nextParallelStep
    apply Future.Within.bind hC.takeUpdates_within
    rintro (_ | updates)
    · apply Future.Within.bind hC.isCancelled_within
      intro cancelled
      by_cases hstop : (cancelled && allowed.isEmpty) = true
      · simp only [hstop, if_true]
        exact Future.Within.pure
      simp only [hstop]
      apply Future.Within.bind hC.takeUpdates_within
      rintro (_ | updates)
      · apply Future.Within.bind hC.isCancelled_within
        intro cancelled
        by_cases hstop : (cancelled && allowed.isEmpty) = true
        · simp only [hstop, if_true]
          exact Future.Within.bind hC.takeUpdates_within fun _ => Future.Within.pure
        simp only [hstop]
        apply Future.Within.bind (hC.pollPending_within pending 0 allowed)
        rintro ⟨_ | ⟨index, updates | updates | ⟨execution, result, updates⟩⟩, allowed⟩
        · apply Future.Within.bind hC.isCancelled_within
          intro cancelled
          apply Future.Within.bind hC.takeUpdates_within
          intro updates
          rcases cancelled with _ | _
          · rcases updates with _ | updates
            · exact Future.Within.bind Future.Within.ask fun _ => ih _
            · exact Future.Within.pure
          · exact Future.Within.pure
        all_goals exact Future.Within.pure
      · exact Future.Within.pure
    · exact Future.Within.pure

theorem recordImmediate_within (hC : Admits C) (call : ToolCall) (sourceIndex : Nat)
    (completions : Completions) (preparation : PreparedToolCall) :
    (recordImmediate call sourceIndex completions preparation).Within C := by
  rcases preparation with ⟨result, terminate⟩ | _
  · exact Future.Within.bind (hC.emitToolExecutionEnd_within call _) fun _ => Future.Within.pure
  · exact Future.Within.pure

theorem prepareBatch_within (hC : Admits C) (calls : List ToolCall) (sourceIndex : Nat)
    (completions : Completions) : (prepareBatch h calls sourceIndex completions).Within C := by
  induction calls generalizing sourceIndex completions with
  | nil => exact Future.Within.pure
  | cons call rest ih =>
    apply Future.Within.bind (hC.emitToolExecutionStart_within call)
    intro _
    apply Future.Within.bind (hC.prepareToolCall_within call)
    intro preparation
    apply Future.Within.bind (hC.recordImmediate_within call sourceIndex completions preparation)
    intro completions
    exact Future.Within.bind (ih _ _) fun _ => Future.Within.pure

theorem startBatch_within (hC : Admits C) (prepared : List PreparedToolExecution) :
    (startBatch prepared).Within C := by
  induction prepared with
  | nil => exact Future.Within.pure
  | cons execution rest ih =>
    obtain ⟨sourceIndex, call, ⟨result, terminate⟩ | _⟩ := execution
    · exact ih
    · apply Future.Within.bind (hC.startToolFuture_within call)
      intro _
      exact Future.Within.bind ih fun _ => Future.Within.pure

theorem abortPending_within (hC : Admits C) (pending : List PendingToolExecution)
    (completions : Completions) : (abortPending pending completions).Within C := by
  induction pending generalizing completions with
  | nil => exact Future.Within.pure
  | cons execution rest ih =>
    apply Future.Within.bind (hC.closeUpdates_within _)
    intro _
    exact Future.Within.bind (hC.emitToolExecutionEnd_within _ _) fun _ => ih _

theorem finalizeSibling_within (hC : Admits C) (call : ToolCall)
    (execution : Option (Except ToolError AgentToolResult)) :
    (finalizeSibling call execution).Within C := by
  rcases execution with _ | execution
  · exact Future.Within.pure
  · exact hC.finalizeExecutedTool_within call execution

theorem settleSiblings_within (hC : Admits C) (fuel : Nat) (updateCallIds : List ToolCallId)
    (pending : List PendingToolExecution) (completions : Completions) :
    (settleSiblings fuel updateCallIds pending completions).Within C := by
  induction pending generalizing completions with
  | nil => exact Future.Within.pure
  | cons execution rest ih =>
    unfold settleSiblings
    by_cases hkeep : updateCallIds.contains execution.call.id = true
    · simp only [hkeep, if_true]
      exact Future.Within.bind (ih _) fun _ => Future.Within.pure
    simp only [hkeep]
    apply Future.Within.bind Future.Within.ask
    intro polled
    apply Future.Within.bind (hC.closeUpdates_within _)
    intro _
    apply Future.Within.bind (hC.flushToolUpdates_within fuel)
    intro _
    apply Future.Within.bind (hC.finalizeSibling_within _ polled)
    intro finalized
    exact Future.Within.bind (hC.emitToolExecutionEnd_within _ _) fun _ => ih _

theorem runBatch_within (hC : Admits C) (fuel n : Nat) (pending : List PendingToolExecution)
    (allowed : List ToolCallId) (completions : Completions) :
    (runBatch fuel n pending allowed completions).Within C := by
  induction n generalizing pending allowed completions with
  | zero =>
    rcases pending with _ | ⟨execution, rest⟩
    · exact Future.Within.pure
    · exact exhausted_within
  | succ n ih =>
    rcases pending with _ | ⟨execution, rest⟩
    · exact Future.Within.pure
    apply Future.Within.bind (hC.nextParallelStep_within fuel _ allowed)
    rintro ⟨updates | updates | ⟨execution, result, updates⟩, pending, allowed⟩
    · apply Future.Within.bind (hC.emitToolUpdates_within updates)
      intro _
      exact hC.abortPending_within _ _
    · apply Future.Within.bind (hC.emitToolUpdates_within updates)
      intro _
      apply Future.Within.bind hC.isCancelled_within
      rintro (_ | _)
      · exact ih _ _ _
      · exact Future.Within.bind (hC.settleSiblings_within fuel _ _ _) fun _ => ih _ _ _
    · apply Future.Within.bind (hC.emitToolUpdates_within updates)
      intro _
      apply Future.Within.bind (hC.finalizeExecutedTool_within _ result)
      intro finalized
      apply Future.Within.bind (hC.flushToolUpdates_within fuel)
      intro _
      exact Future.Within.bind (hC.emitToolExecutionEnd_within _ _) fun _ => ih _ _ _

/-! ### Compactions -/

theorem buildProviderContext_within (context : ContextEnvelope) :
    (buildProviderContext h context).Within C := by
  apply Future.Within.bind Future.Within.ask
  intro transformed
  apply Future.Within.bind (ofHook_within transformed)
  intro transformed
  apply Future.Within.bind Future.Within.ask
  intro converted
  apply Future.Within.bind (ofHook_within converted)
  intro converted
  exact Future.Within.pure

theorem compactionProviderContext_within (context : CompactionContext)
    (sourceMessages : List AgentMessage) :
    (compactionProviderContext h context sourceMessages).Within C := by
  apply Future.Within.bind (buildProviderContext_within _)
  intro source
  exact Future.Within.bind (buildProviderContext_within _) fun _ => Future.Within.pure

theorem cancelCompaction_within (hC : Admits C) (hends : HasEnds C)
    (reason : AutomaticCompactionReason) (retry : Bool) :
    (cancelCompaction reason retry : Drive α).Within C := by
  apply Future.Within.bind (hC.lockPolicy_within fun _ => rfl)
  intro _
  exact Future.Within.bind (hC.emit_within (hends _ _ _)) fun _ => trivial

theorem rejectCompaction_within (hC : Admits C) (hends : HasEnds C)
    (reason : AutomaticCompactionReason) (retry : Bool) (message : String) :
    (rejectCompaction reason retry message : Drive α).Within C :=
  Future.Within.bind (hC.emit_within (hends _ _ _)) fun _ => trivial

theorem failCompaction_within (hC : Admits C) (hends : HasEnds C)
    (reason : AutomaticCompactionReason) (retry : Bool) (error : String) :
    (failCompaction reason retry error : Drive α).Within C := by
  apply Future.Within.bind hC.isCancelled_within
  rintro (_ | _)
  · exact hC.rejectCompaction_within hends _ _ _
  · exact hC.cancelCompaction_within hends _ _

theorem commitReplacement_within (hC : Admits C) (hrewrites : HasRewrites C)
    (replacement : List AgentMessage) : (commitReplacement replacement).Within C := by
  apply Future.Within.section_
  intro w
  split_ifs
  · exact hC.refl w
  · exact hC.refl w
  · exact hrewrites _ _ ⟨rfl, rfl, rfl⟩

theorem finishCompaction_within (hC : Admits C) (hends : HasEnds C)
    (reason : AutomaticCompactionReason) (retry : Bool) :
    (finishCompaction h reason retry).Within C := by
  apply Future.Within.bind (hC.read_within _)
  intro estimatedTokensAfter
  apply Future.Within.bind
  · apply whenever_within
    apply Future.Within.bind (hC.read_within _)
    intro messageCount
    exact hC.lockPolicy_within fun _ => rfl
  · intro _
    exact Future.Within.bind (hC.emit_within (hends _ _ _)) fun _ => Future.Within.pure

theorem commitAutomatic_within (hC : Admits C) (hends : HasEnds C) (hrewrites : HasRewrites C)
    (reason : AutomaticCompactionReason) (retry : Bool) (retained replacement : List AgentMessage) :
    (commitAutomatic h reason retry retained replacement).Within C := by
  apply Future.Within.bind hC.isCancelled_within
  rintro (_ | _)
  · rcases hvalid : validateMessages replacement with error | ⟨⟩
    · exact hC.rejectCompaction_within hends _ _ _
    · by_cases hlost : retained ≠ [] ∧ ¬ retained.isSuffixOf replacement
      · simp only [Bool.false_eq_true, if_false, if_pos hlost]
        exact hC.rejectCompaction_within hends _ _ _
      simp only [Bool.false_eq_true, if_false, if_neg hlost]
      apply Future.Within.bind (hC.commitReplacement_within hrewrites replacement)
      rintro (error | _)
      · exact hC.cancelCompaction_within hends _ _
      · exact hC.finishCompaction_within hends _ _
  · exact hC.cancelCompaction_within hends _ _

theorem runCompaction_within (hC : Admits C) (hends : HasEnds C) (hrewrites : HasRewrites C)
    (reason : AutomaticCompactionReason) (retry : Bool) (estimatedTokensBefore : Nat) :
    (runCompaction h reason retry estimatedTokensBefore).Within C := by
  apply Future.Within.bind (hC.read_within _)
  intro context
  apply Future.Within.bind (Future.Within.attempt (compactionProviderContext_within _ _))
  rintro (error | providerContext)
  · exact hC.failCompaction_within hends _ _ _
  · apply Future.Within.bind Future.Within.ask
    rintro (error | replacement)
    · exact hC.failCompaction_within hends _ _ _
    · exact hC.commitAutomatic_within hends hrewrites _ _ _ _

theorem reserveCompaction_streak (limit : Nat) (policy : RunPolicyState) :
    (reserveCompaction limit policy).2.failureStreak = policy.failureStreak := by
  unfold reserveCompaction
  split_ifs <;> rfl

theorem beginCompaction_within (hC : Admits C) (hends : HasEnds C) (hrewrites : HasRewrites C)
    (reason : AutomaticCompactionReason) (retry : Bool)
    (estimatedTokensBefore sourceMessageCount : Nat) :
    (beginCompaction h reason retry estimatedTokensBefore sourceMessageCount).Within C := by
  apply Future.Within.bind (hC.lockPolicy_within (reserveCompaction_streak _))
  intro reserved
  by_cases hlimit : reserved.2 = true
  · simp only [hlimit, if_true]
    exact Future.Within.bind (hC.emit_within (hends _ _ _)) fun _ => trivial
  simp only [hlimit]
  apply Future.Within.bind (hC.routine_within rfl)
  intro _
  apply Future.Within.bind (hC.routine_within rfl)
  intro _
  by_cases hcompactor : h.agent.hasCompactor = true
  · simp only [hcompactor, if_true]
    exact hC.runCompaction_within hends hrewrites _ _ _
  · simp only [hcompactor]
    exact Future.Within.bind (hC.emit_within (hends _ _ _)) fun _ => trivial

theorem maybeAutomaticCompaction_within (hC : Admits C) (hends : HasEnds C)
    (hrewrites : HasRewrites C) (estimator : ContextEstimator)
    (reason : AutomaticCompactionReason) (retry : Bool) :
    (maybeAutomaticCompaction h estimator reason retry).Within C := by
  unfold maybeAutomaticCompaction
  dsimp only
  split_ifs
  · exact Future.Within.pure
  apply Future.Within.bind (hC.read_within _)
  intro estimatedTokensBefore
  split_ifs
  · exact Future.Within.pure
  apply Future.Within.bind (hC.read_within _)
  intro sourceMessageCount
  apply Future.Within.bind (hC.read_within _)
  intro blocked
  split_ifs
  · exact Future.Within.pure
  · exact hC.beginCompaction_within hends hrewrites _ _ _ _

/-! ### The queues and the request -/

theorem drainSteering_within (hC : Admits C) : drainSteering.Within C :=
  hC.section_within (fun _ => ⟨rfl, rfl, rfl⟩) fun _ => rfl

theorem drainFollowUp_within (hC : Admits C) : drainFollowUp.Within C :=
  hC.section_within (fun _ => ⟨rfl, rfl, rfl⟩) fun _ => rfl

theorem injectQueuedMessages_within (hC : Admits C) (happends : HasAppends C)
    (husers : HasUsers C) (context : ContextEnvelope) (queued : List QueuedMessage) :
    (injectQueuedMessages context queued).Within C := by
  induction queued generalizing context with
  | nil => exact Future.Within.pure
  | cons message rest ih =>
    apply pushMessage_bind happends
    intro id
    apply Future.Within.bind (hC.announce_within (husers id _))
    intro _
    exact ih _

theorem modelRequest_within (hC : Admits C) (runId : RunId) (st : LoopState)
    (context : Option ContextEnvelope) : (modelRequest h runId st context).Within C := by
  apply Future.Within.bind
  · apply Future.Within.section_
    intro w
    split_ifs
    · exact hC.quiet _ _ ⟨rfl, rfl, rfl⟩ rfl
    · exact hC.refl w
  · intro claimed
    apply Future.Within.bind Future.Within.ofExcept
    intro claimed
    exact Future.Within.bind (buildProviderContext_within _) fun _ => Future.Within.pure

theorem openStream_within (request : ModelRequest) : (openStream h request).Within C := by
  unfold openStream
  split_ifs
  · apply Future.Within.bind Future.Within.ask
    rintro (error | _) <;> trivial
  · trivial

theorem noteContinuation_within (hC : Admits C) (contextOverflow : Bool) :
    (noteContinuation contextOverflow).Within C :=
  whenever_within (hC.lockPolicy_within fun _ => rfl)

theorem allowOverflowRetry_streak (limit : Nat) (policy : RunPolicyState) :
    (allowOverflowRetry limit policy).2.failureStreak = policy.failureStreak := by
  unfold allowOverflowRetry
  split_ifs <;> rfl

theorem recoverOverflow_within (hC : Admits C) (hends : HasEnds C) (hrewrites : HasRewrites C)
    (estimator : ContextEstimator) (requestMessageCount : Nat) (contextOverflow : Bool) :
    (recoverOverflow h estimator requestMessageCount contextOverflow).Within C := by
  unfold recoverOverflow
  dsimp only
  split_ifs
  · apply Future.Within.bind (hC.lockPolicy_within (allowOverflowRetry_streak _))
    rintro (_ | _)
    · exact Future.Within.bind (hC.emit_within (hends _ _ _)) fun _ => Future.Within.pure
    · apply Future.Within.bind
      · exact Future.Within.modify fun w => hrewrites _ _ ⟨rfl, rfl, rfl⟩
      intro _
      exact Future.Within.bind (hC.maybeAutomaticCompaction_within hends hrewrites _ _ _) fun _ =>
        Future.Within.pure
  · exact Future.Within.pure

theorem thresholdCompaction_within (hC : Admits C) (hends : HasEnds C)
    (hrewrites : HasRewrites C) (st : LoopState) : (thresholdCompaction h st).Within C := by
  unfold thresholdCompaction
  split_ifs
  · exact Future.Within.bind (hC.maybeAutomaticCompaction_within hends hrewrites _ _ _) fun _ =>
      Future.Within.pure
  · exact Future.Within.pure

/-! ### The response -/

theorem textDelta_within (hC : Admits C) (hrewrites : HasRewrites C) (r : Response)
    (delta : String) : (textDelta r delta).Within C := by
  apply Future.Within.bind
  · exact Future.Within.section_ fun w => hrewrites _ _ ⟨rfl, rfl, rfl⟩
  intro id
  apply Future.Within.bind (whenever_within (hC.routine_within rfl))
  intro _
  apply Future.Within.bind (hC.routine_within rfl)
  intro _
  exact Future.Within.pure

theorem readResponse_within (hC : Admits C) (hrewrites : HasRewrites C) (fuel : Nat)
    (r : Response) : (readResponse fuel r).Within C := by
  induction fuel generalizing r with
  | zero => exact exhausted_within
  | succ fuel ih =>
    apply Future.Within.bind Future.Within.ask
    rintro (error | _ | event)
    · trivial
    · exact Future.Within.pure
    dsimp only
    split_ifs
    · trivial
    cases event with
    | textDelta delta =>
      apply Future.Within.bind (hC.textDelta_within hrewrites r delta)
      intro r
      exact ih r
    | _ => exact ih _

theorem recordUsage_within (hC : Admits C)
    (husage : ∀ accounting w, C w (noted (.modelTurnUsage accounting) w)) (turnId : TurnId)
    (model : Option ModelDescriptor) (usage : Option Usage) :
    (recordUsage turnId model usage).Within C := by
  cases usage with
  | none => exact Future.Within.pure
  | some usage =>
    apply Future.Within.bind (hC.read_within _)
    intro runId
    apply Future.Within.bind
    · exact hC.modifyAgent_within fun _ => rfl
    intro _
    exact hC.emit_within (husage _)

/-! ### The ends of a turn -/

theorem settleAgent_unnoted (phase : AgentPhase) (error : Option String) (w : World) :
    Unnoted w (w.settleAgent phase error) ∧
      (w.settleAgent phase error).agent.messages = w.agent.messages := by
  have hclient := settleAgent_client (w := w) phase error
  refine ⟨⟨hclient.kinds, congrArg RunPolicyState.failureStreak hclient.policy, ?_⟩,
    hclient.messages⟩
  unfold World.settleAgent
  split_ifs <;> rfl

theorem finish_within (hC : Admits C) (phase : RunPhase) (reason : StopReason)
    (error : Option String) : (finish phase reason error).Within C := by
  apply Future.Within.bind
  · apply Future.Within.section_
    intro w
    split_ifs
    · exact hC.refl w
    · exact hC.quiet _ _ ⟨rfl, rfl, rfl⟩ rfl
  · intro finished
    apply Future.Within.bind Future.Within.ofExcept
    intro _
    exact hC.modify_within (fun w => (settleAgent_unnoted _ _ w).1) fun w =>
      (settleAgent_unnoted _ _ w).2

theorem emitAgentEnd_within (hC : Admits C) : (emitAgentEnd h).Within C := by
  apply Future.Within.bind (hC.read_within _)
  intro messages
  exact hC.routine_within rfl

theorem emitAgentEndAndSucceed_within (hC : Admits C) (reason : StopReason) :
    (emitAgentEndAndSucceed h reason).Within C :=
  Future.Within.bind hC.emitAgentEnd_within fun _ => hC.finish_within _ _ _

theorem startTurn_within (hC : Admits C) (turnId : TurnId) : (startTurn turnId).Within C := by
  apply Future.Within.bind
  · apply Future.Within.section_
    intro w
    split_ifs
    · exact hC.quiet _ _ ⟨rfl, rfl, rfl⟩ rfl
    · exact hC.refl w
  · exact fun _ => Future.Within.ofExcept

theorem advanceTurn_within (hC : Admits C) (turnId : TurnId) : (advanceTurn turnId).Within C := by
  apply Future.Within.bind
  · apply Future.Within.section_
    intro w
    split_ifs
    · exact hC.quiet _ _ ⟨rfl, rfl, rfl⟩ rfl
    · exact hC.refl w
  · exact fun _ => Future.Within.ofExcept

theorem pollQueues_within (hC : Admits C) (hasMoreToolCalls : Bool) :
    (pollQueues hasMoreToolCalls).Within C := by
  apply Future.Within.bind hC.drainSteering_within
  intro queued
  split_ifs
  · exact hC.drainFollowUp_within
  · exact Future.Within.pure

theorem nextTurn_within (hC : Admits C) (happends : HasAppends C) (husers : HasUsers C)
    (st : LoopState) (reason : StopReason) (hasMoreToolCalls : Bool)
    (preparedContext : ContextEnvelope) :
    (nextTurn h st reason hasMoreToolCalls preparedContext).Within C := by
  apply Future.Within.bind (hC.pollQueues_within hasMoreToolCalls)
  intro queued
  split_ifs
  · apply Future.Within.bind (hC.advanceTurn_within _)
    intro _
    apply Future.Within.bind (hC.routine_within rfl)
    intro _
    exact Future.Within.bind (hC.injectQueuedMessages_within happends husers _ _) fun _ =>
      Future.Within.pure
  · exact Future.Within.bind (hC.emitAgentEndAndSucceed_within reason) fun _ =>
      Future.Within.pure

theorem finishTurn_within (hC : Admits C) (happends : HasAppends C) (husers : HasUsers C)
    (st : LoopState) (reason : StopReason) (hasMoreToolCalls : Bool) :
    (finishTurn h st reason hasMoreToolCalls).Within C := by
  apply Future.Within.bind hC.currentContext_within
  intro current
  apply Future.Within.bind Future.Within.ask
  intro update
  apply Future.Within.bind (ofHook_within update)
  intro update
  apply Future.Within.bind Future.Within.ask
  intro stop
  apply Future.Within.bind (ofHook_within stop)
  intro stop
  split_ifs
  · exact Future.Within.bind (hC.emitAgentEndAndSucceed_within reason) fun _ =>
      Future.Within.pure
  · exact hC.nextTurn_within happends husers _ _ _ _

/-! ### Settlement -/

theorem ignore_within {p : Drive Unit} (hp : p.Within C) : (ignore p).Within C :=
  Future.Within.bind (Future.Within.attempt hp) fun _ => Future.Within.pure

/-- The last events of a run, and its end. -/
theorem closing_within (hC : Admits C) (turnId : TurnId) (reason : StopReason) {p : Drive Unit}
    (hp : p.Within C) :
    (do
      ignore (emit (.turnEnd turnId reason))
      ignore (emitAgentEnd h)
      ignore p : Drive Unit).Within C := by
  apply Future.Within.bind (ignore_within (hC.routine_within rfl))
  intro _
  apply Future.Within.bind (ignore_within hC.emitAgentEnd_within)
  intro _
  exact ignore_within hp

theorem settleFailure_within (hC : Admits C) (happends : HasAppends C)
    (hmessages : HasMessages C) (error : CoreError) :
    (settleFailure h error).Within C := by
  apply Future.Within.bind (hC.read_within _)
  intro held
  split_ifs
  · apply Future.Within.bind
      (Future.Within.section_ fun w => happends w _ _ ⟨rfl, rfl, rfl⟩ rfl)
    intro failure
    apply Future.Within.bind (hC.read_within _)
    intro turnId
    apply Future.Within.bind (ignore_within (hC.routine_within rfl))
    intro _
    apply Future.Within.bind (ignore_within (hC.emit_within (hmessages failure)))
    intro _
    exact hC.closing_within _ _ (hC.finish_within _ _ _)
  · exact ignore_within (hC.finish_within _ _ _)

theorem settleCompactionBoundaryFailure_within (hC : Admits C) (error : CoreError) :
    (settleCompactionBoundaryFailure h error).Within C := by
  apply Future.Within.bind (hC.read_within _)
  intro held
  split_ifs
  · apply Future.Within.bind
    · exact hC.modifyAgent_within fun _ => rfl
    intro _
    apply Future.Within.bind (hC.read_within _)
    intro turnId
    exact hC.closing_within _ _ (hC.finish_within _ _ _)
  · exact ignore_within (hC.finish_within _ _ _)

theorem settleCompactionBoundaryCancellation_within (hC : Admits C) :
    (settleCompactionBoundaryCancellation h).Within C := by
  apply Future.Within.bind (hC.read_within _)
  intro held
  split_ifs
  · apply Future.Within.bind
    · exact hC.modifyAgent_within fun _ => rfl
    intro _
    apply Future.Within.bind (hC.read_within _)
    intro turnId
    exact hC.closing_within _ _ (hC.finish_within _ _ _)
  · exact ignore_within (hC.finish_within _ _ _)

theorem announceAborted_within (hC : Admits C) (hmessages : HasMessages C)
    (failure : Option AgentMessage) : (announceAborted failure).Within C := by
  rcases failure with _ | message
  · exact Future.Within.pure
  · apply Future.Within.bind (ignore_within (hC.routine_within rfl))
    intro _
    exact ignore_within (hC.emit_within (hmessages message))

theorem settleCancellation_within (hC : Admits C) (happends : HasAppends C)
    (hmessages : HasMessages C) : (settleCancellation h).Within C := by
  apply Future.Within.bind (hC.read_within _)
  intro held
  split_ifs
  · apply Future.Within.bind (hC.read_within _)
    intro turnId
    apply Future.Within.bind
    · apply Future.Within.section_
      intro w
      unfold abortAgentState
      dsimp only
      split_ifs
      · exact hC.quiet _ _ ⟨rfl, rfl, rfl⟩ rfl
      · exact happends _ _ _ ⟨rfl, rfl, rfl⟩ rfl
    · intro failure
      apply Future.Within.bind (hC.announceAborted_within hmessages failure)
      intro _
      exact hC.closing_within _ _ (hC.finish_within _ _ _)
  · exact ignore_within (hC.finish_within _ _ _)

theorem settle_within (hC : Admits C) (happends : HasAppends C) (hmessages : HasMessages C)
    (error : CoreError) :
    (settle h error).Within C := by
  apply Future.Within.bind hC.isCancelled_within
  rintro (_ | _)
  · cases error with
    | automaticCompaction => exact hC.settleCompactionBoundaryFailure_within _
    | automaticCompactionUnavailable => exact hC.settleCompactionBoundaryFailure_within _
    | _ => exact hC.settleFailure_within happends hmessages _
  · apply Future.Within.bind (hC.read_within _)
    rintro (_ | _)
    · exact hC.settleCancellation_within happends hmessages
    · exact hC.settleCompactionBoundaryCancellation_within

end Admits

end Tea.Lifecycle
