/-
  Tea/Lifecycle/FollowTools.lean
  ==============================
  **Tool batches follow the lifecycle machine.**

  Preparing, polling and finalising tools, and delivering their updates, leave an
  open turn as it is (`Steady`).  The stage changes only where a result enters the
  transcript: each batch, whatever its scheduler, appends one result for each call
  of the response, in source order.
-/
import Tea.Lifecycle.Follow

namespace Tea.Lifecycle

open Tea.Async Tea.Core Tea.Run

variable {h : RunHandle} {s : Stage} {α β : Type}

/-! ### Steady programs -/

/-- The program leaves every open turn as it found it. -/
def Steady (h : RunHandle) (p : Drive α) : Prop :=
  ∀ s, InTurn s → p.Follows (machine h) (fun _ x => x = s) (Failed h) s

namespace Steady

theorem bind {p : Drive α} {next : α → Drive β} (hp : Steady h p)
    (hnext : ∀ value, Steady h (next value)) : Steady h (p >>= next) := by
  intro s hs
  refine .bind _ (hp s hs) ?_
  rintro value s rfl
  exact hnext value s hs

theorem pure {value : α} : Steady h (Pure.pure value : Drive α) := fun _ _ => rfl

theorem read {f : World → α} : Steady h (Future.read f : Drive α) :=
  fun _ hs => read_follows hs.idle fun _ _ => rfl

theorem modify {f : World → World} (hf : ∀ w, Quiet w (f w)) :
    Steady h (Future.modify f : Drive Unit) := fun _ hs => modify_follows hs.works hf rfl

theorem section_ {f : World → α × World} (hf : ∀ w, Quiet w (f w).2) :
    Steady h (Future.section_ f : Drive α) :=
  fun _ hs => section_follows hs.works hf fun _ _ => rfl

theorem ask {query : Query} (hpassive : ∀ reply, passive query reply) :
    Steady h (Future.ask query : Drive (Reply query)) :=
  fun _ hs => ask_follows hs.running hpassive fun _ => rfl

theorem exhausted : Steady h (Run.exhausted : Drive α) := fun _ hs => exhausted_follows hs.running

theorem panicked : Steady h (Run.panicked : Drive α) := fun _ hs => panicked_follows hs.running

theorem emit {kind : AgentEventKind} (hside : isSide kind = true) : Steady h (Run.emit kind) :=
  fun _ hs => emit_side hs hside rfl

theorem isCancelled : Steady h Run.isCancelled := read

theorem whenever {condition : Bool} {p : Drive Unit} (hp : Steady h p) :
    Steady h (Run.whenever condition p) :=
  fun s hs => whenever_follows (fun _ => hp s hs) fun _ => rfl

end Steady

/-- A stage in which the run owns the agent. -/
theorem Consistent.owned {w : World} (hw : Consistent s w) (hlife : s.life.running = true) :
    w.run.phase = .running ∧ w.run.turnId = some s.turn ∧ Owned w := by
  have hphased := hw.phased
  unfold Phased at hphased
  cases hl : s.life <;> simp_all [Life.running]

/-- The agent is active while the loop runs, so its context can be read. -/
theorem currentContext_follows {ok : ContextEnvelope → Stage → Prop}
    {err : CoreError → Stage → Prop} (hlife : s.life.works = true)
    (hok : ∀ context, ok context s) : currentContext.Follows (machine h) ok err s := by
  refine .bind (fun context x => (∃ value, context = .ok value) ∧ x = s) ?_ ?_
  · obtain ⟨hrunning, hidle⟩ := Life.works_iff.mp hlife
    refine read_follows hidle fun w hw => ⟨?_, rfl⟩
    obtain ⟨_, _, hown⟩ := hw.owned hrunning
    rcases hown.phase with hphase | hphase <;> exact ⟨_, by rw [contextOf, hphase]⟩
  · rintro _ _ ⟨⟨value, rfl⟩, rfl⟩
    exact hok value

theorem currentContext_steady : Steady h currentContext :=
  fun _ hs => currentContext_follows hs.works fun _ => rfl

/-! ### Recording -/

theorem insertPendingToolCall_steady (id : ToolCallId) : Steady h (insertPendingToolCall id) := by
  refine fun s hs => modifyAgent_follows hs.works (fun agent => ?_) rfl
  by_cases hmem : id ∈ agent.pendingToolCalls
  · rw [if_pos hmem]
    exact ⟨rfl, rfl, rfl, fun hstream => hstream⟩
  · rw [if_neg hmem]
    exact ⟨rfl, rfl, rfl, fun hstream => hstream⟩

theorem emitToolExecutionStart_steady (call : ToolCall) :
    Steady h (emitToolExecutionStart call) :=
  (insertPendingToolCall_steady call.id).bind fun _ => .emit rfl

theorem emitToolExecutionEnd_steady (call : ToolCall) (result : AgentToolResult) :
    Steady h (emitToolExecutionEnd call result) := by
  refine .bind (fun s hs => ?_) fun _ => .emit rfl
  exact modifyAgent_follows hs.works (fun agent => ⟨rfl, rfl, rfl, id⟩) rfl

theorem emitToolUpdates_steady (updates : List PendingToolUpdate) :
    Steady h (emitToolUpdates updates) := by
  induction updates with
  | nil => exact .pure
  | cons update rest ih => exact .bind (.emit rfl) fun _ => ih

theorem takeUpdates_steady : Steady h takeUpdates := .section_ fun _ => ⟨rfl, id⟩

theorem closeUpdates_steady (id : ToolCallId) : Steady h (closeUpdates id) :=
  .modify fun _ => ⟨rfl, fun hstream => hstream⟩

theorem resetUpdates_steady : Steady h resetUpdates := .modify fun _ => ⟨rfl, id⟩

theorem flushToolUpdates_steady (fuel : Nat) : Steady h (flushToolUpdates fuel) := by
  induction fuel with
  | zero => exact .exhausted
  | succ fuel ih =>
    refine takeUpdates_steady.bind ?_
    rintro (_ | updates)
    · exact .pure
    · exact (emitToolUpdates_steady updates).bind fun _ => ih

/-! ### One call -/

theorem prepareToolCall_steady (call : ToolCall) : Steady h (prepareToolCall h call) := by
  unfold prepareToolCall
  rcases h.configuration.tool call.name with _ | tool
  · exact .pure
  rcases hvalid : tool.validate call.arguments with error | ⟨⟩
  · simp only [hvalid]
    exact .pure
  · simp only [hvalid]
    refine currentContext_steady.bind fun context => ?_
    refine .bind (.ask fun _ => trivial) ?_
    rintro (error | _ | reason | reason)
    · exact .pure
    · refine Steady.isCancelled.bind ?_
      rintro (_ | _) <;> exact .pure
    · exact .pure
    · exact .pure

theorem startToolFuture_steady (call : ToolCall) : Steady h (startToolFuture call) :=
  .bind (.modify fun _ => ⟨rfl, id⟩) fun _ => .ask fun _ => trivial

theorem pollTool_steady (call : ToolCall) : Steady h (pollTool call) := .ask fun _ => trivial

theorem finalizeExecutedTool_steady (call : ToolCall)
    (execution : Except ToolError AgentToolResult) :
    Steady h (finalizeExecutedTool call execution) := by
  refine currentContext_steady.bind fun context => ?_
  refine .bind (.ask fun _ => trivial) ?_
  rintro (error | after) <;> exact .pure

theorem completeStep_steady (call : ToolCall) (result : Except ToolError AgentToolResult) :
    Steady h (completeStep call result) :=
  (closeUpdates_steady call.id).bind fun _ => takeUpdates_steady.bind fun _ => .pure

theorem nextToolStep_steady (fuel : Nat) (call : ToolCall) (allowOnePoll : Bool) :
    Steady h (nextToolStep fuel call allowOnePoll) := by
  induction fuel with
  | zero => exact .exhausted
  | succ fuel ih =>
    unfold nextToolStep
    refine Steady.isCancelled.bind fun cancelled => ?_
    by_cases hstop : (cancelled && !allowOnePoll) = true
    · simp only [hstop, if_true]
      exact completeStep_steady call _
    simp only [hstop]
    refine takeUpdates_steady.bind ?_
    rintro (_ | updates)
    · refine takeUpdates_steady.bind ?_
      rintro (_ | updates)
      · refine Steady.isCancelled.bind fun cancelled => ?_
        by_cases hstop : (cancelled && !allowOnePoll) = true
        · simp only [hstop, if_true]
          exact completeStep_steady call _
        simp only [hstop]
        refine (pollTool_steady call).bind ?_
        rintro (_ | result)
        · refine takeUpdates_steady.bind ?_
          rintro (_ | updates)
          · refine Steady.isCancelled.bind ?_
            rintro (_ | _)
            · exact .bind (.ask fun _ => trivial) fun _ => ih
            · exact (closeUpdates_steady call.id).bind fun _ => .pure
          · exact .pure
        · exact completeStep_steady call result
      · exact .pure
    · exact .pure

theorem runTool_steady (fuel n : Nat) (call : ToolCall) (allowOnePoll : Bool) :
    Steady h (runTool fuel n call allowOnePoll) := by
  induction n generalizing allowOnePoll with
  | zero => exact .exhausted
  | succ n ih =>
    refine (nextToolStep_steady fuel call allowOnePoll).bind ?_
    rintro (updates | ⟨result, updates⟩)
    · exact (emitToolUpdates_steady updates).bind fun _ => Steady.isCancelled.bind fun _ => ih _
    · exact (emitToolUpdates_steady updates).bind fun _ => .pure

theorem executeOneToolCall_steady (fuel : Nat) (call : ToolCall) :
    Steady h (executeOneToolCall h fuel call) := by
  refine (prepareToolCall_steady call).bind ?_
  rintro (⟨result, terminate⟩ | _)
  · exact .pure
  · refine resetUpdates_steady.bind fun _ => ?_
    refine (startToolFuture_steady call).bind fun _ => ?_
    refine Steady.isCancelled.bind fun cancelled => ?_
    refine Steady.read.bind fun hasUpdates => ?_
    refine (runTool_steady fuel fuel call _).bind fun execution => ?_
    exact (flushToolUpdates_steady fuel).bind fun _ => finalizeExecutedTool_steady call execution

/-- The circuit breaker changes the failure streak only. -/
theorem observeFailureStreak_counters (limit : Option Nat) (failure : ToolFailure)
    (policy : RunPolicyState) :
    (observeFailureStreak limit failure policy).2.automaticCompactions =
        policy.automaticCompactions ∧
      (observeFailureStreak limit failure policy).2.overflowRetries = policy.overflowRetries ∧
      (observeFailureStreak limit failure policy).2.overflowRetriedThisContinuation =
        policy.overflowRetriedThisContinuation := by
  unfold observeFailureStreak
  split <;> exact ⟨rfl, rfl, rfl⟩

/-- A change of the policy state that leaves the other counters alone. -/
theorem lockPolicy_steady {f : RunPolicyState → α × RunPolicyState}
    (hf : ∀ policy, (f policy).2.automaticCompactions = policy.automaticCompactions ∧
      (f policy).2.overflowRetries = policy.overflowRetries ∧
      (f policy).2.overflowRetriedThisContinuation = policy.overflowRetriedThisContinuation) :
    Steady h (lockPolicy f) := by
  intro s hs w _
  obtain ⟨hcompactions, hretries, hretried⟩ := hf w.policy
  exact ⟨s, .policy hs hcompactions hretries (.inl hretried), rfl⟩

theorem observeToolFailure_steady (call : ToolCall) (result : AgentToolResult) :
    Steady h (observeToolFailure h call result) := by
  refine Steady.isCancelled.bind ?_
  rintro (_ | _)
  · by_cases herror : result.isError = true
    · simp only [herror]
      refine .bind (lockPolicy_steady fun policy => observeFailureStreak_counters _ _ policy) ?_
      exact fun observed => .bind (.whenever (.emit rfl)) fun _ => .pure
    · simp only [herror]
      exact .bind (lockPolicy_steady fun _ => ⟨rfl, rfl, rfl⟩) fun _ => .pure
  · exact .pure

/-! ### Results -/

theorem appendToolResultMessage_follows (hs : InTurn s) (hasked : s.asked = true)
    {call : ToolCall} {rest : List ToolCall} (hcalls : s.calls = call :: rest)
    (result : AgentToolResult) :
    (appendToolResultMessage call result).Follows (machine h)
      (fun _ x => x = { s with speech := .silent, calls := rest }) (Failed h) s := by
  refine .bind _ (lockAgent_append (toolResultMessage call result)
    (fun message => { s with speech := .pushed message, calls := rest })
    (fun id => .result hs hasked hcalls rfl) (fun _ => rfl)
    fun _ => ⟨rfl, rfl, rfl, rfl⟩) ?_
  rintro message _ ⟨_, rfl⟩
  exact announce_pushed ⟨hs.life, hs.fault⟩ rfl

theorem InTurn.silent (hs : InTurn s) (calls : List ToolCall) :
    InTurn { s with speech := .silent, calls } := ⟨hs.life, rfl, hs.fault⟩

theorem appendSkippedSequentialCalls_follows (hs : InTurn s) (hasked : s.asked = true)
    (message : String) {calls : List ToolCall} (hcalls : s.calls = calls) :
    (appendSkippedSequentialCalls message calls).Follows (machine h)
      (fun _ x => x = { s with speech := .silent, calls := [] }) (Failed h) s := by
  induction calls generalizing s with
  | nil =>
    refine Future.Follows.pure ?_
    rw [← hs.speech, ← hcalls]
  | cons call rest ih =>
    refine .bind _ (appendToolResultMessage_follows hs hasked hcalls _) ?_
    rintro _ _ rfl
    exact ih (hs.silent rest) hasked rfl

theorem executeToolCallsSequential_follows (fuel : Nat) (hs : InTurn s)
    (hasked : s.asked = true) {calls : List ToolCall} (hcalls : s.calls = calls)
    (allTerminate : Bool) :
    (executeToolCallsSequential h fuel calls allTerminate).Follows (machine h)
      (fun _ x => x = { s with speech := .silent, calls := [] }) (Failed h) s := by
  induction calls generalizing s allTerminate with
  | nil =>
    refine Future.Follows.pure ?_
    rw [← hs.speech, ← hcalls]
  | cons call rest ih =>
    refine .bind _ (emitToolExecutionStart_steady call s hs) ?_
    rintro _ s rfl
    refine .bind _ (executeOneToolCall_steady fuel call s hs) ?_
    rintro executed s rfl
    refine .bind _ (emitToolExecutionEnd_steady call _ s hs) ?_
    rintro _ s rfl
    refine .bind _ (appendToolResultMessage_follows hs hasked hcalls _) ?_
    rintro _ _ rfl
    refine .bind _ (observeToolFailure_steady call _ _ (hs.silent rest)) ?_
    rintro (_ | message) _ rfl
    · exact ih (hs.silent rest) hasked rfl _
    · refine .bind _ (appendSkippedSequentialCalls_follows (hs.silent rest) hasked message rfl) ?_
      rintro _ _ rfl
      exact rfl

theorem failTruncatedToolCalls_follows (hs : InTurn s) (hasked : s.asked = true)
    {calls : List ToolCall} (hcalls : s.calls = calls) :
    (failTruncatedToolCalls calls).Follows (machine h)
      (fun _ x => x = { s with speech := .silent, calls := [] }) (Failed h) s := by
  induction calls generalizing s with
  | nil =>
    refine Future.Follows.pure ?_
    rw [← hs.speech, ← hcalls]
  | cons call rest ih =>
    refine .bind _ (emitToolExecutionStart_steady call s hs) ?_
    rintro _ s rfl
    refine .bind _ (emitToolExecutionEnd_steady call _ s hs) ?_
    rintro _ s rfl
    refine .bind _ (appendToolResultMessage_follows hs hasked hcalls _) ?_
    rintro _ _ rfl
    exact ih (hs.silent rest) hasked rfl

/-! ### The parallel batch -/

theorem pollPending_steady (pending : List PendingToolExecution) (index : Nat)
    (allowed : List ToolCallId) : Steady h (pollPending pending index allowed) := by
  induction pending generalizing index allowed with
  | nil => exact .pure
  | cons execution rest ih =>
    unfold pollPending
    refine Steady.isCancelled.bind fun cancelled => ?_
    by_cases hskip : (cancelled && !allowed.contains execution.call.id) = true
    · simp only [hskip, if_true]
      exact ih _ _
    · simp only [hskip]
      refine (pollTool_steady execution.call).bind ?_
      rintro (_ | result)
      · refine takeUpdates_steady.bind ?_
        rintro (_ | updates)
        · exact ih _ _
        · exact .pure
      · exact (closeUpdates_steady _).bind fun _ => takeUpdates_steady.bind fun _ => .pure

theorem nextParallelStep_steady (fuel : Nat) (pending : List PendingToolExecution)
    (allowed : List ToolCallId) : Steady h (nextParallelStep fuel pending allowed) := by
  induction fuel generalizing allowed with
  | zero => exact .exhausted
  | succ fuel ih =>
    unfold nextParallelStep
    refine takeUpdates_steady.bind ?_
    rintro (_ | updates)
    · refine Steady.isCancelled.bind fun cancelled => ?_
      by_cases hstop : (cancelled && allowed.isEmpty) = true
      · simp only [hstop, if_true]
        exact .pure
      simp only [hstop]
      refine takeUpdates_steady.bind ?_
      rintro (_ | updates)
      · refine Steady.isCancelled.bind fun cancelled => ?_
        by_cases hstop : (cancelled && allowed.isEmpty) = true
        · simp only [hstop, if_true]
          exact takeUpdates_steady.bind fun _ => .pure
        simp only [hstop]
        refine (pollPending_steady pending 0 allowed).bind ?_
        rintro ⟨_ | ⟨index, updates | updates | ⟨execution, result, updates⟩⟩, allowed⟩
        · refine Steady.isCancelled.bind fun cancelled => ?_
          refine takeUpdates_steady.bind fun updates => ?_
          rcases cancelled with _ | _
          · rcases updates with _ | updates
            · exact .bind (.ask fun _ => trivial) fun _ => ih _
            · exact .pure
          · exact .pure
        all_goals exact .pure
      · exact .pure
    · exact .pure

theorem recordImmediate_steady (call : ToolCall) (sourceIndex : Nat) (completions : Completions)
    (preparation : PreparedToolCall) :
    Steady h (recordImmediate call sourceIndex completions preparation) := by
  rcases preparation with ⟨result, terminate⟩ | _
  · exact (emitToolExecutionEnd_steady call _).bind fun _ => .pure
  · exact .pure

/-- The prepared executions are those of the calls, in source order. -/
theorem prepareBatch_follows (hs : InTurn s) (calls : List ToolCall) (sourceIndex : Nat)
    (completions : Completions) :
    (prepareBatch h calls sourceIndex completions).Follows (machine h)
      (fun prepared x => prepared.1.map (·.call) = calls ∧ x = s) (Failed h) s := by
  induction calls generalizing sourceIndex completions with
  | nil => exact ⟨rfl, rfl⟩
  | cons call rest ih =>
    refine .bind _ (emitToolExecutionStart_steady call s hs) ?_
    rintro _ s rfl
    refine .bind _ (prepareToolCall_steady call s hs) ?_
    rintro preparation s rfl
    refine .bind _ (recordImmediate_steady call sourceIndex completions preparation s hs) ?_
    rintro completions s rfl
    refine .bind _ (ih (sourceIndex + 1) completions) ?_
    rintro prepared s ⟨hcalls, rfl⟩
    exact ⟨by simp [hcalls], rfl⟩

theorem startBatch_steady (prepared : List PreparedToolExecution) :
    Steady h (startBatch prepared) := by
  induction prepared with
  | nil => exact .pure
  | cons execution rest ih =>
    obtain ⟨sourceIndex, call, ⟨result, terminate⟩ | _⟩ := execution
    · exact ih
    · exact (startToolFuture_steady call).bind fun _ => ih.bind fun _ => .pure

theorem abortPending_steady (pending : List PendingToolExecution) (completions : Completions) :
    Steady h (abortPending pending completions) := by
  induction pending generalizing completions with
  | nil => exact .pure
  | cons execution rest ih =>
    refine (closeUpdates_steady _).bind fun _ => ?_
    exact (emitToolExecutionEnd_steady _ _).bind fun _ => ih _

theorem finalizeSibling_steady (call : ToolCall)
    (execution : Option (Except ToolError AgentToolResult)) :
    Steady h (finalizeSibling call execution) := by
  rcases execution with _ | execution
  · exact .pure
  · exact finalizeExecutedTool_steady call execution

theorem settleSiblings_steady (fuel : Nat) (updateCallIds : List ToolCallId)
    (pending : List PendingToolExecution) (completions : Completions) :
    Steady h (settleSiblings fuel updateCallIds pending completions) := by
  induction pending generalizing completions with
  | nil => exact .pure
  | cons execution rest ih =>
    unfold settleSiblings
    by_cases hkeep : updateCallIds.contains execution.call.id = true
    · simp only [hkeep, if_true]
      exact (ih _).bind fun _ => .pure
    · simp only [hkeep]
      refine (pollTool_steady _).bind fun polled => ?_
      refine (closeUpdates_steady _).bind fun _ => ?_
      refine (flushToolUpdates_steady fuel).bind fun _ => ?_
      refine (finalizeSibling_steady _ polled).bind fun finalized => ?_
      exact (emitToolExecutionEnd_steady _ _).bind fun _ => ih _

theorem runBatch_steady (fuel n : Nat) (pending : List PendingToolExecution)
    (allowed : List ToolCallId) (completions : Completions) :
    Steady h (runBatch fuel n pending allowed completions) := by
  induction n generalizing pending allowed completions with
  | zero =>
    rcases pending with _ | ⟨execution, rest⟩
    · exact .pure
    · exact .exhausted
  | succ n ih =>
    rcases pending with _ | ⟨execution, rest⟩
    · exact .pure
    refine (nextParallelStep_steady fuel _ allowed).bind ?_
    rintro ⟨updates | updates | ⟨execution, result, updates⟩, pending, allowed⟩
    · exact (emitToolUpdates_steady updates).bind fun _ => abortPending_steady _ _
    · refine (emitToolUpdates_steady updates).bind fun _ => ?_
      refine Steady.isCancelled.bind ?_
      rintro (_ | _)
      · exact ih _ _ _
      · exact (settleSiblings_steady fuel _ _ _).bind fun _ => ih _ _ _
    · refine (emitToolUpdates_steady updates).bind fun _ => ?_
      refine (finalizeExecutedTool_steady _ result).bind fun finalized => ?_
      refine (flushToolUpdates_steady fuel).bind fun _ => ?_
      exact (emitToolExecutionEnd_steady _ _).bind fun _ => ih _ _ _

theorem recordBatch_follows (hs : InTurn s) (hasked : s.asked = true)
    {prepared : List PreparedToolExecution} (hcalls : s.calls = prepared.map (·.call))
    (completions : Completions) (allTerminate : Bool) (terminalFailure : Option String) :
    (recordBatch h prepared completions allTerminate terminalFailure).Follows (machine h)
      (fun _ x => x = { s with speech := .silent, calls := [] }) (Failed h) s := by
  induction prepared generalizing s completions allTerminate terminalFailure with
  | nil =>
    refine Future.Follows.pure ?_
    rw [← hs.speech, show ([] : List ToolCall) = s.calls from hcalls.symm]
  | cons execution rest ih =>
    unfold recordBatch
    rcases completions[execution.sourceIndex]? with _ | _ | ⟨result, terminate⟩
    · exact panicked_follows hs.running
    · exact panicked_follows hs.running
    · refine .bind _ (appendToolResultMessage_follows hs hasked hcalls _) ?_
      rintro _ _ rfl
      refine .bind _ (observeToolFailure_steady execution.call _ _ (hs.silent _)) ?_
      rintro observed _ rfl
      exact ih (hs.silent _) hasked rfl _ _ _

theorem executeToolCalls_follows (fuel : Nat) (hs : InTurn s) (hasked : s.asked = true)
    {calls : List ToolCall} (hcalls : s.calls = calls) :
    (executeToolCalls h fuel calls).Follows (machine h)
      (fun _ x => x = { s with speech := .silent, calls := [] }) (Failed h) s := by
  unfold executeToolCalls
  by_cases hseq : hasSequentialTool h calls = true
  · simp only [hseq, if_true]
    exact executeToolCallsSequential_follows fuel hs hasked hcalls true
  · simp only [hseq]
    refine .bind _ (resetUpdates_steady s hs) ?_
    rintro _ s rfl
    refine .bind _ (prepareBatch_follows hs calls 0 _) ?_
    rintro prepared s ⟨hprepared, rfl⟩
    refine .bind _ (startBatch_steady prepared.1 s hs) ?_
    rintro pending s rfl
    refine .bind _ (runBatch_steady fuel fuel pending [] prepared.2 s hs) ?_
    rintro completions s rfl
    exact recordBatch_follows hs hasked (hcalls.trans hprepared.symm) _ _ _

end Tea.Lifecycle
