/-
  Tea/Lifecycle/FollowDrive.lean
  ==============================
  **The run loop follows the lifecycle machine**: requests, turns, settlement and
  `drive` itself (`drive_follows`).
-/
import Tea.Lifecycle.FollowCompaction

namespace Tea.Lifecycle

open Tea.Async Tea.Core Tea.Run

variable {h : RunHandle} {s : Stage} {α : Type}

/-! ### The request -/

theorem Consistent.ownedBy {w : World} (hw : Consistent s w) (hlife : s.life.running = true) :
    w.agent.phase.ownedBy s.runId = true := by
  obtain ⟨_, _, hown⟩ := hw.owned hlife
  rw [← hw.id, AgentPhase.ownedBy]
  rcases hown.phase with hphase | hphase <;> simp [hphase]

/-- The run owns the agent, so the request is made; a hook may reject its context. -/
theorem modelRequest_follows (hs : Resting s) (st : LoopState)
    (context : Option ContextEnvelope) :
    (modelRequest h s.runId st context).Follows (machine h)
      (fun _ x => x = { s with asked := true }) (Failed h) s := by
  have hasked : Resting { s with asked := true } :=
    ⟨⟨hs.life, hs.speech, hs.fault⟩, hs.batch, hs.calls⟩
  refine .bind (fun claimed x => (∃ value, claimed = .ok value) ∧ x = { s with asked := true })
    (fun w hw => ?_) ?_
  · simp only [if_pos (hw.ownedBy hs.running)]
    exact ⟨_, .claim hs.toInTurn, ⟨_, rfl⟩, rfl⟩
  rintro _ _ ⟨⟨claimed, rfl⟩, rfl⟩
  refine .bind (fun _ x => x = { s with asked := true }) (Future.Follows.done rfl) ?_
  rintro claimed _ rfl
  refine .bind (fun _ x => x = { s with asked := true }) ?_ ?_
  · refine (buildProviderContext_follows hasked.running _).weaken (fun _ _ => id) ?_
    rintro _ _ rfl
    exact hasked.failed
  rintro provided _ rfl
  exact rfl

theorem emitContextEstimate_steady (request : ModelRequest) (estimator : ContextEstimator) :
    Steady h (emitContextEstimate request estimator) :=
  Steady.read.bind fun _ => Steady.read.bind fun _ => .emit rfl

theorem openStream_follows (hs : Resting s) (hdue : s.due = true) (request : ModelRequest) :
    (openStream h request).Follows (machine h)
      (fun _ x => x = { s with response := [], reading := true, decision := none, due := false })
      (Failed h) s := by
  unfold openStream
  by_cases hprovider : h.agent.hasProvider = true
  · simp only [if_pos hprovider]
    refine .bind (fun reply x =>
      (reply = .ok () ∧
          x = { s with response := [], reading := true, decision := none, due := false }) ∨
        (∃ error, reply = .error error) ∧
          x = { s with response := [], decision := none, due := false }) ?_ ?_
    · refine ⟨hs.running, ?_⟩
      rintro (error | ⟨⟩)
      · exact ⟨_, .unopened hs.toInTurn hs.calls hdue, .inr ⟨⟨error, rfl⟩, rfl⟩⟩
      · exact ⟨_, .opened hs.toInTurn hs.calls hdue, .inl ⟨rfl, rfl⟩⟩
    · rintro _ _ (⟨rfl, rfl⟩ | ⟨⟨error, rfl⟩, rfl⟩)
      · exact rfl
      · have hrest : Resting { s with response := [], decision := none, due := false } :=
          ⟨⟨hs.life, hs.speech, hs.fault⟩, hs.batch, hs.calls⟩
        exact Future.Follows.fail hrest.failed
  · simp only [if_neg hprovider]
    exact Future.Follows.fail hs.failed

/-! ### Overflow recovery -/

/-- The response has been received, and its tool calls are open. -/
structure Answered (response : ConsumedResponse) (s : Stage) : Prop extends InTurn s where
  batch : s.batch = []
  asked : s.asked = true
  calls : s.calls = response.toolCalls
  reason : (collect s.response).reason = some response.reason
  overflow : (collect s.response).contextOverflow = response.contextOverflow

/-- No retry is left to be decided. -/
def Decided (h : RunHandle) (s : Stage) : Prop :=
  (collect s.response).contextOverflow = true → retriesOverflow h → s.decision = some false

theorem Answered.badEnd {response : ConsumedResponse} (hs : Answered response s)
    (hdecided : Decided h s) (htools : response.reason ≠ .toolUse)
    (hlength : response.reason ≠ .length) : BadEnd h s := by
  refine ⟨?_, hdecided⟩
  unfold endsForTools
  rw [hs.reason]
  simp [htools, hlength]

theorem noteContinuation_follows (hs : InTurn s) {contextOverflow : Bool}
    (hreason : (collect s.response).reason ≠ none)
    (hoverflow : (collect s.response).contextOverflow = contextOverflow) :
    (noteContinuation contextOverflow).Follows (machine h) (fun _ x => x = s) (Failed h) s := by
  refine whenever_follows (fun hno => ?_) fun _ => rfl
  have hfalse : contextOverflow = false := by simpa using hno
  intro w _
  exact ⟨s, .policy hs rfl rfl (.inr ⟨rfl, hreason, hoverflow.trans hfalse⟩), rfl⟩

/-- Without a retry the response stays as it is. -/
theorem recoverOverflow_follows {response : ConsumedResponse} (hs : Answered response s)
    {count : Nat} (hmark : s.mark = some count) (estimator : ContextEstimator) :
    (recoverOverflow h estimator count response.contextOverflow).Follows (machine h)
      (fun retried x =>
        ((∃ estimator, retried = some estimator) ∧ Resting x ∧ x.due = true ∧
            x.turn = s.turn ∧ x.runId = s.runId) ∨
          (retried = none ∧ Answered response x ∧ Decided h x ∧ x.turn = s.turn ∧
            x.runId = s.runId)) (Failed h) s := by
  unfold recoverOverflow
  by_cases hretry : response.contextOverflow = true ∧ h.agent.automaticCompaction.enabled = true ∧
      h.agent.automaticCompaction.overflowRecovery = .compactAndRetry
  swap
  · simp only [if_neg hretry]
    refine Future.Follows.pure (.inr ⟨rfl, hs, fun hover hretries => ?_, rfl, rfl⟩)
    exact absurd ⟨hs.overflow ▸ hover, hretries⟩ hretry
  simp only [if_pos hretry]
  refine .bind (fun allowed x => x = { s with decision := some allowed })
    (fun w _ => ⟨_, .decide hs.toInTurn (hs.overflow.trans hretry.1), rfl⟩) ?_
  rintro (_ | _) _ rfl
  · -- the run has used up its retries
    have hturn : InTurn { s with decision := some false } := ⟨hs.life, hs.speech, hs.fault⟩
    simp only [Bool.false_eq_true, if_false]
    refine .bind (fun _ x => x = { s with decision := some false }) (emit_side hturn rfl rfl) ?_
    rintro _ _ rfl
    exact .inr ⟨rfl, ⟨hturn, hs.batch, hs.asked, hs.calls, hs.reason, hs.overflow⟩,
      fun _ _ => rfl, rfl, rfl⟩
  · have hrest : Resting
        { s with decision := some true, calls := [], mark := none, due := true } :=
      ⟨⟨hs.life, hs.speech, hs.fault⟩, hs.batch, rfl⟩
    simp only [if_true]
    refine .bind (fun _ x =>
        x = { s with decision := some true, calls := [], mark := none, due := true })
      (fun w _ => ⟨_, .truncate ⟨hs.life, hs.speech, hs.fault⟩ hs.asked hmark rfl rfl, rfl⟩) ?_
    rintro _ _ rfl
    refine .bind _ (maybeAutomaticCompaction_follows hrest estimator .overflow true) ?_
    rintro compacted x hx
    obtain ⟨proposal, mark, reserved, rfl⟩ := id hx
    exact .inl ⟨⟨_, rfl⟩, hx.resting hrest, rfl, rfl, rfl⟩

/-! ### The ends of a run -/

theorem finish_follows {phase : RunPhase} {reason : StopReason} {error : Option String}
    {err : CoreError → Stage → Prop} (hlife : s.life = .ended ∨ s.life = .settledEnd)
    (hphase : phase.isTerminal = true) :
    (finish phase reason error).Follows (machine h)
      (fun _ x => x = { s with life := .settled phase }) err s := by
  have hrunning : s.life.running = true := by
    rcases hlife with hlife | hlife <;> rw [hlife] <;> rfl
  refine .bind (fun finished x => finished = .ok () ∧ x = { s with life := .finished phase })
    (fun w hw => ?_) ?_
  · have hnot : ¬ w.run.phase.isTerminal = true := by
      rw [(hw.owned hrunning).1]
      simp [RunPhase.isTerminal]
    simp only [if_neg hnot]
    exact ⟨_, .finish hlife hphase, rfl, rfl⟩
  rintro _ _ ⟨rfl, rfl⟩
  exact fun w _ => ⟨_, .settle rfl, rfl⟩

theorem emitAgentEnd_follows (hlife : s.life = .turnClosed ∨ s.life = .drained)
    (hbatch : s.batch = []) (hfault : s.fault = none) :
    (emitAgentEnd h).Follows (machine h)
      (fun _ x => ∃ messages, x = { s with life := .ended, report := some messages })
      (Failed h) s := by
  refine .bind (fun messages x => x = { s with report := some messages })
    (fun w _ => ⟨_, .report (hlife.imp_right .inl), rfl⟩) ?_
  rintro messages _ rfl
  exact emit_loop (.agentEnd hlife hbatch hfault rfl) rfl ⟨messages, rfl⟩

/-- A failed run leaves the loop with the error of its response. -/
theorem finish_failed (phase : RunPhase) {reason : StopReason} {error : Option String}
    {result : CoreError} (hlife : s.life = .ended) (hfault : s.fault = none)
    (hphase : phase.isTerminal = true) (hne : phase ≠ .succeeded) {ok : α → Stage → Prop} :
    (finish phase reason error >>= fun _ => (.fail result : Drive α)).Follows (machine h) ok
      (Failed h) s := by
  refine .bind _ (finish_follows (.inl hlife) hphase) ?_
  rintro _ _ rfl
  refine Future.Follows.fail ?_
  simp only [Failed, LoopFailed, hfault]
  exact .inr (.inl ⟨phase, rfl, hne⟩)

theorem emitAgentEndAndSucceed_follows (hlife : s.life = .turnClosed ∨ s.life = .drained)
    (hbatch : s.batch = []) (hfault : s.fault = none) (reason : StopReason) :
    (emitAgentEndAndSucceed h reason).Follows (machine h)
      (fun _ x => x.life = .settled .succeeded) (Failed h) s := by
  refine .bind _ (emitAgentEnd_follows hlife hbatch hfault) ?_
  rintro _ _ ⟨messages, rfl⟩
  refine (finish_follows (.inl rfl) rfl).weaken ?_ fun _ _ => id
  rintro _ _ rfl
  rfl

/-- The turn is closed and reported by a failed response, whatever it left open. -/
theorem closeFailedTurn_follows (hs : InTurn s) (hbatch : s.batch = [])
    (hcalls : s.calls = [] ∨ BadEnd h s) {turnId : TurnId} (hturn : turnId = s.turn)
    (reason : StopReason) {next : Drive α} {ok : α → Stage → Prop}
    (hnext : ∀ x, x.life = .ended → x.fault = none →
      next.Follows (machine h) ok (Failed h) x) :
    (emit (.turnEnd turnId reason) >>= fun _ => emitAgentEnd h >>= fun _ => next).Follows
      (machine h) ok (Failed h) s := by
  subst hturn
  refine .bind (fun _ x => x = { s with life := .turnClosed, report := none, mark := none })
    (emit_loop (.turnEnd hs hbatch hcalls) rfl rfl) ?_
  rintro _ _ rfl
  refine .bind _ (emitAgentEnd_follows (.inl rfl) hbatch hs.fault) ?_
  rintro _ _ ⟨messages, rfl⟩
  exact hnext _ rfl hs.fault

theorem failModelResponse_follows (hs : InTurn s) (hbatch : s.batch = [])
    (hbad : BadEnd h s) {turnId : TurnId} (hturn : turnId = s.turn) (reason : StopReason)
    (errorMessage : Option String) {ok : Option LoopState → Stage → Prop} :
    (failModelResponse h turnId reason errorMessage).Follows (machine h) ok (Failed h) s := by
  refine closeFailedTurn_follows hs hbatch (.inr hbad) hturn reason fun x hlife hfault => ?_
  by_cases haborted : reason = .aborted
  · simp only [if_pos haborted]
    refine .bind (fun _ y => y = x) (isCancelled_follows (by rw [hlife]; rfl) fun _ => rfl) ?_
    rintro (_ | _) x rfl
    · exact finish_failed .failed hlife hfault rfl nofun
    · exact finish_failed .cancelled hlife hfault rfl nofun
  · simp only [if_neg haborted]
    exact finish_failed .failed hlife hfault rfl nofun

theorem cancelModelResponse_follows (hs : InTurn s) (hbatch : s.batch = [])
    (hbad : BadEnd h s) {turnId : TurnId} (hturn : turnId = s.turn)
    {ok : Option LoopState → Stage → Prop} :
    (cancelModelResponse h turnId).Follows (machine h) ok (Failed h) s :=
  closeFailedTurn_follows hs hbatch (.inr hbad) hturn .cancelled fun _ hlife hfault =>
    finish_failed .cancelled hlife hfault rfl nofun

theorem tripCircuitBreaker_follows (hs : Resting s) {turnId : TurnId} (hturn : turnId = s.turn)
    (message : String) {ok : Option LoopState → Stage → Prop} :
    (tripCircuitBreaker h turnId message).Follows (machine h) ok (Failed h) s := by
  refine .bind (fun _ x => x = s) (emit_side hs.toInTurn rfl rfl) ?_
  rintro _ s rfl
  exact closeFailedTurn_follows hs.toInTurn hs.batch (.inl hs.calls) hturn .error
    fun _ hlife hfault => finish_failed .failed hlife hfault rfl nofun

/-! ### The boundary between two turns -/

/-- A turn is closed and nothing is left open. -/
structure Closed (s : Stage) : Prop where
  life : s.life = .turnClosed
  speech : s.speech = .silent
  batch : s.batch = []
  calls : s.calls = []
  mark : s.mark = none
  fault : s.fault = none

/-- What an iteration of the loop leaves: the next one may start, or the run has
    succeeded. -/
def TurnLeft (runId : RunId) : Option LoopState → Stage → Prop
  | some st, x => Resting x ∧ x.due = true ∧ st.turnId = x.turn ∧ x.runId = runId
  | none, x => x.life = .settled .succeeded

theorem injectQueuedMessages_follows (hs : InTurn s) (hcalls : s.calls = [])
    (hmark : s.mark = none) (context : ContextEnvelope) {queued : List QueuedMessage} (hbatch : s.batch = queued) :
    (injectQueuedMessages context queued).Follows (machine h)
      (fun _ x => x = { s with speech := .silent, batch := [] }) (Failed h) s := by
  induction queued generalizing s context with
  | nil =>
    refine Future.Follows.pure ?_
    rw [← hs.speech, ← hbatch]
  | cons message rest ih =>
    refine .bind _ (lockAgent_append (fun id => .user id message.content)
      (fun appended => { s with speech := .pushed appended, batch := rest })
      (fun id => .user hs hcalls hmark hbatch) (fun _ => rfl)
      fun _ => ⟨rfl, rfl, rfl, rfl⟩) ?_
    rintro appended _ ⟨_, rfl⟩
    refine .bind _ (announce_pushed ⟨hs.life, hs.fault⟩ rfl) ?_
    rintro _ _ rfl
    exact ih (s := { s with speech := .silent, batch := rest }) ⟨hs.life, rfl, hs.fault⟩ hcalls
      hmark _ rfl

/-- The follow-up queue is polled where the run would end. -/
theorem pollQueues_follows (hlife : s.life = .polling) (hbatch : s.batch = [])
    (hasMoreToolCalls : Bool) :
    (pollQueues hasMoreToolCalls).Follows (machine h)
      (fun queued x => ∃ life, x = { s with life := life, batch := queued, polled := true } ∧
        (life = .drained ∨ life = .polled ∧ (hasMoreToolCalls = true ∨ queued ≠ [])))
      (Failed h) s := by
  refine .bind (fun queued x => x = { s with life := .polled, batch := queued, polled := true })
    (fun w _ => ⟨_, .drainSteering hlife hbatch, rfl⟩) ?_
  rintro queued _ rfl
  by_cases hempty : (!hasMoreToolCalls) = true ∧ queued = []
  · simp only [if_pos hempty]
    exact fun w _ => ⟨_, .drainFollowUp rfl hempty.2, .drained, rfl, .inl rfl⟩
  · simp only [if_neg hempty]
    refine ⟨.polled, rfl, .inr ⟨rfl, ?_⟩⟩
    by_cases hmore : hasMoreToolCalls = true
    · exact .inl hmore
    · exact .inr fun hqueued => hempty ⟨by simp [hmore], hqueued⟩

theorem advanceTurn_follows (hlife : s.life = .polled ∨ s.life = .drained) :
    (advanceTurn (nextTurnId s.turn)).Follows (machine h)
      (fun _ x => x = { s with life := .advanced, turn := nextTurnId s.turn }) (Failed h) s := by
  refine .bind (fun advanced x => advanced = .ok () ∧
    x = { s with life := .advanced, turn := nextTurnId s.turn }) (fun w hw => ?_) ?_
  · have hrunning := (hw.owned (by rcases hlife with hlife | hlife <;> rw [hlife] <;> rfl)).1
    simp only [if_pos hrunning]
    exact ⟨_, .advance hlife, rfl, rfl⟩
  · rintro _ _ ⟨rfl, rfl⟩
    exact rfl

theorem nextTurn_follows (hs : Closed { s with life := .turnClosed }) (hlife : s.life = .polling)
    {st : LoopState} (hturn : st.turnId = s.turn) (reason : StopReason) (hasMoreToolCalls : Bool)
    (preparedContext : ContextEnvelope) :
    (nextTurn h st reason hasMoreToolCalls preparedContext).Follows (machine h)
      (TurnLeft s.runId) (Failed h) s := by
  refine .bind _ (pollQueues_follows hlife hs.batch hasMoreToolCalls) ?_
  rintro queued _ ⟨life, rfl, hlife⟩
  by_cases hmore : hasMoreToolCalls = true ∨ queued ≠ []
  · simp only [if_pos hmore, hturn]
    refine .bind _ (advanceTurn_follows
      (s := { s with life := life, batch := queued, polled := true }) ?_) ?_
    · exact hlife.symm.imp_left And.left
    rintro _ _ rfl
    let opened : Stage := { s with
      life := .turnOpen, turn := nextTurnId s.turn, batch := queued, polled := true, due := true }
    refine .bind (fun _ x => x = opened) (emit_loop (.turnStart (.inr rfl)) rfl rfl) ?_
    rintro _ _ rfl
    have hopened : InTurn opened := ⟨rfl, hs.speech, hs.fault⟩
    refine .bind _ (injectQueuedMessages_follows hopened hs.calls hs.mark _ rfl) ?_
    rintro context _ rfl
    exact ⟨⟨⟨rfl, rfl, hs.fault⟩, rfl, hs.calls⟩, rfl, rfl, rfl⟩
  · simp only [if_neg hmore]
    have hdrained : life = .drained := hlife.resolve_right fun hpolled => hmore hpolled.2
    have hempty : queued = [] := by
      by_contra hne
      exact hmore (.inr hne)
    refine .bind (fun _ x => x.life = .settled .succeeded)
      (emitAgentEndAndSucceed_follows
        (s := { s with life := life, batch := queued, polled := true })
        (.inr hdrained) hempty hs.fault reason) ?_
    rintro _ x hx
    exact hx

theorem Closed.boundary_failed (hs : Closed s) :
    LoopFailed h { s with fault := some .boundaryHook } :=
  ⟨hs.life, hs.speech, hs.batch, hs.calls⟩

theorem finishTurn_follows (hs : Closed s) {st : LoopState} (hturn : st.turnId = s.turn)
    (reason : StopReason) (hasMoreToolCalls : Bool) :
    (finishTurn h st reason hasMoreToolCalls).Follows (machine h) (TurnLeft s.runId)
      (Failed h) s := by
  have hrunning : s.life.running = true := by rw [hs.life]; rfl
  have hworks : s.life.works = true := by rw [hs.life]; rfl
  refine .bind (fun _ x => x = s) (currentContext_follows hworks fun _ => rfl) ?_
  rintro current s rfl
  refine .bind (fun update x => (∃ value, update = .ok value) ∧ x = s ∨
    (∃ error, update = .error error) ∧ x = { s with fault := some .boundaryHook }) ?_ ?_
  · refine ⟨hrunning, ?_⟩
    rintro (error | update)
    · exact ⟨_, .unprepared hs.life hs.fault, .inr ⟨⟨error, rfl⟩, rfl⟩⟩
    · exact ⟨s, .passive ⟨update, rfl⟩, .inl ⟨⟨update, rfl⟩, rfl⟩⟩
  rintro _ s (⟨⟨update, rfl⟩, rfl⟩ | ⟨⟨error, rfl⟩, rfl⟩)
  swap
  · exact Future.Follows.fail hs.boundary_failed
  refine .bind (fun _ x => x = s) (Future.Follows.done rfl) ?_
  rintro update s rfl
  refine .bind (fun stop x => (stop = .ok true ∧ x = s) ∨
    (stop = .ok false ∧ x = { s with life := .polling, polled := true }) ∨
    (∃ error, stop = .error error) ∧ x = { s with fault := some .boundaryHook }) ?_ ?_
  · refine ⟨hrunning, ?_⟩
    rintro (error | _ | _)
    · exact ⟨_, .undecided hs.life hs.fault, .inr (.inr ⟨⟨error, rfl⟩, rfl⟩)⟩
    · exact ⟨_, .declined hs.life hs.fault, .inr (.inl ⟨rfl, rfl⟩)⟩
    · exact ⟨s, .passive rfl, .inl ⟨rfl, rfl⟩⟩
  rintro _ s (⟨rfl, rfl⟩ | ⟨rfl, rfl⟩ | ⟨⟨error, rfl⟩, rfl⟩)
  · refine .bind (fun stop x => stop = true ∧ x = s) (Future.Follows.done ⟨rfl, rfl⟩) ?_
    rintro _ s ⟨rfl, rfl⟩
    refine .bind _ (emitAgentEndAndSucceed_follows (.inl hs.life) hs.batch hs.fault reason) ?_
    rintro _ x hx
    exact hx
  · refine .bind (fun stop x => stop = false ∧ x = { s with life := .polling, polled := true })
      (Future.Follows.done ⟨rfl, rfl⟩) ?_
    rintro _ _ ⟨rfl, rfl⟩
    refine nextTurn_follows (s := { s with life := .polling, polled := true })
      ⟨rfl, hs.speech, hs.batch, hs.calls, hs.mark, hs.fault⟩ rfl ?_ reason hasMoreToolCalls _
    exact hturn
  · exact Future.Follows.fail hs.boundary_failed

/-! ### The turn -/

/-- The batch closes every tool call of the response; without one, the calls of a
    response that does not end for tools stay open in the failure. -/
theorem executeBatch_follows {response : ConsumedResponse} (hs : Answered response s)
    (hdecided : Decided h s) (fuel : Nat) :
    (executeBatch h fuel response.reason response.toolCalls).Follows (machine h)
      (fun _ x => x = { s with speech := .silent, calls := [] }) (Failed h) s := by
  unfold executeBatch
  by_cases hnone : response.toolCalls = []
  · simp only [if_pos hnone]
    refine Future.Follows.pure ?_
    rw [← hs.speech, ← hnone, ← hs.calls]
  simp only [if_neg hnone]
  by_cases hlength : response.reason = .length
  · simp only [if_pos hlength]
    refine .bind _ (failTruncatedToolCalls_follows hs.toInTurn hs.asked hs.calls) ?_
    rintro _ x rfl
    exact rfl
  simp only [if_neg hlength]
  by_cases htools : response.reason = .toolUse
  · simp only [if_neg (not_not.mpr htools)]
    exact executeToolCalls_follows fuel hs.toInTurn hs.asked hs.calls
  · simp only [if_pos htools]
    exact Future.Follows.fail
      (hs.toInTurn.failed hs.batch (.inr (hs.badEnd hdecided htools hlength)))

theorem completeTurn_follows {response : ConsumedResponse} (hs : Answered response s)
    (hdecided : Decided h s) (fuel : Nat) {st : LoopState} (hturn : st.turnId = s.turn) :
    (completeTurn h fuel st response.reason response.toolCalls).Follows (machine h)
      (TurnLeft s.runId) (Failed h) s := by
  let batched : Stage := { s with speech := .silent, calls := [] }
  have hrest : Resting batched := ⟨⟨hs.life, rfl, hs.fault⟩, hs.batch, rfl⟩
  refine .bind (fun _ x => x = batched) (executeBatch_follows hs hdecided fuel) ?_
  rintro ⟨allTerminate, _ | message⟩ _ rfl
  · rw [show st.turnId = batched.turn from hturn]
    refine .bind (fun _ x => x = { batched with
      life := .turnClosed, report := none, mark := none })
      (emit_loop (.turnEnd hrest.toInTurn hrest.batch (.inl rfl)) rfl rfl) ?_
    rintro _ _ rfl
    exact finishTurn_follows
      (s := { batched with life := .turnClosed, report := none, mark := none })
      ⟨rfl, rfl, hs.batch, rfl, rfl, hs.fault⟩ hturn response.reason _
  · exact tripCircuitBreaker_follows hrest hturn message

theorem afterResponse_follows {response : ConsumedResponse} (hs : Answered response s)
    (hdecided : Decided h s) (fuel : Nat) {st : LoopState} (hturn : st.turnId = s.turn) :
    (afterResponse h fuel st response).Follows (machine h) (TurnLeft s.runId) (Failed h) s := by
  unfold afterResponse
  by_cases hfailed : response.reason = .error ∨ response.reason = .aborted
  · simp only [if_pos hfailed]
    refine failModelResponse_follows hs.toInTurn hs.batch (hs.badEnd hdecided ?_ ?_) hturn _ _
    · rcases hfailed with hreason | hreason <;> simp [hreason]
    · rcases hfailed with hreason | hreason <;> simp [hreason]
  simp only [if_neg hfailed]
  by_cases hcancelled : response.reason = .cancelled
  swap
  · simp only [if_neg hcancelled]
    exact completeTurn_follows hs hdecided fuel hturn
  simp only [if_pos hcancelled]
  refine .bind (fun _ x => x = s) (isCancelled_follows hs.idle fun _ => rfl) ?_
  rintro (_ | _) s rfl
  · exact completeTurn_follows hs hdecided fuel hturn
  · have hbad := hs.badEnd hdecided (by simp [hcancelled]) (by simp [hcancelled])
    exact cancelModelResponse_follows hs.toInTurn hs.batch hbad hturn

theorem thresholdCompaction_follows (hs : Resting s) {st : LoopState} :
    (thresholdCompaction h st).Follows (machine h)
      (fun st' x => Compacted s x ∧ st'.turnId = st.turnId) (Failed h) s := by
  unfold thresholdCompaction
  by_cases hcompleted : st.completedAssistantTurn = true
  · simp only [if_pos hcompleted]
    refine .bind _ (maybeAutomaticCompaction_follows hs st.estimator .threshold false) ?_
    rintro compacted x hx
    exact ⟨hx, rfl⟩
  · simp only [if_neg hcompleted]
    exact ⟨⟨s.proposal, s.mark, s.reserved, rfl⟩, rfl⟩

/-- One iteration of the loop. -/
theorem turn_follows (hs : Resting s) (hdue : s.due = true) (fuel : Nat) {st : LoopState}
    (hturn : st.turnId = s.turn) :
    (turn h fuel s.runId st).Follows (machine h) (TurnLeft s.runId) (Failed h) s := by
  refine .bind _ (thresholdCompaction_follows hs) ?_
  rintro st' s' ⟨hcompacted, hsame⟩
  have hs' : Resting s' := hcompacted.resting hs
  have hturn' : s'.due = true ∧ st'.turnId = s'.turn ∧ s'.runId = s.runId := by
    obtain ⟨proposal, mark, reserved, rfl⟩ := hcompacted
    exact ⟨hdue, hsame.trans hturn, rfl⟩
  clear hcompacted hsame hturn hs
  obtain ⟨hdue', hturn', hrun⟩ := hturn'
  rw [← hrun]
  refine .bind (fun count x => x = { s' with mark := some count })
    (fun w _ => ⟨_, .mark hs'.toInTurn hs'.calls, rfl⟩) ?_
  rintro count _ rfl
  have hmarked : Resting { s' with mark := some count } :=
    ⟨⟨hs'.life, hs'.speech, hs'.fault⟩, hs'.batch, hs'.calls⟩
  refine .bind _ (modelRequest_follows hmarked st' st'.nextContext) ?_
  rintro request _ rfl
  let asked : Stage := { s' with mark := some count, asked := true }
  have hasked : Resting asked := ⟨⟨hs'.life, hs'.speech, hs'.fault⟩, hs'.batch, hs'.calls⟩
  refine .bind (fun _ x => x = asked)
    (Steady.whenever (emitContextEstimate_steady request st'.estimator) asked hasked.toInTurn) ?_
  rintro _ _ rfl
  refine .bind _ (openStream_follows hasked hdue' request) ?_
  rintro _ _ rfl
  let opened : Stage := { asked with
    response := [], reading := true, decision := none, due := false }
  have hopened : Asking opened :=
    ⟨⟨⟨hs'.life, hs'.speech, hs'.fault⟩, hs'.batch, hs'.calls⟩, rfl, rfl⟩
  refine .bind _ (consumeAssistantStream_follows hopened rfl fuel st'.turnId request.model) ?_
  rintro response _ ⟨events, rfl, hcalls, hreason, hoverflow⟩
  let read : Stage := { opened with
    speech := .silent, response := events, calls := (collect events).toolCalls, reading := false }
  have hread : Answered response read :=
    ⟨⟨hs'.life, rfl, hs'.fault⟩, hs'.batch, rfl, hcalls.symm, hreason.symm, hoverflow.symm⟩
  refine .bind (fun _ x => x = read) (noteContinuation_follows hread.toInTurn (by rw [hread.reason]; exact Option.some_ne_none _) hread.overflow) ?_
  rintro _ _ rfl
  refine .bind _ (recoverOverflow_follows hread rfl _) ?_
  rintro _ x (⟨⟨estimator, rfl⟩, hx, hxdue, hxturn, hxrun⟩ | ⟨rfl, hx, hdecided, hxturn, hxrun⟩)
  · exact ⟨hx, hxdue, hturn'.trans hxturn.symm, hxrun⟩
  · rw [show s'.runId = x.runId from hxrun.symm]
    exact afterResponse_follows hx hdecided fuel (hturn'.trans hxturn.symm)

/-! ### The loop -/

theorem driveLoop_follows (hs : Resting s) (hdue : s.due = true) (fuel n : Nat)
    {st : LoopState} (hturn : st.turnId = s.turn) :
    (driveLoop h fuel s.runId n st).Follows (machine h)
      (fun _ x => x.life = .settled .succeeded) (Failed h) s := by
  induction n generalizing s st with
  | zero => exact exhausted_follows hs.running
  | succ n ih =>
    refine .bind _ (turn_follows hs hdue fuel hturn) ?_
    rintro (_ | st') x hx
    · exact hx
    · obtain ⟨hrest, hdue', hturn', hrun⟩ := hx
      rw [← hrun]
      exact ih hrest hdue' hturn'

theorem initialSteering_follows (hs : Resting s) (hmark : s.mark = none)
    (hfresh : s.polled = false ∧ s.asked = false) :
    (initialSteering h).Follows (machine h)
      (fun _ x => Resting x ∧ x.due = s.due ∧ x.turn = s.turn ∧ x.runId = s.runId)
      (Failed h) s := by
  unfold initialSteering
  by_cases hskip : h.skipInitialSteering = true
  · simp only [if_pos hskip]
    exact ⟨hs, rfl, rfl, rfl⟩
  simp only [if_neg hskip]
  have hpolls : h.skipInitialSteering = false := Bool.eq_false_iff.mpr hskip
  refine .bind (fun _ x => x = s) (currentContext_follows hs.works fun _ => rfl) ?_
  rintro context s rfl
  refine .bind (fun queued x => x = { s with batch := queued, polled := true })
    (fun w _ => ⟨_, .firstSteering hs.toInTurn hfresh hpolls hs.batch, rfl⟩) ?_
  rintro queued _ rfl
  refine .bind _ (injectQueuedMessages_follows
    (s := { s with batch := queued, polled := true }) ⟨hs.life, hs.speech, hs.fault⟩ hs.calls
    hmark context rfl) ?_
  rintro context _ rfl
  exact ⟨⟨⟨hs.life, rfl, hs.fault⟩, rfl, hs.calls⟩, rfl, rfl, rfl⟩

/-- The stage of a run before its first drive. -/
def Stage.claimed (runId : RunId) : Stage where
  runId

theorem startTurn_follows (runId : RunId) :
    (startTurn ⟨1⟩).Follows (machine h)
      (fun _ x => x = { Stage.claimed runId with life := .opening }) (Failed h)
      (Stage.claimed runId) := by
  refine .bind (fun started x =>
    (started = .ok () ∧ x = { Stage.claimed runId with life := .opening }) ∨
      (∃ error, started = .error error) ∧ x = { Stage.claimed runId with life := .rejected })
    (fun w _ => ?_) ?_
  · by_cases hcreated : w.run.phase = .created
    · simp only [if_pos hcreated]
      exact ⟨_, .begin rfl hcreated, .inl ⟨rfl, rfl⟩⟩
    · simp only [if_neg hcreated]
      exact ⟨_, .reject rfl hcreated, .inr ⟨⟨_, rfl⟩, rfl⟩⟩
  · rintro _ _ (⟨rfl, rfl⟩ | ⟨⟨error, rfl⟩, rfl⟩)
    · exact rfl
    · exact Future.Follows.fail (.inl rfl)

theorem driveHeld_follows (fuel : Nat) (runId : RunId) :
    (driveHeld h fuel).Follows (machine h) (fun _ x => x.life = .settled .succeeded) (Failed h)
      (Stage.claimed runId) := by
  refine .bind (fun id x => id = runId ∧ x = Stage.claimed runId)
    (read_follows rfl fun w hw => ⟨hw.id, rfl⟩) ?_
  rintro runId _ ⟨rfl, rfl⟩
  refine .bind _ (startTurn_follows runId) ?_
  rintro _ _ rfl
  refine .bind (fun owned x => owned = true ∧ x = { Stage.claimed runId with life := .opening })
    (read_follows rfl fun w hw => ⟨hw.ownedBy rfl, rfl⟩) ?_
  rintro _ _ ⟨rfl, rfl⟩
  simp only [if_true]
  refine .bind (fun _ x => x = { Stage.claimed runId with life := .started })
    (emit_loop (.agentStart rfl) rfl rfl) ?_
  rintro _ _ rfl
  let opened : Stage := { Stage.claimed runId with life := .turnOpen, due := true }
  have hopened : Resting opened := ⟨⟨rfl, rfl, rfl⟩, rfl, rfl⟩
  refine .bind (fun _ x => x = opened) (emit_loop (.turnStart (.inl rfl)) rfl rfl) ?_
  rintro _ _ rfl
  refine .bind (fun _ x => x = opened)
    (announceAll_follows hopened.toInTurn ⟨rfl, rfl⟩ h.initialMessages fun _ hm => hm) ?_
  rintro _ _ rfl
  refine .bind _ (initialSteering_follows hopened rfl ⟨rfl, rfl⟩) ?_
  rintro nextContext x ⟨hrest, hdue, hturn, hrun⟩
  rw [show runId = x.runId from hrun.symm]
  exact driveLoop_follows hrest hdue fuel fuel hturn.symm

theorem driveInner_follows (fuel : Nat) (runId : RunId) :
    (driveInner h fuel).Follows (machine h) (fun _ x => x.life = .settled .succeeded) (Failed h)
      (Stage.claimed runId) := by
  refine .bind (fun held x => held = true ∧ x = Stage.claimed runId)
    (read_follows rfl fun w hw => ⟨hw.held, rfl⟩) ?_
  rintro _ _ ⟨rfl, rfl⟩
  exact driveHeld_follows fuel runId

end Tea.Lifecycle
