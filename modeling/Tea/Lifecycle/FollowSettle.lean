/-
  Tea/Lifecycle/FollowSettle.lean
  ===============================
  **`drive` follows the lifecycle machine** (`drive_follows`).

  The settlement of a failed loop emits the end of the turn and of the agent
  whether or not its observers accept them, so its stages are known up to the
  fault (`Settling`).
-/
import Tea.Lifecycle.FollowDrive

namespace Tea.Lifecycle

open Tea.Async Tea.Core Tea.Run

variable {h : RunHandle} {s : Stage} {err : CoreError → Stage → Prop}

/-! ### Settlement -/

/-- The settlement of a turn has come to `life`. -/
structure Settling (turn : TurnId) (life : Life) (s : Stage) : Prop where
  life : s.life = life
  turn : s.turn = turn

theorem Settling.idle {turn : TurnId} (hs : Settling turn .failing s) : s.life.polls = false := by
  rw [hs.life]
  rfl

/-- An event whose rejection is ignored. -/
theorem ignoreEmit_follows {kind : AgentEventKind} {s' : Stage} (hr : Records h s kind s')
    {ok : Unit → Stage → Prop} (hok : ∀ fault, ok () { s' with fault := fault }) :
    (ignore (emit kind)).Follows (machine h) ok err s := by
  refine ignore_follows ((emit_follows hr).weaken ?_ fun _ x hx => hx) ?_
  · rintro _ s' rfl
    exact hok s'.fault
  · rintro _ _ rfl
    exact hok (some .observer)

/-- Announce the message that the settlement has appended. -/
theorem ignoreAnnounce_follows {turn : TurnId} (hs : Settling turn .settling s)
    {message : AgentMessage} (hspeech : s.speech = .pushed message) :
    (ignore (emit (.messageStart message)) >>= fun _ => ignore (emit (.messageEnd message))).Follows
      (machine h) (fun _ x => Settling turn .settling x ∧ Unspoken x) err s := by
  refine .bind (fun _ x => Settling turn .settling x ∧ x.speech = .announced message)
    (ignoreEmit_follows (.messageStart (.inr hs.life) hspeech)
      fun _ => ⟨⟨hs.life, hs.turn⟩, rfl⟩) ?_
  rintro _ s ⟨hs, hspeech⟩
  exact ignoreEmit_follows (.messageEnd (.inr hs.life) hspeech)
    fun _ => ⟨⟨hs.life, hs.turn⟩, .inr (.inl rfl)⟩

theorem lastTurn_follows {turn : TurnId} {life : Life} (hs : Settling turn life s)
    (hworks : life.works = true) :
    lastTurn.Follows (machine h) (fun last x => last = turn ∧ x = s) err s := by
  obtain ⟨hrunning, hidle⟩ := Life.works_iff.mp hworks
  refine read_follows (by rw [hs.life]; exact hidle) fun w hw => ⟨?_, rfl⟩
  rw [(hw.owned (by rw [hs.life]; exact hrunning)).2.1, ← hs.turn]
  rfl

/-- The common end of every settlement. -/
theorem endSettlement_follows {turn : TurnId} (hs : Settling turn .settling s)
    (hunspoken : Unspoken s) (reason : StopReason) (phase : RunPhase) {finishing : StopReason}
    {error : Option String} (hphase : phase.isTerminal = true) :
    (ignore (emit (.turnEnd turn reason)) >>= fun _ =>
      ignore (emitAgentEnd h) >>= fun _ => ignore (finish phase finishing error)).Follows
      (machine h) (fun _ x => x.life = .settled phase) err s := by
  obtain ⟨hlife, rfl⟩ := hs
  refine .bind (fun _ x => x.life = .settledTurn)
    (ignoreEmit_follows (.settleTurnEnd hlife hunspoken) fun _ => rfl) ?_
  rintro _ s hlife
  have hagentEnd : (emitAgentEnd h).Follows (machine h) (fun _ x => x.life = .settledEnd)
      (fun _ x => x.life = .settledEnd) s := by
    refine .bind (fun messages x => x = { s with report := some messages })
      (fun w _ => ⟨_, .report (.inr (.inr hlife)), rfl⟩) ?_
    rintro messages _ rfl
    refine (emit_follows (s := { s with report := some messages })
      (.settleAgentEnd hlife rfl)).weaken ?_ ?_
    · rintro _ _ rfl
      rfl
    · rintro _ _ rfl
      rfl
  refine .bind (fun _ x => x.life = .settledEnd)
    (ignore_follows hagentEnd fun _ _ hx => hx) ?_
  rintro _ s hlife
  have hfinish : (finish phase finishing error).Follows (machine h)
      (fun _ x => x.life = .settled phase) (fun _ _ => False) s := by
    refine (finish_follows (.inr hlife) hphase).weaken ?_ fun _ _ => id
    rintro _ _ rfl
    rfl
  exact ignore_follows hfinish fun _ _ => False.elim

/-- The agent is held while the run is consistent. -/
theorem held_follows {ok : Bool → Stage → Prop} (hidle : s.life.polls = false) (hok : ok true s) :
    (Future.read (·.held) : Drive Bool).Follows (machine h) ok err s :=
  read_follows hidle fun w hw => by rw [hw.held]; exact hok

/-- The run ends in a terminal phase other than success. -/
def FailedEnd (s : Stage) : Prop := ∃ phase, s.life = .settled phase ∧ phase ≠ .succeeded

theorem FailedEnd.idle (hs : FailedEnd s) : s.life.polls = false := by
  obtain ⟨phase, hlife, _⟩ := hs
  rw [hlife]
  rfl

theorem settleFailure_follows {turn : TurnId} (hs : Settling turn .failing s)
    (error : CoreError) :
    (settleFailure h error).Follows (machine h) (fun _ x => FailedEnd x) err s := by
  refine .bind (fun held x => held = true ∧ x = s) (held_follows hs.idle ⟨rfl, rfl⟩) ?_
  rintro _ s ⟨rfl, rfl⟩
  simp only [if_true]
  refine .bind _ (lockAgent_append (failureMessage error)
    (fun message => { s with life := .settling, speech := .pushed message })
    (fun id => .failure hs.life) (fun _ => rfl) fun _ => ⟨rfl, rfl, rfl, rfl⟩) ?_
  rintro failure _ ⟨_, rfl⟩
  let pushed : Stage := { s with life := .settling, speech := .pushed failure }
  have hpushed : Settling turn .settling pushed := ⟨rfl, hs.turn⟩
  refine .bind _ (lastTurn_follows hpushed rfl) ?_
  rintro turn _ ⟨rfl, rfl⟩
  refine .bind (fun _ x => Settling turn .settling x ∧ x.speech = .announced failure)
    (ignoreEmit_follows (s := pushed) (.messageStart (.inr rfl) rfl)
      fun _ => ⟨⟨rfl, hs.turn⟩, rfl⟩) ?_
  rintro _ s ⟨hs, hspeech⟩
  refine .bind (fun _ x => Settling turn .settling x ∧ Unspoken x)
    (ignoreEmit_follows (.messageEnd (.inr hs.life) hspeech)
      fun _ => ⟨⟨hs.life, hs.turn⟩, .inr (.inl rfl)⟩) ?_
  rintro _ s ⟨hs, hunspoken⟩
  refine (endSettlement_follows hs hunspoken .error .failed rfl).weaken ?_ fun _ _ => id
  exact fun _ _ hx => ⟨.failed, hx, nofun⟩

/-- Clearing the transient state begins a settlement that appends no message. -/
theorem clearTransient_follows (hlife : s.life = .failing) :
    (modifyAgent (·.clearTransient)).Follows (machine h)
      (fun _ x => x = { s with life := .settling }) err s :=
  fun _ _ => ⟨_, .skip hlife ⟨rfl, fun hstream => by cases hstream⟩, rfl⟩

theorem settleCompactionBoundaryFailure_follows {turn : TurnId}
    (hs : Settling turn .failing s) (hunspoken : Unspoken s) (error : CoreError) :
    (settleCompactionBoundaryFailure h error).Follows (machine h) (fun _ x => FailedEnd x)
      err s := by
  refine .bind (fun held x => held = true ∧ x = s) (held_follows hs.idle ⟨rfl, rfl⟩) ?_
  rintro _ s ⟨rfl, rfl⟩
  refine .bind _ (clearTransient_follows hs.life) ?_
  rintro _ _ rfl
  have hcleared : Settling turn .settling { s with life := .settling } := ⟨rfl, hs.turn⟩
  refine .bind _ (lastTurn_follows hcleared rfl) ?_
  rintro turn _ ⟨rfl, rfl⟩
  refine (endSettlement_follows hcleared hunspoken .error .failed rfl).weaken ?_
    fun _ _ => id
  exact fun _ _ hx => ⟨.failed, hx, nofun⟩

theorem settleCompactionBoundaryCancellation_follows {turn : TurnId}
    (hs : Settling turn .failing s) (hunspoken : Unspoken s) :
    (settleCompactionBoundaryCancellation h).Follows (machine h) (fun _ x => FailedEnd x)
      err s := by
  refine .bind (fun held x => held = true ∧ x = s) (held_follows hs.idle ⟨rfl, rfl⟩) ?_
  rintro _ s ⟨rfl, rfl⟩
  refine .bind _ (clearTransient_follows hs.life) ?_
  rintro _ _ rfl
  have hcleared : Settling turn .settling { s with life := .settling } := ⟨rfl, hs.turn⟩
  refine .bind _ (lastTurn_follows hcleared rfl) ?_
  rintro turn _ ⟨rfl, rfl⟩
  refine (endSettlement_follows hcleared hunspoken .cancelled .cancelled rfl).weaken ?_
    fun _ _ => id
  exact fun _ _ hx => ⟨.cancelled, hx, nofun⟩

theorem abortAgentState_eq (agent : AgentState) :
    abortAgentState agent = if endsAborted agent.messages = true then (none, agent.clearTransient)
      else (some (abortedMessage ⟨agent.nextMessageId⟩),
        (agent.clearTransient.pushMessage abortedMessage).2) := rfl

/-- The aborted message, if there is one, waits for its announcement. -/
def Aborting (s : Stage) : Option AgentMessage → Prop
  | some message => s.speech = .pushed message
  | none => Unspoken s

/-- The aborted message is appended unless the transcript ends with one. -/
theorem abortAgentState_follows {turn : TurnId} (hs : Settling turn .failing s)
    (hunspoken : Unspoken s) :
    (lockAgent abortAgentState).Follows (machine h)
      (fun failure x => Settling turn .settling x ∧ Aborting x failure) err s := by
  refine Future.Follows.section_ fun w _ => ?_
  by_cases haborted : endsAborted w.agent.messages = true
  · simp only [abortAgentState_eq, if_pos haborted]
    exact ⟨{ s with life := .settling }, .skip hs.life ⟨rfl, fun hstream => by cases hstream⟩,
      ⟨rfl, hs.turn⟩, hunspoken⟩
  · simp only [abortAgentState_eq, if_neg haborted]
    have happends : Appends s (abortedMessage ⟨w.agent.nextMessageId⟩) { s with
        life := .settling
        speech := .pushed (abortedMessage ⟨w.agent.nextMessageId⟩) } := .failure hs.life
    exact ⟨_, .append happends rfl rfl, ⟨rfl, hs.turn⟩, rfl⟩

theorem announceAborted_follows {turn : TurnId} (hs : Settling turn .settling s)
    {failure : Option AgentMessage} (haborting : Aborting s failure) :
    (announceAborted failure).Follows (machine h)
      (fun _ x => Settling turn .settling x ∧ Unspoken x) err s := by
  rcases failure with _ | message
  · exact ⟨hs, haborting⟩
  · exact ignoreAnnounce_follows hs haborting

theorem settleCancellation_follows {turn : TurnId} (hs : Settling turn .failing s)
    (hunspoken : Unspoken s) :
    (settleCancellation h).Follows (machine h) (fun _ x => FailedEnd x) err s := by
  refine .bind (fun held x => held = true ∧ x = s) (held_follows hs.idle ⟨rfl, rfl⟩) ?_
  rintro _ s ⟨rfl, rfl⟩
  refine .bind _ (lastTurn_follows hs rfl) ?_
  rintro _ s ⟨rfl, rfl⟩
  refine .bind _ (abortAgentState_follows hs hunspoken) ?_
  rintro failure s ⟨hs, haborting⟩
  refine .bind _ (announceAborted_follows hs haborting) ?_
  rintro _ s ⟨hs, hunspoken⟩
  refine (endSettlement_follows hs hunspoken .aborted .cancelled rfl).weaken ?_
    fun _ _ => id
  exact fun _ _ hx => ⟨.cancelled, hx, nofun⟩

theorem settle_follows {turn : TurnId} (hs : Settling turn .failing s) (hunspoken : Unspoken s)
    (error : CoreError) :
    (settle h error).Follows (machine h) (fun _ x => FailedEnd x) err s := by
  refine .bind (fun _ x => x = s) (isCancelled_follows hs.idle fun _ => rfl) ?_
  rintro (_ | _) s rfl
  · cases error with
    | automaticCompaction reason message =>
      exact settleCompactionBoundaryFailure_follows hs hunspoken _
    | automaticCompactionUnavailable reason =>
      exact settleCompactionBoundaryFailure_follows hs hunspoken _
    | _ => exact settleFailure_follows hs _
  · refine .bind (fun _ x => x = s) (read_follows hs.idle fun _ _ => rfl) ?_
    rintro (_ | _) s rfl
    · exact settleCancellation_follows hs hunspoken
    · exact settleCompactionBoundaryCancellation_follows hs hunspoken

/-! ### Drive -/

/-- A loop that returned an error was rejected, has settled its run, or leaves it
    running. -/
theorem LoopFailed.cases (hs : LoopFailed h s) :
    s.life = .rejected ∨ FailedEnd s ∨ s.life.looping = true := by
  unfold LoopFailed at hs
  rcases hfault : s.fault with _ | _ | _ | _ <;> simp only [hfault] at hs
  · rcases hs with hlife | hend | ⟨hlife, _⟩
    · exact .inl hlife
    · exact .inr (.inl hend)
    · exact .inr (.inr (by rw [hlife]; rfl))
  · exact .inr (.inr hs)
  · exact .inr (.inr (by rw [hs.1]; rfl))
  · exact .inr (.inr (by rw [hs.1]; rfl))

theorem LoopFailed.unspoken (hs : LoopFailed h s) (hlooping : s.life.looping = true) :
    Unspoken s := by
  unfold LoopFailed at hs
  rcases hfault : s.fault with _ | _ | _ | _ <;> simp only [hfault] at hs
  · rcases hs with hlife | ⟨phase, hlife, _⟩ | ⟨_, hspeech, _⟩
    · rw [hlife] at hlooping
      cases hlooping
    · rw [hlife] at hlooping
      cases hlooping
    · exact .inr (.inl hspeech)
  · exact .inl hfault
  · exact .inr (.inl hs.2.1)
  · exact .inr hs.2.2.2

/-- Where an error of `drive` leaves the run. -/
def DriveFailed (_ : CoreError) (s : Stage) : Prop := s.life = .rejected ∨ FailedEnd s

/-- A run that is terminal when its loop returns is not settled again. -/
theorem leaveLoop_terminal {ok : RunPhase → Stage → Prop}
    (hidle : s.life.polls = false)
    (hphase : ∀ w, Consistent s w → w.run.phase.isTerminal = true)
    (hok : ∀ phase : RunPhase, phase.isTerminal = true → ok phase s) :
    leaveLoop.Follows (machine h) ok err s := by
  intro w hw
  refine ⟨s, ?_, hok _ (hphase w hw)⟩
  simp only [hphase w hw, Bool.not_true, Bool.or_false]
  exact .still hidle

theorem leaveLoop_running {ok : RunPhase → Stage → Prop} (hs : LoopFailed h s)
    (hlooping : s.life.looping = true)
    (hok : ∀ phase : RunPhase, phase.isTerminal = false → ok phase { s with life := .failing }) :
    leaveLoop.Follows (machine h) ok err s := by
  intro w hw
  have hrunning := looping_running hlooping
  have hphase : w.run.phase.isTerminal = false := by rw [(hw.owned hrunning).1]; rfl
  refine ⟨{ s with life := .failing }, ?_, hok _ hphase⟩
  simp only [hphase, Bool.not_false, Bool.or_true]
  exact .leave hs hlooping

/-- **Traversal.**  Every step of `drive` is a step of the lifecycle machine: it
    returns with the run settled, successfully exactly where it returns no error,
    unless the run was settled before. -/
theorem drive_follows (h : RunHandle) (fuel : Nat) (runId : RunId) :
    (drive h fuel).Follows (machine h) (fun _ x => x.life = .settled .succeeded) DriveFailed
      (Stage.claimed runId) := by
  refine .bind _ (driveInner_follows fuel runId).attempt ?_
  rintro (error | ⟨⟩) s hs
  swap
  · exact Future.Follows.pure hs
  have hfailed : LoopFailed h s := hs
  rcases hfailed.cases with hlife | hend | hlooping
  · refine .bind (fun phase x => phase.isTerminal = true ∧ x = s)
      (leaveLoop_terminal (by rw [hlife]; rfl) (fun w hw => ?_) fun phase hphase => ⟨hphase, rfl⟩) ?_
    · have hphased := hw.phased
      simp only [Phased, hlife] at hphased
      rw [hphased.1]
      rfl
    · rintro phase s ⟨hphase, rfl⟩
      simp only [if_pos hphase]
      exact Future.Follows.fail (.inl hlife)
  · refine .bind (fun phase x => phase.isTerminal = true ∧ x = s)
      (leaveLoop_terminal hend.idle (fun w hw => ?_) fun phase hphase => ⟨hphase, rfl⟩) ?_
    · obtain ⟨phase, hlife, _⟩ := hend
      have hphased := hw.phased
      simp only [Phased, hlife] at hphased
      rw [hphased.1]
      exact hphased.2.1
    · rintro phase s ⟨hphase, rfl⟩
      simp only [if_pos hphase]
      exact Future.Follows.fail (.inr hend)
  · have hunspoken : Unspoken s := hfailed.unspoken hlooping
    refine .bind (fun phase x => phase.isTerminal = false ∧ Settling s.turn .failing x ∧ Unspoken x)
      (leaveLoop_running hfailed hlooping fun phase hphase => ⟨hphase, ⟨rfl, rfl⟩, hunspoken⟩) ?_
    rintro phase x ⟨hphase, hx, hunspoken⟩
    simp only [hphase, Bool.false_eq_true, if_false]
    refine .bind _ (settle_follows hx hunspoken error) ?_
    rintro _ x hend
    exact Future.Follows.fail (.inr hend)

end Tea.Lifecycle
