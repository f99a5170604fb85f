/-
  Tea/Contract/Draining.lean
  ==========================
  **A cancelled run takes no message from the queues**, as long as it finds them
  empty where it polls them.

  The run does not look at its token before a poll.  Where its next poll is due can
  be read from the past: the steering queue once before the first request, and
  after each `should_stop_after_turn` that lets the run go on, first the steering
  and then the follow-up queue.
-/
import Tea.Lifecycle.Drains

namespace Tea.Contract

open Tea.Async Tea.Core Tea.Run Tea.Lifecycle

variable {h : RunHandle} {s s' : Stage} {w w' : World}
  {acts : Now → ClientOp → Prop} {answers : Now → (query : Query) → Reply query → Prop}

/-! ### PollDue polls -/

/-- The poll that the run has come to. -/
inductive PollDue where
  | nothing
  /-- The steering queue, at some time before the first request. -/
  | first
  | steering
  | followUp
deriving DecidableEq

/-- The first request makes the agent stream. -/
def streamBegins (before after : World) : Bool :=
  after.agent.isStreaming && !before.agent.isStreaming

/-- What is due after a step of the run. -/
def PollDue.step (before after : World) : PollDue → PollDue
  | .first =>
      if after.queues = before.queues ∧ streamBegins before after = false then .first else .nothing
  | .steering => if after.queues = before.queues then .followUp else .nothing
  | _ => .nothing

def due (h : RunHandle) : List (Step World Query Reply) → PollDue
  | [] => .nothing
  | .interference .. :: past => due h past
  | .reply (.shouldStopAfterTurn _) (.ok false) :: _ => .steering
  | .reply .. :: past => due h past
  | .own before after :: past =>
      if before.run.phase = .created ∧ after.run.phase = .running then
        if h.skipInitialSteering then .nothing else .first
      else (due h past).step before after

/-- A poll that is due takes nothing: its queue is empty, or the run goes on with
    the results of tools and does not come to the follow-up queue. -/
def PollDue.spares (before after : World) : PollDue → Bool
  | .nothing => true
  | .first => before.queues.steering.entries.isEmpty
  | .steering => before.queues.steering.entries.isEmpty
  | .followUp => before.queues.followUp.entries.isEmpty || decide (after.run ≠ before.run)

/-- The last step, if the token was cancelled before it, polls no queue that holds
    messages. -/
def pollSpares (h : RunHandle) : List (Step World Query Reply) → Bool
  | .own before after :: past => !before.cancelled || (due h past).spares before after
  | _ => true

/-! ### The invariant -/

/-- Before the first poll and the first request. -/
structure Fresh (s : Stage) : Prop where
  life : s.life = .opening ∨ s.life = .started ∨ s.life = .turnOpen
  polled : s.polled = false
  asked : s.asked = false

/-- The run has polled a queue, or is about to do so. -/
def hasPolled : Life → Bool
  | .polling => true
  | .polled => true
  | .drained => true
  | .advanced => true
  | _ => false

structure Polling (h : RunHandle) (s : Stage) (past : List (Step World Query Reply)) : Prop where
  created : s.life = .created → s.polled = false ∧ s.asked = false ∧ s.batch = [] ∧
    streamed s.speech = none
  late : hasPolled s.life = true → s.polled = true
  fresh : Fresh s → s.batch = [] ∧ streamed s.speech = none
  first : Fresh s → h.skipInitialSteering = false → due h past = .first
  steering : s.life = .polling → due h past = .steering
  followUp : s.life = .polled → s.batch = [] → due h past = .followUp

/-- Only a poll of the steering queue leads to the stages between the polls. -/
theorem Own.into_polls (hown : Own h s w w' s') (hpolls : s'.life.polls = true) :
    Polls h s w w' s' ∧ s.life = .polling ∧ s'.life = .polled := by
  have hidle : s.life.polls = true → ¬ s.life.polls = false := fun htrue hfalse => by
    rw [htrue] at hfalse
    cases hfalse
  cases hown with
  | still idle => exact absurd idle (hidle hpolls)
  | quiet life => exact absurd (Life.works_iff.mp life).2 (hidle hpolls)
  | begin => cases hpolls
  | reject => cases hpolls
  | record records => exact absurd (Life.works_iff.mp records.works).2 (by rw [hpolls]; nofun)
  | advance => cases hpolls
  | firstSteering turn => exact absurd turn.idle (hidle hpolls)
  | drainSteering life batch => exact ⟨.steering life batch, life, rfl⟩
  | drainFollowUp => cases hpolls
  | append appends =>
    cases appends with
    | user turn => exact absurd turn.idle (hidle hpolls)
    | result turn => exact absurd turn.idle (hidle hpolls)
    | response turn => exact absurd turn.idle (hidle hpolls)
    | failure => cases hpolls
  | openText turn => exact absurd turn.idle (hidle hpolls)
  | extendText turn => exact absurd (Life.works_iff.mp turn.works).2 (hidle hpolls)
  | closeText turn => exact absurd (Life.works_iff.mp turn.works).2 (hidle hpolls)
  | mark turn => exact absurd turn.idle (hidle hpolls)
  | claim turn => exact absurd turn.idle (hidle hpolls)
  | report life =>
    have hlife : s.life.polls = true := hpolls
    rcases life with life | life | life <;> rw [life] at hlife <;> cases hlife
  | policy turn => exact absurd turn.idle (hidle hpolls)
  | reserve turn => exact absurd turn.idle (hidle hpolls)
  | decide turn => exact absurd turn.idle (hidle hpolls)
  | truncate turn => exact absurd turn.idle (hidle hpolls)
  | commit turn => exact absurd turn.idle (hidle hpolls)
  | leave => cases hpolls
  | skip => cases hpolls
  | finish => cases hpolls
  | settle => cases hpolls

theorem streamBegins_eq_false {before after : World}
    (hstream : after.agent.isStreaming = true → before.agent.isStreaming = true) :
    streamBegins before after = false := by
  unfold streamBegins
  cases hafter : after.agent.isStreaming with
  | false => rfl
  | true => rw [hstream hafter]; rfl

theorem Records.fresh {kind : AgentEventKind} (hr : Records h s kind s')
    (hlate : s.life = .advanced → s.polled = true) (hf : Fresh s') : Fresh s := by
  obtain ⟨hlife, hpolled, hasked⟩ := hf
  cases hr with
  | agentStart life => exact ⟨.inl life, hpolled, hasked⟩
  | turnStart life =>
    rcases life with life | life
    · exact ⟨.inr (.inl life), hpolled, hasked⟩
    · rw [show s.polled = true from hlate life] at hpolled
      cases hpolled
  | turnEnd => rcases hlife with hlife | hlife | hlife <;> cases hlife
  | agentEnd => rcases hlife with hlife | hlife | hlife <;> cases hlife
  | settleTurnEnd => rcases hlife with hlife | hlife | hlife <;> cases hlife
  | settleAgentEnd => rcases hlife with hlife | hlife | hlife <;> cases hlife
  | _ => exact ⟨hlife, hpolled, hasked⟩

/-- Until its first poll a run leaves the queues alone. -/
theorem Own.fresh (hown : Own h s w w' s') {past : List (Step World Query Reply)}
    (hp : Polling h s past) (hf : Fresh s') :
    ((s.life = .created ∧ w.run.phase = .created ∧ w'.run.phase = .running) ∨
        (Fresh s ∧ w'.queues = w.queues ∧ streamBegins w w' = false)) ∧
      s'.batch = [] ∧ streamed s'.speech = none := by
  -- a step that neither polls nor asks
  have hkeep : Fresh s → w'.queues = w.queues →
      (w'.agent.isStreaming = true → w.agent.isStreaming = true) → s'.batch = s.batch →
      (streamed s'.speech = streamed s.speech ∨ streamed s'.speech = none) →
      ((s.life = .created ∧ w.run.phase = .created ∧ w'.run.phase = .running) ∨
          (Fresh s ∧ w'.queues = w.queues ∧ streamBegins w w' = false)) ∧
        s'.batch = [] ∧ streamed s'.speech = none := by
    intro hfresh hq hstream hbatch hspeech
    obtain ⟨hempty, hsilent⟩ := hp.fresh hfresh
    refine ⟨.inr ⟨hfresh, hq, streamBegins_eq_false hstream⟩, hbatch.trans hempty, ?_⟩
    rcases hspeech with hspeech | hspeech
    · exact hspeech.trans hsilent
    · exact hspeech
  have hsame : s'.life = s.life → s'.polled = s.polled → s'.asked = s.asked → Fresh s :=
    fun hlife hpolled hasked => ⟨hlife ▸ hf.life, hpolled ▸ hf.polled, hasked ▸ hf.asked⟩
  have hstreaming : ∀ {message announced}, s.speech = .streaming message announced →
      Fresh s → False := by
    intro message announced hspeech hfresh
    have hsilent := (hp.fresh hfresh).2
    rw [hspeech] at hsilent
    cases hsilent
  have hasked : s.asked = true → Fresh s → False := by
    intro hasked hfresh
    rw [hfresh.asked] at hasked
    cases hasked
  cases hown with
  | still => exact hkeep hf rfl id rfl (.inl rfl)
  | quiet _ quiet =>
    exact hkeep hf (congrArg Core.queues quiet.core_eq) quiet.streaming rfl (.inl rfl)
  | begin life phase =>
    obtain ⟨_, _, hbatch, hspeech⟩ := hp.created life
    exact ⟨.inl ⟨life, phase, rfl⟩, hbatch, hspeech⟩
  | reject => rcases hf.life with hlife | hlife | hlife <;> cases hlife
  | record records =>
    obtain ⟨hbatch, hspeech, _⟩ := records.handed
    have hfresh := Records.fresh records (fun hlife => hp.late (by rw [hlife]; rfl)) hf
    exact hkeep hfresh rfl id hbatch hspeech
  | advance => rcases hf.life with hlife | hlife | hlife <;> cases hlife
  | firstSteering => cases hf.polled
  | drainSteering => cases hf.polled
  | drainFollowUp => cases hf.polled
  | append appends =>
    cases appends with
    | user _ _ _ batch =>
      have hempty := (hp.fresh (hsame rfl rfl rfl)).1
      rw [batch] at hempty
      cases hempty
    | result _ asked => exact (hasked asked (hsame rfl rfl rfl)).elim
    | response _ asked => exact (hasked asked (hsame rfl rfl rfl)).elim
    | failure => rcases hf.life with hlife | hlife | hlife <;> cases hlife
  | openText _ asked => exact (hasked asked (hsame rfl rfl rfl)).elim
  | extendText _ speech => exact (hstreaming speech (hsame rfl rfl rfl)).elim
  | closeText _ speech => exact (hstreaming speech (hsame rfl rfl rfl)).elim
  | mark => exact hkeep (hsame rfl rfl rfl) rfl id rfl (.inl rfl)
  | claim => cases hf.asked
  | report => exact hkeep (hsame rfl rfl rfl) rfl id rfl (.inl rfl)
  | policy => exact hkeep hf rfl id rfl (.inl rfl)
  | reserve => exact hkeep (hsame rfl rfl rfl) rfl id rfl (.inl rfl)
  | decide => exact hkeep (hsame rfl rfl rfl) rfl id rfl (.inl rfl)
  | truncate _ asked => exact (hasked asked (hsame rfl rfl rfl)).elim
  | commit => exact hkeep (hsame rfl rfl rfl) rfl id rfl (.inl rfl)
  | leave => rcases hf.life with hlife | hlife | hlife <;> cases hlife
  | skip => rcases hf.life with hlife | hlife | hlife <;> cases hlife
  | finish => rcases hf.life with hlife | hlife | hlife <;> cases hlife
  | settle => rcases hf.life with hlife | hlife | hlife <;> cases hlife

/-- A run that has not begun stays as it is. -/
theorem Own.created (hown : Own h s w w' s') (hlife : s'.life = .created) : s' = s := by
  have hturn : TurnOpen s → s.life = .created → s' = s := fun hturn hlife => by
    rw [hturn.life] at hlife
    cases hlife
  cases hown with
  | still => rfl
  | quiet => rfl
  | record records =>
    have hrunning := records.running
    rw [hlife] at hrunning
    cases hrunning
  | firstSteering turn => exact hturn turn.turnOpen hlife
  | append appends =>
    cases appends with
    | user turn => exact hturn turn.turnOpen hlife
    | result turn => exact hturn turn.turnOpen hlife
    | response turn => exact hturn turn.turnOpen hlife
    | failure => cases hlife
  | openText turn => exact hturn turn.turnOpen hlife
  | extendText turn => exact hturn turn hlife
  | closeText turn => exact hturn turn hlife
  | mark turn => exact hturn turn.turnOpen hlife
  | claim turn => exact hturn turn.turnOpen hlife
  | report life =>
    have hcreated : s.life = .created := hlife
    rcases life with life | life | life <;> rw [life] at hcreated <;> cases hcreated
  | policy => rfl
  | reserve turn => exact hturn turn.turnOpen hlife
  | decide turn => exact hturn turn.turnOpen hlife
  | truncate turn => exact hturn turn.turnOpen hlife
  | commit turn => exact hturn turn.turnOpen hlife
  | _ => cases hlife

theorem Own.polled (hown : Own h s w w' s') (hpolled : s.polled = true) : s'.polled = true := by
  cases hown with
  | record records => cases records <;> exact hpolled
  | append appends => cases appends <;> exact hpolled
  | firstSteering => rfl
  | drainSteering => rfl
  | drainFollowUp => rfl
  | _ => exact hpolled

theorem Own.late (hown : Own h s w w' s') (hlate : hasPolled s.life = true → s.polled = true)
    (hlife : hasPolled s'.life = true) : s'.polled = true := by
  refine Own.polled hown (hlate ?_)
  rcases hown.moves with ⟨kind, records, _⟩ | ⟨moves, _⟩
  · cases records with
    | agentStart => cases hlife
    | turnStart => cases hlife
    | turnEnd => cases hlife
    | agentEnd => cases hlife
    | settleTurnEnd => cases hlife
    | settleAgentEnd => cases hlife
    | _ => exact hlife
  · cases moves with
    | stay life => exact life ▸ hlife
    | poll life => rcases life with ⟨life, _⟩ | ⟨life, _⟩ <;> rw [life] <;> rfl
    | advance life => rcases life with life | life <;> rw [life] <;> rfl
    | skip _ life' => rw [life'] at hlife; cases hlife
    | _ => cases hlife

theorem due_own {past : List (Step World Query Reply)} (hphase : w.run.phase ≠ .created) :
    due h (.own w w' :: past) = (due h past).step w w' := if_neg fun hbegin => hphase hbegin.1

theorem Own.polling (hown : Own h s w w' s') (hw : Consistent s w)
    {past : List (Step World Query Reply)} (hp : Polling h s past) :
    Polling h s' (.own w w' :: past) := by
  have hbegun : s.life.running = true → w.run.phase ≠ .created := fun hrunning hcreated => by
    rw [(hw.owned hrunning).1] at hcreated
    cases hcreated
  refine ⟨fun hlife => ?_, Own.late hown hp.late, fun hf => (Own.fresh hown hp hf).2, ?_, ?_, ?_⟩
  · have hsame := Own.created hown hlife
    rw [hsame]
    exact hp.created (hsame ▸ hlife)
  · intro hf hskip
    rcases (Own.fresh hown hp hf).1 with ⟨_, hcreated, hrunning⟩ | ⟨hfresh, hq, hstream⟩
    · simp only [due, hcreated, hrunning, and_self, if_true, hskip, Bool.false_eq_true, if_false]
    · have hlive : s.life.running = true := by
        rcases hfresh.life with life | life | life <;> rw [life] <;> rfl
      rw [due_own (hbegun hlive), hp.first hfresh hskip]
      exact if_pos ⟨hq, hstream⟩
  · intro hlife
    have hpolled := (Own.into_polls hown (by rw [hlife]; rfl)).2.2
    rw [hlife] at hpolled
    cases hpolled
  · intro hlife hbatch
    obtain ⟨hpoll, hpolling, _⟩ := Own.into_polls hown (by rw [hlife]; rfl)
    rw [due_own (hbegun (by rw [hpolling]; rfl)), hp.steering hpolling]
    refine if_pos ?_
    cases hpoll with
    | first turn => rw [turn.life] at hpolling; cases hpolling
    | steering => simp only [MessageQueue.drain_empty hbatch]
    | followUp => cases hlife

theorem due_passive {query : Query} {reply : Reply query} (hpassive : passive query reply)
    (past : List (Step World Query Reply)) : due h (.reply query reply :: past) = due h past := by
  cases query with
  | shouldStopAfterTurn context =>
    cases show reply = .ok true from hpassive
    rfl
  | _ => rfl

theorem Replies.polling {query : Query} {reply : Reply query} (hr : Replies s query reply s')
    {past : List (Step World Query Reply)} (hp : Polling h s past) :
    Polling h s' (.reply query reply :: past) := by
  have hframe : due h (.reply query reply :: past) = due h past → s'.life = s.life →
      s'.polled = s.polled → s'.asked = s.asked → s'.batch = s.batch → s'.speech = s.speech →
      Polling h s' (.reply query reply :: past) := by
    intro hdue hlife hpolled hasked hbatch hspeech
    have hfresh : Fresh s' → Fresh s := fun hf =>
      ⟨hlife ▸ hf.life, hpolled ▸ hf.polled, hasked ▸ hf.asked⟩
    refine ⟨?_, ?_, fun hf => ?_, fun hf hskip => ?_, ?_, ?_⟩
    · rw [hlife, hpolled, hasked, hbatch, hspeech]
      exact hp.created
    · rw [hlife, hpolled]
      exact hp.late
    · rw [hbatch, hspeech]
      exact hp.fresh (hfresh hf)
    · rw [hdue]
      exact hp.first (hfresh hf) hskip
    · rw [hlife, hdue]
      exact hp.steering
    · rw [hlife, hbatch, hdue]
      exact hp.followUp
  cases hr with
  | @event item =>
    rcases Stage.receive_cases (s := s) item with ⟨_, _, _, heq⟩ | ⟨_, _, heq⟩ | ⟨_, heq⟩ <;>
      rw [heq] at hframe ⊢ <;> exact hframe rfl rfl rfl rfl rfl rfl
  | declined =>
    refine ⟨fun hlife => ?_, fun _ => rfl, fun hf => ?_, fun hf => ?_, fun _ => rfl, fun hlife => ?_⟩
    · cases hlife
    · cases hf.polled
    · cases hf.polled
    · cases hlife
  | unprepared => exact hframe rfl rfl rfl rfl rfl rfl
  | undecided => exact hframe rfl rfl rfl rfl rfl rfl
  | passive hpassive => exact hframe (due_passive hpassive past) rfl rfl rfl rfl rfl
  | _ => exact hframe rfl rfl rfl rfl rfl rfl

theorem Polling.claimed {runId : RunId} : Polling h (Stage.claimed runId) [] where
  created _ := ⟨rfl, rfl, rfl, rfl⟩
  late hlife := by cases hlife
  fresh hf := by rcases hf.life with hlife | hlife | hlife <;> cases hlife
  first hf := by rcases hf.life with hlife | hlife | hlife <;> cases hlife
  steering hlife := by cases hlife
  followUp hlife := by cases hlife

/-! ### Polls that take nothing -/

/-- A poll of an empty queue changes nothing. -/
theorem drain_nil {queue : MessageQueue} (hempty : queue.entries.isEmpty = true)
    (mode : QueueMode) : (queue.drain mode).2 = queue := by
  refine MessageQueue.drain_empty (List.append_eq_nil_iff.mp ((queue.drain_append mode).trans ?_)).1
  exact List.isEmpty_iff.mp hempty

/-- A poll that is due and takes nothing leaves the queues alone. -/
theorem Polls.spared (hpoll : Polls h s w w' s') {past : List (Step World Query Reply)}
    (hp : Polling h s past) (hspares : (due h past).spares w w' = true) : w'.queues = w.queues := by
  cases hpoll with
  | first turn fresh polls =>
    rw [hp.first ⟨.inr (.inr turn.life), fresh.1, fresh.2⟩ polls] at hspares
    simp only [drain_nil hspares]
  | steering life =>
    rw [hp.steering life] at hspares
    simp only [drain_nil hspares]
  | followUp life batch =>
    rw [hp.followUp life batch] at hspares
    rcases Bool.or_eq_true_iff.mp hspares with hempty | hrun
    · simp only [drain_nil hempty]
    · exact absurd rfl (of_decide_eq_true hrun)

/-- Once the token is cancelled the run leaves the queues alone. -/
def Undrained (past : List (Step World Query Reply)) : Prop :=
  ∀ before after, .own before after ∈ past → before.cancelled = true →
    after.queues = before.queues

theorem polling_invariant :
    (machine h).Invariant (Host.of acts answers) fun s m =>
      (Consistent s m.state ∧ Sealed m.past) ∧ Handed s m ∧ Polling h s m.past ∧
        (always (pollSpares h) m.past = true → Undrained m.past) := by
  refine lifecycle_invariant.and ?_ ?_ ?_
  · rintro s m w _ ⟨hh, hp, hu⟩ ⟨op, _, rfl⟩
    refine ⟨ClientOp.handed op hh, ⟨hp.created, hp.late, hp.fresh, hp.first, hp.steering,
      hp.followUp⟩, fun hall before after hmem => ?_⟩
    rcases List.mem_cons.mp hmem with heq | hmem
    · cases heq
    · exact hu (Bool.and_eq_true_iff.mp hall).2 before after hmem
  · intro s m update s' ⟨hw, _⟩ ⟨hh, hp, hu⟩ hown
    refine ⟨Own.handed hown hh, Own.polling hown hw hp, fun hall before after hmem hcancelled => ?_⟩
    obtain ⟨hspares, hall⟩ := Bool.and_eq_true_iff.mp hall
    rcases List.mem_cons.mp hmem with heq | hmem
    · cases heq
      rcases Own.polls hown with hpoll | hq
      · refine Polls.spared hpoll hp ?_
        simpa [pollSpares, hcancelled] using hspares
      · exact hq
    · exact hu hall before after hmem hcancelled
  · intro s m query answer s' _ ⟨hh, hp, hu⟩ _ hr
    refine ⟨Replies.handed hr hh, Replies.polling hr hp, fun hall before after hmem => ?_⟩
    rcases List.mem_cons.mp hmem with heq | hmem
    · cases heq
    · exact hu (Bool.and_eq_true_iff.mp hall).2 before after hmem

/-! ### Draining -/

/-- A run that leaves the queues alone once it is cancelled takes messages before
    only. -/
theorem Undrained.taken {past : List (Step World Query Reply)} (hu : Undrained past) :
    taken (fun _ => true) past = taken (fun w => !w.cancelled) past := by
  induction past with
  | nil => rfl
  | cons step past ih =>
    have hpast := ih fun before after hmem => hu before after (List.mem_cons_of_mem _ hmem)
    cases step with
    | interference => exact hpast
    | reply => exact hpast
    | own before after =>
      simp only [Lifecycle.taken, hpast, if_true]
      by_cases hcancelled : before.cancelled = true
      · rw [removed_of_queues (hu before after List.mem_cons_self hcancelled)]
        simp
      · simp [hcancelled]

/-- **Draining.**  If a cancelled run polls no queue that holds messages, it takes
    nothing from the queues after the cancellation, and the user messages that it
    appends are among those it took before, in their order. -/
theorem cancelled_run_drains_nothing {a : Agent} {contents : List String} {skip : Bool}
    {w₀ : World} {fuel : Nat} {o : Outcome Query CoreError Unit} {m : Now}
    (hstart : startRun a contents skip w₀ = (.ok h, w)) (hheld : w₀.held = true)
    (hrun : Run (Host.of acts answers) (drive h fuel) (Now.start w) o m)
    (hspares : always (pollSpares h) m.past = true) :
    Undrained m.past ∧
      ∃ appended kept, Delivered m.past appended ∧
        appended.map Prod.snd ++ kept =
          (taken (fun w => !w.cancelled) m.past).map (·.content) := by
  obtain ⟨s, _, _, hh, _, hu⟩ := drive_reaches polling_invariant
    ⟨⟨(startRun_claimed hstart).consistent hheld, fun _ hmem => by cases hmem⟩, Handed.claimed,
      Polling.claimed, fun _ _ _ hmem => by cases hmem⟩ hrun
  have hundrained := hu hspares
  obtain ⟨appended, hdelivered, hcontents⟩ := hh.carried
  exact ⟨hundrained, appended, _, hdelivered, hcontents.trans (by rw [hundrained.taken])⟩

/-- A host that enqueues a message and aborts the agent at the end of each turn. -/
def abortsAtBoundary : Script where
  clients
    | .shouldStopAfterTurn _ => [.steer "wait", .abortAgent]
    | _ => []

/-- The abort clears the queue, and the cancelled run takes nothing. -/
theorem cancelled_run_drains_nothing_aborted :
    Undrained (abortsAtBoundary.prompt {} observed textReply 9).2.past := by
  have hspares : always (pollSpares (promptHandle {} observed))
      (abortsAtBoundary.prompt {} observed textReply 9).2.past = true := by decide +kernel
  exact (cancelled_run_drains_nothing (prompted_eq {} rfl) rfl
    (abortsAtBoundary.prompt_run {} observed textReply 9) hspares).1

/-- A host that cancels the token at the end of a turn and then enqueues a message. -/
def steersAfterCancel : Script where
  clients
    | .shouldStopAfterTurn _ => [.cancel, .steer "late"]
    | _ => []

/-- The step takes messages although the token is cancelled. -/
def takesCancelled : Step World Query Reply → Bool
  | .own before after => before.cancelled && decide (after.queues ≠ before.queues)
  | _ => false

/-- The cancelled run takes the message and appends it to the transcript. -/
theorem cancelled_run_drains :
    startRun {} ["hi"] false observed = (.ok (promptHandle {} observed), prompted {} observed) ∧
      ∃ o m, Run (Host.of steersAfterCancel.acts steersAfterCancel.answers)
          (drive (promptHandle {} observed) 9) (Now.start (prompted {} observed)) o m ∧
        ¬ Undrained m.past ∧ "late" ∈ (users m.state.agent.messages).map Prod.snd := by
  have hany : (steersAfterCancel.prompt {} observed textReply 9).2.past.any takesCancelled = true := by
    decide +kernel
  refine ⟨prompted_eq {} rfl, _, _, steersAfterCancel.prompt_run {} observed textReply 9,
    fun hundrained => ?_, by decide +kernel⟩
  obtain ⟨step, hmem, htakes⟩ := List.any_eq_true.mp hany
  cases step with
  | interference => cases htakes
  | reply => cases htakes
  | own before after =>
    obtain ⟨hcancelled, hqueues⟩ := Bool.and_eq_true_iff.mp htakes
    exact of_decide_eq_true hqueues (hundrained before after hmem hcancelled)

end Tea.Contract
