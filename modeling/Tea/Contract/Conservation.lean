/-
  Tea/Contract/Conservation.lean
  ==============================
  **No queued message is lost or duplicated**, as long as no observer fails.

  The history of an agent is one list of steps: those of its runs, and between them
  the operations of its owner.  What was put into a queue is what has left it,
  followed by what is in it; and what runs and continues have taken from the queues
  is what has been appended to the transcript, followed by what the current run
  holds (`Balance`).
-/
import Tea.Lifecycle.Drains

namespace Tea.Contract

open Tea.Async Tea.Core Tea.Run Tea.Lifecycle

variable {h : RunHandle} {s s' : Stage} {w w' w₀ : World}
  {acts : Now → ClientOp → Prop} {answers : Now → (query : Query) → Reply query → Prop}

/-! ### Accounts -/

inductive QueueName where
  | steering
  | followUp
deriving DecidableEq

def queueOf : QueueName → World → MessageQueue
  | .steering, w => w.queues.steering
  | .followUp, w => w.queues.followUp

/-- The messages that a step puts at the end of a queue. -/
def pushedTo (before after : MessageQueue) : List QueuedMessage :=
  after.entries.drop before.entries.length

/-- The messages put into a queue, oldest first. -/
def accepted (queue : QueueName) : List (Step World Query Reply) → List QueuedMessage
  | [] => []
  | .interference before after :: past =>
      accepted queue past ++ pushedTo (queueOf queue before) (queueOf queue after)
  | .own .. :: past => accepted queue past
  | .reply .. :: past => accepted queue past

section

-- The equations are generated here, once for the proofs below.
attribute [local simp] accepted

end

/-- A message that has left a queue: taken for the transcript, or cleared. -/
structure Departure where
  queue : QueueName
  message : QueuedMessage
  taken : Bool
deriving DecidableEq

def departuresOf (taken : Bool) (before after : World) : List Departure :=
  (removedFrom before.queues.steering after.queues.steering).map (Departure.mk .steering · taken) ++
    (removedFrom before.queues.followUp after.queues.followUp).map (Departure.mk .followUp · taken)

/-- The messages that have left the queues, oldest first. -/
def departures : List (Step World Query Reply) → List Departure
  | [] => []
  | .interference before after :: past => departures past ++ departuresOf false before after
  | .own before after :: past => departures past ++ departuresOf true before after
  | .reply .. :: past => departures past

def departed (queue : QueueName) (past : List (Step World Query Reply)) : List QueuedMessage :=
  ((departures past).filter (·.queue = queue)).map (·.message)

/-- The messages taken for the transcript. -/
def takenFromQueues (past : List (Step World Query Reply)) : List QueuedMessage :=
  ((departures past).filter (·.taken)).map (·.message)

/-- The state after the last step. -/
def current (w₀ : World) : List (Step World Query Reply) → World
  | [] => w₀
  | .interference _ after :: _ => after
  | .own _ after :: _ => after
  | .reply .. :: past => current w₀ past

theorem takenFromQueues_eq (past : List (Step World Query Reply)) :
    takenFromQueues past = taken (fun _ => true) past := by
  have hof : ∀ flag before after,
      ((departuresOf flag before after).filter (·.taken)).map (·.message) =
        if flag then removed before after else [] := by
    intro flag before after
    cases flag <;> simp [departuresOf, removed, List.filter_map, Function.comp_def]
  induction past with
  | nil => rfl
  | cons step past ih =>
    unfold takenFromQueues at ih ⊢
    cases step with
    | reply => exact ih
    | interference before after =>
      rw [departures, List.filter_append, List.map_append, hof, ih]
      exact List.append_nil _
    | own before after =>
      rw [departures, List.filter_append, List.map_append, hof, ih]
      rfl

theorem departed_of (queue : QueueName) (flag : Bool) (before after : World) :
    ((departuresOf flag before after).filter (·.queue = queue)).map (·.message) =
      removedFrom (queueOf queue before) (queueOf queue after) := by
  cases queue <;> simp [departuresOf, queueOf, List.filter_map, Function.comp_def]

/-! ### Steps -/

/-- A step puts messages at the end of the queues and removes them from the front. -/
def Conserves (before after : World) : Prop :=
  ∀ queue, (queueOf queue before).entries ++ pushedTo (queueOf queue before) (queueOf queue after) =
    removedFrom (queueOf queue before) (queueOf queue after) ++ (queueOf queue after).entries

/-- A step that changes one queue as `Conserves` says. -/
theorem conserves_of_entries {before after : World}
    (hentries : ∀ queue, (queueOf queue after).entries = (queueOf queue before).entries ∨
      (∃ message, (queueOf queue after).entries = (queueOf queue before).entries ++ [message]) ∨
      (queueOf queue after).entries = []) : Conserves before after := by
  intro queue
  rcases hentries queue with hsame | ⟨message, hpush⟩ | hclear
  · simp [pushedTo, removedFrom, hsame]
  · simp [pushedTo, removedFrom, hpush]
  · simp [pushedTo, removedFrom, hclear]

theorem conserves_of_queues {before after : World} (hq : after.queues = before.queues) :
    Conserves before after :=
  conserves_of_entries fun queue => .inl (by cases queue <;> simp only [queueOf, hq])

theorem abortRun_queues : w.abortRun.queues = w.queues := by
  have hsettle : ∀ w : World, (w.settleAgent .idle none).queues = w.queues := by
    intro w
    unfold World.settleAgent
    split <;> rfl
  unfold World.abortRun
  by_cases hterminal : w.run.phase.isTerminal = true
  · simp only [if_pos hterminal]
  by_cases hcreated : w.run.phase = .created
  · simp only [if_neg hterminal, if_pos hcreated, hsettle]
  · simp only [if_neg hterminal, if_neg hcreated]
    split <;> rfl

theorem ClientOp.conserves (op : ClientOp) (w : World) : Conserves w (op.apply w) := by
  cases op with
  | steer content =>
    refine conserves_of_entries fun queue => ?_
    cases queue with
    | steering => exact .inr (.inl ⟨_, rfl⟩)
    | followUp => exact .inl rfl
  | followUp content =>
    refine conserves_of_entries fun queue => ?_
    cases queue with
    | steering => exact .inl rfl
    | followUp => exact .inr (.inl ⟨_, rfl⟩)
  | clearSteering =>
    refine conserves_of_entries fun queue => ?_
    cases queue with
    | steering => exact .inr (.inr rfl)
    | followUp => exact .inl rfl
  | clearFollowUp =>
    refine conserves_of_entries fun queue => ?_
    cases queue with
    | steering => exact .inl rfl
    | followUp => exact .inr (.inr rfl)
  | clearQueues => exact conserves_of_entries fun queue => .inr (.inr (by cases queue <;> rfl))
  | abortRun => exact conserves_of_queues abortRun_queues
  | abortAgent =>
    refine conserves_of_entries fun queue => ?_
    rcases hactive : w.activeRun with _ | id
    · simp only [ClientOp.apply, World.abortAgent, hactive, true_or]
    · refine .inr (.inr ?_)
      simp only [ClientOp.apply, World.abortAgent, hactive]
      cases queue <;> rfl
  | _ => exact conserves_of_queues rfl

/-- A step of a run puts nothing into a queue. -/
def Releases (before after : World) : Prop :=
  ∀ queue, (queueOf queue before).entries =
    removedFrom (queueOf queue before) (queueOf queue after) ++ (queueOf queue after).entries

theorem releases_of_queues {before after : World} (hq : after.queues = before.queues) :
    Releases before after := by
  intro queue
  cases queue <;> simp [queueOf, hq]

theorem releases_drain (queue : MessageQueue) (mode : QueueMode) :
    queue.entries = removedFrom queue (queue.drain mode).2 ++ (queue.drain mode).2.entries := by
  rw [removedFrom_drain]
  exact (queue.drain_append mode).symm

theorem Own.releases (hown : Own h s w w' s') : Releases w w' := by
  rcases hown.polls with hpoll | hq
  · cases hpoll with
    | first =>
      rintro (_ | _)
      · exact releases_drain _ _
      · simp [queueOf]
    | steering =>
      rintro (_ | _)
      · exact releases_drain _ _
      · simp [queueOf]
    | followUp =>
      rintro (_ | _)
      · simp [queueOf]
      · exact releases_drain _ _
  · exact releases_of_queues hq

/-! ### Balance -/

/-- Every message put into a queue has left it or is in it, and every message taken
    has been appended or is held. -/
structure Balance (w₀ : World) (past : List (Step World Query Reply)) (held : List QueuedMessage) :
    Prop where
  queues : ∀ queue, (queueOf queue w₀).entries ++ accepted queue past =
    departed queue past ++ (queueOf queue (current w₀ past)).entries
  transcript : ∃ messages, Delivered past messages ∧
    messages.map Prod.snd ++ held.map (·.content) = (takenFromQueues past).map (·.content)

theorem Balance.interference {past : List (Step World Query Reply)} {held : List QueuedMessage}
    (hb : Balance w₀ past held) (hcurrent : current w₀ past = w) (hc : Conserves w w')
    (hkept : users w.agent.messages <+: users w'.agent.messages ∨ w'.agent.messages = []) :
    Balance w₀ (.interference w w' :: past) held where
  queues queue := by
    have hqueue := hb.queues queue
    rw [hcurrent] at hqueue
    simp only [accepted, departed, departures, List.filter_append, List.map_append, departed_of,
      current]
    rw [← List.append_assoc, hqueue, List.append_assoc, hc queue, ← List.append_assoc, departed]
  transcript := by
    obtain ⟨messages, hdelivered, hcontents⟩ := hb.transcript
    refine ⟨messages, hdelivered.interference hkept, ?_⟩
    rw [takenFromQueues_eq] at hcontents ⊢
    exact hcontents

theorem Balance.own {past : List (Step World Query Reply)} {held held' : List QueuedMessage}
    (hb : Balance w₀ past held) (hcurrent : current w₀ past = w) (hr : Releases w w')
    (hcarried : Carried held' (.own w w' :: past)) : Balance w₀ (.own w w' :: past) held' where
  queues queue := by
    have hqueue := hb.queues queue
    rw [hcurrent, hr queue] at hqueue
    simp only [accepted, departed, departures, List.filter_append, List.map_append, departed_of,
      current]
    rw [hqueue, ← List.append_assoc, departed]
  transcript := by
    obtain ⟨messages, hdelivered, hcontents⟩ := hcarried
    exact ⟨messages, hdelivered, by rw [takenFromQueues_eq]; exact hcontents⟩

theorem Balance.reply {past : List (Step World Query Reply)} {held : List QueuedMessage}
    (hb : Balance w₀ past held) {query : Query} {answer : Reply query} :
    Balance w₀ (.reply query answer :: past) held where
  queues := hb.queues
  transcript := by
    obtain ⟨messages, hdelivered, hcontents⟩ := hb.transcript
    exact ⟨messages, hdelivered.reply, hcontents⟩

theorem Balance.start : Balance w₀ [] [] where
  queues _ := by simp [accepted, departed, departures, current]
  transcript := ⟨[], .start, rfl⟩

/-- Every message was accounted for at all times. -/
def BalancedThroughout (w₀ : World) (past : List (Step World Query Reply)) : Prop :=
  ∀ past', past' <:+ past → ∃ held, Balance w₀ past' held

theorem BalancedThroughout.cons {step : Step World Query Reply} {past : List (Step World Query Reply)}
    {held : List QueuedMessage} (hb : BalancedThroughout w₀ past)
    (hstep : Balance w₀ (step :: past) held) : BalancedThroughout w₀ (step :: past) := by
  intro past' hsuffix
  rcases List.suffix_cons_iff.mp hsuffix with rfl | hsuffix
  · exact ⟨held, hstep⟩
  · exact hb past' hsuffix

/-! ### Runs -/

/-- The run may hold messages of a queue. -/
def mayHold : Life → Bool
  | .turnOpen => true
  | .polled => true
  | .drained => true
  | .advanced => true
  | _ => false

def Unheld (s : Stage) : Prop := mayHold s.life = false → s.batch = []

theorem Records.unheld {kind : AgentEventKind} (hr : Records h s kind s') (hu : Unheld s) :
    Unheld s' := by
  cases hr with
  | agentStart life => exact fun _ => hu (by rw [life]; rfl)
  | turnStart => exact fun hlife => by cases hlife
  | turnEnd _ batch => exact fun _ => batch
  | agentEnd _ batch => exact fun _ => batch
  | settleTurnEnd life => exact fun _ => hu (by rw [life]; rfl)
  | settleAgentEnd life => exact fun _ => hu (by rw [life]; rfl)
  | _ => exact hu

/-- Unless an observer fails, the loop fails with no message in hand. -/
theorem LoopFailed.unheld (hf : LoopFailed h s) (hlife : s.life.looping = true)
    (hobserver : s.fault ≠ some .observer) : s.batch = [] := by
  unfold LoopFailed at hf
  rcases hfault : s.fault with _ | _ | _ | _ <;> simp only [hfault] at hf
  · rcases hf with hf | ⟨phase, hf, _⟩ | ⟨_, _, hbatch, _⟩
    · rw [hf] at hlife; cases hlife
    · rw [hf] at hlife; cases hlife
    · exact hbatch
  · exact absurd hfault hobserver
  · exact hf.2.2.1
  · exact hf.2.1

theorem Own.unheld (hown : Own h s w w' s') (hobserver : s.fault ≠ some .observer)
    (hu : Unheld s) : Unheld s' := by
  have hturn : InTurn s → s'.life = s.life → Unheld s' := fun hturn hlife hhold => by
    rw [hlife, hturn.life] at hhold
    cases hhold
  cases hown with
  | begin life => exact fun _ => hu (by rw [life]; rfl)
  | reject life => exact fun _ => hu (by rw [life]; rfl)
  | record records => exact Records.unheld records hu
  | advance => exact fun hlife => by cases hlife
  | firstSteering turn => exact hturn turn rfl
  | drainSteering => exact fun hlife => by cases hlife
  | drainFollowUp => exact fun hlife => by cases hlife
  | append appends =>
    cases appends with
    | user turn => exact hturn turn rfl
    | result => exact hu
    | response => exact hu
    | failure life => exact fun _ => hu (by rw [life]; rfl)
  | leave failed life =>
    have hbatch : s.batch = [] := LoopFailed.unheld failed life hobserver
    exact fun _ => hbatch
  | skip life => exact fun _ => hu (by rw [life]; rfl)
  | finish life => exact fun _ => hu (by rcases life with life | life <;> rw [life] <;> rfl)
  | settle life => exact fun _ => hu (by rw [life]; rfl)
  | _ => exact hu

theorem Replies.unheld {query : Query} {reply : Reply query} (hr : Replies s query reply s')
    (hu : Unheld s) : Unheld s' := by
  cases hr with
  | @event item =>
    rcases Stage.receive_cases (s := s) item with ⟨_, _, _, heq⟩ | ⟨_, _, heq⟩ | ⟨_, heq⟩ <;>
      rw [heq] <;> exact hu
  | declined life => exact fun _ => hu (by rw [life]; rfl)
  | _ => exact hu

/-- What a run that started in `w₀` keeps at every point. -/
structure Balanced (w₀ : World) (s : Stage) (m : Now) : Prop where
  current : current w₀ m.past = m.state
  throughout : BalancedThroughout w₀ m.past
  balance : Balance w₀ m.past s.batch

theorem balance_invariant (w₀ : World) (hat : Attentive answers) :
    (machine h).Invariant (Host.of acts answers) fun s m =>
      ((Consistent s m.state ∧ Sealed m.past) ∧ s.fault ≠ some .observer) ∧ Handed s m ∧
        Unheld s ∧ Balanced w₀ s m := by
  refine (attentive_invariant hat).and ?_ ?_ ?_
  · rintro s m w _ ⟨hh, hu, hb⟩ ⟨op, _, rfl⟩
    have hbalance := hb.balance.interference hb.current (ClientOp.conserves op m.state)
      (.inl (by simp only [(ClientOp.client op m.state).messages, List.prefix_rfl]))
    exact ⟨ClientOp.handed op hh, hu, rfl, hb.throughout.cons hbalance, hbalance⟩
  · intro s m update s' ⟨_, hobserver⟩ ⟨hh, hu, hb⟩ hown
    have hh' := Own.handed hown hh
    have hbalance := hb.balance.own hb.current (Own.releases hown) hh'.carried
    exact ⟨hh', Own.unheld hown hobserver hu, rfl, hb.throughout.cons hbalance, hbalance⟩
  · intro s m query answer s' _ ⟨hh, hu, hb⟩ _ hr
    have hh' := Replies.handed hr hh
    have hbalance : Balance w₀ (m.reply query answer).past s'.batch :=
      ⟨hb.balance.reply.queues, by rw [takenFromQueues_eq]; exact hh'.carried⟩
    exact ⟨hh', Replies.unheld hr hu, hb.current, hb.throughout.cons hbalance, hbalance⟩

/-! ### Histories in a row -/

theorem current_append (past : List (Step World Query Reply)) (hist : List (Step World Query Reply)) :
    current w₀ (past ++ hist) = current (current w₀ hist) past := by
  induction past with
  | nil => rfl
  | cons step past ih => cases step <;> first | rfl | exact ih

theorem accepted_append (queue : QueueName) (past hist : List (Step World Query Reply)) :
    accepted queue (past ++ hist) = accepted queue hist ++ accepted queue past := by
  induction past with
  | nil => simp [accepted]
  | cons step past ih => cases step <;> simp [accepted, ih]

theorem departures_append (past hist : List (Step World Query Reply)) :
    departures (past ++ hist) = departures hist ++ departures past := by
  induction past with
  | nil => simp [departures]
  | cons step past ih => cases step <;> simp [departures, ih]

/-- A balanced history goes on from a balanced one that holds nothing. -/
theorem Balance.append {past hist : List (Step World Query Reply)} {held : List QueuedMessage}
    (hhist : Balance w₀ hist []) (hpast : Balance (current w₀ hist) past held) :
    Balance w₀ (past ++ hist) held where
  queues queue := by
    have hbefore := hhist.queues queue
    have hafter := hpast.queues queue
    simp only [departed] at hbefore hafter
    rw [accepted_append, current_append, departed, departures_append, List.filter_append,
      List.map_append, ← List.append_assoc, hbefore, List.append_assoc, hafter, List.append_assoc]
  transcript := by
    obtain ⟨earlier, hearlier, hbefore⟩ := hhist.transcript
    obtain ⟨messages, hdelivered, hafter⟩ := hpast.transcript
    refine ⟨_, hdelivered.append hearlier, ?_⟩
    rw [List.map_nil, List.append_nil] at hbefore
    simp only [takenFromQueues] at hbefore hafter ⊢
    rw [departures_append, List.filter_append, List.map_append, List.map_append, List.map_append,
      List.append_assoc, hbefore, hafter]

theorem BalancedThroughout.append {past hist : List (Step World Query Reply)}
    (hhist : BalancedThroughout w₀ hist) (hbalance : Balance w₀ hist [])
    (hpast : BalancedThroughout (current w₀ hist) past) : BalancedThroughout w₀ (past ++ hist) := by
  intro past' hsuffix
  induction past with
  | nil => exact hhist past' hsuffix
  | cons step past ih =>
    rcases List.suffix_cons_iff.mp hsuffix with rfl | hsuffix
    · obtain ⟨held, hheld⟩ := hpast _ List.suffix_rfl
      exact ⟨held, hbalance.append hheld⟩
    · exact ih (fun p hp => hpast p (hp.trans (List.suffix_cons _ _))) hsuffix

/-! ### Starts -/

theorem pushContents_appends (contents : List String) (agent : AgentState) :
    (pushContents contents agent).2.messages = agent.messages ++ (pushContents contents agent).1 ∧
      (users (pushContents contents agent).1).map Prod.snd = contents := by
  induction contents generalizing agent with
  | nil => exact ⟨(List.append_nil _).symm, rfl⟩
  | cons content rest ih =>
    obtain ⟨hmessages, hcontents⟩ := ih (agent.pushMessage fun id => .user id content).2
    exact ⟨hmessages.trans (List.append_assoc _ _ _), congrArg (content :: ·) hcontents⟩

/-- A claimed run has its initial messages in the transcript, and leaves the queues
    alone. -/
theorem Claimed.appends {a : Agent} {contents : List String} {skip : Bool}
    (hc : Claimed a contents skip w h w') :
    w'.queues = w.queues ∧ w'.held = w.held ∧
      ∃ appended, users w'.agent.messages = users w.agent.messages ++ appended ∧
        appended.map Prod.snd = contents := by
  obtain ⟨hmessages, hcontents⟩ := pushContents_appends contents w.agent
  refine ⟨by rw [hc.world]; rfl, by rw [hc.world]; rfl, _, ?_, hcontents⟩
  rw [← users_append, ← hmessages, hc.world]
  rfl

theorem startRun_error {a : Agent} {contents : List String} {skip : Bool} {error : CoreError}
    (hstart : startRun a contents skip w = (.error error, w')) :
    w' = { w with nextRunId := w.nextRunId + 1 } ∧ w.agent.phase.active ≠ none := by
  unfold startRun at hstart
  rcases hactive : w.agent.phase.active with _ | active
  · simp only [nextRun, hactive, Prod.mk.injEq] at hstart
    cases hstart.1
  · simp only [nextRun, hactive, Prod.mk.injEq] at hstart
    exact ⟨hstart.2.symm, Option.some_ne_none active⟩

/-- The poll of a continue takes from one queue. -/
theorem drainContinueTail_removed (w : World) :
    (drainContinueTail w).1 = removed w (drainContinueTail w).2 ∧
      Releases w (drainContinueTail w).2 ∧
      (drainContinueTail w).2 = { w with queues := (drainContinueTail w).2.queues } := by
  by_cases hsteering : (w.queues.steering.drain w.steeringMode).1 = []
  · have hsame := MessageQueue.drain_empty hsteering
    simp only [drainContinueTail, hsteering, hsame, ne_eq, not_true_eq_false, if_false]
    refine ⟨by simp [removed, removedFrom_drain], ?_, trivial⟩
    rintro (_ | _)
    · simp [queueOf]
    · exact releases_drain _ _
  · simp only [drainContinueTail, ne_eq, hsteering, not_false_eq_true, if_true]
    refine ⟨by simp [removed, removedFrom_drain], ?_, trivial⟩
    rintro (_ | _)
    · exact releases_drain _ _
    · simp [queueOf]

theorem releases_trans_queues {w₁ : World} (hr : Releases w w₁) (hq : w'.queues = w₁.queues) :
    Releases w w' := by
  intro queue
  have hqueue := hr queue
  cases queue <;> simpa only [queueOf, hq] using hqueue

/-- A continue takes messages from a queue and makes them the initial messages of its
    run, or it takes none. -/
theorem startContinue_claimed {a : Agent} (hstart : startContinue a w = (.ok h, w')) :
    ∃ w₁ contents skip, Claimed a contents skip w₁ h w' ∧ w₁ = { w with queues := w₁.queues } ∧
      Releases w w₁ ∧ contents = (removed w w₁).map (·.content) := by
  unfold startContinue at hstart
  rcases hactive : w.agent.phase.active with _ | active
  swap
  · simp only [hactive, Prod.mk.injEq] at hstart
    cases hstart.1
  rcases hlast : w.agent.messages.getLast? with _ | last
  · simp only [hactive, hlast, transitionError, Prod.mk.injEq] at hstart
    cases hstart.1
  by_cases hassistant : last.isAssistant = true
  · simp only [hactive, hlast, hassistant, if_true] at hstart
    obtain ⟨htaken, hreleases, hworld⟩ := drainContinueTail_removed w
    by_cases hnone : (drainContinueTail w).1 = []
    · simp only [if_pos hnone, transitionError, Prod.mk.injEq] at hstart
      cases hstart.1
    · simp only [if_neg hnone] at hstart
      exact ⟨_, _, _, startRun_claimed hstart, hworld, hreleases, by rw [← htaken]⟩
  · simp only [hactive, hlast, if_neg hassistant] at hstart
    exact ⟨w, [], false, startRun_claimed hstart, rfl, releases_of_queues rfl, by
      rw [removed_of_queues rfl]; rfl⟩

/-- A refused continue changes nothing. -/
theorem startContinue_error {a : Agent} {error : CoreError}
    (hstart : startContinue a w = (.error error, w')) : w' = w := by
  unfold startContinue at hstart
  rcases hactive : w.agent.phase.active with _ | active
  swap
  · simp only [hactive, Prod.mk.injEq] at hstart
    exact hstart.2.symm
  rcases hlast : w.agent.messages.getLast? with _ | last
  · simp only [hactive, hlast, Prod.mk.injEq] at hstart
    exact hstart.2.symm
  have hidle : ∀ {contents skip w₁}, w₁.agent.phase = w.agent.phase →
      ¬ startRun a contents skip w₁ = (.error error, w') := by
    intro contents skip w₁ hphase herror
    refine (startRun_error herror).2 ?_
    rw [hphase, hactive]
  by_cases hassistant : last.isAssistant = true
  · simp only [hactive, hlast, hassistant, if_true] at hstart
    obtain ⟨htaken, hreleases, hworld⟩ := drainContinueTail_removed w
    by_cases hnone : (drainContinueTail w).1 = []
    · simp only [if_pos hnone, Prod.mk.injEq] at hstart
      rw [← hstart.2]
      have hsteering : (w.queues.steering.drain w.steeringMode).1 = [] := by
        by_contra hne
        simp only [drainContinueTail, if_pos hne] at hnone
        exact hne hnone
      simp only [drainContinueTail, hsteering, ne_eq, not_true_eq_false, if_false,
        MessageQueue.drain_empty hsteering] at hnone ⊢
      rw [MessageQueue.drain_empty hnone]
    · simp only [if_neg hnone] at hstart
      exact absurd hstart (hidle (by rw [hworld]))
  · simp only [hactive, hlast, if_neg hassistant] at hstart
    exact absurd hstart (hidle rfl)

/-! ### Sessions -/

/-- What the owner of an agent does: between two runs it and other clients use the
    agent, and a claimed run is driven to its end or dropped. -/
inductive Session (acts : Now → ClientOp → Prop)
    (answers : Now → (query : Query) → Reply query → Prop) (a : Agent) (w₀ : World) :
    List (Step World Query Reply) → World → Option RunHandle → Prop where
  | start : Session acts answers a w₀ [] w₀ none
  | client {hist w tenant} (op : ClientOp) (rest : Session acts answers a w₀ hist w tenant) :
      Session acts answers a w₀ (.interference w (op.apply w) :: hist) (op.apply w) tenant
  | prompt {hist w w' tenant prompt h} (start : startPrompt a prompt w = (.ok h, w'))
      (rest : Session acts answers a w₀ hist w tenant) :
      Session acts answers a w₀ (.interference w w' :: hist) w' (some h)
  | promptRefused {hist w w' tenant prompt error}
      (start : startPrompt a prompt w = (.error error, w'))
      (rest : Session acts answers a w₀ hist w tenant) :
      Session acts answers a w₀ (.interference w w' :: hist) w' tenant
  | continue_ {hist w w' tenant h} (start : startContinue a w = (.ok h, w'))
      (rest : Session acts answers a w₀ hist w tenant) :
      Session acts answers a w₀ (.own w w' :: hist) w' (some h)
  | continueRefused {hist w w' tenant error} (start : startContinue a w = (.error error, w'))
      (rest : Session acts answers a w₀ hist w tenant) :
      Session acts answers a w₀ (.own w w' :: hist) w' tenant
  | reset {hist w tenant} (rest : Session acts answers a w₀ hist w tenant) :
      Session acts answers a w₀ (.interference w (reset w).2 :: hist) (reset w).2 tenant
  | drop {hist w h} (rest : Session acts answers a w₀ hist w (some h)) :
      Session acts answers a w₀ (.interference w (dropHandle w) :: hist) (dropHandle w) none
  | drive {hist w h fuel o m} (rest : Session acts answers a w₀ hist w (some h))
      (run : Run (Host.of acts answers) (drive h fuel) (Now.start w) o m)
      (completed : o.completed = true) :
      Session acts answers a w₀ (m.past ++ hist) m.state none

/-- The history of an agent, with a run in progress or without. -/
inductive History (acts : Now → ClientOp → Prop)
    (answers : Now → (query : Query) → Reply query → Prop) (a : Agent) (w₀ : World) :
    List (Step World Query Reply) → Bool → Prop where
  | between {hist w tenant} (session : Session acts answers a w₀ hist w tenant) :
      History acts answers a w₀ hist false
  | during {hist w h fuel o m} (session : Session acts answers a w₀ hist w (some h))
      (run : Run (Host.of acts answers) (drive h fuel) (Now.start w) o m) :
      History acts answers a w₀ (m.past ++ hist) (!o.completed)

/-- What a session keeps: nothing is held between two runs. -/
structure SessionKept (w₀ : World) (hist : List (Step World Query Reply)) (w : World)
    (tenant : Option RunHandle) : Prop where
  held : w.held = true
  current : current w₀ hist = w
  throughout : BalancedThroughout w₀ hist
  balance : Balance w₀ hist []
  claimed : tenant ≠ none → Consistent (Stage.claimed w.run.id) w

theorem SessionKept.interference {hist : List (Step World Query Reply)}
    {tenant tenant' : Option RunHandle} (hk : SessionKept w₀ hist w tenant)
    (hheld : w'.held = w.held) (hc : Conserves w w')
    (hkept : users w.agent.messages <+: users w'.agent.messages ∨ w'.agent.messages = [])
    (hclaimed : tenant' ≠ none → Consistent (Stage.claimed w'.run.id) w') :
    SessionKept w₀ (.interference w w' :: hist) w' tenant' := by
  have hbalance := hk.balance.interference hk.current hc hkept
  exact ⟨hheld.trans hk.held, rfl, hk.throughout.cons hbalance, hbalance, hclaimed⟩

theorem SessionKept.own {hist : List (Step World Query Reply)}
    {tenant tenant' : Option RunHandle} (hk : SessionKept w₀ hist w tenant)
    (hheld : w'.held = w.held) (hr : Releases w w') {appended : List (MessageId × String)}
    (happends : users w'.agent.messages = users w.agent.messages ++ appended)
    (hcontents : appended.map Prod.snd = (removed w w').map (·.content))
    (hclaimed : tenant' ≠ none → Consistent (Stage.claimed w'.run.id) w') :
    SessionKept w₀ (.own w w' :: hist) w' tenant' := by
  have hcarried : Carried [] (.own w w' :: hist) := by
    obtain ⟨messages, hdelivered, hbefore⟩ := hk.balance.transcript
    rw [takenFromQueues_eq] at hbefore
    refine ⟨_, hdelivered.own happends, ?_⟩
    simp only [taken, if_true, List.map_append, ← hbefore, hcontents, List.map_nil,
      List.append_nil]
  have hbalance := hk.balance.own hk.current hr hcarried
  exact ⟨hheld.trans hk.held, rfl, hk.throughout.cons hbalance, hbalance, hclaimed⟩

theorem reset_kept (hw : Consistent (Stage.claimed w.run.id) w) :
    Consistent (Stage.claimed (reset w).2.run.id) (reset w).2 := by
  unfold reset
  rcases hactive : w.agent.phase.active with _ | active
  · refine ⟨hw.held, rfl, .inr ?_⟩
    have hphase := AgentPhase.active_none hactive
    rcases hw.phased with ⟨_, hown⟩ | ⟨hcancelled, hset⟩
    · rcases hown.phase with hrunning | hrunning <;> rw [hphase] at hrunning <;> cases hrunning
    · exact ⟨hcancelled, hphase, hset.activeRun, rfl, rfl, rfl⟩
  · exact hw

theorem reset_conserves : Conserves w (reset w).2 ∧ (reset w).2.held = w.held ∧
    (users w.agent.messages <+: users (reset w).2.agent.messages ∨
      (reset w).2.agent.messages = []) := by
  unfold reset
  rcases w.agent.phase.active with _ | active
  · exact ⟨conserves_of_entries fun queue => .inr (.inr (by cases queue <;> rfl)), rfl, .inr rfl⟩
  · exact ⟨conserves_of_queues rfl, rfl, .inl List.prefix_rfl⟩

theorem dropHandle_conserves : Conserves w (dropHandle w) ∧ (dropHandle w).held = w.held ∧
    users w.agent.messages <+: users (dropHandle w).agent.messages := by
  unfold dropHandle
  by_cases hterminal : w.run.phase.isTerminal = true
  · simp only [if_pos hterminal]
    exact ⟨conserves_of_queues rfl, trivial, List.prefix_rfl⟩
  · simp only [if_neg hterminal]
    refine ⟨conserves_of_queues abortRun_queues, abortRun_client.held, ?_⟩
    simp only [abortRun_client.messages, List.prefix_rfl]

/-- A drive goes on from a session, and holds nothing when it returns. -/
theorem SessionKept.drive {hist : List (Step World Query Reply)} {tenant : Option RunHandle}
    (hk : SessionKept w₀ hist w tenant) (hw : Consistent (Stage.claimed w.run.id) w)
    (hat : Attentive answers) {fuel : Nat} {o : Outcome Query CoreError Unit} {m : Now}
    (hrun : Run (Host.of acts answers) (Run.drive h fuel) (Now.start w) o m) :
    m.state.held = true ∧ Contract.current w₀ (m.past ++ hist) = m.state ∧
      BalancedThroughout w₀ (m.past ++ hist) ∧
      ∃ held, Balance w₀ (m.past ++ hist) held ∧ (o.completed = true → held = []) := by
  have hstart : BalancedThroughout w [] := fun past hsuffix => by
    rw [List.suffix_nil.mp hsuffix]
    exact ⟨[], .start⟩
  obtain ⟨s, hended, ⟨⟨hconsistent, _⟩, _⟩, _, hunheld, hb⟩ :=
    drive_reaches (balance_invariant w hat)
      ⟨⟨⟨hw, fun _ hmem => by cases hmem⟩, fun hfault => by cases hfault⟩, Handed.claimed, fun _ => rfl, rfl, hstart, .start⟩
      hrun
  have hcurrent := hk.current
  refine ⟨hconsistent.held, ?_, ?_, s.batch, ?_, fun hcompleted => hunheld ?_⟩
  · rw [current_append, hcurrent]
    exact hb.current
  · exact hk.throughout.append hk.balance (by rw [hcurrent]; exact hb.throughout)
  · exact hk.balance.append (by rw [hcurrent]; exact hb.balance)
  · cases o with
    | done value => rw [show s.life = .settled .succeeded from hended]; rfl
    | failed error =>
      rcases hended with hlife | ⟨_, hlife, _⟩ <;> rw [hlife] <;> rfl
    | pending query => cases hcompleted

theorem Session.kept {a : Agent} {hist : List (Step World Query Reply)}
    {tenant : Option RunHandle} (hs : Session acts answers a w₀ hist w tenant)
    (hheld : w₀.held = true) (hat : Attentive answers) : SessionKept w₀ hist w tenant := by
  induction hs with
  | start =>
    refine ⟨hheld, rfl, fun past hsuffix => ⟨[], ?_⟩, .start, fun hne => absurd rfl hne⟩
    rw [List.suffix_nil.mp hsuffix]
    exact .start
  | @client hist w tenant op _ ih =>
    have hclient := ClientOp.client op w
    refine ih.interference hclient.held (ClientOp.conserves op w) (.inl ?_) fun hne => ?_
    · simp only [hclient.messages, List.prefix_rfl]
    · rw [hclient.id]
      exact ClientOp.consistent op (ih.claimed hne)
  | prompt start _ ih =>
    have hclaimed := startRun_claimed start
    obtain ⟨hq, hheld', appended, happends, _⟩ := Claimed.appends hclaimed
    refine ih.interference hheld' (conserves_of_queues hq) (.inl ?_) fun _ => ?_
    · rw [happends]
      exact List.prefix_append _ _
    · exact hclaimed.consistent ih.held
  | promptRefused start _ ih =>
    obtain ⟨rfl, _⟩ := startRun_error start
    refine ih.interference rfl (conserves_of_queues rfl) (.inl List.prefix_rfl) fun hne => ?_
    exact (ih.claimed hne).frame rfl rfl rfl rfl
  | continue_ start _ ih =>
    obtain ⟨w₁, contents, skip, hclaimed, hworld, hreleases, hcontents⟩ :=
      startContinue_claimed start
    obtain ⟨hq, hheld', appended, happends, hsame⟩ := Claimed.appends hclaimed
    have hheld₁ : w₁.held = true := by rw [hworld]; exact ih.held
    have hagent : w₁.agent = _ := congrArg World.agent hworld
    rw [hagent] at happends
    refine ih.own (hheld'.trans (by rw [hworld])) (releases_trans_queues hreleases hq) happends ?_
      fun _ => hclaimed.consistent hheld₁
    rw [hsame, hcontents]
    simp only [removed, hq]
  | continueRefused start _ ih =>
    obtain rfl := startContinue_error start
    exact ih.own rfl (releases_of_queues rfl) (List.append_nil _).symm
      (by rw [removed_of_queues rfl]; rfl) ih.claimed
  | reset _ ih =>
    obtain ⟨hc, hheld', hkept⟩ := reset_conserves
    exact ih.interference hheld' hc hkept fun hne => reset_kept (ih.claimed hne)
  | drop _ ih =>
    obtain ⟨hc, hheld', hkept⟩ := dropHandle_conserves
    exact ih.interference hheld' hc (.inl hkept) fun hne => absurd rfl hne
  | drive _ run completed ih =>
    obtain ⟨hheld', hcurrent, hthroughout, held, hbalance, hnone⟩ :=
      ih.drive (ih.claimed (Option.some_ne_none _)) hat run
    rw [hnone completed] at hbalance
    exact ⟨hheld', hcurrent, hthroughout, hbalance, fun hne => absurd rfl hne⟩

/-! ### Conservation -/

/-- The state after the prompt, and the step that has led to it. -/
theorem prompt_session (S : Script) (a : Agent) {w₀ : World}
    (hidle : w₀.agent.phase = .idle) :
    Session S.acts S.answers a w₀ [.interference w₀ (prompted a w₀)] (prompted a w₀)
      (some (promptHandle a w₀)) :=
  have hstart : startPrompt a "hi" w₀ = (.ok (promptHandle a w₀), prompted a w₀) :=
    prompted_eq a hidle
  .prompt hstart .start

/-- A host whose client steers a message while the run starts. -/
def steersAtStart : Script where
  clients
    | .observe _ event => if event.kind = .agentStart then [.steer "wait"] else []
    | _ => []

/-- A host whose client steers a message at the end of each turn. -/
def steersAtBoundary : Script where
  clients
    | .shouldStopAfterTurn _ => [.steer "wait"]
    | _ => []

/-- Such a host whose observer rejects the second turn. -/
def rejectsSecondTurn : Script where
  observe kind := if kind = .turnStart ⟨2⟩ then .error .cancelled else .ok ()
  clients := steersAtBoundary.clients

/-- The message was taken from the queue, and is not in the transcript. -/
def missing (w₀ : World) (past : List (Step World Query Reply)) : Bool :=
  (takenFromQueues past).any fun message =>
    decide (message.content ∉ (users (current w₀ past).agent.messages).map Prod.snd)

end Tea.Contract
