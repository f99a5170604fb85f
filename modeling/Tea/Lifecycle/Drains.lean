/-
  Tea/Lifecycle/Drains.lean
  =========================
  **What a run takes from the queues, and where it goes.**

  A run touches the queues at its polls only (`Own.polls`).  A poll takes a prefix
  of its queue, and the run holds what it took until it appends it: the user
  messages that a run has appended, followed by those it holds, are what it has
  taken, in this order (`Own.handed`).
-/
import Tea.Lifecycle.Writes

namespace Tea.Lifecycle

open Tea.Async Tea.Core Tea.Run

variable {h : RunHandle} {s s' : Stage} {w w' : World}
  {acts : Now → ClientOp → Prop} {answers : Now → (query : Query) → Reply query → Prop}

/-! ### Removed messages -/

/-- The messages that a step removes from the front of a queue. -/
def removedFrom (before after : MessageQueue) : List QueuedMessage :=
  before.entries.take (before.entries.length - after.entries.length)

@[simp] theorem removedFrom_self (queue : MessageQueue) : removedFrom queue queue = [] := by
  simp [removedFrom]

theorem removedFrom_drain (queue : MessageQueue) (mode : QueueMode) :
    removedFrom queue (queue.drain mode).2 = (queue.drain mode).1 := by
  have hsplit := queue.drain_append mode
  rw [removedFrom, ← hsplit, List.length_append, Nat.add_sub_cancel]
  exact List.take_left

/-- The messages that a step removes from both queues. -/
def removed (before after : World) : List QueuedMessage :=
  removedFrom before.queues.steering after.queues.steering ++
    removedFrom before.queues.followUp after.queues.followUp

theorem removed_of_queues {before after : World} (hq : after.queues = before.queues) :
    removed before after = [] := by
  simp [removed, hq]

/-- What the run has taken from the queues, oldest first, in the states that satisfy
    `admitted`. -/
def taken (admitted : World → Bool) : List (Step World Query Reply) → List QueuedMessage
  | [] => []
  | .interference .. :: past => taken admitted past
  | .own before after :: past =>
      taken admitted past ++ if admitted before then removed before after else []
  | .reply .. :: past => taken admitted past

/-! ### Polls -/

/-- The polls of a run. -/
inductive Polls (h : RunHandle) : Stage → World → World → Stage → Prop where
  | first {s : Stage} {w : World} (turn : InTurn s) (fresh : s.polled = false ∧ s.asked = false)
      (polls : h.skipInitialSteering = false) (batch : s.batch = []) :
      Polls h s w
        { w with queues := { w.queues with steering := (w.queues.steering.drain w.steeringMode).2 } }
        { s with batch := (w.queues.steering.drain w.steeringMode).1, polled := true }
  | steering {s : Stage} {w : World} (life : s.life = .polling) (batch : s.batch = []) :
      Polls h s w
        { w with queues := { w.queues with steering := (w.queues.steering.drain w.steeringMode).2 } }
        { s with
          life := .polled, batch := (w.queues.steering.drain w.steeringMode).1, polled := true }
  | followUp {s : Stage} {w : World} (life : s.life = .polled) (batch : s.batch = []) :
      Polls h s w
        { w with queues := { w.queues with followUp := (w.queues.followUp.drain w.followUpMode).2 } }
        { s with
          life := .drained, batch := (w.queues.followUp.drain w.followUpMode).1, polled := true }

/-- A step polls a queue, or it leaves the queues alone. -/
theorem Own.polls (hown : Own h s w w' s') : Polls h s w w' s' ∨ w'.queues = w.queues := by
  have hcore : ∀ {c : Core}, core w' = c → w'.queues = c.queues := by
    rintro _ rfl
    rfl
  cases hown with
  | firstSteering turn fresh polls batch => exact .inl (.first turn fresh polls batch)
  | drainSteering life batch => exact .inl (.steering life batch)
  | drainFollowUp life batch => exact .inl (.followUp life batch)
  | quiet _ quiet => exact .inr (hcore quiet.core_eq)
  | append _ _ core_eq => exact .inr (hcore core_eq)
  | openText _ _ _ _ _ core_eq => exact .inr (hcore core_eq)
  | extendText _ _ core_eq => exact .inr (hcore core_eq)
  | closeText _ _ _ _ _ core_eq => exact .inr (hcore core_eq)
  | truncate _ _ _ _ core_eq => exact .inr (hcore core_eq)
  | skip _ quiet => exact .inr (hcore quiet.core_eq)
  | settle =>
    refine .inr ?_
    unfold World.settleAgent
    split <;> rfl
  | _ => exact .inr rfl

/-- A poll takes what it removes, and nothing was held before. -/
theorem Polls.removed (hp : Polls h s w w' s') :
    s.batch = [] ∧ Lifecycle.removed w w' = s'.batch ∧ w'.agent = w.agent ∧
      s'.speech = s.speech ∧ s'.mark = s.mark ∧ s'.proposal = s.proposal := by
  cases hp with
  | first _ _ _ batch =>
    exact ⟨batch, by simp [Lifecycle.removed, removedFrom_drain], rfl, rfl, rfl, rfl⟩
  | steering _ batch =>
    exact ⟨batch, by simp [Lifecycle.removed, removedFrom_drain], rfl, rfl, rfl, rfl⟩
  | followUp _ batch =>
    exact ⟨batch, by simp [Lifecycle.removed, removedFrom_drain], rfl, rfl, rfl, rfl⟩

/-! ### Delivered messages -/

def userOf : AgentMessage → Option (MessageId × String)
  | .user id content => some (id, content)
  | _ => none

/-- The user messages of a transcript. -/
def users (messages : List AgentMessage) : List (MessageId × String) := messages.filterMap userOf

@[simp] theorem users_append (ms ns : List AgentMessage) :
    users (ms ++ ns) = users ms ++ users ns := List.filterMap_append

theorem users_snoc_of_none {message : AgentMessage} (hm : userOf message = none)
    (messages : List AgentMessage) : users (messages ++ [message]) = users messages := by
  rw [users_append, users, users, List.filterMap_cons_none hm, List.filterMap_nil, List.append_nil]

theorem users_setLast {before : List AgentMessage} {last message : AgentMessage}
    (hlast : userOf last = none) (hm : userOf message = none) :
    users (setLast (before ++ [last]) message) = users (before ++ [last]) := by
  rw [setLast, List.dropLast_concat, users_snoc_of_none hm, users_snoc_of_none hlast]

theorem users_take {messages : List AgentMessage} {count : Nat}
    (hdrop : users (messages.drop count) = []) : users (messages.take count) = users messages := by
  have hsplit := congrArg users (List.take_append_drop count messages)
  rwa [users_append, hdrop, List.append_nil] at hsplit

/-- The transcript is one that the compactor has proposed. -/
def Replacement (past : List (Step World Query Reply)) (messages : List AgentMessage) : Prop :=
  ∃ context request result, .reply (.compactAutomatic context request) (.ok result) ∈ past ∧
    messages = result.messages

/-- `Delivered past messages`: the steps of `past` have appended these user messages
    to the transcript, in this order.  A user message stays in the transcript until
    a compaction replaces it or somebody else empties it. -/
inductive Delivered : List (Step World Query Reply) → List (MessageId × String) → Prop where
  | start : Delivered [] []
  | interference {past messages before after} (rest : Delivered past messages)
      (kept : users before.agent.messages <+: users after.agent.messages ∨
        after.agent.messages = []) :
      Delivered (.interference before after :: past) messages
  | reply {past messages query answer} (rest : Delivered past messages) :
      Delivered (.reply query answer :: past) messages
  | own {past messages before after appended} (rest : Delivered past messages)
      (appends : users after.agent.messages = users before.agent.messages ++ appended) :
      Delivered (.own before after :: past) (messages ++ appended)
  | commit {past messages before after} (rest : Delivered past messages)
      (replacement : Replacement past after.agent.messages) :
      Delivered (.own before after :: past) messages

theorem Delivered.quiet {past : List (Step World Query Reply)} {messages : List (MessageId × String)}
    {before after : World} (rest : Delivered past messages)
    (husers : users after.agent.messages = users before.agent.messages) :
    Delivered (.own before after :: past) messages := by
  have hown : Delivered (.own before after :: past) (messages ++ []) :=
    rest.own (by rw [husers, List.append_nil])
  rwa [List.append_nil] at hown

theorem Delivered.append {past hist : List (Step World Query Reply)}
    {messages earlier : List (MessageId × String)} (hd : Delivered past messages)
    (hhist : Delivered hist earlier) : Delivered (past ++ hist) (earlier ++ messages) := by
  induction hd with
  | start => rw [List.append_nil]; exact hhist
  | interference _ kept ih => exact .interference ih kept
  | reply _ ih => exact .reply ih
  | own _ appends ih => rw [← List.append_assoc]; exact .own ih appends
  | commit _ replacement ih =>
    obtain ⟨context, request, result, hmem, heq⟩ := replacement
    exact .commit ih ⟨context, request, result, List.mem_append_left _ hmem, heq⟩

/-! ### The invariant -/

/-- What has been appended, followed by what is held, is what has been taken. -/
def Carried (batch : List QueuedMessage) (past : List (Step World Query Reply)) : Prop :=
  ∃ messages, Delivered past messages ∧
    messages.map Prod.snd ++ batch.map (·.content) =
      (taken (fun _ => true) past).map (·.content)

/-- The message whose text is streaming. -/
def streamed : Speech → Option AgentMessage
  | .streaming message _ => some message
  | _ => none

structure Handed (s : Stage) (m : Now) : Prop where
  carried : Carried s.batch m.past
  streaming : ∀ message, streamed s.speech = some message →
    ∃ before, m.state.agent.messages = before ++ [message]
  marked : ∀ count, s.mark = some count → users (m.state.agent.messages.drop count) = []
  proposal : ∀ replacement, s.proposal = some replacement → Replacement m.past replacement

theorem Replacement.later {past : List (Step World Query Reply)} {messages : List AgentMessage}
    (hr : Replacement past messages) (step : Step World Query Reply) :
    Replacement (step :: past) messages := by
  obtain ⟨context, request, result, hmem, heq⟩ := hr
  exact ⟨context, request, result, List.mem_cons_of_mem _ hmem, heq⟩

/-- A step that takes nothing and leaves the user messages alone. -/
theorem Carried.quiet {batch : List QueuedMessage} {past : List (Step World Query Reply)}
    (hc : Carried batch past) (hq : w'.queues = w.queues)
    (husers : users w'.agent.messages = users w.agent.messages) :
    Carried batch (.own w w' :: past) := by
  obtain ⟨messages, hdelivered, hcontents⟩ := hc
  refine ⟨messages, hdelivered.quiet husers, ?_⟩
  simpa [taken, removed_of_queues hq] using hcontents

/-- A step that leaves the transcript alone and begins no message. -/
theorem Handed.frame {past : List (Step World Query Reply)} {step : Step World Query Reply}
    (hh : Handed s ⟨past, w⟩) (hcarried : Carried s'.batch (step :: past))
    (hmessages : w'.agent.messages = w.agent.messages)
    (hspeech : streamed s'.speech = streamed s.speech ∨ streamed s'.speech = none)
    (hmark : s'.mark = s.mark ∨ s'.mark = none) (hproposal : s'.proposal = s.proposal) :
    Handed s' ⟨step :: past, w'⟩ where
  carried := hcarried
  streaming message heq := by
    rw [hmessages]
    rcases hspeech with hspeech | hspeech
    · exact hh.streaming message (hspeech ▸ heq)
    · rw [hspeech] at heq
      cases heq
  marked count heq := by
    rw [hmessages]
    rcases hmark with hmark | hmark
    · exact hh.marked count (hmark ▸ heq)
    · rw [hmark] at heq
      cases heq
  proposal replacement heq := (hh.proposal replacement (hproposal ▸ heq)).later step

/-- A step that appends a message that no user has written, or rewrites one. -/
theorem Handed.write {past : List (Step World Query Reply)} (hh : Handed s ⟨past, w⟩)
    (hq : w'.queues = w.queues) {before : List AgentMessage} {message : AgentMessage}
    (hmessages : w'.agent.messages = before ++ [message]) (hmessage : userOf message = none)
    (hold : w.agent.messages = before ∨ ∃ last, w.agent.messages = before ++ [last] ∧
      userOf last = none)
    (hspeech : streamed s'.speech = some message ∨ streamed s'.speech = none)
    (hbatch : s'.batch = s.batch) (hmark : s'.mark = s.mark)
    (hproposal : s'.proposal = s.proposal) : Handed s' ⟨.own w w' :: past, w'⟩ where
  carried := by
    rw [hbatch]
    refine hh.carried.quiet hq ?_
    rw [hmessages, users_snoc_of_none hmessage]
    rcases hold with hold | ⟨last, hold, hlast⟩
    · rw [hold]
    · rw [hold, users_snoc_of_none hlast]
  streaming m heq := by
    rcases hspeech with hspeech | hspeech
    · exact ⟨before, Option.some.inj (hspeech.symm.trans heq) ▸ hmessages⟩
    · rw [hspeech] at heq
      cases heq
  marked count heq := by
    have hmarked := hh.marked count (hmark ▸ heq)
    have hbefore : users (before.drop count) = [] := by
      rcases hold with hold | ⟨last, hold, hlast⟩
      · rw [← hold]
        exact hmarked
      · rw [hold, List.drop_append, users_append] at hmarked
        exact (List.append_eq_nil_iff.mp hmarked).1
    have hlast : users ([message].drop (count - before.length)) = [] := by
      rcases Nat.eq_zero_or_pos (count - before.length) with hzero | hpos
      · rw [hzero]
        exact List.filterMap_cons_none hmessage
      · rw [List.drop_eq_nil_of_le hpos]
        rfl
    rw [hmessages, List.drop_append, users_append, hbefore, hlast]
    rfl
  proposal replacement heq := (hh.proposal replacement (hproposal ▸ heq)).later _

theorem Carried.poll {past : List (Step World Query Reply)} (hp : Polls h s w w' s')
    (hc : Carried s.batch past) : Carried s'.batch (.own w w' :: past) := by
  obtain ⟨hbatch, hremoved, hagent, _⟩ := hp.removed
  obtain ⟨messages, hdelivered, hcontents⟩ := hc
  refine ⟨messages, hdelivered.quiet (by rw [hagent]), ?_⟩
  rw [hbatch, List.map_nil, List.append_nil] at hcontents
  simp only [taken, if_true, hremoved, List.map_append, hcontents]

theorem Carried.deliver {queued : QueuedMessage} {rest : List QueuedMessage} {id : MessageId}
    {past : List (Step World Query Reply)} (hq : w'.queues = w.queues)
    (hmessages : w'.agent.messages = w.agent.messages ++ [.user id queued.content])
    (hc : Carried (queued :: rest) past) : Carried rest (.own w w' :: past) := by
  obtain ⟨messages, hdelivered, hcontents⟩ := hc
  refine ⟨messages ++ [(id, queued.content)], hdelivered.own ?_, ?_⟩
  · rw [hmessages, users_append]
    rfl
  · simpa [taken, removed_of_queues hq] using hcontents

theorem Records.handed {kind : AgentEventKind} (hr : Records h s kind s') :
    s'.batch = s.batch ∧
      (streamed s'.speech = streamed s.speech ∨ streamed s'.speech = none) ∧
      (s'.mark = s.mark ∨ s'.mark = none) ∧ s'.proposal = s.proposal := by
  cases hr with
  | textStart _ speech => exact ⟨rfl, .inl (by rw [speech]; rfl), .inl rfl, rfl⟩
  | messageStart => exact ⟨rfl, .inr rfl, .inl rfl, rfl⟩
  | promptStart => exact ⟨rfl, .inr rfl, .inl rfl, rfl⟩
  | messageEnd => exact ⟨rfl, .inr rfl, .inl rfl, rfl⟩
  | turnEnd => exact ⟨rfl, .inl rfl, .inr rfl, rfl⟩
  | _ => exact ⟨rfl, .inl rfl, .inl rfl, rfl⟩

/-- A message that a run appends is held by it, or no user has written it. -/
theorem Appends.handed {message : AgentMessage} (ha : Appends s message s') :
    s'.speech = .pushed message ∧ s'.proposal = s.proposal ∧
      ((∃ id queued, s.batch = queued :: s'.batch ∧ message = .user id queued.content ∧
          s'.mark = none) ∨
        (s'.batch = s.batch ∧ userOf message = none ∧ s'.mark = s.mark)) := by
  cases ha with
  | user _ _ unmarked batch => exact ⟨rfl, rfl, .inl ⟨_, _, batch, rfl, unmarked⟩⟩
  | result _ _ _ result =>
    refine ⟨rfl, rfl, .inr ⟨rfl, ?_, rfl⟩⟩
    cases message with
    | user => cases result
    | assistant => cases result
    | toolResult => rfl
  | response => exact ⟨rfl, rfl, .inr ⟨rfl, rfl, rfl⟩⟩
  | failure => exact ⟨rfl, rfl, .inr ⟨rfl, rfl, rfl⟩⟩

theorem Own.handed (hown : Own h s w w' s') {past : List (Step World Query Reply)}
    (hh : Handed s ⟨past, w⟩) : Handed s' ⟨.own w w' :: past, w'⟩ := by
  have hpoll : Polls h s w w' s' → Handed s' ⟨.own w w' :: past, w'⟩ := by
    intro hpolls
    obtain ⟨_, _, hagent, hspeech, hmark, hproposal⟩ := hpolls.removed
    exact hh.frame (hh.carried.poll hpolls) (by rw [hagent])
      (.inl (by rw [hspeech])) (.inl hmark) hproposal
  rcases hown.polls with hpolls | hq
  · exact hpoll hpolls
  have hcore : ∀ {c : Core}, core w' = c → w'.agent.messages = c.messages := by
    rintro _ rfl
    rfl
  -- a step that takes, appends and rewrites nothing
  have hframe : w'.agent.messages = w.agent.messages → s'.batch = s.batch →
      (streamed s'.speech = streamed s.speech ∨ streamed s'.speech = none) →
      (s'.mark = s.mark ∨ s'.mark = none) → s'.proposal = s.proposal →
      Handed s' ⟨.own w w' :: past, w'⟩ := by
    intro hmessages hbatch hspeech hmark hproposal
    refine hh.frame ?_ hmessages hspeech hmark hproposal
    rw [hbatch]
    exact hh.carried.quiet hq (by rw [hmessages])
  cases hown with
  | record records =>
    obtain ⟨hbatch, hspeech, hmark, hproposal⟩ := records.handed
    exact hframe rfl hbatch hspeech hmark hproposal
  | append appends _ core_eq =>
    have hmessages := hcore core_eq
    obtain ⟨hspeech, hproposal, ⟨id, queued, hbatch, rfl, hmark⟩ | ⟨hbatch, hmessage, hmark⟩⟩ :=
      appends.handed
    · refine ⟨?_, fun _ heq => ?_, fun _ heq => ?_, fun replacement heq => ?_⟩
      · have hcarried := hh.carried
        rw [hbatch] at hcarried
        exact hcarried.deliver hq hmessages
      · rw [hspeech] at heq
        cases heq
      · rw [hmark] at heq
        cases heq
      · exact (hh.proposal replacement (hproposal ▸ heq)).later _
    · exact hh.write hq hmessages hmessage (.inl rfl) (.inr (by rw [hspeech]; rfl)) hbatch hmark
        hproposal
  | openText _ _ _ _ _ core_eq =>
    exact hh.write hq (hcore core_eq) rfl (.inl rfl) (.inl rfl) rfl rfl rfl
  | extendText _ speech core_eq =>
    obtain ⟨before, hbefore⟩ := hh.streaming _ (by rw [speech]; rfl)
    refine hh.write hq ?_ rfl (.inr ⟨_, hbefore, rfl⟩) (.inl rfl) rfl rfl rfl
    rw [hcore core_eq]
    simp only [setLast, show w.agent.messages = _ from hbefore, List.dropLast_concat]
  | closeText _ speech _ _ _ core_eq =>
    obtain ⟨before, hbefore⟩ := hh.streaming _ (by rw [speech]; rfl)
    replace hbefore : w.agent.messages = _ := hbefore
    have hmessages := hcore core_eq
    simp only [setLast, hbefore, List.dropLast_concat] at hmessages
    exact hh.write hq hmessages rfl (.inr ⟨_, hbefore, rfl⟩) (.inr rfl) rfl rfl rfl
  | mark turn =>
    refine ⟨hh.carried.quiet hq rfl, fun message heq => ?_, ?_, fun r heq =>
      (hh.proposal r heq).later _⟩
    · rw [show s.speech = .silent from turn.speech] at heq
      cases heq
    · rintro _ ⟨⟩
      simp [users]
  | truncate turn _ mark _ core_eq =>
    have hmarked := hh.marked _ mark
    have hmessages := hcore core_eq
    refine ⟨hh.carried.quiet hq ?_, fun message heq => ?_, nofun, fun r heq =>
      (hh.proposal r heq).later _⟩
    · rw [hmessages]
      exact users_take hmarked
    · rw [show s.speech = .silent from turn.speech] at heq
      cases heq
  | commit turn _ proposal =>
    refine ⟨?_, fun message heq => ?_, nofun, fun r heq => (hh.proposal r heq).later _⟩
    · obtain ⟨messages, hdelivered, hcontents⟩ := hh.carried
      refine ⟨messages, hdelivered.commit (hh.proposal _ proposal), ?_⟩
      simpa [taken, removed_of_queues] using hcontents
    · rw [show s.speech = .silent from turn.speech] at heq
      cases heq
  | firstSteering turn fresh polls batch => exact hpoll (.first turn fresh polls batch)
  | drainSteering life batch => exact hpoll (.steering life batch)
  | drainFollowUp life batch => exact hpoll (.followUp life batch)
  | quiet _ quiet => exact hframe (hcore quiet.core_eq) rfl (.inl rfl) (.inl rfl) rfl
  | skip _ quiet => exact hframe (hcore quiet.core_eq) rfl (.inl rfl) (.inl rfl) rfl
  | settle => exact hframe (settleAgent_client _ _).messages rfl (.inl rfl) (.inl rfl) rfl
  | _ => exact hframe rfl rfl (.inl rfl) (.inl rfl) rfl

theorem Replies.handed {query : Query} {reply : Reply query} (hr : Replies s query reply s')
    {past : List (Step World Query Reply)} (hh : Handed s ⟨past, w⟩) :
    Handed s' ⟨.reply query reply :: past, w⟩ := by
  have hcarried : Carried s.batch (.reply query reply :: past) := by
    obtain ⟨messages, hdelivered, hcontents⟩ := hh.carried
    exact ⟨messages, hdelivered.reply, hcontents⟩
  have hframe : s'.batch = s.batch → s'.speech = s.speech → s'.mark = s.mark →
      s'.proposal = s.proposal → Handed s' ⟨.reply query reply :: past, w⟩ := by
    intro hbatch hspeech hmark hproposal
    exact hh.frame (by rw [hbatch]; exact hcarried) rfl (.inl (by rw [hspeech])) (.inl hmark)
      hproposal
  cases hr with
  | @event item =>
    rcases Stage.receive_cases (s := s) item with ⟨_, _, _, heq⟩ | ⟨_, _, heq⟩ | ⟨_, heq⟩ <;>
      rw [heq] at hframe ⊢ <;> exact hframe rfl rfl rfl rfl
  | @proposed context request result =>
    refine ⟨hcarried, hh.streaming, hh.marked, ?_⟩
    rintro _ ⟨⟩
    exact ⟨context, request, result, List.mem_cons_self, rfl⟩
  | _ => exact hframe rfl rfl rfl rfl

theorem ClientOp.handed (op : ClientOp) {past : List (Step World Query Reply)}
    (hh : Handed s ⟨past, w⟩) : Handed s ⟨.interference w (op.apply w) :: past, op.apply w⟩ := by
  have hmessages := (ClientOp.client op w).messages
  refine hh.frame ?_ hmessages (.inl rfl) (.inl rfl) rfl
  obtain ⟨messages, hdelivered, hcontents⟩ := hh.carried
  refine ⟨messages, hdelivered.interference (.inl ?_), hcontents⟩
  simp only [hmessages, List.prefix_rfl]

theorem Handed.claimed {runId : RunId} : Handed (Stage.claimed runId) ⟨[], w⟩ where
  carried := ⟨[], .start, rfl⟩
  streaming _ heq := by cases heq
  marked _ heq := by cases heq
  proposal _ heq := by cases heq

end Tea.Lifecycle
