/-
  Tea/Lifecycle/Follow.lean
  =========================
  **The run loop follows the lifecycle machine: events, responses and tools.**

  Every part of the loop has one lemma, which says from which stages it may be
  entered and in which stage it leaves the run.  An error of any part leaves the
  run in a stage of `LoopFailed`.
-/
import Tea.Lifecycle.Stage

namespace Tea.Lifecycle

open Tea.Async Tea.Core Tea.Run

variable {h : RunHandle} {s : Stage}

/-- The assertion on the errors of the loop. -/
def Failed (h : RunHandle) (_ : CoreError) (s : Stage) : Prop := LoopFailed h s

theorem looping_running {life : Life} (hlife : life.looping = true) : life.running = true := by
  revert hlife
  cases life <;> simp [Life.looping, Life.running]

theorem Life.works_iff {life : Life} :
    life.works = true ↔ life.running = true ∧ life.polls = false := by
  simp [Life.works]

theorem TurnOpen.works (hs : TurnOpen s) : s.life.works = true := by rw [hs.life]; rfl

theorem TurnOpen.running (hs : TurnOpen s) : s.life.running = true := by rw [hs.life]; rfl

theorem TurnOpen.looping (hs : TurnOpen s) : s.life.looping = true := by rw [hs.life]; rfl

theorem InTurn.running (hs : InTurn s) : s.life.running = true := hs.turnOpen.running

theorem InTurn.works (hs : InTurn s) : s.life.works = true := hs.turnOpen.works

theorem InTurn.idle (hs : InTurn s) : s.life.polls = false := (Life.works_iff.mp hs.works).2

theorem Speaking.works (hs : Speaking s) : s.life.works = true := by
  rcases hs with hs | hlife
  · exact hs.works
  · rw [hlife]; rfl

theorem Speaking.running (hs : Speaking s) : s.life.running = true := (Life.works_iff.mp hs.works).1

theorem TurnOpen.not_ended (hs : TurnOpen s) : s.life ≠ .ended := by rw [hs.life]; nofun

theorem Speaking.not_ended (hs : Speaking s) : s.life ≠ .ended := by
  rcases hs with hs | hlife
  · exact hs.not_ended
  · rw [hlife]; nofun

/-- A failure that comes from none of the faults, with no queued message in hand. -/
theorem InTurn.failed (hs : InTurn s) (hbatch : s.batch = [])
    (hcalls : s.calls = [] ∨ BadEnd h s) : LoopFailed h s := by
  unfold LoopFailed
  rw [hs.fault]
  exact .inr (.inr ⟨hs.life, hs.speech, hbatch, hcalls⟩)

/-- A turn is open in which nothing is left to be done. -/
structure Resting (s : Stage) : Prop extends InTurn s where
  batch : s.batch = []
  calls : s.calls = []

theorem Resting.failed (hs : Resting s) : LoopFailed h s := hs.toInTurn.failed hs.batch (.inl hs.calls)

theorem observer_failed (hlife : s.life.looping = true) :
    LoopFailed h { s with fault := some .observer } := hlife

/-! ### Steps that leave the stage alone -/

variable {α β : Type} {ok : α → Stage → Prop} {err : CoreError → Stage → Prop}

theorem read_follows {f : World → α} (hidle : s.life.polls = false)
    (hok : ∀ w, Consistent s w → ok (f w) s) :
    (Future.read f : Drive α).Follows (machine h) ok err s :=
  fun w hw => ⟨s, .still hidle, hok w hw⟩

theorem modify_follows {f : World → World} {ok : Unit → Stage → Prop}
    (hlife : s.life.works = true) (hf : ∀ w, Quiet w (f w)) (hok : ok () s) :
    (Future.modify f : Drive Unit).Follows (machine h) ok err s :=
  fun w _ => ⟨s, .quiet hlife (hf w), hok⟩

theorem section_follows {f : World → α × World} (hlife : s.life.works = true)
    (hf : ∀ w, Quiet w (f w).2) (hok : ∀ w, Consistent s w → ok (f w).1 s) :
    (Future.section_ f : Drive α).Follows (machine h) ok err s :=
  fun w hw => ⟨s, .quiet hlife (hf w), hok w hw⟩

/-- A change of the agent state outside the core. -/
theorem modifyAgent_follows {f : AgentState → AgentState} {ok : Unit → Stage → Prop}
    (hlife : s.life.works = true)
    (hf : ∀ agent, (f agent).messages = agent.messages ∧
      (f agent).nextMessageId = agent.nextMessageId ∧ (f agent).phase = agent.phase ∧
      ((f agent).isStreaming = true → agent.isStreaming = true))
    (hok : ok () s) : (modifyAgent f).Follows (machine h) ok err s := by
  refine modify_follows hlife (fun w => ⟨?_, (hf w.agent).2.2.2⟩) hok
  obtain ⟨hm, hn, hp, _⟩ := hf w.agent
  simp only [core, hm, hn, hp]

theorem ask_follows {query : Query} {ok : Reply query → Stage → Prop}
    (hlife : s.life.running = true) (hpassive : ∀ reply, passive query reply) (hok : ∀ reply, ok reply s) :
    (Future.ask query : Drive (Reply query)).Follows (machine h) ok err s :=
  ⟨hlife, fun reply => ⟨s, .passive (hpassive reply), hok reply⟩⟩

theorem exhausted_follows (hlife : s.life.running = true) :
    (exhausted : Drive α).Follows (machine h) ok err s :=
  ⟨hlife, fun reply => nomatch reply⟩

theorem panicked_follows (hlife : s.life.running = true) :
    (panicked : Drive α).Follows (machine h) ok err s :=
  ⟨hlife, fun reply => nomatch reply⟩

theorem ofExcept_follows {result : Except CoreError α}
    (hok : ∀ value, result = .ok value → ok value s)
    (herr : ∀ error, result = .error error → err error s) :
    (Future.ofExcept result : Drive α).Follows (machine h) ok err s := by
  rcases result with error | value
  · exact herr error rfl
  · exact hok value rfl

theorem whenever_follows {condition : Bool} {p : Drive Unit} {ok : Unit → Stage → Prop}
    (hp : condition = true → p.Follows (machine h) ok err s)
    (hskip : condition = false → ok () s) :
    (whenever condition p).Follows (machine h) ok err s := by
  unfold whenever
  cases condition with
  | false => exact hskip rfl
  | true => exact hp rfl

theorem isCancelled_follows {ok : Bool → Stage → Prop} (hidle : s.life.polls = false)
    (hok : ∀ cancelled, ok cancelled s) :
    isCancelled.Follows (machine h) ok err s := read_follows hidle fun _ _ => hok _

/-- A critical section that appends the message built around the next identifier. -/
theorem lockAgent_append {f : AgentState → AgentMessage × AgentState}
    (build : MessageId → AgentMessage) (stage : AgentMessage → Stage)
    (happends : ∀ id, Appends s (build id) (stage (build id))) (hid : ∀ id, (build id).id = id)
    (hf : ∀ agent, (f agent).1 = build ⟨agent.nextMessageId⟩ ∧
      (f agent).2.messages = agent.messages ++ [build ⟨agent.nextMessageId⟩] ∧
      (f agent).2.nextMessageId = satSucc agent.nextMessageId ∧
      (f agent).2.phase = agent.phase) :
    (lockAgent f).Follows (machine h) (fun message x => (∃ id, message = build id) ∧
      x = stage message) err s := by
  intro w _
  obtain ⟨hmessage, hmessages, hnext, hphase⟩ := hf w.agent
  refine ⟨_, .append (happends _) (hid _) ?_, ⟨_, hmessage⟩, ?_⟩
  · simp only [core, hmessages, hnext, hphase]
  · exact congrArg stage hmessage.symm

/-- An ignored part of a settlement leaves the stages of both its ends. -/
theorem ignore_follows {p : Drive Unit} {ok : Unit → Stage → Prop}
    {err' : CoreError → Stage → Prop} (hp : p.Follows (machine h) ok err s)
    (herr : ∀ error x, err error x → ok () x) :
    (ignore p).Follows (machine h) ok err' s := by
  refine .bind _ hp.attempt ?_
  rintro (error | value) x hx
  · exact herr error x hx
  · exact hx

/-! ### Events -/

theorem Records.works {kind : AgentEventKind} {s' : Stage} (hr : Records h s kind s') :
    s'.life.works = true := by
  cases hr with
  | messageStart speaking _ => exact speaking.works
  | messageEnd speaking _ => exact speaking.works
  | promptStart turn => exact turn.works
  | side turn => exact turn.works
  | textStart turn => exact turn.works
  | textUpdate turn => exact turn.works
  | _ => rfl

theorem Records.running {kind : AgentEventKind} {s' : Stage} (hr : Records h s kind s') :
    s'.life.running = true := (Life.works_iff.mp hr.works).1

theorem Records.isAgentEnd {kind : AgentEventKind} {s' : Stage} (hr : Records h s kind s')
    (hlife : s'.life = .ended) : isAgentEnd kind = true := by
  cases hr with
  | messageStart speaking _ => exact absurd hlife speaking.not_ended
  | messageEnd speaking _ => exact absurd hlife speaking.not_ended
  | promptStart turn => exact absurd hlife turn.turnOpen.not_ended
  | side turn => exact absurd hlife turn.turnOpen.not_ended
  | textStart turn => exact absurd hlife turn.not_ended
  | textUpdate turn => exact absurd hlife turn.not_ended
  | agentEnd => rfl
  | _ => cases hlife

theorem deliver_follows {event : AgentEvent} (observers : List ObserverId)
    (hlife : s.life.running = true) (hend : s.life = .ended → isAgentEnd event.kind = true) :
    (deliver event observers).Follows (machine h) (fun _ x => x = s)
      (fun _ x => x = { s with fault := some .observer }) s := by
  induction observers with
  | nil => exact rfl
  | cons observer rest ih =>
    refine ⟨hlife, ?_⟩
    rintro (error | ⟨⟩)
    · exact ⟨_, .refused hend, rfl⟩
    · exact ⟨s, .accepted hend, ih⟩

/-- An event leads where the grammar says, whether or not its observers accept it. -/
theorem emit_follows {kind : AgentEventKind} {s' : Stage} (hr : Records h s kind s') :
    (emit kind).Follows (machine h) (fun _ x => x = s')
      (fun _ x => x = { s' with fault := some .observer }) s := by
  refine .bind (fun event x => event.kind = kind ∧ x = s')
    (fun w _ => ⟨s', .record hr, rfl, rfl⟩) ?_
  rintro event s' ⟨hkind, rfl⟩
  obtain ⟨hrunning, hidle⟩ := Life.works_iff.mp hr.works
  refine .bind (fun _ x => x = s') (modify_follows hr.works (fun w => ⟨rfl, id⟩) rfl) ?_
  rintro _ s' rfl
  refine .bind (fun _ x => x = s') (read_follows hidle fun _ _ => rfl) ?_
  rintro observers s' rfl
  refine .bind _ (deliver_follows observers hrunning fun hlife => hkind ▸ hr.isAgentEnd hlife) ?_
  rintro _ s' rfl
  exact modify_follows hr.works (fun w => ⟨rfl, id⟩) rfl

/-- The events of the loop. -/
theorem emit_loop {kind : AgentEventKind} {s' : Stage} {ok : Unit → Stage → Prop}
    (hr : Records h s kind s') (hlife : s'.life.looping = true) (hok : ok () s') :
    (emit kind).Follows (machine h) ok (Failed h) s := by
  refine (emit_follows hr).weaken ?_ ?_
  · rintro _ _ rfl
    exact hok
  · rintro _ _ rfl
    exact observer_failed hlife

theorem emit_side {kind : AgentEventKind} {ok : Unit → Stage → Prop} (hs : InTurn s)
    (hside : isSide kind = true) (hok : ok () s) :
    (emit kind).Follows (machine h) ok (Failed h) s :=
  emit_loop (.side hs hside) (by rw [hs.life]; rfl) hok

/-- Announce the message just appended. -/
theorem announce_pushed {message : AgentMessage} (hs : TurnOpen s)
    (hspeech : s.speech = .pushed message) :
    (announce message).Follows (machine h) (fun _ x => x = { s with speech := .silent })
      (Failed h) s := by
  refine .bind (fun _ x => x = { s with speech := .announced message })
    (emit_loop (.messageStart (.inl hs) hspeech) hs.looping rfl) ?_
  rintro _ _ rfl
  exact emit_loop (.messageEnd (.inl ⟨hs.life, hs.fault⟩) rfl) hs.looping rfl

/-- Announce the messages with which the run was started. -/
theorem announceAll_follows (hs : InTurn s) (hfresh : s.polled = false ∧ s.asked = false)
    (messages : List AgentMessage) (hinit : ∀ m ∈ messages, m ∈ h.initialMessages) :
    (announceAll messages).Follows (machine h) (fun _ x => x = s) (Failed h) s := by
  have hloop : s.life.looping = true := by rw [hs.life]; rfl
  induction messages with
  | nil => exact rfl
  | cons message rest ih =>
    refine .bind (fun _ x => x = s) ?_ ?_
    · refine .bind (fun _ x => x = { s with speech := .announced message })
        (emit_loop (.promptStart hs hfresh (hinit message (by simp))) hloop rfl) ?_
      rintro _ _ rfl
      refine emit_loop (.messageEnd (.inl ⟨hs.life, hs.fault⟩) rfl) hloop ?_
      simp only [← hs.speech]
    · rintro _ _ rfl
      exact ih fun m hm => hinit m (by simp [hm])

/-! ### Responses -/

/-- The local variables without the streamed message. -/
def plain (r : Response) : Response := { r with assistantId := none, assistantText := "" }

theorem collect_snoc (events : List ModelStreamEvent) (event : ModelStreamEvent) :
    collect (events ++ [event]) = (collect events).receive event := by
  simp [collect]

theorem plain_receive (r : Response) (event : ModelStreamEvent) :
    plain (r.receive event) = (plain r).receive event := by
  cases event <;> rfl

/-- While a response is read that was opened in the stage `s₀`. -/
structure Reading (s₀ : Stage) (r : Response) (s : Stage) : Prop where
  stage : s = { s₀ with response := s.response, speech := s.speech }
  plain : plain r = collect s.response
  silent : r.assistantId = none → s.speech = .silent ∧ r.assistantText = ""
  streaming : ∀ id, r.assistantId = some id →
    s.speech = .streaming (partialMessage id r.assistantText) true

/-- A stage in which a response may be read. -/
structure Asking (s : Stage) : Prop extends Resting s where
  asked : s.asked = true
  reading : s.reading = true

theorem Reading.speech {s₀ : Stage} {r : Response} (hr : Reading s₀ r s) :
    s.speech = .silent ∨ ∃ message, s.speech = .streaming message true := by
  rcases hid : r.assistantId with _ | id
  · exact .inl (hr.silent hid).1
  · exact .inr ⟨_, hr.streaming id hid⟩

theorem Reading.stream_failed {s₀ : Stage} (hs : Asking s₀) {r : Response}
    (hr : Reading s₀ r s) : LoopFailed h { s with fault := some .stream } := by
  have hspeech := hr.speech
  rw [hr.stage]
  exact ⟨hs.life, hs.batch, hs.calls, hspeech⟩

theorem Reading.turnOpen {s₀ : Stage} (hs : Asking s₀) {r : Response} (hr : Reading s₀ r s) :
    TurnOpen s := by
  rw [hr.stage]
  exact ⟨hs.life, hs.fault⟩

theorem textDelta_follows {s₀ : Stage} (hs : Asking s₀) {r : Response} {delta : String}
    (hr : Reading s₀ r s) (htext : hasText s.response = true) :
    (textDelta r delta).Follows (machine h)
      (fun r' x => Reading s₀ r' x ∧ x.response = s.response ∧ plain r' = plain r) (Failed h) s := by
  have hturn := hr.turnOpen hs
  have hasked : s.asked = true := by rw [hr.stage]; exact hs.asked
  have hreading : s.reading = true := by rw [hr.stage]; exact hs.reading
  have hcalls : s.calls = [] := by rw [hr.stage]; exact hs.calls
  unfold textDelta
  refine .bind (fun id x => ∃ announced,
    x = { s with speech := .streaming (partialMessage id (r.assistantText ++ delta)) announced } ∧
      announced = r.assistantId.isSome ∧ (announced = true → r.assistantId = some id)) ?_ ?_
  · intro w _
    rcases hid : r.assistantId with _ | id
    · refine ⟨{ s with
          speech := .streaming
            (partialMessage ⟨w.agent.nextMessageId⟩ (r.assistantText ++ delta)) false },
        .openText ⟨hturn.life, (hr.silent hid).1, hturn.fault⟩ hasked hreading hcalls htext ?_, ?_⟩
      · simp only [streamText, hid]
        rfl
      · simp only [streamText, hid]
        exact ⟨false, rfl, rfl, nofun⟩
    · refine ⟨{ s with speech := .streaming (partialMessage id (r.assistantText ++ delta)) true },
        .extendText hturn (hr.streaming id hid) ?_, ?_⟩
      · simp only [streamText, hid]
        rfl
      · simp only [streamText, hid]
        exact ⟨true, rfl, rfl, fun _ => rfl⟩
  · rintro id _ ⟨announced, rfl, hann, hsome⟩
    refine .bind (fun _ x => x =
      { s with speech := .streaming (partialMessage id (r.assistantText ++ delta)) true }) ?_ ?_
    · refine whenever_follows (fun hnone => ?_) (fun hskip => ?_)
      · have hfalse : announced = false := by
          rw [hann]
          cases hid : r.assistantId <;> simp [hid] at hnone ⊢
        subst hfalse
        exact emit_loop (.textStart ⟨hturn.life, hturn.fault⟩ rfl) hturn.looping rfl
      · have htrue : announced = true := by
          rw [hann]
          cases hid : r.assistantId <;> simp [hid] at hskip ⊢
        subst htrue
        exact rfl
    · rintro _ _ rfl
      refine .bind (fun _ x => x =
        { s with speech := .streaming (partialMessage id (r.assistantText ++ delta)) true })
        (emit_loop (.textUpdate ⟨hturn.life, hturn.fault⟩ rfl) hturn.looping rfl) ?_
      rintro _ _ rfl
      refine Future.Follows.pure ⟨⟨?_, ?_, nofun, ?_⟩, rfl, rfl⟩
      · rw [hr.stage]
      · exact hr.plain
      · rintro _ ⟨⟩
        rfl

/-- The terminal reason of the response has been received, or the stream has failed. -/
theorem readResponse_follows {s₀ : Stage} (hs : Asking s₀) (fuel : Nat) {r : Response}
    (hr : Reading s₀ r s) :
    (readResponse fuel r).Follows (machine h)
      (fun r' x => (r'.reason.isSome = true ∧ Reading s₀ r' x) ∨
        (r'.reason = none ∧ LoopFailed h x)) (Failed h) s := by
  induction fuel generalizing s r with
  | zero => exact exhausted_follows (hr.turnOpen hs).running
  | succ fuel ih =>
    have hcalls : s.calls = [] := by rw [hr.stage]; exact hs.calls
    have hreason : r.reason = (collect s.response).reason := by rw [← hr.plain]; rfl
    unfold readResponse
    refine .bind (fun reply x => x = s.receive reply)
      ⟨(hr.turnOpen hs).running,
        fun reply => ⟨_, .event (hr.turnOpen hs) hcalls hr.speech, rfl⟩⟩ ?_
    rintro (error | _ | event) _ rfl
    · exact Future.Follows.fail (hr.stream_failed hs)
    · refine Future.Follows.pure ?_
      rcases hterm : r.reason with _ | reason
      · refine .inr ⟨rfl, ?_⟩
        simp only [Stage.receive, ← hreason, hterm, Option.isNone_none, if_true]
        exact hr.stream_failed hs
      · refine .inl ⟨by simp, ?_⟩
        simp only [Stage.receive, ← hreason, hterm, Option.isNone_some, Bool.false_eq_true, if_false]
        exact hr
    · by_cases hterm : r.reason.isSome = true
      · simp only [Stage.receive, ← hreason, hterm, if_true]
        exact Future.Follows.fail (hr.stream_failed hs)
      · have hreceived : s.receive (.ok (some event)) =
            { s with response := s.response ++ [event] } := by
          simp only [Stage.receive, ← hreason]
          rw [if_neg hterm]
        simp only [hterm]
        rw [hreceived]
        have hplain : plain (r.receive event) = collect (s.response ++ [event]) := by
          rw [plain_receive, hr.plain, collect_snoc]
        have hreading : (r.receive event).assistantId = r.assistantId ∧
            (r.receive event).assistantText = r.assistantText := by cases event <;> exact ⟨rfl, rfl⟩
        have hnext : Reading s₀ (r.receive event) { s with response := s.response ++ [event] } := by
          refine ⟨?_, hplain, ?_, ?_⟩
          · rw [hr.stage]
          · rw [hreading.1, hreading.2]
            exact hr.silent
          · rw [hreading.1, hreading.2]
            exact hr.streaming
        cases event with
        | textDelta delta =>
          have htext : hasText (s.response ++ [.textDelta delta]) = true := by simp [hasText]
          refine .bind _ (textDelta_follows hs hnext htext) ?_
          rintro r' x ⟨hreading', _, _⟩
          exact ih hreading'
        | _ => exact ih hnext

theorem recordUsage_follows (hs : InTurn s) (turnId : TurnId) (model : Option ModelDescriptor)
    (usage : Option Usage) :
    (recordUsage turnId model usage).Follows (machine h) (fun _ x => x = s) (Failed h) s := by
  rcases usage with _ | usage
  · exact rfl
  · refine .bind (fun _ x => x = s) (read_follows hs.idle fun _ _ => rfl) ?_
    rintro runId s rfl
    refine .bind (fun _ x => x = s)
      (modifyAgent_follows hs.works (fun agent => ⟨rfl, rfl, rfl, id⟩) rfl) ?_
    rintro _ s rfl
    exact emit_side hs rfl rfl

/-- The complete message of the response, in the transcript. -/
theorem closeResponse_follows {s₀ : Stage} (hs : Asking s₀) {r : Response}
    (hr : Reading s₀ r s) {reason : StopReason} (hreason : r.reason = some reason) :
    (lockAgent (closeResponse r reason)).Follows (machine h)
      (fun message x => x = { s with
        speech := if r.assistantId.isNone then .pushed message else .announced message
        calls := (collect s.response).toolCalls, reading := false }) (Failed h) s := by
  have hturn := hr.turnOpen hs
  have hasked : s.asked = true := by rw [hr.stage]; exact hs.asked
  have hreading : s.reading = true := by rw [hr.stage]; exact hs.reading
  have hcalls : s.calls = [] := by rw [hr.stage]; exact hs.calls
  have hplain := hr.plain
  have hterm : (collect s.response).reason = some reason := by rw [← hplain]; exact hreason
  have hbuild : ∀ id, AgentMessage.assistant id r.assistantText (collect s.response).toolCalls
      (some reason) (collect s.response).errorMessage =
      .assistant id r.assistantText r.toolCalls (some reason) r.errorMessage := by
    intro id
    rw [← hplain]
    rfl
  rcases hid : r.assistantId with _ | id
  · refine (lockAgent_append
      (fun id => .assistant id r.assistantText r.toolCalls (some reason) r.errorMessage)
      (fun message => { s with
        speech := .pushed message, calls := (collect s.response).toolCalls, reading := false })
      (fun id => ?_) (fun _ => rfl) (fun agent => ?_)).weaken ?_ (fun _ _ => id)
    · rw [← hbuild]
      exact .response ⟨hturn.life, (hr.silent hid).1, hturn.fault⟩ hasked hreading hcalls hterm
    · simp only [closeResponse, hid]
      exact ⟨rfl, rfl, rfl, rfl⟩
    · rintro message _ ⟨_, rfl⟩
      rfl
  · intro w _
    refine ⟨_, .closeText hturn (hr.streaming id hid) hreading hcalls hterm ?_, ?_⟩
    · simp only [closeResponse, hid, hbuild]
      rfl
    · simp only [closeResponse, hid, hbuild]
      rfl

theorem consumeAssistantStream_follows (hs : Asking s) (hresponse : s.response = [])
    (fuel : Nat) (turnId : TurnId) (model : Option ModelDescriptor) :
    (consumeAssistantStream fuel turnId model).Follows (machine h)
      (fun v x => ∃ events, x = { s with
          speech := .silent, response := events, calls := (collect events).toolCalls
          reading := false } ∧
        v.toolCalls = (collect events).toolCalls ∧ some v.reason = (collect events).reason ∧
        v.contextOverflow = (collect events).contextOverflow) (Failed h) s := by
  have hinit : Reading s {} s :=
    ⟨rfl, by rw [hresponse]; rfl, fun _ => ⟨hs.speech, rfl⟩, nofun⟩
  unfold consumeAssistantStream
  refine .bind _ (readResponse_follows hs fuel hinit) ?_
  rintro r x (⟨hsome, hr⟩ | ⟨hnone, hfailed⟩)
  · obtain ⟨reason, hreason⟩ := Option.isSome_iff_exists.mp hsome
    have hplain := hr.plain
    have hturn := hr.turnOpen hs
    simp only [hreason]
    refine .bind _ (closeResponse_follows hs hr hreason) ?_
    rintro assistant _ rfl
    refine .bind (fun _ y => y = { x with
      speech := .announced assistant, calls := (collect x.response).toolCalls
      reading := false }) ?_ ?_
    · refine whenever_follows (fun hnew => ?_) (fun hold => ?_)
      · refine emit_loop (.messageStart (.inl ⟨hturn.life, hturn.fault⟩) ?_) hturn.looping rfl
        simp [hnew]
      · simp [hold]
    rintro _ _ rfl
    refine .bind (fun _ y => y = { x with
      speech := .silent, calls := (collect x.response).toolCalls, reading := false })
      (emit_loop (.messageEnd (.inl ⟨hturn.life, hturn.fault⟩) rfl) hturn.looping rfl) ?_
    rintro _ _ rfl
    have hclosed : InTurn { x with
        speech := .silent, calls := (collect x.response).toolCalls, reading := false } :=
      ⟨hturn.life, rfl, hturn.fault⟩
    refine .bind _ (recordUsage_follows hclosed _ _ _) ?_
    rintro _ _ rfl
    refine Future.Follows.pure ⟨x.response, ?_, ?_, ?_, ?_⟩
    · rw [hr.stage]
    · rw [← hplain]
      rfl
    · rw [← hplain, ← hreason]
      rfl
    · rw [← hplain]
      rfl
  · simp only [hnone]
    exact Future.Follows.fail hfailed

end Tea.Lifecycle
