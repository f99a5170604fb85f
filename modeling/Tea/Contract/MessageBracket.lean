/-
  Tea/Contract/MessageBracket.lean
  ================================
  **Messages are announced in brackets, and no assistant message stays partial**, as
  long as no stream fails after it has yielded text: the settlement of that failure
  leaves the partial message in the transcript and its bracket open.
-/
import Tea.Lifecycle.Writes

namespace Tea.Contract

open Tea.Async Tea.Core Tea.Run Tea.Lifecycle

variable {h : RunHandle} {s s' : Stage} {w w' : World}
  {acts : Now → ClientOp → Prop} {answers : Now → (query : Query) → Reply query → Prop}

/-! ### Brackets -/

/-- The identifier of the message that is announced and not complete, after one more
    event. -/
def speak : Option MessageId → AgentEventKind → Option (Option MessageId)
  | speaker, .messageStart message => if speaker = none then some (some message.id) else none
  | speaker, .messageEnd message => if speaker = some message.id then some none else none
  | speaker, .turnEnd .. => if speaker = none then some none else none
  | speaker, _ => some speaker

/-- The open message of an event list whose messages are bracketed. -/
def speakerOf (kinds : List AgentEventKind) : Option (Option MessageId) := kinds.foldlM speak none

theorem speakerOf_snoc {kinds : List AgentEventKind} {speaker speaker' : Option MessageId}
    {kind : AgentEventKind} (hk : speakerOf kinds = some speaker)
    (hkind : speak speaker kind = some speaker') : speakerOf (kinds ++ [kind]) = some speaker' := by
  unfold speakerOf at hk ⊢
  rw [List.foldlM_append, hk]
  exact (bind_pure _).trans hkind

def speakerIn : Speech → Option MessageId
  | .silent => none
  | .pushed _ => none
  | .announced message => some message.id
  | .streaming _ false => none
  | .streaming message true => some message.id

/-- No stream fails once it has yielded text. -/
def StreamsEnd (answers : Now → (query : Query) → Reply query → Prop) : Prop :=
  ∀ m item, answers m .nextEvent item → hasText (responseOf m.past) = true →
    ¬ Broken (responseOf m.past) item

def isStreaming : Speech → Bool
  | .streaming .. => true
  | _ => false

/-- The message that is being written, as the life of the run admits it. -/
structure Placed (s : Stage) : Prop where
  life : s.speech ≠ .silent → s.life = .turnOpen ∨ s.life = .settling
  streaming : isStreaming s.speech = true → s.life = .turnOpen ∧ hasText s.response = true
  fault : s.fault = some .stream → s.life = .turnOpen → s.speech = .silent

theorem Placed.of_silent (hs : s.speech = .silent) : Placed s where
  life hne := absurd hs hne
  streaming heq := by rw [hs] at heq; cases heq
  fault _ _ := hs

/-- A message may be written in an open turn. -/
theorem Placed.of_turn (hlife : s.life = .turnOpen) (hfault : s.fault = none)
    (ht : isStreaming s.speech = true → hasText s.response = true) : Placed s where
  life _ := .inl hlife
  streaming heq := ⟨hlife, ht heq⟩
  fault hstream _ := by rw [hfault] at hstream; cases hstream

/-- A settlement writes complete messages only. -/
theorem Placed.of_settling (hlife : s.life = .settling)
    (hstreaming : isStreaming s.speech = false) : Placed s where
  life _ := .inr hlife
  streaming heq := by rw [hstreaming] at heq; cases heq
  fault _ hopen := by rw [hlife] at hopen; cases hopen

theorem Placed.silent (hs : Placed s) (hopen : s.life ≠ .turnOpen)
    (hsettling : s.life ≠ .settling) : s.speech = .silent := by
  by_contra hspeech
  rcases hs.life hspeech with hlife | hlife
  · exact hopen hlife
  · exact hsettling hlife

theorem Placed.congr (hs : Placed s) (hlife : s'.life = s.life) (hspeech : s'.speech = s.speech)
    (hresponse : s'.response = s.response) (hfault : s'.fault = s.fault) : Placed s' where
  life := by rw [hspeech, hlife]; exact hs.life
  streaming := by rw [hspeech, hlife, hresponse]; exact hs.streaming
  fault := by rw [hspeech, hlife, hfault]; exact hs.fault

/-- Where a complete message is announced. -/
theorem Placed.of_speaking (hs : Speaking s) {speech : Speech}
    (hstreaming : isStreaming speech = false) : Placed { s with speech } := by
  rcases hs with hturn | hlife
  · refine .of_turn hturn.life hturn.fault fun heq => ?_
    rw [show isStreaming speech = true from heq] at hstreaming
    cases hstreaming
  · exact .of_settling hlife hstreaming

/-- The recorded events and the received items agree with the stage. -/
structure Spoken (s : Stage) (m : Now) : Prop where
  placed : Placed s
  kinds : speakerOf m.state.run.kinds = some (speakerIn s.speech)
  heard : Heard s m

/-- Where an event leaves the message that is being written. -/
theorem Records.speech {kind : AgentEventKind} (hr : Records h s kind s') (hs : Placed s)
    (hobserver : s.fault ≠ some .observer) :
    speak (speakerIn s.speech) kind = some (speakerIn s'.speech) ∧ Placed s' := by
  cases hr with
  | agentStart life =>
    exact ⟨rfl, .of_silent (hs.silent (by rw [life]; nofun) (by rw [life]; nofun))⟩
  | turnStart life =>
    refine ⟨rfl, .of_silent (hs.silent ?_ ?_)⟩ <;> rcases life with life | life <;> rw [life] <;>
      nofun
  | messageStart speaking speech =>
    exact ⟨by simp only [speech, speakerIn, speak, if_true], .of_speaking speaking rfl⟩
  | promptStart turn =>
    exact ⟨by simp only [turn.speech, speakerIn, speak, if_true],
      .of_speaking (.inl turn.turnOpen) rfl⟩
  | textStart turn speech =>
    refine ⟨by simp only [speech, speakerIn, speak, if_true]; rfl, ?_⟩
    exact .of_turn turn.life turn.fault fun _ => (hs.streaming (by rw [speech]; rfl)).2
  | textUpdate turn => exact ⟨rfl, hs⟩
  | messageEnd speaking speech =>
    exact ⟨by simp only [speech, speakerIn, speak, if_true], .of_silent rfl⟩
  | side turn side =>
    refine ⟨?_, hs⟩
    cases kind <;> first | rfl | cases side
  | turnEnd turn =>
    exact ⟨by simp only [turn.speech, speakerIn, speak, if_true], .of_silent turn.speech⟩
  | agentEnd life =>
    refine ⟨rfl, .of_silent (hs.silent ?_ ?_)⟩ <;> rcases life with life | life <;> rw [life] <;>
      nofun
  | settleTurnEnd life unspoken =>
    have hspeech : s.speech = .silent := by
      rcases unspoken with hfault | hspeech | ⟨message, hspeech⟩
      · exact absurd hfault hobserver
      · exact hspeech
      · have hopen := (hs.streaming (by rw [hspeech]; rfl)).1
        rw [life] at hopen
        cases hopen
    exact ⟨by simp only [hspeech, speakerIn, speak, if_true], .of_silent hspeech⟩
  | settleAgentEnd life =>
    exact ⟨rfl, .of_silent (hs.silent (by rw [life]; nofun) (by rw [life]; nofun))⟩

/-- The loop returns an error with no message open. -/
theorem LoopFailed.silent (hf : LoopFailed h s) (hlife : s.life.looping = true) (hs : Placed s)
    (hobserver : s.fault ≠ some .observer) : s.speech = .silent := by
  unfold LoopFailed at hf
  rcases hfault : s.fault with _ | _ | _ | _ <;> simp only [hfault] at hf
  · rcases hf with hf | ⟨phase, hf, _⟩ | ⟨_, hspeech, _⟩
    · rw [hf] at hlife; cases hlife
    · rw [hf] at hlife; cases hlife
    · exact hspeech
  · exact absurd hfault hobserver
  · exact hf.2.1
  · exact hs.fault hfault hf.1

theorem Moves.placed (hm : Moves h s s') (hspeech : s'.speech = s.speech)
    (hresponse : s'.response = s.response) (hs : Placed s)
    (hobserver : s.fault ≠ some .observer) : Placed s' := by
  have hsilent : s.speech = .silent → Placed s' := fun hsilent => .of_silent (hspeech.trans hsilent)
  cases hm with
  | stay life _ fault => exact hs.congr life hspeech hresponse fault
  | begin life => exact hsilent (hs.silent (by rw [life]; nofun) (by rw [life]; nofun))
  | reject life => exact hsilent (hs.silent (by rw [life]; nofun) (by rw [life]; nofun))
  | poll life =>
    refine hsilent (hs.silent ?_ ?_) <;> rcases life with ⟨life, _⟩ | ⟨life, _⟩ <;> rw [life] <;>
      nofun
  | advance life =>
    refine hsilent (hs.silent ?_ ?_) <;> rcases life with life | life <;> rw [life] <;> nofun
  | leave failed life => exact hsilent (LoopFailed.silent failed life hs hobserver)
  | skip life => exact hsilent (hs.silent (by rw [life]; nofun) (by rw [life]; nofun))
  | finish life =>
    refine hsilent (hs.silent ?_ ?_) <;> rcases life with life | life <;> rw [life] <;> nofun
  | settle life => exact hsilent (hs.silent (by rw [life]; nofun) (by rw [life]; nofun))

/-- What a step writes is not announced yet. -/
theorem Writes.speech {t t' : Transcript} (hw : Writes h s t t' s') (hs : Placed s)
    (hobserver : s.fault ≠ some .observer) :
    speakerIn s'.speech = speakerIn s.speech ∧ Placed s' := by
  cases hw with
  | same moves same =>
    exact ⟨by rw [same.speech], Moves.placed moves same.speech same.response hs hobserver⟩
  | mark => exact ⟨rfl, hs.congr rfl rfl rfl rfl⟩
  | report => exact ⟨rfl, hs.congr rfl rfl rfl rfl⟩
  | decide => exact ⟨rfl, hs.congr rfl rfl rfl rfl⟩
  | append appends =>
    cases appends with
    | user turn => exact ⟨by rw [turn.speech]; rfl, .of_turn turn.life turn.fault fun heq => nomatch heq⟩
    | result turn => exact ⟨by rw [turn.speech]; rfl, .of_turn turn.life turn.fault fun heq => nomatch heq⟩
    | response turn => exact ⟨by rw [turn.speech]; rfl, .of_turn turn.life turn.fault fun heq => nomatch heq⟩
    | failure life =>
      have hsilent := hs.silent (by rw [life]; nofun) (by rw [life]; nofun)
      exact ⟨by rw [hsilent]; rfl, .of_settling rfl rfl⟩
  | openText turn _ _ hasText =>
    exact ⟨by rw [turn.speech]; rfl, .of_turn turn.life turn.fault fun _ => hasText⟩
  | extendText turn speech =>
    exact ⟨by rw [speech]; rfl,
      .of_turn turn.life turn.fault fun _ => (hs.streaming (by rw [speech]; rfl)).2⟩
  | closeText turn speech =>
    exact ⟨by rw [speech]; rfl, .of_turn turn.life turn.fault fun heq => nomatch heq⟩
  | truncate => exact ⟨rfl, hs.congr rfl rfl rfl rfl⟩
  | commit => exact ⟨rfl, hs.congr rfl rfl rfl rfl⟩

theorem hasText_snoc {events : List ModelStreamEvent} {event : ModelStreamEvent}
    (ht : hasText events = true) : hasText (events ++ [event]) = true := by
  rw [hasText, List.any_append]
  exact Bool.or_eq_true_iff.mpr (.inl ht)

theorem Replies.placed (hstreams : StreamsEnd answers) {m : Now} {query : Query}
    {reply : Reply query} (hr : Replies s query reply s') (ha : answers m query reply)
    (hs : Placed s) (hheard : Heard s m) : Placed s' := by
  cases hr with
  | accepted => exact hs
  | refused => exact ⟨hs.life, hs.streaming, nofun⟩
  | opened turn => exact .of_silent turn.speech
  | unopened turn => exact .of_silent turn.speech
  | @event item turn calls speech =>
    have hresponse := hheard turn.fault
    rcases Stage.receive_cases (s := s) item with ⟨event, rfl, _, heq⟩ | ⟨rfl, _, heq⟩ |
      ⟨hbroken, heq⟩
    · rw [heq]
      exact .of_turn turn.life turn.fault fun hspeech => hasText_snoc (hs.streaming hspeech).2
    · rw [heq]
      exact hs
    · rw [heq]
      rcases speech with hsilent | ⟨message, hspeech⟩
      · exact .of_silent hsilent
      · have htext := (hs.streaming (by rw [hspeech]; rfl)).2
        rw [hresponse] at htext hbroken
        exact absurd hbroken (hstreams m item ha htext)
  | unprepared => exact ⟨hs.life, hs.streaming, nofun⟩
  | undecided => exact ⟨hs.life, hs.streaming, nofun⟩
  | declined life =>
    exact .of_silent (hs.silent (by rw [life]; nofun) (by rw [life]; nofun))
  | proposed => exact hs.congr rfl rfl rfl rfl
  | unproposed => exact hs.congr rfl rfl rfl rfl
  | passive => exact hs

theorem Replies.speech {query : Query} {reply : Reply query} (hr : Replies s query reply s') :
    s'.speech = s.speech := by
  cases hr with
  | @event item =>
    rcases Stage.receive_cases (s := s) item with ⟨_, _, _, heq⟩ | ⟨_, _, heq⟩ | ⟨_, heq⟩ <;>
      rw [heq]
  | _ => rfl

theorem spoken_invariant (hat : Attentive answers) (hstreams : StreamsEnd answers) :
    (machine h).Invariant (Host.of acts answers) fun s m =>
      ((Consistent s m.state ∧ Sealed m.past) ∧ s.fault ≠ some .observer) ∧ Spoken s m := by
  refine (attentive_invariant hat).and ?_ ?_ ?_
  · rintro s m w _ hs ⟨op, _, rfl⟩
    exact ⟨hs.placed, (ClientOp.client op m.state).kinds ▸ hs.kinds, hs.heard⟩
  · intro s m update s' ⟨_, hobserver⟩ hs hown
    have hheard : Heard s' (m.own update) := fun hfault => by
      rw [hown.response]
      exact hs.heard (hown.fault ▸ hfault)
    rcases hown.writes with ⟨kind, records, hkinds, _⟩ | ⟨writes, hkinds⟩
    · obtain ⟨hspeak, hplaced⟩ := Records.speech records hs.placed hobserver
      exact ⟨hplaced, hkinds ▸ speakerOf_snoc hs.kinds hspeak, hheard⟩
    · obtain ⟨hspeaker, hplaced⟩ := Writes.speech writes hs.placed hobserver
      exact ⟨hplaced, by rw [hspeaker]; exact hkinds ▸ hs.kinds, hheard⟩
  · intro s m query answer s' _ hs ha hr
    exact ⟨Replies.placed hstreams hr ha hs.placed hs.heard,
      Replies.speech hr ▸ hs.kinds, hr.heard hs.heard⟩

/-! ### Complete messages -/

/-- The assistant message whose end an event announces. -/
def closes : AgentEventKind → Option AgentMessage
  | .messageEnd message => if message.isAssistant then some message else none
  | _ => none

def announced (kinds : List AgentEventKind) : List AgentMessage := kinds.filterMap closes

theorem announced_snoc (kinds : List AgentEventKind) (kind : AgentEventKind) :
    announced (kinds ++ [kind]) = announced kinds ++ (closes kind).toList := by
  rw [announced, List.filterMap_append, announced]
  rcases hc : closes kind with _ | message <;> simp [hc]

/-- The message belongs to a replacement that the compactor has proposed. -/
def Proposed (past : List (Step World Query Reply)) (message : AgentMessage) : Prop :=
  ∃ context request result,
    .reply (.compactAutomatic context request) (.ok result) ∈ past ∧ message ∈ result.messages

/-- The message is older than the run, comes from a compaction, or is complete and
    has been announced. -/
def Accounted (w₀ : World) (m : Now) (message : AgentMessage) : Prop :=
  message ∈ w₀.agent.messages ∨ Proposed m.past message ∨
    (message.stopReason.isSome = true ∧ message ∈ announced m.state.run.kinds)

theorem Accounted.mono {w₀ : World} {m m' : Now} {message : AgentMessage}
    (ha : Accounted w₀ m message) (hpast : ∀ step ∈ m.past, step ∈ m'.past)
    (hkinds : ∀ a ∈ announced m.state.run.kinds, a ∈ announced m'.state.run.kinds) :
    Accounted w₀ m' message := by
  rcases ha with hold | ⟨context, request, result, hstep, hmem⟩ | ⟨hstop, hmem⟩
  · exact .inl hold
  · exact .inr (.inl ⟨context, request, result, hpast _ hstep, hmem⟩)
  · exact .inr (.inr ⟨hstop, hkinds _ hmem⟩)

/-- The assistant messages of a transcript, but for the one that is being written. -/
def Written (done : AgentMessage → Prop) : Speech → List AgentMessage → Prop
  | .silent, messages => ∀ a ∈ messages, a.isAssistant = true → done a
  | .pushed message, messages => ∀ a ∈ messages, a.isAssistant = true → a = message ∨ done a
  | .announced message, messages => ∀ a ∈ messages, a.isAssistant = true → a = message ∨ done a
  | .streaming message _, messages => ∃ before, messages = before ++ [message] ∧
      ∀ a ∈ before, a.isAssistant = true → done a

theorem Written.mono {done done' : AgentMessage → Prop} {speech : Speech}
    {messages : List AgentMessage} (hw : Written done speech messages)
    (himp : ∀ a, done a → done' a) : Written done' speech messages := by
  cases speech with
  | silent => exact fun a ha has => himp a (hw a ha has)
  | pushed message => exact fun a ha has => (hw a ha has).imp_right (himp a)
  | announced message => exact fun a ha has => (hw a ha has).imp_right (himp a)
  | streaming message b =>
    obtain ⟨before, rfl, hbefore⟩ := hw
    exact ⟨before, rfl, fun a ha has => himp a (hbefore a ha has)⟩

/-- The message that is being written. -/
def subject : Speech → Option AgentMessage
  | .silent => none
  | .pushed message => some message
  | .announced message => some message
  | .streaming message _ => some message

/-- The identifier is allocated, and no assistant message that was announced has it. -/
structure Unannounced (kinds : List AgentEventKind) (next : UInt64) (message : AgentMessage) :
    Prop where
  allocated : message.id.val.toNat < next.toNat
  unused : message.id ∉ (announced kinds).map (·.id)

/-- Every assistant message is accounted for, and announced under its own identifier. -/
structure Ledger (w₀ : World) (s : Stage) (m : Now) : Prop where
  messages : Written (Accounted w₀ m) s.speech m.state.agent.messages
  nodup : ((announced m.state.run.kinds).map (·.id)).Nodup
  allocated : ∀ a ∈ announced m.state.run.kinds,
    a.id.val.toNat < m.state.agent.nextMessageId.toNat
  subject : ∀ a, subject s.speech = some a → a.isAssistant = true →
    Unannounced m.state.run.kinds m.state.agent.nextMessageId a
  complete : ∀ a, Contract.subject s.speech = some a → isStreaming s.speech = false →
    a.isAssistant = true → a.stopReason.isSome = true
  proposal : ∀ replacement, s.proposal = some replacement →
    ∀ a ∈ replacement, Proposed m.past a

/-- A step that leaves the transcript, the events and what is being written alone. -/
theorem Ledger.frame {w₀ : World} {m m' : Now} (hl : Ledger w₀ s m)
    (hpast : ∀ step ∈ m.past, step ∈ m'.past) (hspeech : s'.speech = s.speech)
    (hproposal : s'.proposal = s.proposal) (hkinds : m'.state.run.kinds = m.state.run.kinds)
    (ht : transcript m'.state = transcript m.state) : Ledger w₀ s' m' := by
  have hmessages : m'.state.agent.messages = m.state.agent.messages := congrArg Transcript.messages ht
  have hnext : m'.state.agent.nextMessageId = m.state.agent.nextMessageId := congrArg Transcript.next ht
  constructor
  · rw [hspeech, hmessages]
    exact hl.messages.mono fun a ha => ha.mono hpast (by rw [hkinds]; exact fun _ h => h)
  · rw [hkinds]; exact hl.nodup
  · rw [hkinds, hnext]; exact hl.allocated
  · rw [hspeech, hkinds, hnext]; exact hl.subject
  · rw [hspeech]; exact hl.complete
  · rw [hproposal]
    intro replacement hr a ha
    obtain ⟨context, request, result, hstep, hmem⟩ := hl.proposal replacement hr a ha
    exact ⟨context, request, result, hpast _ hstep, hmem⟩

/-- An event moves the message that is being written as the grammar says. -/
theorem Records.ledger {w₀ : World} (hinitial : ∀ a ∈ h.initialMessages, a.isAssistant = false)
    {kind : AgentEventKind} (hr : Records h s kind s') {m m' : Now} (hl : Ledger w₀ s m)
    (hpast : ∀ step ∈ m.past, step ∈ m'.past)
    (hkinds : m'.state.run.kinds = m.state.run.kinds ++ [kind])
    (ht : transcript m'.state = transcript m.state) : Ledger w₀ s' m' := by
  have hmessages : m'.state.agent.messages = m.state.agent.messages := congrArg Transcript.messages ht
  have hnext : m'.state.agent.nextMessageId = m.state.agent.nextMessageId := congrArg Transcript.next ht
  have hproposal' : ∀ replacement, s.proposal = some replacement →
      ∀ a ∈ replacement, Proposed m'.past a := by
    intro replacement hr a ha
    obtain ⟨context, request, result, hstep, hmem⟩ := hl.proposal replacement hr a ha
    exact ⟨context, request, result, hpast _ hstep, hmem⟩
  have hann : announced m'.state.run.kinds = announced m.state.run.kinds ++ (closes kind).toList := by
    rw [hkinds, announced_snoc]
  have hmono : ∀ a, Accounted w₀ m a → Accounted w₀ m' a := fun a ha =>
    ha.mono hpast fun b hb => by rw [hann]; exact List.mem_append_left _ hb
  -- an event that announces no assistant message may change the speech
  have hquiet : closes kind = none → s'.proposal = s.proposal →
      Written (Accounted w₀ m) s'.speech m.state.agent.messages →
      (∀ a, subject s'.speech = some a → a.isAssistant = true → subject s.speech = some a) →
      (isStreaming s'.speech = false → isStreaming s.speech = false) → Ledger w₀ s' m' := by
    intro hnone hproposal hwritten hsubject hstreaming
    have hsame : announced m'.state.run.kinds = announced m.state.run.kinds := by
      rw [hann, hnone, Option.toList_none, List.append_nil]
    constructor
    · rw [hmessages]; exact hwritten.mono hmono
    · rw [hsame]; exact hl.nodup
    · rw [hsame, hnext]; exact hl.allocated
    · intro a ha has
      obtain ⟨hallocated, hunused⟩ := hl.subject a (hsubject a ha has) has
      exact ⟨hnext ▸ hallocated, by rw [hsame]; exact hunused⟩
    · intro a ha hstream has
      exact hl.complete a (hsubject a ha has) (hstreaming hstream) has
    · rw [hproposal]; exact hproposal'
  cases hr with
  | messageStart _ speech =>
    have hw := hl.messages
    rw [speech] at hw
    refine hquiet rfl rfl hw (fun a ha _ => ?_) fun _ => ?_ <;> rw [speech]
    · exact ha
    · rfl
  | promptStart turn _ initial =>
    have hw := hl.messages
    rw [turn.speech] at hw
    refine hquiet rfl rfl (fun a ha has => .inr (hw a ha has)) (fun a ha has => ?_) fun _ => ?_
    · cases ha
      rw [hinitial _ initial] at has
      cases has
    · rw [turn.speech]; rfl
  | textStart _ speech =>
    have hw := hl.messages
    rw [speech] at hw
    refine hquiet rfl rfl hw (fun a ha _ => ?_) fun hstream => ?_
    · rw [speech]; exact ha
    · cases hstream
  | @messageEnd message _ speech =>
    by_cases has : message.isAssistant = true
    · have hcloses : closes (.messageEnd message) = some message := if_pos has
      rw [hcloses, Option.toList_some] at hann
      obtain ⟨hallocated, hunused⟩ := hl.subject message (by rw [speech]; rfl) has
      have hstop := hl.complete message (by rw [speech]; rfl) (by rw [speech]; rfl) has
      have hw := hl.messages
      rw [speech] at hw
      constructor
      · rw [hmessages]
        intro a ha haa
        rcases hw a ha haa with rfl | hdone
        · exact .inr (.inr ⟨hstop, by rw [hann]; simp⟩)
        · exact hmono a hdone
      · rw [hann, List.map_append, List.nodup_append]
        refine ⟨hl.nodup, by simp, fun i hi j hj => ?_⟩
        rintro rfl
        simp only [List.map_cons, List.map_nil, List.mem_singleton] at hj
        exact hunused (hj ▸ hi)
      · rw [hann, hnext]
        intro a ha
        rcases List.mem_append.mp ha with ha | ha
        · exact hl.allocated a ha
        · rw [List.mem_singleton.mp ha]; exact hallocated
      · exact fun a ha => by cases ha
      · exact fun a ha => by cases ha
      · exact hproposal'
    · have hw := hl.messages
      rw [speech] at hw
      refine hquiet (if_neg has) rfl (fun a ha haa => ?_) (fun a ha _ => ?_) fun _ => ?_
      · refine (hw a ha haa).resolve_left fun heq => ?_
        rw [heq] at haa
        exact has haa
      · cases ha
      · rw [speech]; rfl
  | side _ side =>
    have hnone : closes kind = none := by cases kind <;> first | rfl | cases side
    exact hquiet hnone rfl hl.messages (fun _ ha _ => ha) id
  | _ => exact hquiet rfl rfl hl.messages (fun _ ha _ => ha) id

theorem setLast_concat (before : List AgentMessage) (last message : AgentMessage) :
    setLast (before ++ [last]) message = before ++ [message] := by
  rw [setLast, List.dropLast_concat]

/-- A message that a run appends is complete. -/
theorem Appends.complete {message : AgentMessage} (ha : Appends s message s') :
    s'.speech = .pushed message ∧
      (message.isAssistant = true → message.stopReason.isSome = true) ∧
      s'.proposal = s.proposal ∧ (InTurn s ∨ s.life = .failing) := by
  cases ha with
  | user turn => exact ⟨rfl, nofun, rfl, .inl turn⟩
  | result turn _ _ result =>
    refine ⟨rfl, fun has => ?_, rfl, .inl turn⟩
    cases message with
    | user => cases has
    | assistant => cases result
    | toolResult => cases has
  | response turn => exact ⟨rfl, fun _ => rfl, rfl, .inl turn⟩
  | failure life => exact ⟨rfl, fun _ => rfl, rfl, .inr life⟩

theorem Writes.ledger {w₀ : World} {t t' : Transcript} (hw : Writes h s t t' s') {m m' : Now}
    (ht : t = transcript m.state) (ht' : t' = transcript m'.state)
    (hroom : t.next.toNat < u64Max) (hp : Placed s) (hl : Ledger w₀ s m)
    (hpast : ∀ step ∈ m.past, step ∈ m'.past)
    (hkinds : m'.state.run.kinds = m.state.run.kinds) : Ledger w₀ s' m' := by
  have hnext : t.next = m.state.agent.nextMessageId := by rw [ht]; rfl
  have hmessages : t.messages = m.state.agent.messages := by rw [ht]; rfl
  have hnext' : m'.state.agent.nextMessageId = t'.next := by rw [ht']; rfl
  have hmessages' : m'.state.agent.messages = t'.messages := by rw [ht']; rfl
  have hmono : ∀ a, Accounted w₀ m a → Accounted w₀ m' a := fun a ha =>
    ha.mono hpast fun b hb => by rw [hkinds]; exact hb
  have hle : m.state.agent.nextMessageId.toNat ≤ m'.state.agent.nextMessageId.toNat := by
    rw [← hnext, hnext']
    exact hw.next_le
  have hallocated : ∀ a ∈ announced m'.state.run.kinds,
      a.id.val.toNat < m'.state.agent.nextMessageId.toNat := by
    rw [hkinds]
    exact fun a ha => Nat.lt_of_lt_of_le (hl.allocated a ha) hle
  have hproposal' : ∀ replacement, s.proposal = some replacement →
      ∀ a ∈ replacement, Proposed m'.past a := by
    intro replacement hr a ha
    obtain ⟨context, request, result, hstep, hmem⟩ := hl.proposal replacement hr a ha
    exact ⟨context, request, result, hpast _ hstep, hmem⟩
  -- what is written now is `message`, which has just been allocated or was written before
  have hwrite : Written (Accounted w₀ m) s'.speech m'.state.agent.messages →
      (∀ a, subject s'.speech = some a → a.isAssistant = true →
        Unannounced m.state.run.kinds m'.state.agent.nextMessageId a) →
      (∀ a, subject s'.speech = some a → isStreaming s'.speech = false → a.isAssistant = true →
        a.stopReason.isSome = true) → s'.proposal = s.proposal → Ledger w₀ s' m' := by
    intro hwritten hsubject hcomplete hproposal
    refine ⟨hwritten.mono hmono, by rw [hkinds]; exact hl.nodup, hallocated, ?_, hcomplete, ?_⟩
    · rw [hkinds]; exact hsubject
    · rw [hproposal]; exact hproposal'
  have hfresh : ∀ message : AgentMessage, message.id = ⟨t.next⟩ → t'.next = satSucc t.next →
      Unannounced m.state.run.kinds m'.state.agent.nextMessageId message := by
    intro message hid hsucc
    constructor
    · rw [hid, hnext', hsucc, satSucc_eq_succ hroom]
      exact Nat.lt_succ_self _
    · intro hmem
      obtain ⟨a, ha, heq⟩ := List.mem_map.mp hmem
      have := hl.allocated a ha
      rw [show a.id = ⟨t.next⟩ from heq.trans hid, ← hnext] at this
      exact Nat.lt_irrefl _ this
  have hsilent : s.speech = .silent → ∀ a ∈ t.messages, a.isAssistant = true → Accounted w₀ m a := by
    intro hsilent
    have hwritten := hl.messages
    rw [hsilent] at hwritten
    rw [hmessages]
    exact hwritten
  cases hw with
  | same _ same => exact hl.frame hpast same.speech same.proposal hkinds (ht'.symm.trans ht)
  | mark => exact hl.frame hpast rfl rfl hkinds (ht'.symm.trans ht)
  | report => exact hl.frame hpast rfl rfl hkinds (ht'.symm.trans ht)
  | decide => exact hl.frame hpast rfl rfl hkinds (ht'.symm.trans ht)
  | @append message _ _ appends id =>
    obtain ⟨hspeech, hstop, hproposal, hlife⟩ := Appends.complete appends
    have hs : s.speech = .silent := by
      rcases hlife with hturn | hlife
      · exact hturn.speech
      · exact hp.silent (by rw [hlife]; nofun) (by rw [hlife]; nofun)
    refine hwrite ?_ (fun a ha _ => ?_) (fun a ha _ => ?_) hproposal
    · rw [hspeech, hmessages']
      intro a ha has
      rcases List.mem_append.mp ha with ha | ha
      · exact .inr (hsilent hs a ha has)
      · exact .inl (List.mem_singleton.mp ha)
    · rw [hspeech] at ha
      cases ha
      exact hfresh message id rfl
    · rw [hspeech] at ha
      cases ha
      exact hstop
  | openText turn =>
    refine hwrite ?_ (fun a ha _ => ?_) (fun _ _ hstream => nomatch hstream) rfl
    · rw [hmessages']
      exact ⟨_, rfl, hsilent turn.speech⟩
    · cases ha
      exact hfresh _ rfl rfl
  | extendText turn speech =>
    have hwritten := hl.messages
    rw [speech] at hwritten
    obtain ⟨before, hbefore, hdone⟩ := hwritten
    refine hwrite ?_ (fun a ha _ => ?_) (fun _ _ hstream => nomatch hstream) rfl
    · rw [hmessages']
      refine ⟨before, ?_, hdone⟩
      simp only [hmessages, hbefore, setLast_concat]
    · cases ha
      obtain ⟨hall, hunused⟩ := hl.subject _ (by rw [speech]; rfl) rfl
      exact ⟨Nat.lt_of_lt_of_le hall hle, hunused⟩
  | closeText turn speech =>
    have hwritten := hl.messages
    rw [speech] at hwritten
    obtain ⟨before, hbefore, hdone⟩ := hwritten
    refine hwrite ?_ (fun a ha _ => ?_) (fun a ha _ _ => ?_) rfl
    · rw [hmessages']
      simp only [hmessages, hbefore, setLast_concat]
      intro a ha has
      rcases List.mem_append.mp ha with ha | ha
      · exact .inr (hdone a ha has)
      · exact .inl (List.mem_singleton.mp ha)
    · cases ha
      obtain ⟨hall, hunused⟩ := hl.subject _ (by rw [speech]; rfl) rfl
      exact ⟨Nat.lt_of_lt_of_le hall hle, hunused⟩
    · cases ha
      rfl
  | truncate turn =>
    refine hwrite ?_ (fun a ha => ?_) (fun a ha => ?_) rfl
    · rw [show Stage.speech _ = Speech.silent from turn.speech, hmessages']
      exact fun a ha has => hsilent turn.speech a (List.mem_of_mem_take ha) has
    · rw [show Stage.speech _ = Speech.silent from turn.speech] at ha
      cases ha
    · rw [show Stage.speech _ = Speech.silent from turn.speech] at ha
      cases ha
  | commit turn _ proposal =>
    refine hwrite ?_ (fun a ha => ?_) (fun a ha => ?_) rfl
    · rw [show Stage.speech _ = Speech.silent from turn.speech, hmessages']
      exact fun a ha _ => .inr (.inl (hl.proposal _ proposal a ha))
    · rw [show Stage.speech _ = Speech.silent from turn.speech] at ha
      cases ha
    · rw [show Stage.speech _ = Speech.silent from turn.speech] at ha
      cases ha

theorem ledger_invariant (w₀ : World) (hat : Attentive answers) (hstreams : StreamsEnd answers)
    (hinitial : ∀ a ∈ h.initialMessages, a.isAssistant = false) :
    (machine h).Invariant (Host.of acts answers) fun s m =>
      (((Consistent s m.state ∧ Sealed m.past) ∧ s.fault ≠ some .observer) ∧ Spoken s m) ∧
        (Room m.past → Ledger w₀ s m) := by
  have hlater : ∀ {step : Step World Query Reply} {past : List (Step World Query Reply)},
      ∀ x ∈ past, x ∈ step :: past := fun x hx => List.mem_cons_of_mem _ hx
  refine (spoken_invariant hat hstreams).and ?_ ?_ ?_
  · rintro s m w _ hl ⟨op, _, rfl⟩ hroom
    have hc := ClientOp.client op m.state
    exact (hl hroom.tail).frame hlater rfl rfl hc.kinds hc.transcript
  · intro s m update s' ⟨_, hspoken⟩ hl hown hroom
    rcases hown.writes with ⟨kind, records, hkinds, ht⟩ | ⟨writes, hkinds⟩
    · exact Records.ledger hinitial records (hl hroom.tail) hlater hkinds ht
    · exact Writes.ledger writes rfl rfl hroom.own hspoken.placed (hl hroom.tail) hlater hkinds
  · intro s m query answer s' _ hl ha hr hroom
    have hledger := hl hroom.tail
    have hframe : s'.proposal = s.proposal → Ledger w₀ s' (m.reply query answer) :=
      fun hproposal => hledger.frame hlater (Replies.speech hr) hproposal rfl rfl
    cases hr with
    | @event item =>
      refine hframe ?_
      rcases Stage.receive_cases (s := s) item with ⟨_, _, _, heq⟩ | ⟨_, _, heq⟩ | ⟨_, heq⟩ <;>
        rw [heq]
    | @proposed context request result =>
      have hframe : Ledger w₀ s (m.reply (.compactAutomatic context request) (.ok result)) :=
        hledger.frame hlater rfl rfl rfl rfl
      refine ⟨hframe.messages, hframe.nodup, hframe.allocated, hframe.subject, hframe.complete, ?_⟩
      rintro _ ⟨⟩ a ha
      exact ⟨context, request, result, List.mem_cons_self, ha⟩
    | _ => exact hframe rfl

/-- An assistant message is announced as often as its end is recorded. -/
theorem count_announced {message : AgentMessage} (has : message.isAssistant = true)
    (kinds : List AgentEventKind) :
    kinds.count (.messageEnd message) = (announced kinds).count message := by
  rw [announced, List.count_filterMap, List.count]
  refine List.countP_congr fun kind _ => ?_
  cases kind with
  | messageEnd other =>
    by_cases heq : other = message
    · subst heq
      simp [closes, has]
    · simp only [closes]
      split <;> simp [heq]
  | _ => simp [closes]

/-! ### Message brackets -/

theorem pushContents_users (contents : List String) (agent : AgentState) :
    (pushContents contents agent).2.messages = agent.messages ++ (pushContents contents agent).1 ∧
      ∀ a ∈ (pushContents contents agent).1, a.isAssistant = false := by
  induction contents generalizing agent with
  | nil => exact ⟨(List.append_nil _).symm, fun a ha => by cases ha⟩
  | cons content rest ih =>
    obtain ⟨hmessages, husers⟩ := ih (agent.pushMessage fun id => .user id content).2
    refine ⟨?_, fun a ha => ?_⟩
    · exact hmessages.trans (List.append_assoc _ _ _)
    · rcases List.mem_cons.mp ha with rfl | ha
      · rfl
      · exact husers a ha

/-- **Message brackets.**  Without failing observers, and with streams that do not
    fail after text, messages are announced one at a time at every point of the run.
    When `drive` returns none is open, and every assistant message of the run but
    those of a compactor's replacement is complete and was announced once. -/
theorem messages_bracketed {a : Agent} {contents : List String} {skip : Bool} {w₀ : World}
    {fuel : Nat} {o : Outcome Query CoreError Unit} {m : Now}
    (hstart : startRun a contents skip w₀ = (.ok h, w)) (hheld : w₀.held = true)
    (hat : Attentive answers) (hstreams : StreamsEnd answers)
    (hrun : Run (Host.of acts answers) (drive h fuel) (Now.start w) o m) (hroom : Room m.past) :
    ∃ speaker, speakerOf m.state.run.kinds = some speaker ∧
      (o.completed = true → speaker = none ∧
        ∀ message ∈ m.state.agent.messages, message.isAssistant = true →
          message ∈ w₀.agent.messages ∨ Proposed m.past message ∨
            (message.stopReason.isSome = true ∧
              m.state.run.kinds.count (.messageEnd message) = 1)) := by
  have hclaimed := startRun_claimed hstart
  obtain ⟨hmessages, husers⟩ := pushContents_users contents w₀.agent
  have hinitial : ∀ a ∈ h.initialMessages, a.isAssistant = false := by
    rw [hclaimed.handle]
    exact husers
  have hspoken : Spoken (Stage.claimed w.run.id) (Now.start w) := by
    obtain rfl := hclaimed.world
    exact ⟨.of_silent rfl, rfl, fun _ => rfl⟩
  have hledger : Ledger w₀ (Stage.claimed w.run.id) (Now.start w) := by
    obtain rfl := hclaimed.world
    refine ⟨fun b hb has => .inl ?_, List.nodup_nil, fun b hb => ?_, fun b hb => ?_,
      fun b hb => ?_, nofun⟩
    · have hb' : b ∈ w₀.agent.messages ++ (pushContents contents w₀.agent).1 := hmessages ▸ hb
      refine (List.mem_append.mp hb').resolve_right fun hnew => ?_
      rw [husers b hnew] at has
      cases has
    · cases hb
    · cases hb
    · cases hb
  obtain ⟨s, hended, ⟨_, hs⟩, hl⟩ := drive_reaches
    (ledger_invariant w₀ hat hstreams hinitial)
    ⟨⟨⟨⟨hclaimed.consistent hheld, fun _ hmem => by cases hmem⟩, nofun⟩, hspoken⟩,
      fun _ => hledger⟩ hrun
  refine ⟨_, hs.kinds, fun hcompleted => ?_⟩
  have hsilent : s.speech = .silent := by
    have hlife : s.life ≠ .turnOpen ∧ s.life ≠ .settling := by
      cases o with
      | done value => rw [show s.life = .settled .succeeded from hended]; exact ⟨nofun, nofun⟩
      | failed error =>
        rcases hended with hlife | ⟨phase, hlife, _⟩ <;> rw [hlife] <;> exact ⟨nofun, nofun⟩
      | pending query => cases hcompleted
    exact hs.placed.silent hlife.1 hlife.2
  refine ⟨by rw [hsilent]; rfl, fun message hmem has => ?_⟩
  have hledger := hl hroom
  have hwritten := hledger.messages
  rw [hsilent] at hwritten
  refine (hwritten message hmem has).imp_right (Or.imp_right fun ⟨hstop, hann⟩ => ⟨hstop, ?_⟩)
  rw [count_announced has]
  exact List.count_eq_one_of_mem (List.Nodup.of_map _ hledger.nodup) hann

/-- The last reply is no failure of a stream after text. -/
def streamEnds : List (Step World Query Reply) → Bool
  | .reply .nextEvent item :: past =>
      !hasText (responseOf past) || !decide (Broken (responseOf past) item)
  | _ => true

/-- The messages of a run that is answered with one text. -/
theorem messages_bracketed_accepted :
    speakerOf (accepting.prompt {} observed textReply 9).2.state.run.kinds = some none ∧
      ∀ message ∈ (accepting.prompt {} observed textReply 9).2.state.agent.messages,
        message.isAssistant = true → message ∈ observed.agent.messages ∨
          Proposed (accepting.prompt {} observed textReply 9).2.past message ∨
          (message.stopReason.isSome = true ∧
            (accepting.prompt {} observed textReply 9).2.state.run.kinds.count
              (.messageEnd message) = 1) := by
  have hat : Attentive fun m query reply => accepting.answers m query reply ∧
      streamEnds (.reply query reply :: m.past) = true := fun m observer event error ha =>
    Script.attentive (S := accepting) (fun _ => rfl) m observer event error ha.1
  have hstreams : StreamsEnd fun m query reply => accepting.answers m query reply ∧
      streamEnds (.reply query reply :: m.past) = true := by
    intro m item ⟨_, hends⟩ htext hbroken
    simp only [streamEnds, htext, decide_eq_true hbroken] at hends
    cases hends
  have hends : always streamEnds (accepting.prompt {} observed textReply 9).2.past = true := by
    decide +kernel
  have hrun := Run.admitting (accepting.prompt_run {} observed textReply 9)
    fun past (hpast : past <:+ _) => always_suffix hends hpast
  have hroom : ∀ step ∈ (accepting.prompt {} observed textReply 9).2.past,
    hasRoom step = true := by decide +kernel
  obtain ⟨speaker, hspeaker, hcomplete⟩ :=
    messages_bracketed (prompted_eq {} rfl) rfl hat hstreams hrun hroom
  obtain ⟨rfl, hmessages⟩ := hcomplete (by decide +kernel)
  exact ⟨hspeaker, hmessages⟩

/-- A stream that fails after a text. -/
def brokenReply : List Item :=
  [.ok (some (.textDelta "a")), .error (.duplicateCompletion ⟨"c", by decide⟩)]

/-- The settlement of a stream that failed after a text leaves the partial message
    in the transcript and its bracket open. -/
theorem message_left_partial :
    startRun {} ["hi"] false observed = (.ok (promptHandle {} observed), prompted {} observed) ∧
      Attentive accepting.answers ∧
      ∃ o m, Run (Host.of accepting.acts accepting.answers) (drive (promptHandle {} observed) 9)
          (Now.start (prompted {} observed)) o m ∧ Room m.past ∧
        o.completed = true ∧ speakerOf m.state.run.kinds = none ∧
        .assistant ⟨2⟩ "a" [] none none ∈ m.state.agent.messages :=
  ⟨prompted_eq {} rfl, Script.attentive fun _ => rfl, _, _,
    accepting.prompt_run {} observed brokenReply 9, by unfold Room; decide +kernel, by decide +kernel,
    by decide +kernel, by decide +kernel⟩

end Tea.Contract
