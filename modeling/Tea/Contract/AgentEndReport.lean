/-
  Tea/Contract/AgentEndReport.lean
  ================================
  **`AgentEnd` reports the messages that the run has created**, as long as every
  compaction leaves the older messages in the first places of the transcript: the
  report is the suffix from an index that was fixed when the run was claimed.

  A message is older than the run if its identifier was allocated before.
-/
import Tea.Lifecycle.Drains

namespace Tea.Contract

open Tea.Async Tea.Core Tea.Run Tea.Lifecycle

variable {h : RunHandle} {s s' : Stage} {w w' : World}
  {acts : Now → ClientOp → Prop} {answers : Now → (query : Query) → Reply query → Prop}
  {start : Nat} {first : UInt64}

/-! ### Transcripts of a run -/

/-- The message was created by the run, whose first identifier is `first`. -/
def mine (first : UInt64) (message : AgentMessage) : Bool :=
  decide (first.toNat ≤ message.id.val.toNat)

/-- The first `start` messages are older than the run, and the others are its own. -/
def splits (start : Nat) (first : UInt64) (messages : List AgentMessage) : Bool :=
  decide (start ≤ messages.length) && (messages.take start).all (fun m => !mine first m) &&
    (messages.drop start).all (mine first)

structure Split (start : Nat) (first : UInt64) (messages : List AgentMessage) : Prop where
  length : start ≤ messages.length
  older : ∀ message ∈ messages.take start, mine first message = false
  own : ∀ message ∈ messages.drop start, mine first message = true

theorem splits_iff {messages : List AgentMessage} :
    splits start first messages = true ↔ Split start first messages := by
  simp only [splits, Bool.and_eq_true, decide_eq_true_eq, List.all_eq_true, Bool.not_eq_true']
  exact ⟨fun ⟨⟨hlength, holder⟩, hown⟩ => ⟨hlength, holder, hown⟩,
    fun hs => ⟨⟨hs.length, hs.older⟩, hs.own⟩⟩

/-- Then the suffix is what the run has created. -/
theorem Split.report {messages : List AgentMessage} (hs : Split start first messages) :
    messages.drop start = messages.filter (mine first) := by
  have holder : (messages.take start).filter (mine first) = [] :=
    List.filter_eq_nil_iff.mpr fun message hmem => by rw [hs.older message hmem]; exact Bool.false_ne_true
  have hown : (messages.drop start).filter (mine first) = messages.drop start :=
    List.filter_eq_self.mpr hs.own
  calc messages.drop start
      = (messages.take start).filter (mine first) ++ (messages.drop start).filter (mine first) := by
        rw [holder, hown, List.nil_append]
    _ = messages.filter (mine first) := by rw [← List.filter_append, List.take_append_drop]

theorem Split.append {messages : List AgentMessage} (hs : Split start first messages)
    {message : AgentMessage} (hmine : mine first message = true) :
    Split start first (messages ++ [message]) where
  length := by
    have hlength := hs.length
    rw [List.length_append]
    omega
  older m hmem := by
    rw [List.take_append_of_le_length hs.length] at hmem
    exact hs.older m hmem
  own m hmem := by
    rw [List.drop_append_of_le_length hs.length] at hmem
    rcases List.mem_append.mp hmem with hmem | hmem
    · exact hs.own m hmem
    · rw [List.mem_singleton.mp hmem]
      exact hmine

theorem Split.take {messages : List AgentMessage} (hs : Split start first messages) {count : Nat}
    (hcount : start ≤ count) : Split start first (messages.take count) where
  length := by
    have hlength := hs.length
    rw [List.length_take]
    omega
  older m hmem := by
    rw [List.take_take, Nat.min_eq_left hcount] at hmem
    exact hs.older m hmem
  own m hmem := by
    rw [List.drop_take] at hmem
    exact hs.own m (List.mem_of_mem_take hmem)

/-- The last message, if it is of the run, comes after the older ones. -/
theorem Split.dropLast {before : List AgentMessage} {last : AgentMessage}
    (hs : Split start first (before ++ [last])) (hmine : mine first last = true) :
    Split start first before := by
  have hlength : start ≤ before.length := by
    by_contra hnot
    have hall : (before ++ [last]).length ≤ start := by
      rw [List.length_append, List.length_singleton]
      omega
    have hold := hs.older last (by rw [List.take_of_length_le hall]; simp)
    rw [hmine] at hold
    cases hold
  have hsplit := hs.take hlength
  have htake : Split start first ((before ++ [last]).take before.length) :=
    hs.take hlength
  rwa [List.take_left] at htake

/-! ### Replacements -/

/-- The compactor has proposed the messages. -/
def proposed (messages : List AgentMessage) : Step World Query Reply → Bool
  | .reply (.compactAutomatic _ _) (.ok result) => decide (messages = result.messages)
  | _ => false

/-- The last step, if it commits a replacement, leaves the older messages in the
    first places. -/
def commitSplits (start : Nat) (first : UInt64) : List (Step World Query Reply) → Bool
  | .own _ after :: past =>
      !past.any (proposed after.agent.messages) || splits start first after.agent.messages
  | _ => true

theorem Replacement.proposed {past : List (Step World Query Reply)} {messages : List AgentMessage}
    (hr : Replacement past messages) : past.any (Contract.proposed messages) = true := by
  obtain ⟨context, request, result, hmem, heq⟩ := hr
  exact List.any_eq_true.mpr ⟨_, hmem, decide_eq_true heq⟩

/-! ### The invariant -/

/-- The transcript that the report was read from is still there. -/
def reporting : Life → Bool
  | .turnClosed => true
  | .polling => true
  | .polled => true
  | .drained => true
  | .settledTurn => true
  | _ => false

/-- `AgentEnd` has been recorded. -/
def reported : Life → Bool
  | .ended => true
  | .settledEnd => true
  | .finished _ => true
  | .settled _ => true
  | _ => false

structure Reporting (start : Nat) (first : UInt64) (s : Stage) (w : World) : Prop where
  split : Split start first w.agent.messages
  next : first.toNat ≤ w.agent.nextMessageId.toNat
  streaming : ∀ message, streamed s.speech = some message → mine first message = true
  marked : ∀ count, s.mark = some count → start ≤ count
  report : reporting s.life = true → ∀ messages, s.report = some messages →
    messages = w.agent.messages.drop start
  ended : ∀ messages, .agentEnd messages ∈ w.run.kinds →
    reported s.life = true ∧ messages = w.agent.messages.drop start

theorem Records.not_reported {kind : AgentEventKind} (hr : Records h s kind s') :
    reported s.life = false := by
  have hturn : TurnOpen s → reported s.life = false := fun hturn => by rw [hturn.life]; rfl
  have hspeaking : Speaking s → reported s.life = false := fun hs => by
    rcases hs with hs | hlife
    · exact hturn hs
    · rw [hlife]; rfl
  cases hr with
  | agentStart life => rw [life]; rfl
  | turnStart life => rcases life with life | life <;> rw [life] <;> rfl
  | messageStart speaking => exact hspeaking speaking
  | messageEnd speaking => exact hspeaking speaking
  | promptStart turn => exact hturn turn.turnOpen
  | textStart turn => exact hturn turn
  | textUpdate turn => exact hturn turn
  | side turn => exact hturn turn.turnOpen
  | turnEnd turn => exact hturn turn.turnOpen
  | agentEnd life => rcases life with life | life <;> rw [life] <;> rfl
  | settleTurnEnd life => rw [life]; rfl
  | settleAgentEnd life => rw [life]; rfl

/-- What an event leaves of the report. -/
theorem Records.report {kind : AgentEventKind} (hr : Records h s kind s') :
    (reporting s'.life = true → s'.report = none ∨ (reporting s.life = true ∧ s'.report = s.report)) ∧
      ∀ messages, kind = .agentEnd messages →
        reporting s.life = true ∧ reported s'.life = true ∧ s.report = some messages := by
  cases hr with
  | agentEnd life _ _ report =>
    refine ⟨fun hlife => (by cases hlife), ?_⟩
    rintro _ ⟨⟩
    refine ⟨?_, rfl, report⟩
    rcases life with life | life <;> rw [life] <;> rfl
  | settleAgentEnd life report =>
    refine ⟨fun hlife => (by cases hlife), ?_⟩
    rintro _ ⟨⟩
    exact ⟨by rw [life]; rfl, rfl, report⟩
  | side turn side =>
    refine ⟨fun hlife => .inr ⟨hlife, rfl⟩, ?_⟩
    rintro _ rfl
    cases side
  | agentStart => exact ⟨fun hlife => (by cases hlife), fun _ heq => by cases heq⟩
  | turnStart => exact ⟨fun hlife => (by cases hlife), fun _ heq => by cases heq⟩
  | turnEnd => exact ⟨fun _ => .inl rfl, fun _ heq => by cases heq⟩
  | settleTurnEnd => exact ⟨fun _ => .inl rfl, fun _ heq => by cases heq⟩
  | _ => exact ⟨fun hlife => .inr ⟨hlife, rfl⟩, fun _ heq => by cases heq⟩

theorem Records.reporting {kind : AgentEventKind} (hr : Records h s kind s')
    (hrep : Reporting start first s w) (ht : transcript w' = transcript w)
    (hkinds : w'.run.kinds = w.run.kinds ++ [kind]) : Reporting start first s' w' := by
  have hmessages : w'.agent.messages = w.agent.messages := congrArg Transcript.messages ht
  have hnext : w'.agent.nextMessageId = w.agent.nextMessageId := congrArg Transcript.next ht
  obtain ⟨_, hspeech, hmark, _⟩ := hr.handed
  obtain ⟨hreport, hend⟩ := Records.report hr
  refine ⟨hmessages ▸ hrep.split, hnext ▸ hrep.next, fun message heq => ?_, fun count heq => ?_,
    fun hlife messages heq => ?_, fun messages hmem => ?_⟩
  · rcases hspeech with hspeech | hspeech
    · exact hrep.streaming message (hspeech ▸ heq)
    · rw [hspeech] at heq
      cases heq
  · rcases hmark with hmark | hmark
    · exact hrep.marked count (hmark ▸ heq)
    · rw [hmark] at heq
      cases heq
  · rcases hreport hlife with hnone | ⟨hbefore, hsame⟩
    · rw [hnone] at heq
      cases heq
    · rw [hmessages]
      exact hrep.report hbefore messages (hsame ▸ heq)
  · rw [hkinds] at hmem
    rcases List.mem_append.mp hmem with hmem | hmem
    · have hreported := (hrep.ended messages hmem).1
      rw [Records.not_reported hr] at hreported
      cases hreported
    · obtain ⟨hbefore, hreported, heq⟩ := hend messages (List.mem_singleton.mp hmem).symm
      rw [hmessages]
      exact ⟨hreported, hrep.report hbefore messages heq⟩

/-- How a stage moves between reading and recording the report. -/
theorem Moves.report (hm : Moves h s s') (hobserver : s.fault ≠ some .observer) :
    (reporting s'.life = true → reporting s.life = true) ∧
      (reported s.life = true → reported s'.life = true) := by
  cases hm with
  | stay life => rw [life]; exact ⟨id, id⟩
  | begin life => exact ⟨fun hlife => (by cases hlife), fun hlife => by rw [life] at hlife; cases hlife⟩
  | reject life => exact ⟨fun hlife => (by cases hlife), fun hlife => by rw [life] at hlife; cases hlife⟩
  | poll life =>
    rcases life with ⟨life, life'⟩ | ⟨life, life'⟩ <;>
      exact ⟨fun _ => (by rw [life]; rfl), fun hlife => by rw [life] at hlife; cases hlife⟩
  | advance life =>
    refine ⟨fun hlife => (by cases hlife), fun hlife => ?_⟩
    rcases life with life | life <;> rw [life] at hlife <;> cases hlife
  | leave failed life =>
    refine ⟨fun hlife => (by cases hlife), fun hlife => ?_⟩
    have hended : s.life = .ended := by
      rcases hl : s.life <;> simp [hl, reported, Life.looping] at hlife life ⊢
    unfold LoopFailed at failed
    rcases hfault : s.fault with _ | _ | _ | _ <;> simp only [hfault] at failed
    · rcases failed with hf | ⟨phase, hf, _⟩ | ⟨hf, _⟩ <;> rw [hended] at hf <;> cases hf
    · exact absurd hfault hobserver
    · rw [hended] at failed
      cases failed.1
    · rw [hended] at failed
      cases failed.1
  | skip life life' =>
    rw [life, life']
    exact ⟨fun hlife => (by cases hlife), fun hlife => by cases hlife⟩
  | finish => exact ⟨fun hlife => (by cases hlife), fun _ => rfl⟩
  | settle => exact ⟨fun hlife => (by cases hlife), fun _ => rfl⟩

/-- A step that writes comes before `AgentEnd`, and only the one that reads the
    report leaves one that is used. -/
theorem Writes.unreported {t t' : Transcript} (hw : Writes h s t t' s') :
    (Moves h s s' ∧ SameWriting s s' ∧ t' = t) ∨
      (reported s.life = false ∧ (reporting s'.life = true →
        s'.report = some (t'.messages.drop h.messageStartIndex))) := by
  have hturn : TurnOpen s → s'.life = s.life → reported s.life = false ∧
      (reporting s'.life = true → s'.report = some (t'.messages.drop h.messageStartIndex)) := by
    intro hturn hlife
    rw [hlife, hturn.life]
    exact ⟨rfl, fun hreporting => by cases hreporting⟩
  cases hw with
  | same moves same => exact .inl ⟨moves, same, rfl⟩
  | mark turn => exact .inr (hturn turn.turnOpen rfl)
  | report life =>
    refine .inr ⟨?_, fun _ => rfl⟩
    rcases life with life | life | life <;> rw [life] <;> rfl
  | decide turn => exact .inr (hturn turn.turnOpen rfl)
  | append appends =>
    refine .inr ?_
    cases appends with
    | user turn => exact hturn turn.turnOpen rfl
    | result turn => exact hturn turn.turnOpen rfl
    | response turn => exact hturn turn.turnOpen rfl
    | failure life =>
      rw [life]
      exact ⟨rfl, fun hreporting => by cases hreporting⟩
  | openText turn => exact .inr (hturn turn.turnOpen rfl)
  | extendText turn => exact .inr (hturn turn rfl)
  | closeText turn => exact .inr (hturn turn rfl)
  | truncate turn => exact .inr (hturn turn.turnOpen rfl)
  | commit turn => exact .inr (hturn turn.turnOpen rfl)

/-- A message under the next identifier was created by the run. -/
theorem mine_next {message : AgentMessage} {next : UInt64} (hid : message.id = ⟨next⟩)
    (hnext : first.toNat ≤ next.toNat) : mine first message = true := by
  rw [mine, hid]
  exact decide_eq_true hnext

/-- What a write keeps of the division into older messages and the run's own. -/
theorem Writes.split {t t' : Transcript} (hw : Writes h s t t' s')
    (hsplit : Split start first t.messages) (hnext : first.toNat ≤ t.next.toNat)
    (hstreaming : ∀ message, streamed s.speech = some message → mine first message = true)
    (hlast : ∀ message, streamed s.speech = some message →
      ∃ before, t.messages = before ++ [message])
    (hmarked : ∀ count, s.mark = some count → start ≤ count)
    (hcommit : s.proposal = some t'.messages → Split start first t'.messages) :
    Split start first t'.messages ∧
      (∀ message, streamed s'.speech = some message → mine first message = true) ∧
      ∀ count, s'.mark = some count → start ≤ count := by
  -- the streamed message is rewritten under its identifier
  have hrewrite : ∀ (message : AgentMessage) {old : AgentMessage},
      streamed s.speech = some old → message.id = old.id → mine first message = true ∧
        Split start first (setLast t.messages message) := by
    intro message old hold hid
    obtain ⟨before, hbefore⟩ := hlast old hold
    have hmine : mine first message = true := by
      rw [mine, hid]
      exact hstreaming old hold
    rw [hbefore] at hsplit ⊢
    rw [setLast, List.dropLast_concat]
    exact ⟨hmine, (hsplit.dropLast (hstreaming old hold)).append hmine⟩
  cases hw with
  | same _ same =>
    rw [same.speech, same.mark]
    exact ⟨hsplit, hstreaming, hmarked⟩
  | mark turn =>
    refine ⟨hsplit, hstreaming, ?_⟩
    rintro _ ⟨⟩
    exact hsplit.length
  | report => exact ⟨hsplit, hstreaming, hmarked⟩
  | decide => exact ⟨hsplit, hstreaming, hmarked⟩
  | append appends id =>
    obtain ⟨hspeech, _, hmark⟩ := appends.handed
    refine ⟨hsplit.append (mine_next id hnext), fun message heq => ?_, ?_⟩
    · rw [hspeech] at heq
      cases heq
    · rcases hmark with ⟨_, _, _, _, hmark⟩ | ⟨_, _, hmark⟩ <;> rw [hmark]
      · exact fun _ heq => by cases heq
      · exact hmarked
  | openText =>
    refine ⟨hsplit.append (mine_next rfl hnext), ?_, hmarked⟩
    rintro _ ⟨⟩
    exact mine_next rfl hnext
  | @extendText id old text _ turn speech =>
    obtain ⟨hmine, hset⟩ := hrewrite (partialMessage id text) (congrArg streamed speech) rfl
    refine ⟨hset, ?_, hmarked⟩
    rintro _ ⟨⟩
    exact hmine
  | @closeText id text reason _ turn speech =>
    obtain ⟨_, hset⟩ := hrewrite (.assistant id text (collect s.response).toolCalls (some reason)
      (collect s.response).errorMessage) (congrArg streamed speech) rfl
    exact ⟨hset, fun _ heq => (by cases heq), hmarked⟩
  | truncate turn mark => exact ⟨hsplit.take (hmarked _ mark), hstreaming, fun _ heq => by cases heq⟩
  | commit turn calls proposal => exact ⟨hcommit proposal, hstreaming, fun _ heq => by cases heq⟩

theorem Writes.reporting (hw : Writes h s (transcript w) (transcript w') s')
    (hobserver : s.fault ≠ some .observer) (hkinds : w'.run.kinds = w.run.kinds)
    {past : List (Step World Query Reply)} (hh : Handed s ⟨past, w⟩)
    (hrep : Reporting h.messageStartIndex first s w)
    (hcommit : commitSplits h.messageStartIndex first (.own w w' :: past) = true) :
    Reporting h.messageStartIndex first s' w' := by
  have hsplits : s.proposal = some w'.agent.messages →
      Split h.messageStartIndex first w'.agent.messages := fun hproposal => by
    have hany := Replacement.proposed (hh.proposal _ hproposal)
    rw [commitSplits, hany] at hcommit
    exact splits_iff.mp hcommit
  obtain ⟨hsplit, hstreaming, hmarked⟩ := Writes.split hw hrep.split hrep.next hrep.streaming
    hh.streaming hrep.marked hsplits
  refine ⟨hsplit, hrep.next.trans hw.next_le, hstreaming, hmarked, fun hlife messages heq => ?_,
    fun messages hmem => ?_⟩
  · rcases Writes.unreported hw with ⟨moves, same, ht⟩ | ⟨_, hreport⟩
    · rw [show w'.agent.messages = w.agent.messages from congrArg Transcript.messages ht]
      exact hrep.report ((Moves.report moves hobserver).1 hlife) messages (same.report ▸ heq)
    · rw [hreport hlife] at heq
      exact (Option.some.inj heq).symm
  · rw [hkinds] at hmem
    obtain ⟨hreported, heq⟩ := hrep.ended messages hmem
    rcases Writes.unreported hw with ⟨moves, _, ht⟩ | ⟨hnot, _⟩
    · rw [show w'.agent.messages = w.agent.messages from congrArg Transcript.messages ht]
      exact ⟨(Moves.report moves hobserver).2 hreported, heq⟩
    · rw [hnot] at hreported
      cases hreported

/-- A reply and a client leave the report alone. -/
theorem Reporting.frame (hrep : Reporting start first s w)
    (hmessages : w'.agent.messages = w.agent.messages)
    (hnext : w'.agent.nextMessageId = w.agent.nextMessageId) (hkinds : w'.run.kinds = w.run.kinds)
    (hspeech : s'.speech = s.speech) (hmark : s'.mark = s.mark) (hreport : s'.report = s.report)
    (hreporting : reporting s'.life = true → reporting s.life = true)
    (hreported : reported s.life = true → reported s'.life = true) :
    Reporting start first s' w' where
  split := hmessages ▸ hrep.split
  next := hnext ▸ hrep.next
  streaming := hspeech ▸ hrep.streaming
  marked := hmark ▸ hrep.marked
  report hlife := by
    rw [hmessages, hreport]
    exact hrep.report (hreporting hlife)
  ended messages hmem := by
    rw [hmessages]
    rw [hkinds] at hmem
    obtain ⟨hbefore, heq⟩ := hrep.ended messages hmem
    exact ⟨hreported hbefore, heq⟩

theorem Replies.reporting {query : Query} {reply : Reply query}
    (hr : Replies s query reply s') (hrep : Reporting start first s w) :
    Reporting start first s' w := by
  cases hr with
  | @event item =>
    rcases Stage.receive_cases (s := s) item with ⟨_, _, _, heq⟩ | ⟨_, _, heq⟩ | ⟨_, heq⟩ <;>
      rw [heq] <;> exact hrep.frame rfl rfl rfl rfl rfl rfl id id
  | declined life =>
    refine hrep.frame rfl rfl rfl rfl rfl rfl (fun _ => by rw [life]; rfl) fun hreported => ?_
    rw [life] at hreported
    cases hreported
  | _ => exact hrep.frame rfl rfl rfl rfl rfl rfl id id

theorem reporting_invariant (hat : Attentive answers) :
    (machine h).Invariant (Host.of acts answers) fun s m =>
      ((Consistent s m.state ∧ Sealed m.past) ∧ s.fault ≠ some .observer) ∧ Handed s m ∧
        (always (commitSplits h.messageStartIndex first) m.past = true →
          Reporting h.messageStartIndex first s m.state) := by
  refine (attentive_invariant hat).and ?_ ?_ ?_
  · rintro s m w _ ⟨hh, hrep⟩ ⟨op, _, rfl⟩
    refine ⟨ClientOp.handed op hh, fun hall => ?_⟩
    have hclient := ClientOp.client op m.state
    exact (hrep (Bool.and_eq_true_iff.mp hall).2).frame hclient.messages hclient.nextMessageId
      hclient.kinds rfl rfl rfl id id
  · intro s m update s' ⟨_, hobserver⟩ ⟨hh, hrep⟩ hown
    refine ⟨Own.handed hown hh, fun hall => ?_⟩
    obtain ⟨hcommit, hall⟩ := Bool.and_eq_true_iff.mp hall
    rcases Own.writes hown with ⟨kind, records, hkinds, ht⟩ | ⟨hw, hkinds⟩
    · exact Records.reporting records (hrep hall) ht hkinds
    · exact Writes.reporting hw hobserver hkinds hh (hrep hall) hcommit
  · intro s m query answer s' _ ⟨hh, hrep⟩ _ hr
    exact ⟨Replies.handed hr hh, fun hall =>
      Replies.reporting hr (hrep (Bool.and_eq_true_iff.mp hall).2)⟩

/-! ### The report -/

theorem pushContents_split {contents : List String} {agent : AgentState}
    (hsplit : Split start first agent.messages) (hnext : first.toNat ≤ agent.nextMessageId.toNat) :
    Split start first (pushContents contents agent).2.messages ∧
      first.toNat ≤ (pushContents contents agent).2.nextMessageId.toNat := by
  induction contents generalizing agent with
  | nil => exact ⟨hsplit, hnext⟩
  | cons content rest ih =>
    refine ih (hsplit.append (mine_next rfl hnext)) ?_
    exact hnext.trans (le_satSucc _)

theorem Claimed.reporting {a : Agent} {contents : List String} {skip : Bool} {w₀ : World}
    (hc : Claimed a contents skip w₀ h w)
    (hids : ∀ message ∈ w₀.agent.messages,
      message.id.val.toNat < w₀.agent.nextMessageId.toNat) :
    h.messageStartIndex = w₀.agent.messages.length ∧
      Reporting w₀.agent.messages.length w₀.agent.nextMessageId (Stage.claimed w.run.id) w := by
  have hsplit : Split w₀.agent.messages.length w₀.agent.nextMessageId w₀.agent.messages := by
    refine ⟨Nat.le_refl _, fun message hmem => ?_, fun message hmem => ?_⟩
    · have hlt := hids message (List.mem_of_mem_take hmem)
      exact decide_eq_false (by omega)
    · rw [List.drop_length] at hmem
      cases hmem
  obtain ⟨hsplit, hnext⟩ := @pushContents_split _ _ contents _ hsplit (Nat.le_refl _)
  obtain rfl := hc.handle
  obtain rfl := hc.world
  exact ⟨rfl, hsplit, hnext, fun _ heq => (by cases heq), fun _ heq => (by cases heq),
    fun hlife => (by cases hlife), fun _ hmem => (by cases hmem)⟩

/-- **The report of `AgentEnd`.**  If no observer fails and every committed replacement
    leaves the older messages in the first places, `AgentEnd` carries the messages of
    the final transcript that the run has created, in their order. -/
theorem agentEnd_reports_own {a : Agent} {contents : List String} {skip : Bool} {w₀ : World}
    {fuel : Nat} {o : Outcome Query CoreError Unit} {m : Now}
    (hstart : startRun a contents skip w₀ = (.ok h, w)) (hheld : w₀.held = true)
    (hids : ∀ message ∈ w₀.agent.messages,
      message.id.val.toNat < w₀.agent.nextMessageId.toNat)
    (hat : Attentive answers)
    (hrun : Run (Host.of acts answers) (drive h fuel) (Now.start w) o m)
    (hsplits : always (commitSplits w₀.agent.messages.length w₀.agent.nextMessageId) m.past = true) :
    ∀ messages, .agentEnd messages ∈ m.state.run.kinds →
      messages = m.state.agent.messages.filter (mine w₀.agent.nextMessageId) := by
  have hclaimed := startRun_claimed hstart
  obtain ⟨hindex, hrep⟩ := Claimed.reporting hclaimed hids
  rw [← hindex] at hrep hsplits
  obtain ⟨s, _, _, _, hreporting⟩ := drive_reaches (reporting_invariant hat)
    ⟨⟨⟨hclaimed.consistent hheld, fun _ hmem => by cases hmem⟩, fun hfault => by cases hfault⟩, Handed.claimed,
      fun _ => hrep⟩ hrun
  intro messages hmem
  obtain ⟨_, heq⟩ := (hreporting hsplits).ended messages hmem
  exact heq.trans (hreporting hsplits).split.report

/-- An agent with a message of an earlier run. -/
def continued : World where
  agent := { messages := [.user ⟨1⟩ "old"], nextMessageId := 2 }
  observers := [1]

/-- A host whose compactor keeps the earlier message, and whose client asks for a
    second turn. -/
def keepsOlder : Script where
  replacement := .ok { messages := [.user ⟨1⟩ "old"] }
  clients
    | .observe _ event => if event.kind = .agentStart then [.followUp "more"] else []
    | _ => []

/-- Such a host whose compactor keeps nothing. -/
def keepsNothing : Script := { keepsOlder with replacement := .ok { messages := [] } }

/-- After the compaction of the second turn the report is the response to it. -/
theorem agentEnd_reports_own_compacted :
    .agentEnd [.assistant ⟨5⟩ "a" [] (some .stop) none] ∈
        (keepsOlder.prompt automatic continued (textReply ++ textReply) 9).2.state.run.kinds ∧
      [.assistant ⟨5⟩ "a" [] (some .stop) none] =
        (keepsOlder.prompt automatic continued (textReply ++ textReply) 9).2.state.agent.messages.filter
          (mine 2) := by
  have hend : .agentEnd [.assistant ⟨5⟩ "a" [] (some .stop) none] ∈
      (keepsOlder.prompt automatic continued (textReply ++ textReply) 9).2.state.run.kinds := by
    decide +kernel
  exact ⟨hend, agentEnd_reports_own (prompted_eq automatic rfl) rfl (by decide)
    (Script.attentive fun _ => rfl)
    (keepsOlder.prompt_run automatic continued (textReply ++ textReply) 9) (by decide +kernel) _ hend⟩

/-- After a compaction that shortens the transcript `AgentEnd` reports nothing, and the
    response of the run is in the transcript. -/
theorem agentEnd_omits :
    startRun automatic ["hi"] false continued =
        (.ok (promptHandle automatic continued), prompted automatic continued) ∧
      ∃ o m, Run (Host.of keepsNothing.acts keepsNothing.answers)
          (drive (promptHandle automatic continued) 9) (Now.start (prompted automatic continued))
          o m ∧
        .agentEnd [] ∈ m.state.run.kinds ∧
        m.state.agent.messages.filter (mine 2) = [.assistant ⟨5⟩ "a" [] (some .stop) none] := by
  refine ⟨prompted_eq automatic rfl, _, _,
    keepsNothing.prompt_run automatic continued (textReply ++ textReply) 9, ?_, ?_⟩
  · decide +kernel
  · decide +kernel

end Tea.Contract
