/-
  Tea/Contract/CompactionAtomicity.lean
  =====================================
  **The explicit compaction is a transaction**, as long as no observer rejects an
  event that follows the commit: that rejection makes `drive` return an error with
  the history already replaced.

  `driveCompaction` is followed with the rules of the program logic.  Before the
  commit the transcript is the one of the start, after it the committed
  replacement; whatever ends the transaction settles the agent.
-/
import Tea.Lifecycle.Writes

namespace Tea.Contract

open Tea.Async Tea.Core Tea.Run Tea.Lifecycle

variable {w w' w₀ : World} {acts : Now → ClientOp → Prop}
  {answers : Now → (query : Query) → Reply query → Prop} {P : Now → Prop}

/-! ### Assertions -/

/-- A step that leaves the transcript and the queues alone. -/
structure KeepsHistory (w w' : World) : Prop where
  transcript : transcript w' = transcript w
  queues : w'.queues = w.queues

/-- A step that leaves the ownership of the agent alone, too. -/
structure Mild (w w' : World) : Prop extends KeepsHistory w w' where
  held : w'.held = w.held
  phase : w'.run.phase = w.run.phase
  id : w'.run.id = w.run.id
  agentPhase : w'.agent.phase = w.agent.phase
  activeRun : w'.activeRun = w.activeRun

/-- No other client has changed the queues. -/
def QueuesAlone (past : List (Step World Query Reply)) : Prop :=
  ∀ before after, .interference before after ∈ past → after.queues = before.queues

/-- The queues are those of the start, but for what other clients did to them. -/
def SameQueues (w₀ : World) (m : Now) : Prop :=
  QueuesAlone m.past → m.state.queues = w₀.queues

/-- Nothing has been committed. -/
structure Untouched (w₀ : World) (m : Now) : Prop where
  transcript : transcript m.state = transcript w₀
  queues : SameQueues w₀ m

/-- The compactor has proposed the replacement, and it is valid. -/
structure Accepted (past : List (Step World Query Reply)) (replacement : List AgentMessage) :
    Prop where
  proposed : ∃ context result,
    .reply (.compact context) (.ok result) ∈ past ∧ result.messages = replacement
  valid : validateMessages replacement = .ok ()

/-- The transcript is the committed replacement. -/
structure Replaced (w₀ : World) (m : Now) : Prop where
  accepted : Accepted m.past m.state.agent.messages
  queues : SameQueues w₀ m

/-- An observer has rejected an event of this kind. -/
def Rejected (kind : AgentEventKind) (past : List (Step World Query Reply)) : Prop :=
  ∃ observer event error, event.kind = kind ∧ .reply (.observe observer event) (.error error) ∈ past

/-- An event that announces a commit. -/
def isCommit : AgentEventKind → Bool
  | .compactionResult .. => true
  | .compactionEnd (.succeeded _) => true
  | _ => false

/-- No observer has rejected an event that announces a commit. -/
def commitAccepted : Step World Query Reply → Bool
  | .reply (.observe _ event) (.error _) => !isCommit event.kind
  | _ => true

/-- The transaction is going on. -/
structure Ongoing (w : World) : Prop where
  held : w.held = true
  phase : w.run.phase = .running
  owned : Owned w

/-- The transaction is over and the agent released. -/
structure Over (w : World) : Prop extends Terminal w where
  settled : Settled w

/-! ### What lasts -/

theorem Ongoing.mild (hw : Ongoing w) (hm : Mild w w') : Ongoing w' where
  held := hm.held.trans hw.held
  phase := hm.phase.trans hw.phase
  owned := ⟨by rw [hm.agentPhase, hm.id]; exact hw.owned.phase,
    by rw [hm.activeRun, hm.id]; exact hw.owned.activeRun⟩

theorem Ongoing.client (op : ClientOp) (hw : Ongoing w) : Ongoing (op.apply w) := by
  obtain ⟨hrun, hown, _⟩ := ClientOp.begun op hw.held (by rw [hw.phase]; nofun)
  exact ⟨(ClientOp.client op w).held.trans hw.held, by rw [hrun]; exact hw.phase, hown hw.owned⟩

theorem Over.client (op : ClientOp) (hw : Over w) : Over (op.apply w) where
  toTerminal := hw.toTerminal.client op
  settled := (ClientOp.begun op hw.held hw.begun).2.2 hw.terminal hw.settled

theorem SameQueues.interfere {m : Now} {w : World} (hq : SameQueues w₀ m) :
    SameQueues w₀ (m.interfere w) := fun halone =>
  (halone _ _ List.mem_cons_self).trans
    (hq fun before after hmem => halone before after (List.mem_cons_of_mem _ hmem))

theorem SameQueues.own {m : Now} {update : World → World} (hq : SameQueues w₀ m)
    (hupdate : (update m.state).queues = m.state.queues) : SameQueues w₀ (m.own update) :=
  fun halone =>
    hupdate.trans (hq fun before after hmem => halone before after (List.mem_cons_of_mem _ hmem))

theorem SameQueues.reply {m : Now} {query : Query} {answer : Reply query}
    (hq : SameQueues w₀ m) : SameQueues w₀ (m.reply query answer) := fun halone =>
  hq fun before after hmem => halone before after (List.mem_cons_of_mem _ hmem)

theorem Accepted.mono {past past' : List (Step World Query Reply)}
    {replacement : List AgentMessage} (ha : Accepted past replacement)
    (hpast : ∀ step ∈ past, step ∈ past') : Accepted past' replacement := by
  obtain ⟨context, result, hmem, heq⟩ := ha.proposed
  exact ⟨⟨context, result, hpast _ hmem, heq⟩, ha.valid⟩

theorem Rejected.mono {kind : AgentEventKind} {past past' : List (Step World Query Reply)}
    (hr : Rejected kind past) (hpast : ∀ step ∈ past, step ∈ past') : Rejected kind past' := by
  obtain ⟨observer, event, error, hkind, hmem⟩ := hr
  exact ⟨observer, event, error, hkind, hpast _ hmem⟩

/-- An assertion on the history: kept by every step that leaves transcript and
    queues alone, by the clients and by the replies. -/
abbrev Historic (acts : Now → ClientOp → Prop)
    (answers : Now → (query : Query) → Reply query → Prop) (T : Now → Prop) : Prop :=
  Invariant (Host.of acts answers) KeepsHistory T

theorem untouched_historic (acts : Now → ClientOp → Prop)
    (answers : Now → (query : Query) → Reply query → Prop) (w₀ : World) : Historic acts answers (Untouched w₀) where
  interfere m w hm := by
    rintro ⟨op, _, rfl⟩
    exact ⟨(ClientOp.client op m.state).transcript.trans hm.transcript, hm.queues.interfere⟩
  own m update hm hkeeps :=
    ⟨hkeeps.transcript.trans hm.transcript, hm.queues.own hkeeps.queues⟩
  reply m query answer hm _ := ⟨hm.transcript, hm.queues.reply⟩

theorem replaced_historic (w₀ : World) : Historic acts answers (Replaced w₀) where
  interfere m w hm := by
    rintro ⟨op, _, rfl⟩
    refine ⟨?_, hm.queues.interfere⟩
    rw [show (m.interfere (op.apply m.state)).state.agent.messages = m.state.agent.messages from
      (ClientOp.client op m.state).messages]
    exact hm.accepted.mono fun step => List.mem_cons_of_mem _
  own m update hm hkeeps := by
    refine ⟨?_, hm.queues.own hkeeps.queues⟩
    rw [show (m.own update).state.agent.messages = m.state.agent.messages from
      congrArg Transcript.messages hkeeps.transcript]
    exact hm.accepted.mono fun step => List.mem_cons_of_mem _
  reply m query answer hm _ :=
    ⟨hm.accepted.mono fun step => List.mem_cons_of_mem _, hm.queues.reply⟩

/-- A property of the past that is not lost lasts with a historic assertion. -/
theorem Historic.past {T : Now → Prop} (hT : Historic acts answers T)
    {F : List (Step World Query Reply) → Prop}
    (hF : ∀ step past, F past → F (step :: past)) :
    Historic acts answers fun m => T m ∧ F m.past where
  interfere m w hm hi := ⟨hT.interfere m w hm.1 hi, hF _ _ hm.2⟩
  own m update hm hown := ⟨hT.own m update hm.1 hown, hF _ _ hm.2⟩
  reply m query answer hm ha := ⟨hT.reply m query answer hm.1 ha, hF _ _ hm.2⟩

theorem Historic.rejected {T : Now → Prop} (hT : Historic acts answers T)
    (kind : AgentEventKind) : Historic acts answers fun m => T m ∧ Rejected kind m.past :=
  hT.past fun _ _ hr => hr.mono fun _ => List.mem_cons_of_mem _

theorem Historic.ongoing {T : Now → Prop} (hT : Historic acts answers T) :
    Invariant (Host.of acts answers) Mild fun m => Ongoing m.state ∧ T m where
  interfere m w hm hi := by
    refine ⟨?_, hT.interfere m w hm.2 hi⟩
    obtain ⟨op, _, rfl⟩ := hi
    exact hm.1.client op
  own m update hm hmild := ⟨hm.1.mild hmild, hT.own m update hm.2 hmild.toKeepsHistory⟩
  reply m query answer hm ha := ⟨hm.1, hT.reply m query answer hm.2 ha⟩

theorem Historic.over {T : Now → Prop} (hT : Historic acts answers T) :
    Stable (Host.of acts answers) fun m => Over m.state ∧ T m := by
  intro m w hm hi
  refine ⟨?_, hT.interfere m w hm.2 hi⟩
  obtain ⟨op, _, rfl⟩ := hi
  exact hm.1.client op

/-! ### Events -/

/-- An event is delivered, or an observer has rejected it. -/
theorem deliver_triple (hP : Invariant (Host.of acts answers) Mild P)
    (hR : ∀ kind, Stable (Host.of acts answers) fun m => P m ∧ Rejected kind m.past)
    (event : AgentEvent) (observers : List ObserverId) :
    Triple (Host.of acts answers) P (deliver event observers)
      (Post (fun _ => P) (fun _ m => P m ∧ Rejected event.kind m.past) fun _ => P) := by
  induction observers with
  | nil => exact Triple.done hP.interfere fun m hm => hm
  | cons observer rest ih =>
    refine Triple.call hP.interfere (fun m hm => hm) fun m answer hm ha => ?_
    have hm' := hP.reply m _ answer hm ha
    cases answer with
    | ok => exact ih.at hm'
    | error error =>
      exact (Triple.fail (hR event.kind) fun m hm => hm).at
        ⟨hm', observer, event, error, rfl, List.mem_cons_self⟩

theorem emit_triple (hP : Invariant (Host.of acts answers) Mild P)
    (hR : ∀ kind, Stable (Host.of acts answers) fun m => P m ∧ Rejected kind m.past)
    (kind : AgentEventKind) :
    Triple (Host.of acts answers) P (emit kind)
      (Post (fun _ => P) (fun _ m => P m ∧ Rejected kind m.past) fun _ => P) := by
  refine Triple.atomic hP.interfere fun m hm => ?_
  refine Triple.at (P := P) ?_ (hP.own m _ hm ⟨⟨rfl, rfl⟩, rfl, rfl, rfl, rfl, rfl⟩)
  refine Triple.atomic hP.interfere fun m' hm => ?_
  refine Triple.at (P := P) ?_ (hP.own m' _ hm ⟨⟨rfl, rfl⟩, rfl, rfl, rfl, rfl, rfl⟩)
  refine Triple.atomic hP.interfere fun m' hm => ?_
  refine Triple.at (P := P) ?_ (hP.own m' _ hm ⟨⟨rfl, rfl⟩, rfl, rfl, rfl, rfl, rfl⟩)
  change Triple _ _ (deliver (m.state.run.recordEvent kind).1 m'.state.observers >>= fun _ => _) _
  refine Triple.bind (deliver_triple hP hR _ _) fun _ => ?_
  exact Triple.modify hP.interfere hP.interfere
    (fun m hm => hP.own m _ hm ⟨⟨rfl, rfl⟩, rfl, rfl, rfl, rfl, rfl⟩) fun m hm => hm

/-! ### The end of the transaction -/

theorem settleAgent_over (hw : Terminal w) (error : Option String) :
    Over (w.settleAgent .idle error) :=
  ⟨⟨(settleAgent_client .idle error).held.trans hw.held,
    by rw [settleAgent_run]; exact hw.terminal⟩, settleAgent_settled hw.held error⟩

theorem settleAgent_keepsHistory (error : Option String) :
    KeepsHistory w (w.settleAgent .idle error) := by
  refine ⟨(settleAgent_client .idle error).transcript, ?_⟩
  unfold World.settleAgent
  split <;> rfl

theorem finish_triple {T : Now → Prop} (hT : Historic acts answers T) {phase : RunPhase}
    (hphase : phase.isTerminal = true) (reason : StopReason) (error : Option String) :
    Triple (Host.of acts answers) (fun m => Ongoing m.state ∧ T m) (finish phase reason error)
      (Post (fun _ m => Over m.state ∧ T m) (fun _ _ => False) fun _ _ => False) := by
  have hstable : Stable (Host.of acts answers) fun m => Terminal m.state ∧ T m := by
    intro m w hm hi
    refine ⟨?_, hT.interfere m w hm.2 hi⟩
    obtain ⟨op, _, rfl⟩ := hi
    exact hm.1.client op
  refine Triple.atomic hT.ongoing.interfere fun m hm => ?_
  have hrunning : ¬ m.state.run.phase.isTerminal = true := by rw [hm.1.phase]; nofun
  simp only [if_neg hrunning]
  refine Triple.at (P := fun m => Terminal m.state ∧ T m) ?_ ⟨?_, ?_⟩
  · exact Triple.modify hstable hT.over
      (fun m hm => ⟨settleAgent_over hm.1 error, hT.own m _ hm.2 (settleAgent_keepsHistory error)⟩)
      fun m hm => hm
  · rw [Moment.own_state, if_neg hrunning]
    exact ⟨hm.1.held, hphase⟩
  · refine hT.own m _ hm.2 ?_
    rw [if_neg hrunning]
    exact ⟨rfl, rfl⟩

theorem ignore_finish_triple {T : Now → Prop} (hT : Historic acts answers T) {phase : RunPhase}
    (hphase : phase.isTerminal = true) (reason : StopReason) (error : Option String) :
    Triple (Host.of acts answers) (fun m => Ongoing m.state ∧ T m)
      (ignore (finish phase reason error))
      (Post (fun _ m => Over m.state ∧ T m) (fun _ _ => False) fun _ _ => False) :=
  Triple.attempt (finish_triple hT hphase reason error)
    (fun _ => Triple.done hT.over fun _ hm => hm)
    (fun _ => Triple.done (fun _ _ hm => hm.elim) fun _ hm => hm.elim)
    fun _ _ hm => hm.elim

/-- What an error may leave behind: the history of the start, unless an observer
    has rejected the announcement of the commit. -/
def Undone (w₀ : World) (m : Now) : Prop :=
  Untouched w₀ m ∨ ∃ kind, isCommit kind = true ∧ Rejected kind m.past

/-- How the transaction may end. -/
def CompactionPost (w₀ : World) : Outcome Query CoreError Unit → Now → Prop :=
  Post (fun _ m => Over m.state ∧ Replaced w₀ m) (fun _ m => Over m.state ∧ Undone w₀ m)
    fun _ m => Ongoing m.state

/-- Fail with an error once the handle is finished. -/
theorem failing_triple {T : Now → Prop} (hT : Historic acts answers T)
    (hundone : ∀ m, T m → Undone w₀ m) {p : Drive Unit} (error : CoreError)
    (hp : Triple (Host.of acts answers) (fun m => Ongoing m.state ∧ T m) p
      (Post (fun _ m => Over m.state ∧ T m) (fun _ _ => False) fun _ _ => False)) :
    Triple (Host.of acts answers) (fun m => Ongoing m.state ∧ T m) (p >>= fun _ => .fail error)
      (CompactionPost w₀) :=
  Triple.seq hp fun _ => Triple.fail hT.over fun m hm => ⟨hm.1, hundone m hm.2⟩

theorem settleEmitFailure_triple {T : Now → Prop} (hT : Historic acts answers T)
    (hundone : ∀ m, T m → Undone w₀ m) (error : CoreError) :
    Triple (Host.of acts answers) (fun m => Ongoing m.state ∧ T m) (settleEmitFailure error)
      (CompactionPost w₀) :=
  failing_triple hT hundone error (ignore_finish_triple hT rfl .error (some error.display))

theorem emitCompaction_triple {T : Now → Prop} (hT : Historic acts answers T)
    {kind : AgentEventKind} {next : Drive Unit}
    (hrejected : ∀ m, T m → Rejected kind m.past → Undone w₀ m)
    (hnext : Triple (Host.of acts answers) (fun m => Ongoing m.state ∧ T m) next
      (CompactionPost w₀)) :
    Triple (Host.of acts answers) (fun m => Ongoing m.state ∧ T m) (emitCompaction kind next)
      (CompactionPost w₀) := by
  have hR : ∀ kind, Stable (Host.of acts answers) fun m =>
      (Ongoing m.state ∧ T m) ∧ Rejected kind m.past := fun kind m w hm hi =>
    and_assoc.mpr ((hT.rejected kind).ongoing.interfere m w (and_assoc.mp hm) hi)
  refine Triple.attempt (emit_triple hT.ongoing hR kind) (fun _ => hnext) (fun error => ?_)
    fun _ m hm => hm.1
  refine (settleEmitFailure_triple (hT.rejected kind)
    (fun m hm => hrejected m hm.1 hm.2) error).pre fun m hm => and_assoc.mp hm

/-! ### The transaction -/

theorem settleCompactionFailure_triple (error : CompactionError) :
    Triple (Host.of acts answers) (fun m => Ongoing m.state ∧ Untouched w₀ m)
      (settleCompactionFailure error) (CompactionPost w₀) :=
  emitCompaction_triple (untouched_historic acts answers w₀) (fun _ hm _ => .inl hm)
    (failing_triple (untouched_historic acts answers w₀) (fun _ hm => .inl hm) _
      (ignore_finish_triple (untouched_historic acts answers w₀) rfl _ _))

theorem settleCompactionCancelled_triple :
    Triple (Host.of acts answers) (fun m => Ongoing m.state ∧ Untouched w₀ m)
      settleCompactionCancelled (CompactionPost w₀) :=
  emitCompaction_triple (untouched_historic acts answers w₀) (fun _ hm _ => .inl hm)
    (failing_triple (untouched_historic acts answers w₀) (fun _ hm => .inl hm) _
      (finish_triple (untouched_historic acts answers w₀) rfl _ _))

/-- The history of the start is still there, and the compactor has proposed a valid
    replacement of it. -/
structure Due (w₀ : World) (replacement : List AgentMessage) (m : Now) : Prop where
  untouched : Untouched w₀ m
  accepted : Accepted m.past replacement

theorem due_historic (w₀ : World) (replacement : List AgentMessage) :
    Historic acts answers (Due w₀ replacement) := by
  have hlater : ∀ {step : Step World Query Reply} {past}, Accepted past replacement →
      Accepted (step :: past) replacement := fun ha => ha.mono fun _ => List.mem_cons_of_mem _
  have hT := untouched_historic acts answers w₀
  exact ⟨fun m w hm hi => ⟨hT.interfere m w hm.untouched hi, hlater hm.accepted⟩,
    fun m update hm hown => ⟨hT.own m update hm.untouched hown, hlater hm.accepted⟩,
    fun m query answer hm ha => ⟨hT.reply m query answer hm.untouched ha, hlater hm.accepted⟩⟩

/-- What an attempt to commit leaves. -/
def Attempted (w₀ : World) (m : Now) : Except CoreError Unit → Prop
  | .error _ => Untouched w₀ m
  | .ok () => Replaced w₀ m

theorem attempted_historic (w₀ : World) (committed : Except CoreError Unit) :
    Historic acts answers fun m => Attempted w₀ m committed := by
  cases committed with
  | error => exact untouched_historic acts answers w₀
  | ok => exact replaced_historic w₀

/-- The replacement is committed, unless a cancellation has come before. -/
theorem commitReplacement_triple {replacement : List AgentMessage} :
    Triple (Host.of acts answers) (fun m => Ongoing m.state ∧ Due w₀ replacement m)
      (commitReplacement replacement)
      (Post (fun committed m => Ongoing m.state ∧ Attempted w₀ m committed)
        (fun _ _ => False) fun _ _ => False) := by
  refine Triple.section_ (due_historic w₀ replacement).ongoing.interfere
    (fun committed => (attempted_historic w₀ committed).ongoing.interfere)
    (fun m hm => ?_) fun _ _ hm => hm
  obtain ⟨hw, hdue⟩ := hm
  -- a refusal changes nothing
  have hrefused : ∀ update : World → World, update m.state = m.state →
      Ongoing (m.own update).state ∧ Untouched w₀ (m.own update) := by
    intro update heq
    rw [Moment.own_state, heq]
    refine ⟨hw, ?_, hdue.untouched.queues.own (by rw [heq])⟩
    rw [Moment.own_state, heq]
    exact hdue.untouched.transcript
  by_cases hcancelled : m.state.cancelled = true
  · simp only [if_pos hcancelled]
    exact hrefused _ (if_pos hcancelled ▸ rfl)
  by_cases howned : m.state.agent.phase = .running m.state.run.id
  · have hcommitted : ∀ update : World → World,
        update m.state = { m.state with agent := m.state.agent.replaceMessages replacement } →
        Ongoing (m.own update).state ∧ Replaced w₀ (m.own update) := by
      intro update heq
      rw [Moment.own_state, heq]
      refine ⟨⟨hw.held, hw.phase, hw.owned.phase, hw.owned.activeRun⟩, ?_,
        hdue.untouched.queues.own (by rw [heq])⟩
      rw [Moment.own_state, heq]
      exact hdue.accepted.mono fun _ => List.mem_cons_of_mem _
    simp only [if_neg hcancelled, ne_eq, howned, not_true_eq_false, if_false]
    exact hcommitted _ (by simp only [if_neg hcancelled, howned, not_true_eq_false, if_false])
  · simp only [if_neg hcancelled, ne_eq, howned, not_false_eq_true, if_true]
    exact hrefused _ (by simp only [if_neg hcancelled, howned, not_false_eq_true, if_true])

theorem commitCompaction_triple (result : CompactionResult) :
    Triple (Host.of acts answers) (fun m => Ongoing m.state ∧ Due w₀ result.messages m)
      (commitCompaction result) (CompactionPost w₀) := by
  refine Triple.seq commitReplacement_triple fun committed => ?_
  cases committed with
  | error => exact settleCompactionCancelled_triple
  | ok =>
    refine emitCompaction_triple (replaced_historic w₀) (fun m _ hr => .inr ⟨_, rfl, hr⟩) ?_
    refine emitCompaction_triple (replaced_historic w₀) (fun m _ hr => .inr ⟨_, rfl, hr⟩) ?_
    refine (finish_triple (replaced_historic w₀) rfl .stop none).post ?_
    rintro (value | error | query) m hm
    · exact hm
    · exact hm.elim
    · exact hm.elim

/-- Read a value of the state. -/
theorem read_triple {α : Type} {T : Now → Prop} (hT : Historic acts answers T) (f : World → α) :
    Triple (Host.of acts answers) (fun m => Ongoing m.state ∧ T m) (Future.read f : Drive α)
      (Post (fun _ m => Ongoing m.state ∧ T m) (fun _ _ => False) fun _ _ => False) :=
  Triple.read hT.ongoing.interfere (fun _ => hT.ongoing.interfere)
    (fun m hm => hT.ongoing.own m id hm ⟨⟨rfl, rfl⟩, rfl, rfl, rfl, rfl, rfl⟩) fun _ _ hm => hm

theorem held_triple {T : Now → Prop} (hT : Historic acts answers T) :
    Triple (Host.of acts answers) (fun m => Ongoing m.state ∧ T m)
      (Future.read (·.held) : Drive Bool)
      (Post (fun held m => held = true ∧ Ongoing m.state ∧ T m) (fun _ _ => False)
        fun _ _ => False) :=
  Triple.read hT.ongoing.interfere
    (fun _ m w hm hi => ⟨hm.1, hT.ongoing.interfere m w hm.2 hi⟩)
    (fun m hm => ⟨hm.1.held, hT.ongoing.own m id hm ⟨⟨rfl, rfl⟩, rfl, rfl, rfl, rfl, rfl⟩⟩)
    fun _ _ hm => hm

/-- What the compactor has replied. -/
def Replied (context : CompactionContext) (replaced : Except CompactionError CompactionResult)
    (past : List (Step World Query Reply)) : Prop :=
  .reply (.compact context) replaced ∈ past

theorem compact_triple (context : CompactionContext) {err : CoreError → Now → Prop} :
    Triple (Host.of acts answers) (fun m => Ongoing m.state ∧ Untouched w₀ m) (compact context)
      (Post (fun replaced m => Ongoing m.state ∧ Untouched w₀ m ∧ Replied context replaced m.past)
        err fun _ m => Ongoing m.state) := by
  have hT := untouched_historic acts answers w₀
  have hreplied : ∀ replaced, Historic acts answers fun m =>
      Untouched w₀ m ∧ Replied context replaced m.past := fun replaced =>
    hT.past (F := Replied context replaced) fun _ _ hmem => List.mem_cons_of_mem _ hmem
  exact Triple.ask hT.ongoing.interfere (fun replaced => (hreplied replaced).ongoing.interfere)
    (fun m hm => hm.1)
    (fun m replaced hm ha => ⟨hm.1, hT.reply m _ replaced hm.2 ha, List.mem_cons_self⟩)
    fun _ _ hm => hm

theorem proposeCompaction_triple :
    Triple (Host.of acts answers) (fun m => Ongoing m.state ∧ Untouched w₀ m)
      proposeCompaction (CompactionPost w₀) := by
  have hT := untouched_historic acts answers w₀
  refine Triple.seq (read_triple hT _) fun cancelled => ?_
  cases cancelled with
  | true => exact settleCompactionCancelled_triple
  | false =>
    refine Triple.seq (read_triple hT _) fun context => ?_
    refine Triple.bind (compact_triple context) fun replaced => ?_
    cases replaced with
    | error error => exact (settleCompactionFailure_triple error).pre fun m hm => ⟨hm.1, hm.2.1⟩
    | ok result =>
      rcases hvalid : validateMessages result.messages with error | ⟨⟩
      · refine Triple.pre (P := fun m => Ongoing m.state ∧ Untouched w₀ m) ?_
          fun m hm => ⟨hm.1, hm.2.1⟩
        refine Triple.seq (read_triple hT _) fun cancelled => ?_
        cases cancelled with
        | true => exact settleCompactionCancelled_triple
        | false =>
          simp only [hvalid]
          exact settleCompactionFailure_triple error
      · refine Triple.pre (P := fun m => Ongoing m.state ∧ Due w₀ result.messages m) ?_
          fun m hm => ⟨hm.1, hm.2.1, ⟨context, result, hm.2.2, rfl⟩, hvalid⟩
        refine Triple.seq (read_triple (due_historic w₀ result.messages) _) fun cancelled => ?_
        cases cancelled with
        | true => exact settleCompactionCancelled_triple.pre fun m hm => ⟨hm.1, hm.2.untouched⟩
        | false =>
          simp only [hvalid]
          exact commitCompaction_triple result

theorem driveCompaction_triple :
    Triple (Host.of acts answers) (fun m => Ongoing m.state ∧ Untouched w₀ m)
      driveCompaction (CompactionPost w₀) := by
  have hT := untouched_historic acts answers w₀
  refine Triple.seq (held_triple hT) fun held => Triple.assume fun hheld => ?_
  simp only [hheld, if_true]
  refine Triple.seq (read_triple hT _) fun count => ?_
  exact emitCompaction_triple hT (fun _ hm _ => .inl hm) proposeCompaction_triple

/-- What `start_compaction` leaves of an idle agent. -/
theorem startCompaction_claimed {a : Agent} (hstart : startCompaction a w₀ = (.ok (), w))
    (hheld : w₀.held = true) : Ongoing w ∧ transcript w = transcript w₀ ∧ w.queues = w₀.queues := by
  unfold startCompaction at hstart
  rcases hactive : w₀.agent.phase.active with _ | active
  · by_cases hcompactor : a.capabilities.hasCompactor = true
    · simp only [nextRun, hactive, if_pos hcompactor, Prod.mk.injEq] at hstart
      obtain ⟨_, rfl⟩ := hstart
      exact ⟨⟨hheld, rfl, .inl rfl, rfl⟩, rfl, rfl⟩
    · simp only [nextRun, hactive, if_neg hcompactor, Prod.mk.injEq] at hstart
      cases hstart.1
  · simp only [nextRun, hactive, Prod.mk.injEq] at hstart
    cases hstart.1

/-! ### Atomicity -/

/-- **Atomicity of the explicit compaction.**  If no observer rejects an event that
    announces a commit, an error of `drive` leaves the messages and the next message
    identifier as they were at the start, and a success leaves the validated
    replacement that the compactor proposed.  The queues change only by what other
    clients do to them. -/
theorem compaction_atomic {a : Agent} {o : Outcome Query CoreError Unit} {m : Now}
    (hstart : startCompaction a w₀ = (.ok (), w)) (hheld : w₀.held = true)
    (hrun : Run (Host.of acts answers) driveCompaction (Now.start w) o m)
    (haccepted : ∀ step ∈ m.past, commitAccepted step = true) :
    (∀ error, o = .failed error →
        m.state.agent.messages = w₀.agent.messages ∧
          m.state.agent.nextMessageId = w₀.agent.nextMessageId ∧
          (QueuesAlone m.past → m.state.queues = w₀.queues)) ∧
      ∀ value, o = .done value →
        validateMessages m.state.agent.messages = .ok () ∧
          ∃ context result, .reply (.compact context) (.ok result) ∈ m.past ∧
            m.state.agent.messages = result.messages := by
  obtain ⟨hongoing, htranscript, hqueues⟩ := startCompaction_claimed hstart hheld
  have huntouched : Untouched w₀ (Now.start w) := ⟨htranscript, fun _ => hqueues⟩
  have hpost := driveCompaction_triple _ _ _ ⟨hongoing, huntouched⟩ hrun
  constructor
  · rintro error rfl
    rcases hpost.2 with huntouched | ⟨kind, hcommit, observer, event, error, rfl, hmem⟩
    · exact ⟨congrArg Transcript.messages huntouched.transcript,
        congrArg Transcript.next huntouched.transcript, huntouched.queues⟩
    · have hstep := haccepted _ hmem
      simp only [commitAccepted, hcommit] at hstep
      cases hstep
  · rintro value rfl
    obtain ⟨context, result, hmem, heq⟩ := hpost.2.accepted.proposed
    exact ⟨hpost.2.accepted.valid, context, result, hmem, heq.symm⟩

/-- An idle agent with a compactor, one observer and a message. -/
def compactor : Agent where
  capabilities := { hasCompactor := true }

def talked : World where
  agent := { messages := [.user ⟨1⟩ "hi"], nextMessageId := 2 }
  observers := [1]

/-- The agent in the hands of a compaction. -/
def compacting : World := (startCompaction compactor talked).2

/-- Drive the compaction under the script. -/
def Script.compaction (S : Script) : Outcome Query CoreError Unit × Now :=
  S.play [] driveCompaction (Now.start compacting)

/-- A host whose compactor fails. -/
def failsToCompact : Script where
  replacement := .error (.failed "unavailable")

/-- A compactor that fails, and one that drops every message. -/
theorem compaction_atomic_scripted :
    (Script.compaction failsToCompact).2.state.agent.messages = talked.agent.messages ∧
      validateMessages (Script.compaction accepting).2.state.agent.messages = .ok () := by
  have hstart : startCompaction compactor talked = (.ok (), compacting) := rfl
  obtain ⟨hfailed, _⟩ := compaction_atomic hstart rfl
    (failsToCompact.run [] driveCompaction (Now.start compacting)) (by decide +kernel)
  obtain ⟨_, hdone⟩ := compaction_atomic hstart rfl
    (accepting.run [] driveCompaction (Now.start compacting)) (by decide +kernel)
  exact ⟨(hfailed _ rfl).1, (hdone () rfl).1⟩

/-- A host whose observer rejects the announcement of a commit. -/
def rejectsCommit : Script where
  observe kind := if isCommit kind then .error .cancelled else .ok ()

/-- `drive` returns the error of the observer, and the history is replaced. -/
theorem compaction_failed_after_commit :
    startCompaction compactor talked = (.ok (), compacting) ∧
      ∃ m, Run (Host.of rejectsCommit.acts rejectsCommit.answers) driveCompaction
          (Now.start compacting) (.failed .cancelled) m ∧
        m.state.agent.messages = [] ∧ talked.agent.messages ≠ [] := by
  have hfailed : (Script.compaction rejectsCommit).1 = .failed .cancelled := by rfl
  have hrun := rejectsCommit.run [] driveCompaction (Now.start compacting)
  exact ⟨rfl, _, hfailed ▸ hrun, by decide +kernel, by decide⟩

end Tea.Contract
