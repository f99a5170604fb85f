/-
  Tea/Contract/AutomaticCompaction.lean
  =====================================
  **One automatic compaction is a transaction**, as long as no observer rejects the
  event that announces its commit: that rejection makes the call return an error
  with the history already replaced.

  Every critical section of the call leaves the transcript alone (`Within
  KeepsHistory`), but for the one that commits the replacement.
-/
import Tea.Contract.CompactionAtomicity
import Tea.Lifecycle.Drains

namespace Tea.Contract

open Tea.Async Tea.Core Tea.Run Tea.Lifecycle

variable {w : World} {acts : Now → ClientOp → Prop}
  {answers : Now → (query : Query) → Reply query → Prop} {t : Lifecycle.Transcript}
  {retained : List AgentMessage} {h : RunHandle} {reason : AutomaticCompactionReason}
  {retry : Bool}

/-! ### Assertions -/

/-- The transcript and the allocator are those of the entry. -/
def Unchanged (t : Lifecycle.Transcript) (m : Now) : Prop := transcript m.state = t

/-- The transcript is a valid replacement that the compactor proposed, and it ends
    with the messages that were to be retained. -/
structure Compacted (retained : List AgentMessage) (m : Now) : Prop where
  proposed : Replacement m.past m.state.agent.messages
  valid : validateMessages m.state.agent.messages = .ok ()
  suffix : retained <:+ m.state.agent.messages

/-- An event that announces a committed automatic compaction. -/
def isAutomaticCommit : AgentEventKind → Bool
  | .automaticCompactionEnd _ _ (.succeeded _) => true
  | .automaticCompactionEnd _ _ .stillAboveThreshold => true
  | _ => false

/-- No observer has rejected the announcement of an automatic compaction. -/
def automaticCommitAccepted : Step World Query Reply → Bool
  | .reply (.observe _ event) (.error _) => !isAutomaticCommit event.kind
  | _ => true

/-- How the call may end. -/
def AutomaticPost (t : Lifecycle.Transcript) (retained : List AgentMessage) :
    Outcome Query CoreError (Bool × ContextEstimator) → Now → Prop :=
  Post (fun result m => if result.1 then Compacted retained m else Unchanged t m)
    (fun _ m => Unchanged t m ∨ ∃ kind, isAutomaticCommit kind = true ∧ Rejected kind m.past)
    fun _ _ => True

theorem unchanged_historic (acts : Now → ClientOp → Prop)
    (answers : Now → (query : Query) → Reply query → Prop) (t : Lifecycle.Transcript) :
    Historic acts answers (Unchanged t) where
  interfere m w hm := by
    rintro ⟨op, _, rfl⟩
    exact (ClientOp.client op m.state).transcript.trans hm
  own m update hm hkeeps := hkeeps.transcript.trans hm
  reply m query answer hm _ := hm

theorem Compacted.later {m m' : Now} (hm : Compacted retained m)
    (ht : transcript m'.state = transcript m.state)
    (hpast : ∀ step ∈ m.past, step ∈ m'.past) : Compacted retained m' := by
  have hmessages : m'.state.agent.messages = m.state.agent.messages :=
    congrArg Transcript.messages ht
  obtain ⟨context, request, result, hmem, heq⟩ := hm.proposed
  refine ⟨⟨context, request, result, hpast _ hmem, hmessages.trans heq⟩, ?_, ?_⟩
  · rw [hmessages]
    exact hm.valid
  · rw [hmessages]
    exact hm.suffix

theorem compacted_historic (acts : Now → ClientOp → Prop)
    (answers : Now → (query : Query) → Reply query → Prop) (retained : List AgentMessage) :
    Historic acts answers (Compacted retained) where
  interfere m w hm := by
    rintro ⟨op, _, rfl⟩
    exact hm.later (ClientOp.client op m.state).transcript fun _ => List.mem_cons_of_mem _
  own m update hm hkeeps := hm.later hkeeps.transcript fun _ => List.mem_cons_of_mem _
  reply m query answer hm _ := hm.later rfl fun _ => List.mem_cons_of_mem _

/-! ### What leaves the transcript alone -/

theorem keepsHistory_refl (w : World) : KeepsHistory w w := ⟨rfl, rfl⟩

theorem lockPolicy_within {α : Type} (f : RunPolicyState → α × RunPolicyState) :
    (lockPolicy f).Within KeepsHistory := Future.Within.section_ fun _ => ⟨rfl, rfl⟩

theorem whenever_within {condition : Bool} {p : Drive Unit} (hp : p.Within KeepsHistory) :
    (whenever condition p).Within KeepsHistory := by
  unfold whenever
  split
  · exact hp
  · exact Future.Within.pure

theorem deliver_within (event : AgentEvent) (observers : List ObserverId) :
    (deliver event observers).Within KeepsHistory := by
  induction observers with
  | nil => exact Future.Within.pure
  | cons observer rest ih =>
    apply Future.Within.bind Future.Within.ask
    intro accepted
    apply Future.Within.bind Future.Within.ofExcept
    intro _
    exact ih

theorem emit_within (kind : AgentEventKind) : (emit kind).Within KeepsHistory := by
  apply Future.Within.bind (Future.Within.section_ fun _ => ⟨rfl, rfl⟩)
  intro event
  apply Future.Within.bind (Future.Within.modify fun _ => ⟨rfl, rfl⟩)
  intro _
  apply Future.Within.bind (Future.Within.read keepsHistory_refl)
  intro observers
  apply Future.Within.bind (deliver_within event observers)
  intro _
  exact Future.Within.modify fun _ => ⟨rfl, rfl⟩

theorem ofHook_within {α : Type} (result : Except HookError α) :
    (ofHook result).Within KeepsHistory := by
  cases result <;> trivial

theorem buildProviderContext_within (context : ContextEnvelope) :
    (buildProviderContext h context).Within KeepsHistory := by
  apply Future.Within.bind Future.Within.ask
  intro transformed
  apply Future.Within.bind (ofHook_within transformed)
  intro transformed
  apply Future.Within.bind Future.Within.ask
  intro converted
  apply Future.Within.bind (ofHook_within converted)
  intro converted
  exact Future.Within.pure

theorem compactionProviderContext_within (context : CompactionContext)
    (sourceMessages : List AgentMessage) :
    (compactionProviderContext h context sourceMessages).Within KeepsHistory := by
  apply Future.Within.bind (buildProviderContext_within _)
  intro source
  apply Future.Within.bind (buildProviderContext_within _)
  intro active
  exact Future.Within.pure

/-! ### Before the commit -/

/-- A part of the call that leaves the transcript alone, and what follows it. -/
theorem unchanged_bind {α : Type} {p : Drive α} {next : α → Drive (Bool × ContextEstimator)}
    (hp : p.Within KeepsHistory)
    (hnext : ∀ value,
      Triple (Host.of acts answers) (Unchanged t) (next value) (AutomaticPost t retained)) :
    Triple (Host.of acts answers) (Unchanged t) (p >>= next) (AutomaticPost t retained) := by
  have hkeeps : Triple (Host.of acts answers) (Unchanged t) p
      (Post (fun _ => Unchanged t)
        (fun _ m => Unchanged t m ∨ ∃ kind, isAutomaticCommit kind = true ∧ Rejected kind m.past)
        fun _ _ => True) := by
    refine (hp.keeps (unchanged_historic acts answers t)).post ?_
    rintro (value | error | query) m hm
    · exact hm
    · exact .inl hm
    · trivial
  exact Triple.bind hkeeps hnext

theorem unchanged_fail (error : CoreError) :
    Triple (Host.of acts answers) (Unchanged t) (.fail error) (AutomaticPost t retained) :=
  Triple.fail (unchanged_historic acts answers t).interfere fun _ hm => .inl hm

theorem unchanged_pure (estimator : ContextEstimator) :
    Triple (Host.of acts answers) (Unchanged t) (pure (false, estimator))
      (AutomaticPost t retained) :=
  Triple.done (unchanged_historic acts answers t).interfere fun _ hm => hm

theorem cancelCompaction_triple :
    Triple (Host.of acts answers) (Unchanged t) (cancelCompaction reason retry)
      (AutomaticPost t retained) := by
  apply unchanged_bind (lockPolicy_within _)
  intro _
  apply unchanged_bind (emit_within _)
  intro _
  exact unchanged_fail _

theorem rejectCompaction_triple (message : String) :
    Triple (Host.of acts answers) (Unchanged t) (rejectCompaction reason retry message)
      (AutomaticPost t retained) := by
  apply unchanged_bind (emit_within _)
  intro _
  exact unchanged_fail _

theorem failCompaction_triple (error : String) :
    Triple (Host.of acts answers) (Unchanged t) (failCompaction reason retry error)
      (AutomaticPost t retained) := by
  apply unchanged_bind (Future.Within.read keepsHistory_refl)
  intro cancelled
  cases cancelled with
  | true => exact cancelCompaction_triple
  | false => exact rejectCompaction_triple _

/-! ### The commit -/

theorem Historic.mild {T : Now → Prop} (hT : Historic acts answers T) :
    Invariant (Host.of acts answers) Mild T where
  interfere := hT.interfere
  own m update hm hmild := hT.own m update hm hmild.toKeepsHistory
  reply := hT.reply

/-- A critical section that leaves the transcript alone. -/
theorem section_triple {α : Type} {T : Now → Prop} (hT : Historic acts answers T)
    {f : World → α × World} (hf : ∀ w, KeepsHistory w (f w).2) :
    Triple (Host.of acts answers) T (Future.section_ f : Drive α)
      (Post (fun _ => T) (fun _ _ => False) fun _ _ => False) :=
  Triple.section_ hT.interfere (fun _ => hT.interfere) (fun m hm => hT.own m _ hm (hf m.state))
    fun _ _ hm => hm

/-- The end of a committed compaction fails only where an observer rejects it. -/
theorem finishCompaction_triple :
    Triple (Host.of acts answers) (Compacted retained) (finishCompaction h reason retry)
      (AutomaticPost t retained) := by
  have hT := compacted_historic acts answers retained
  have hread : ∀ {α : Type} (f : World → α), Triple (Host.of acts answers) (Compacted retained)
      (Future.read f : Drive α)
      (Post (fun _ => Compacted retained) (fun _ _ => False) fun _ _ => False) := fun f =>
    Triple.read hT.interfere (fun _ => hT.interfere)
      (fun m hm => hT.own m id hm (keepsHistory_refl _)) fun _ _ hm => hm
  -- the announcement, and the value returned after it
  have hemit : ∀ outcome estimator,
      isAutomaticCommit (.automaticCompactionEnd reason retry outcome) = true →
      Triple (Host.of acts answers) (Compacted retained)
        (emit (.automaticCompactionEnd reason retry outcome) >>= fun _ =>
          pure (true, estimator)) (AutomaticPost t retained) := by
    intro outcome estimator hcommit
    have hdelivered : Triple (Host.of acts answers) (Compacted retained)
        (emit (.automaticCompactionEnd reason retry outcome))
        (Post (fun _ => Compacted retained)
          (fun _ m => Unchanged t m ∨ ∃ kind, isAutomaticCommit kind = true ∧ Rejected kind m.past)
          fun _ _ => True) := by
      refine (emit_triple (Historic.mild hT) (fun kind => (hT.rejected kind).interfere) _).post ?_
      rintro (value | error | query) m hm
      · exact hm
      · exact .inr ⟨_, hcommit, hm.2⟩
      · trivial
    exact Triple.bind hdelivered fun _ => Triple.done hT.interfere fun _ hm => hm
  refine Triple.seq (hread _) fun estimatedTokensAfter => ?_
  by_cases hstill : h.agent.automaticCompaction.thresholdTokens ≤ estimatedTokensAfter
  · simp only [hstill, decide_true, whenever, if_true]
    refine Triple.seq (Triple.seq (hread _) fun messageCount => ?_) fun _ => hemit _ _ rfl
    exact section_triple hT fun _ => ⟨rfl, rfl⟩
  · simp only [hstill, decide_false, whenever, Bool.false_eq_true, if_false]
    exact hemit _ _ rfl

/-- What an attempt to commit leaves. -/
def CommitAttempted (t : Lifecycle.Transcript) (retained : List AgentMessage) (m : Now) :
    Except CoreError Unit → Prop
  | .error _ => Unchanged t m
  | .ok () => Compacted retained m

theorem commitAttempted_historic (t : Lifecycle.Transcript) (retained : List AgentMessage)
    (committed : Except CoreError Unit) :
    Historic acts answers fun m => CommitAttempted t retained m committed := by
  cases committed with
  | error => exact unchanged_historic acts answers t
  | ok => exact compacted_historic acts answers retained

theorem proposed_historic (t : Lifecycle.Transcript) (replacement : List AgentMessage) :
    Historic acts answers fun m => Unchanged t m ∧ Replacement m.past replacement :=
  (unchanged_historic acts answers t).past
    (F := fun past => Replacement past replacement) fun step _ hr => hr.later step

theorem commit_triple {replacement : List AgentMessage}
    (hvalid : validateMessages replacement = .ok ()) (hsuffix : retained <:+ replacement) :
    Triple (Host.of acts answers) (fun m => Unchanged t m ∧ Replacement m.past replacement)
      (commitReplacement replacement)
      (Post (fun committed m => CommitAttempted t retained m committed)
        (fun _ _ => False) fun _ _ => False) := by
  refine Triple.section_ (proposed_historic t replacement).interfere
    (fun committed => (commitAttempted_historic t retained committed).interfere)
    (fun m hm => ?_) fun _ _ hm => hm
  obtain ⟨hunchanged, hproposed⟩ := hm
  -- a refusal changes nothing
  have hrefused : ∀ update : World → World, update m.state = m.state →
      Unchanged t (m.own update) := by
    intro update heq
    rw [Unchanged, Moment.own_state, heq]
    exact hunchanged
  have hcommitted : ∀ update : World → World,
      update m.state = { m.state with agent := m.state.agent.replaceMessages replacement } →
      Compacted retained (m.own update) := by
    intro update heq
    have hmessages : (m.own update).state.agent.messages = replacement := by
      rw [Moment.own_state, heq]
      rfl
    refine ⟨?_, ?_, ?_⟩ <;> rw [hmessages]
    · exact hproposed.later _
    · exact hvalid
    · exact hsuffix
  by_cases hcancelled : m.state.cancelled = true
  · simp only [if_pos hcancelled]
    exact hrefused _ (if_pos hcancelled ▸ rfl)
  by_cases howned : m.state.agent.phase = .running m.state.run.id
  · simp only [if_neg hcancelled, ne_eq, howned, not_true_eq_false, if_false]
    exact hcommitted _ (by simp only [if_neg hcancelled, howned, not_true_eq_false, if_false])
  · simp only [if_neg hcancelled, ne_eq, howned, not_false_eq_true, if_true]
    exact hrefused _ (by simp only [if_neg hcancelled, howned, not_false_eq_true, if_true])

theorem commitAutomatic_triple {replacement : List AgentMessage} :
    Triple (Host.of acts answers) (fun m => Unchanged t m ∧ Replacement m.past replacement)
      (commitAutomatic h reason retry retained replacement) (AutomaticPost t retained) := by
  have hT : Historic acts answers fun m => Unchanged t m ∧ Replacement m.past replacement :=
    proposed_historic t replacement
  have hunchanged : ∀ m : Now, Unchanged t m ∧ Replacement m.past replacement → Unchanged t m :=
    fun _ hm => hm.1
  have hcancelled : Triple (Host.of acts answers)
      (fun m => Unchanged t m ∧ Replacement m.past replacement) isCancelled
      (Post (fun _ m => Unchanged t m ∧ Replacement m.past replacement) (fun _ _ => False)
        fun _ _ => False) :=
    Triple.read hT.interfere (fun _ => hT.interfere)
      (fun m hm => hT.own m id hm (keepsHistory_refl _)) fun _ _ hm => hm
  refine Triple.seq hcancelled fun cancelled => ?_
  cases cancelled with
  | true => exact cancelCompaction_triple.pre hunchanged
  | false =>
    rcases hvalid : validateMessages replacement with error | ⟨⟩
    · exact (rejectCompaction_triple _).pre hunchanged
    · by_cases hlost : retained ≠ [] ∧ ¬ retained.isSuffixOf replacement
      · simp only [Bool.false_eq_true, if_false, if_pos hlost]
        exact (rejectCompaction_triple _).pre hunchanged
      · have hsuffix : retained <:+ replacement := by
          by_cases hempty : retained = []
          · rw [hempty]
            exact List.nil_suffix
          · exact List.isSuffixOf_iff_suffix.mp (not_not.mp fun hnot => hlost ⟨hempty, hnot⟩)
        simp only [Bool.false_eq_true, if_false, if_neg hlost]
        refine Triple.seq (commit_triple hvalid hsuffix) fun committed => ?_
        cases committed with
        | error => exact cancelCompaction_triple
        | ok => exact finishCompaction_triple

/-! ### The call -/

/-- The messages that an automatic compaction of the transcript has to retain. -/
def retainedOf (h : RunHandle) (t : Lifecycle.Transcript) : List AgentMessage :=
  (automaticCompactionSplit t.messages h.agent.automaticCompaction.recentTokens).retainedMessages

theorem snapshot_triple :
    Triple (Host.of acts answers) (Unchanged t)
      (Future.read fun w => snapshotContext w.agent : Drive CompactionContext)
      (Post (fun context m => context.messages = t.messages ∧ Unchanged t m)
        (fun _ _ => False) fun _ _ => False) := by
  have hT := unchanged_historic acts answers t
  refine Triple.read hT.interfere (fun _ m w hm hi => ⟨hm.1, hT.interfere m w hm.2 hi⟩)
    (fun m hm => ⟨?_, hT.own m id hm (keepsHistory_refl _)⟩) fun _ _ hm => hm
  exact congrArg Transcript.messages hm

/-- The compactor fails, or it proposes a replacement. -/
theorem compactAutomatic_triple (context : CompactionContext)
    (request : AutomaticCompactionRequest) {err : CoreError → Now → Prop} :
    Triple (Host.of acts answers) (Unchanged t) (compactAutomatic context request)
      (Post (fun replaced m => Unchanged t m ∧
          ∀ result, replaced = .ok result → Replacement m.past result.messages)
        err fun _ _ => True) := by
  have hT := unchanged_historic acts answers t
  have hreplied : ∀ replaced : Except CompactionError CompactionResult,
      Historic acts answers fun m => Unchanged t m ∧
        ∀ result, replaced = .ok result → Replacement m.past result.messages := by
    intro replaced
    exact hT.past (F := fun past => ∀ result, replaced = .ok result →
      Replacement past result.messages) fun step _ hr result heq => (hr result heq).later step
  refine Triple.ask hT.interfere (fun replaced => (hreplied replaced).interfere)
    (fun _ _ => trivial) (fun m replaced hm ha => ⟨hm, ?_⟩) fun _ _ hm => hm
  rintro result rfl
  exact ⟨context, request, result, List.mem_cons_self, rfl⟩

theorem runCompaction_triple (estimatedTokensBefore : Nat) :
    Triple (Host.of acts answers) (Unchanged t) (runCompaction h reason retry estimatedTokensBefore)
      (AutomaticPost t (retainedOf h t)) := by
  refine Triple.seq snapshot_triple fun context => Triple.assume fun hcontext => ?_
  apply unchanged_bind (Future.Within.attempt (compactionProviderContext_within _ _))
  intro provided
  cases provided with
  | error error => exact failCompaction_triple _
  | ok providerContext =>
    refine Triple.bind (compactAutomatic_triple _ _) fun replaced => ?_
    cases replaced with
    | error error => exact (failCompaction_triple _).pre fun _ hm => hm.1
    | ok replacement =>
      have hcommit : Triple (Host.of acts answers)
          (fun m => Unchanged t m ∧ Replacement m.past replacement.messages)
          (commitAutomatic h reason retry (retainedOf h t) replacement.messages)
          (AutomaticPost t (retainedOf h t)) := commitAutomatic_triple
      rw [retainedOf, ← hcontext] at hcommit ⊢
      exact hcommit.pre fun m hm => ⟨hm.1, hm.2 replacement rfl⟩

theorem beginCompaction_triple (estimatedTokensBefore sourceMessageCount : Nat) :
    Triple (Host.of acts answers) (Unchanged t)
      (beginCompaction h reason retry estimatedTokensBefore sourceMessageCount)
      (AutomaticPost t (retainedOf h t)) := by
  apply unchanged_bind (lockPolicy_within _)
  intro reserved
  by_cases hlimit : reserved.2 = true
  · simp only [hlimit, if_true]
    apply unchanged_bind (emit_within _)
    intro _
    exact unchanged_fail _
  · simp only [hlimit, Bool.false_eq_true, if_false]
    apply unchanged_bind (emit_within _)
    intro _
    apply unchanged_bind (emit_within _)
    intro _
    by_cases hcompactor : h.agent.hasCompactor = true
    · simp only [hcompactor, if_true]
      exact runCompaction_triple _
    · simp only [hcompactor, Bool.false_eq_true, if_false]
      apply unchanged_bind (emit_within _)
      intro _
      exact unchanged_fail _

theorem maybeAutomaticCompaction_triple (estimator : ContextEstimator) :
    Triple (Host.of acts answers) (Unchanged t)
      (maybeAutomaticCompaction h estimator reason retry) (AutomaticPost t (retainedOf h t)) := by
  unfold maybeAutomaticCompaction
  by_cases henabled : h.agent.automaticCompaction.enabled = true
  · simp only [henabled, Bool.not_true, Bool.false_eq_true, if_false]
    apply unchanged_bind (Future.Within.read keepsHistory_refl)
    intro estimatedTokensBefore
    by_cases hbelow : reason = .threshold ∧
        estimatedTokensBefore < h.agent.automaticCompaction.thresholdTokens
    · simp only [if_pos hbelow]
      exact unchanged_pure _
    · simp only [if_neg hbelow]
      apply unchanged_bind (Future.Within.read keepsHistory_refl)
      intro sourceMessageCount
      apply unchanged_bind (Future.Within.read keepsHistory_refl)
      intro blocked
      by_cases hblocked : reason = .threshold ∧ blocked = some sourceMessageCount
      · simp only [if_pos hblocked]
        exact unchanged_pure _
      · simp only [if_neg hblocked]
        exact beginCompaction_triple _ _
  · simp only [henabled, Bool.not_false, if_true]
    exact unchanged_pure _

/-! ### Atomicity -/

/-- **Atomicity of the automatic compaction.**  A call that returns `true` has committed
    a valid proposal of the compactor that ends with the messages to be retained; one
    that returns `false` has changed nothing, and neither has one that fails, if no
    observer rejects the announcement of a commit. -/
theorem automatic_compaction_atomic {estimator : ContextEstimator}
    {o : Outcome Query CoreError (Bool × ContextEstimator)} {m : Now}
    (hrun : Run (Host.of acts answers) (maybeAutomaticCompaction h estimator reason retry)
      (Now.start w) o m)
    (haccepted : ∀ step ∈ m.past, automaticCommitAccepted step = true) :
    (∀ after, o = .done (true, after) →
        Replacement m.past m.state.agent.messages ∧
          validateMessages m.state.agent.messages = .ok () ∧
          retainedOf h (transcript w) <:+ m.state.agent.messages) ∧
      (∀ after, o = .done (false, after) → m.state.agent.messages = w.agent.messages) ∧
      ∀ error, o = .failed error →
        m.state.agent.messages = w.agent.messages ∧
          m.state.agent.nextMessageId = w.agent.nextMessageId := by
  have hstart : Unchanged (transcript w) (Now.start w) := rfl
  have hpost := maybeAutomaticCompaction_triple estimator _ _ _ hstart hrun
  refine ⟨?_, ?_, ?_⟩
  · rintro after rfl
    have hcompacted : Compacted (retainedOf h (transcript w)) m := hpost
    exact ⟨hcompacted.proposed, hcompacted.valid, hcompacted.suffix⟩
  · rintro after rfl
    have hunchanged : Unchanged (transcript w) m := hpost
    exact congrArg Transcript.messages hunchanged
  · rintro error rfl
    rcases hpost with hunchanged | ⟨kind, hcommit, observer, event, error, rfl, hmem⟩
    · exact ⟨congrArg Transcript.messages hunchanged, congrArg Transcript.next hunchanged⟩
    · have hstep := haccepted _ hmem
      simp only [automaticCommitAccepted, hcommit] at hstep
      cases hstep

/-- An agent whose automatic compactions retain the last message. -/
def retaining : Agent where
  capabilities := {
    hasCompactor := true
    automaticCompaction := { enabled := true, recentTokens := 1, maxCompactionsPerRun := 1 } }

/-- The call in a run whose prompt follows an earlier message. -/
def Script.automaticCompaction (S : Script) :
    Outcome Query CoreError (Bool × ContextEstimator) × Now :=
  S.play [] (maybeAutomaticCompaction (promptHandle retaining talked) {} .threshold false)
    (Now.start (prompted retaining talked))

theorem Script.automaticCompaction_run (S : Script) :
    Run (Host.of S.acts S.answers)
      (maybeAutomaticCompaction (promptHandle retaining talked) {} .threshold false)
      (Now.start (prompted retaining talked)) (Script.automaticCompaction S).1
      (Script.automaticCompaction S).2 :=
  S.run [] _ _

/-- A host whose compactor drops the earlier message. -/
def dropsOlder : Script where
  replacement := .ok { messages := [.user ⟨2⟩ "hi"] }

/-- The compaction of the earlier message, and one whose compactor fails. -/
theorem automatic_compaction_atomic_scripted :
    [.user ⟨2⟩ "hi"] <:+ (Script.automaticCompaction dropsOlder).2.state.agent.messages ∧
      (Script.automaticCompaction failsToCompact).2.state.agent.messages =
        [.user ⟨1⟩ "hi", .user ⟨2⟩ "hi"] := by
  obtain ⟨hdone, _⟩ := automatic_compaction_atomic (Script.automaticCompaction_run dropsOlder)
    (by decide +kernel)
  obtain ⟨_, _, hfailed⟩ := automatic_compaction_atomic
    (Script.automaticCompaction_run failsToCompact) (by decide +kernel)
  have hcommitted : (Script.automaticCompaction dropsOlder).1 = .done (true, {}) := by
    decide +kernel
  have hrejected : (Script.automaticCompaction failsToCompact).1 =
      .failed (.automaticCompaction .threshold "compactor failed: unavailable") := by
    decide +kernel
  exact ⟨(hdone _ hcommitted).2.2, (hfailed _ hrejected).1⟩

/-- Such a host whose observer rejects the announcement of the commit. -/
def rejectsAutomaticCommit : Script where
  observe kind := if isAutomaticCommit kind then .error .cancelled else .ok ()
  replacement := dropsOlder.replacement

/-- The call returns the error of the observer, and the history is replaced. -/
theorem automatic_compaction_failed_after_commit :
    ∃ m, Run (Host.of rejectsAutomaticCommit.acts rejectsAutomaticCommit.answers)
        (maybeAutomaticCompaction (promptHandle retaining talked) {} .threshold false)
        (Now.start (prompted retaining talked)) (.failed .cancelled) m ∧
      (prompted retaining talked).agent.messages = [.user ⟨1⟩ "hi", .user ⟨2⟩ "hi"] ∧
      m.state.agent.messages = [.user ⟨2⟩ "hi"] := by
  have hfailed : (Script.automaticCompaction rejectsAutomaticCommit).1 = .failed .cancelled := by
    decide +kernel
  have hrun := Script.automaticCompaction_run rejectsAutomaticCommit
  rw [hfailed] at hrun
  exact ⟨_, hrun, by decide +kernel, by decide +kernel⟩

end Tea.Contract
