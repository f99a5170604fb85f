/-
  Tea/Contract/ContextEstimate.lean
  =================================
  **Context estimates over whole runs.**  Every estimate that a run records is the input
  that the last valid response has reported, since the last compaction, with the byte
  estimate of what was appended after its request (`estimates_right`).  What the host has
  left out of that request is not counted again (`estimates_of_request`).

  The estimator is `Linked` to the meter before each turn.  While a response is read the
  transcript of its request is a proper prefix of the present one (`Answering`), and an
  overflow restores it (`Restorable`).
-/
import Tea.Contract.ContextMeter
import Tea.Lifecycle.Script

namespace Tea.Contract

open Tea.Async Tea.Core Tea.Run Tea.Lifecycle

variable {acts : Now → ClientOp → Prop} {answers : Now → (query : Query) → Reply query → Prop}
  {h : RunHandle} {enabled : Bool} {X : Gauge} {estimator : ContextEstimator} {n : Nat}

theorem metered_stable (hX : X.Lasts) :
    Stable (Host.of acts answers) (Metered enabled X) := (metered_still hX).interfere

theorem metered_within {α : Type} {p : Drive α} (hp : p.Within Still) (hX : X.Lasts) :
    Triple (Host.of acts answers) (Metered enabled X) p
      (Ends EstimatesSoFar fun _ => Metered enabled X) :=
  ends_within hp (metered_still hX) fun _ hm => hm.estimates

/-- What extends the transcript keeps the estimator linked. -/
theorem linked_within {α : Type} {p : Drive α} (hp : p.Within Extending) :
    Triple (Host.of acts answers) (Metered enabled (Linked estimator)) p
      (Ends EstimatesSoFar fun _ => Metered enabled (Linked estimator)) :=
  ends_within hp (metered_invariant (linked_lasts estimator) (linked_extend estimator))
    fun _ hm => hm.estimates

/-- A part in which no estimate is recorded. -/
theorem estimates_within {α : Type} {p : Drive α} (hp : p.Within Unestimating) :
    Triple (Host.of acts answers) EstimatesSoFar p (Ends EstimatesSoFar fun _ => EstimatesSoFar) :=
  ends_within hp estimatesSoFar_invariant fun _ hm => hm

/-! ### Compactions -/

/-- A compaction leaves an estimator that is linked. -/
def Compacts (enabled : Bool) (result : Bool × ContextEstimator) : Now → Prop :=
  Metered enabled (Linked result.2)

/-- The end of a committed compaction makes what was confirmed void. -/
theorem commitNoted_ends (reason : AutomaticCompactionReason) (retry : Bool)
    {outcome : AutomaticCompactionOutcome} (houtcome : replacesHistory outcome = true) :
    Triple (Host.of acts answers) EstimatesSoFar
      (emit (.automaticCompactionEnd reason retry outcome))
      (Ends EstimatesSoFar fun _ => Metered enabled (Linked {})) := by
  refine ends_emit still_admits estimatesSoFar_invariant.interfere
    (metered_still (linked_lasts {})) (fun _ hm => hm.estimates) ?_
  intro m hm
  refine ⟨hm.own (unestimating_noted rfl _), fun _ => ?_⟩
  change Linked {} (meterOf (.own m.state (noted _ m.state) :: m.past)) _
  rw [meterOf_noted, Meter.read, if_pos houtcome]
  rfl

theorem finishCompaction_ends (reason : AutomaticCompactionReason) (retry : Bool) :
    Triple (Host.of acts answers) EstimatesSoFar (finishCompaction h reason retry)
      (Ends EstimatesSoFar (Compacts enabled)) := by
  apply ends_bind (estimates_within (unestimating_admits.read_within _))
  intro estimatedTokensAfter
  apply ends_bind
  · apply estimates_within
    apply Admits.whenever_within
    apply Future.Within.bind (unestimating_admits.read_within _)
    intro messageCount
    exact unestimating_admits.lockPolicy_within fun _ => rfl
  intro _
  apply ends_bind (commitNoted_ends _ _ (by split_ifs <;> rfl))
  intro _
  exact ends_pure (metered_stable (linked_lasts {})) fun _ hm => hm

theorem commitAutomatic_ends (reason : AutomaticCompactionReason) (retry : Bool)
    (retained replacement : List AgentMessage) :
    Triple (Host.of acts answers) EstimatesSoFar
      (commitAutomatic h reason retry retained replacement)
      (Ends EstimatesSoFar (Compacts enabled)) := by
  apply ends_bind (estimates_within unestimating_admits.isCancelled_within)
  rintro (_ | _)
  · rcases hvalid : validateMessages replacement with error | ⟨⟩
    · exact rejectCompaction_ends unestimating_admits unestimating_ends
        estimatesSoFar_invariant _ _ _
    · by_cases hlost : retained ≠ [] ∧ ¬ retained.isSuffixOf replacement
      · simp only [Bool.false_eq_true, if_false, if_pos hlost]
        exact rejectCompaction_ends unestimating_admits unestimating_ends
          estimatesSoFar_invariant _ _ _
      simp only [Bool.false_eq_true, if_false, if_neg hlost]
      apply ends_bind (estimates_within
        (unestimating_admits.commitReplacement_within unestimating_rewrites replacement))
      rintro (error | _)
      · exact cancelCompaction_ends unestimating_admits unestimating_ends
          estimatesSoFar_invariant _ _
      · exact finishCompaction_ends _ _
  · exact cancelCompaction_ends unestimating_admits unestimating_ends estimatesSoFar_invariant _ _

theorem runCompaction_ends (reason : AutomaticCompactionReason) (retry : Bool)
    (estimatedTokensBefore : Nat) :
    Triple (Host.of acts answers) EstimatesSoFar
      (runCompaction h reason retry estimatedTokensBefore)
      (Ends EstimatesSoFar (Compacts enabled)) := by
  apply ends_bind (estimates_within (unestimating_admits.read_within _))
  intro context
  apply ends_bind (estimates_within (Future.Within.attempt
    (Admits.compactionProviderContext_within _ _)))
  rintro (error | providerContext)
  · exact failCompaction_ends unestimating_admits unestimating_ends estimatesSoFar_invariant _ _ _
  · apply ends_bind (estimates_within Future.Within.ask)
    rintro (error | replacement)
    · exact failCompaction_ends unestimating_admits unestimating_ends
        estimatesSoFar_invariant _ _ _
    · exact commitAutomatic_ends _ _ _ _

theorem beginCompaction_ends (reason : AutomaticCompactionReason) (retry : Bool)
    (estimatedTokensBefore sourceMessageCount : Nat) :
    Triple (Host.of acts answers) EstimatesSoFar
      (beginCompaction h reason retry estimatedTokensBefore sourceMessageCount)
      (Ends EstimatesSoFar (Compacts enabled)) := by
  apply ends_bind (estimates_within
    (unestimating_admits.lockPolicy_within (Admits.reserveCompaction_streak _)))
  intro reserved
  by_cases hlimit : reserved.2 = true
  · simp only [hlimit, if_true]
    exact ends_then_fail (unestimating_admits.emit_within (unestimating_ends _ _ _))
      estimatesSoFar_invariant _
  simp only [hlimit]
  apply ends_bind (estimates_within (unestimating_admits.routine_within rfl))
  intro _
  apply ends_bind (estimates_within (unestimating_admits.routine_within rfl))
  intro _
  by_cases hcompactor : h.agent.hasCompactor = true
  · simp only [hcompactor, if_true]
    exact runCompaction_ends _ _ _
  · simp only [hcompactor]
    exact ends_then_fail (unestimating_admits.emit_within (unestimating_ends _ _ _))
      estimatesSoFar_invariant _

/-- **A compaction** resets the estimator, or leaves it as it is. -/
theorem maybeAutomaticCompaction_ends (reason : AutomaticCompactionReason) (retry : Bool) :
    Triple (Host.of acts answers) (Metered enabled (Linked estimator))
      (maybeAutomaticCompaction h estimator reason retry)
      (Ends EstimatesSoFar (Compacts enabled)) := by
  have hkeep : Triple (Host.of acts answers) (Metered enabled (Linked estimator))
      (pure (false, estimator)) (Ends EstimatesSoFar (Compacts enabled)) :=
    ends_pure (metered_stable (linked_lasts estimator)) fun _ hm => hm
  unfold maybeAutomaticCompaction
  dsimp only
  split_ifs
  · exact hkeep
  apply ends_bind (metered_within (still_admits.read_within _) (linked_lasts estimator))
  intro estimatedTokensBefore
  split_ifs
  · exact hkeep
  apply ends_bind (metered_within (still_admits.read_within _) (linked_lasts estimator))
  intro sourceMessageCount
  apply ends_bind (metered_within (still_admits.read_within _) (linked_lasts estimator))
  intro blocked
  split_ifs
  · exact hkeep
  · exact (beginCompaction_ends _ _ _ _).pre fun _ hm => hm.estimates

/-! ### The request -/

/-- The transcript has the length that was read. -/
def Measured (estimator : ContextEstimator) (n : Nat) : Gauge := fun a messages =>
  Linked estimator a messages ∧ messages.length = n

/-- The transcript is that of the request. -/
def Requesting (estimator : ContextEstimator) (n : Nat) : Gauge := fun a messages =>
  Linked estimator a messages ∧ messages.length = n ∧ a.request.transcript = messages

/-- The transcript of the request is followed by the message that is being written. -/
def Answering (estimator : ContextEstimator) (n : Nat) (written : Bool) : Gauge :=
  fun a messages => Linked estimator a a.request.transcript ∧ a.request.transcript.length = n ∧
    ∃ more, messages = a.request.transcript ++ more ∧ (written = true → more ≠ [])

/-- The estimator is linked to the first `n` messages. -/
def Restorable (estimator : ContextEstimator) (n : Nat) : Gauge := fun a messages =>
  Linked estimator a (messages.take n)

theorem measured_lasts : (Measured estimator n).Lasts := fun _ _ _ hx => hx

theorem requesting_lasts : (Requesting estimator n).Lasts := fun _ _ _ hx => hx

theorem answering_lasts {written : Bool} : (Answering estimator n written).Lasts :=
  fun _ _ _ hx => hx

theorem restorable_lasts : (Restorable estimator n).Lasts := fun _ _ _ hx => hx

theorem restorable_linked (a : Meter) (messages : List AgentMessage)
    (hx : Restorable estimator n a messages) : Linked estimator a messages :=
  linked_extend estimator a _ _ (List.take_prefix n messages) hx

/-- **An estimate is recorded**, and it is right. -/
theorem emitContextEstimate_ends (request : ModelRequest) :
    Triple (Host.of acts answers) (Metered enabled (Measured estimator n))
      (whenever enabled (emitContextEstimate request estimator))
      (Ends EstimatesSoFar fun _ => Metered enabled (Requesting estimator n)) := by
  refine ends_whenever (metered_stable measured_lasts) ?_ ?_
  · rintro rfl
    have hstable : ∀ estimated, Stable (Host.of acts answers) fun m =>
        estimated = estimator.estimate m.state.agent.messages ∧
          Metered true (Measured estimator n) m := by
      intro estimated m w hm hi
      refine ⟨?_, metered_stable measured_lasts m w hm.2 hi⟩
      obtain ⟨op, _, rfl⟩ := hi
      rw [Moment.interfere_state, (ClientOp.client op m.state).messages]
      exact hm.1
    have hread : Triple (Host.of acts answers) (Metered true (Measured estimator n))
        (Future.read fun w => estimator.estimate w.agent.messages)
        (Ends EstimatesSoFar fun estimated m =>
          estimated = estimator.estimate m.state.agent.messages ∧
            Metered true (Measured estimator n) m) :=
      ends_read (metered_stable measured_lasts) hstable fun m hm => ⟨rfl, hm.idle⟩
    refine ends_bind hread fun estimated => ?_
    have hmessages : Triple (Host.of acts answers)
        (fun m => estimated = estimator.estimate m.state.agent.messages ∧
          Metered true (Measured estimator n) m)
        (Future.read (·.agent.messages))
        (Ends EstimatesSoFar fun _ m =>
          estimated = estimator.estimate m.state.agent.messages ∧
            Metered true (Measured estimator n) m) :=
      ends_read (hstable estimated) (fun _ => hstable estimated) fun m hm => ⟨hm.1, hm.2.idle⟩
    refine ends_bind hmessages fun messages => ?_
    refine ends_emit still_admits (hstable estimated) (metered_still requesting_lasts)
      (fun _ hm => hm.estimates) ?_
    rintro m ⟨rfl, hm⟩
    obtain ⟨hlinked, hlength⟩ := hm.gauge rfl
    refine ⟨⟨?_, hm.estimates⟩, fun _ => ?_⟩
    · intro before after estimated inputBytes count bytes resultBytes hstep hnote
      obtain ⟨rfl, rfl⟩ := Step.own.inj hstep
      rw [noteOf_append (noted_kinds _ _)] at hnote
      obtain ⟨rfl, -⟩ := AgentEventKind.contextEstimate.inj (Option.some.inj hnote)
      exact estimate_expected hlinked
    · change Requesting estimator n (meterOf (.own m.state (noted _ m.state) :: m.past)) _
      rw [meterOf_noted]
      exact ⟨hlinked, hlength, rfl⟩
  · rintro m hm rfl
    exact ⟨hm.estimates, fun henabled => nomatch henabled⟩

/-! ### The response -/

/-- The message that is being written is appended or rewritten. -/
def WritesLast (written : Bool) (messages messages' : List AgentMessage) : Prop :=
  ∃ message, messages' = messages ++ [message] ∨
    (written = true ∧ messages' = setLast messages message)

theorem answering_write {written : Bool} (a : Meter) (messages messages' : List AgentMessage)
    (hwrite : WritesLast written messages messages')
    (hx : Answering estimator n written a messages) : Answering estimator n true a messages' := by
  obtain ⟨hlinked, hlength, more, rfl, hmore⟩ := hx
  obtain ⟨message, rfl | ⟨hwritten, rfl⟩⟩ := hwrite
  · exact ⟨hlinked, hlength, more ++ [message], List.append_assoc _ _ _,
      fun _ => List.concat_ne_nil message more⟩
  · refine ⟨hlinked, hlength, more.dropLast ++ [message], ?_,
      fun _ => List.concat_ne_nil message more.dropLast⟩
    rw [setLast, List.dropLast_append_of_ne_nil (hmore hwritten), List.append_assoc]

theorem textDelta_ends (r : Response) (delta : String) :
    Triple (Host.of acts answers) (Metered enabled (Answering estimator n r.assistantId.isSome))
      (textDelta r delta) (Ends EstimatesSoFar fun r' =>
        Metered enabled (Answering estimator n r'.assistantId.isSome)) := by
  have hwrite : Triple (Host.of acts answers)
      (Metered enabled (Answering estimator n r.assistantId.isSome))
      (lockAgent (streamText r (r.assistantText ++ delta)))
      (Ends EstimatesSoFar fun _ => Metered enabled (Answering estimator n true)) := by
    refine ends_section (metered_stable answering_lasts)
      (fun _ => metered_stable answering_lasts) fun m hm => ?_
    refine hm.own (T := WritesLast r.assistantId.isSome) ⟨.inl rfl, ?_⟩ answering_write
    unfold streamText
    cases r.assistantId with
    | none => exact ⟨_, .inl rfl⟩
    | some id => exact ⟨_, .inr ⟨rfl, rfl⟩⟩
  apply ends_bind hwrite
  intro id
  apply ends_bind (metered_within
    (Admits.whenever_within (still_admits.routine_within rfl)) answering_lasts)
  intro _
  apply ends_bind (metered_within (still_admits.routine_within rfl) answering_lasts)
  intro _
  exact ends_pure (metered_stable answering_lasts) fun _ hm => hm

theorem receive_assistantId (r : Response) (event : ModelStreamEvent) :
    (r.receive event).assistantId = r.assistantId := by
  cases event <;> rfl

theorem readResponse_ends (fuel : Nat) (r : Response) :
    Triple (Host.of acts answers) (Metered enabled (Answering estimator n r.assistantId.isSome))
      (readResponse fuel r) (Ends EstimatesSoFar fun r' =>
        Metered enabled (Answering estimator n r'.assistantId.isSome)) := by
  induction fuel generalizing r with
  | zero =>
    refine Triple.call (metered_stable answering_lasts) (fun _ hm => hm.estimates) ?_
    intro m answer
    cases answer
  | succ fuel ih =>
    apply ends_bind (metered_within Future.Within.ask answering_lasts)
    rintro (error | _ | event)
    · exact ends_fail (metered_stable answering_lasts) fun _ hm => hm.estimates
    · exact ends_pure (metered_stable answering_lasts) fun _ hm => hm
    dsimp only
    split_ifs
    · exact ends_fail (metered_stable answering_lasts) fun _ hm => hm.estimates
    have hreceive := ih (r.receive event)
    rw [receive_assistantId] at hreceive
    cases event with
    | textDelta delta =>
      apply ends_bind (textDelta_ends r delta)
      intro r
      exact ih r
    | _ => exact hreceive

/-- The usage is recorded with the response that reported it. -/
theorem recordUsage_ends (turnId : TurnId) (model : Option ModelDescriptor) (r : Response)
    (reason : StopReason) :
    Triple (Host.of acts answers)
      (Metered enabled fun a messages =>
        Answering estimator n true a messages ∧ a.reason = some reason)
      (recordUsage turnId model r.usage)
      (Ends EstimatesSoFar fun _ => Metered enabled
        (Restorable (estimator.observeValidInput (validInputTokens r reason) n) n)) := by
  have hlasts : Gauge.Lasts fun a messages =>
      Answering estimator n true a messages ∧ a.reason = some reason := fun _ _ _ hx => hx
  have hrestorable : ∀ a messages, Answering estimator n true a messages →
      Restorable estimator n a messages := by
    rintro a messages ⟨hlinked, hlength, more, rfl, -⟩
    rw [Restorable, ← hlength, List.take_left]
    exact hlinked
  cases husage : r.usage with
  | none =>
    have hinput : validInputTokens r reason = none := by
      unfold validInputTokens
      rw [husage]
      split_ifs <;> rfl
    rw [hinput]
    exact ends_pure (metered_stable hlasts) fun _ hm =>
      hm.weaken fun a messages hx => hrestorable a messages hx.1
  | some usage =>
    apply ends_bind (metered_within (still_admits.read_within _) hlasts)
    intro runId
    apply ends_bind
    · apply metered_within (still_admits.modifyAgent_within _) hlasts
      exact fun _ => rfl
    intro _
    refine ends_emit still_admits (metered_stable hlasts) (metered_still restorable_lasts)
      (fun _ hm => hm.estimates) fun m hm => hm.note rfl ?_
    rintro a messages ⟨hanswering, hreason⟩
    have hinput : validInputTokens r reason = reportedInput a.reason usage := by
      simp only [validInputTokens, reportedInput, husage, hreason, Option.bind_some,
        Option.some.injEq]
    rw [hinput, Meter.read]
    dsimp only
    cases hreported : reportedInput a.reason usage with
    | none => exact hrestorable a messages hanswering
    | some tokens =>
      have hpositive : tokens ≠ 0 := by
        unfold reportedInput at hreported
        split_ifs at hreported
        exact of_decide_eq_true (Option.filter_eq_some_iff.mp hreported).2
      obtain ⟨-, hlength, more, rfl, -⟩ := hanswering
      rw [Restorable, ContextEstimator.observeValidInput]
      dsimp only
      rw [if_pos hpositive]
      refine ⟨_, rfl, rfl, hlength, ?_⟩
      have hkept : (a.request.transcript ++ more).take n = a.request.transcript := by
        rw [← hlength, List.take_left]
      exact hkept.symm ▸ List.prefix_refl _

/-- **A response** leaves an estimator that is linked to the restored transcript. -/
theorem consumeAssistantStream_meters (fuel : Nat) (turnId : TurnId)
    (model : Option ModelDescriptor) :
    Triple (Host.of acts answers) (Metered enabled (Requesting estimator n))
      (consumeAssistantStream fuel turnId model)
      (Ends EstimatesSoFar fun response => Metered enabled
        (Restorable (estimator.observeValidInput response.validInputTokens n) n)) := by
  have hread : Triple (Host.of acts answers) (Metered enabled (Requesting estimator n))
      (readResponse fuel {}) (Ends EstimatesSoFar fun r =>
        Metered enabled (Answering estimator n r.assistantId.isSome)) := by
    refine (readResponse_ends fuel {}).pre fun m hm => hm.weaken ?_
    rintro a messages ⟨hlinked, hlength, rfl⟩
    exact ⟨hlinked, hlength, [], (List.append_nil _).symm, fun hwritten => nomatch hwritten⟩
  apply ends_bind hread
  intro r
  cases hreason : r.reason with
  | none => exact ends_fail (metered_stable answering_lasts) fun _ hm => hm.estimates
  | some reason =>
    have hclose : Triple (Host.of acts answers)
        (Metered enabled (Answering estimator n r.assistantId.isSome))
        (lockAgent (closeResponse r reason)) (Ends EstimatesSoFar fun assistant m =>
          (∃ id, assistant = .assistant id r.assistantText r.toolCalls (some reason)
            r.errorMessage) ∧ Metered enabled (Answering estimator n true) m) := by
      refine ends_section (metered_stable answering_lasts)
        (fun assistant m w hm hi => ⟨hm.1, metered_stable answering_lasts m w hm.2 hi⟩) ?_
      intro m hm
      refine ⟨?_, hm.own (T := WritesLast r.assistantId.isSome) ⟨.inl rfl, ?_⟩ answering_write⟩
      · unfold closeResponse
        cases r.assistantId with
        | none => exact ⟨_, rfl⟩
        | some id => exact ⟨id, rfl⟩
      · unfold closeResponse
        cases r.assistantId with
        | none => exact ⟨_, .inl rfl⟩
        | some id => exact ⟨_, .inr ⟨rfl, rfl⟩⟩
    refine ends_bind hclose fun assistant => Triple.assume ?_
    rintro ⟨id, rfl⟩
    apply ends_bind (metered_within
      (Admits.whenever_within (still_admits.routine_within rfl)) answering_lasts)
    intro _
    have hend : Triple (Host.of acts answers) (Metered enabled (Answering estimator n true))
        (emit (.messageEnd (.assistant id r.assistantText r.toolCalls (some reason)
          r.errorMessage)))
        (Ends EstimatesSoFar fun _ => Metered enabled fun a messages =>
          Answering estimator n true a messages ∧ a.reason = some reason) := by
      refine ends_emit still_admits (metered_stable answering_lasts)
        (metered_still fun _ _ _ hx => hx) (fun _ hm => hm.estimates) fun m hm => hm.note rfl ?_
      exact fun a messages hx => ⟨hx, rfl⟩
    apply ends_bind hend
    intro _
    apply ends_bind (recordUsage_ends turnId model r reason)
    intro _
    exact ends_pure (metered_stable restorable_lasts) fun _ hm => hm

/-! ### An overflow -/

theorem recoverOverflow_ends (contextOverflow : Bool) :
    Triple (Host.of acts answers) (Metered enabled (Restorable estimator n))
      (recoverOverflow h estimator n contextOverflow)
      (Ends EstimatesSoFar fun retried =>
        Metered enabled (Linked (retried.getD estimator))) := by
  have hkeep : Triple (Host.of acts answers) (Metered enabled (Restorable estimator n))
      (pure none) (Ends EstimatesSoFar fun retried : Option ContextEstimator =>
        Metered enabled (Linked (retried.getD estimator))) :=
    ends_pure (metered_stable restorable_lasts) fun _ hm => hm.weaken restorable_linked
  unfold recoverOverflow
  dsimp only
  split_ifs
  · apply ends_bind (metered_within (still_admits.lockPolicy_within
      (Admits.allowOverflowRetry_streak _)) restorable_lasts)
    rintro (_ | _)
    · have hunread : Unread (.automaticCompactionEnd .overflow true .limitReached) :=
        ⟨rfl, fun _ _ => rfl⟩
      have hlimit : (emit (.automaticCompactionEnd .overflow true .limitReached)).Within Still :=
        still_admits.emit_within (confines_noted (fun _ => rfl) hunread)
      exact ends_bind (metered_within hlimit restorable_lasts) fun _ => hkeep
    · have hrestore : Triple (Host.of acts answers) (Metered enabled (Restorable estimator n))
          (modifyAgent (restoreTranscript n))
          (Ends EstimatesSoFar fun _ => Metered enabled (Linked estimator)) := by
        refine ends_modify (metered_stable restorable_lasts)
          (metered_stable (linked_lasts estimator)) fun m hm => ?_
        have htaken : Confines Unread (fun messages messages' => messages' = messages.take n)
            m.state { m.state with agent := (restoreTranscript n m.state.agent) } :=
          ⟨.inl rfl, rfl⟩
        exact hm.own htaken fun _ _ _ heq hx => heq ▸ hx
      apply ends_bind hrestore
      intro _
      apply ends_bind (maybeAutomaticCompaction_ends .overflow true)
      intro compacted
      exact ends_pure (metered_stable (linked_lasts compacted.2)) fun _ hm => hm
  · exact hkeep

theorem thresholdCompaction_ends (st : LoopState) :
    Triple (Host.of acts answers) (Metered enabled (Linked st.estimator))
      (thresholdCompaction h st)
      (Ends EstimatesSoFar fun st' => Metered enabled (Linked st'.estimator)) := by
  unfold thresholdCompaction
  split_ifs
  · apply ends_bind (maybeAutomaticCompaction_ends .threshold false)
    intro compacted
    exact ends_pure (metered_stable (linked_lasts compacted.2)) fun _ hm => hm
  · exact ends_pure (metered_stable (linked_lasts st.estimator)) fun _ hm => hm

/-! ### Batches -/

theorem extending_noted {kind : AgentEventKind} (hkind : Unread kind) (w : World) :
    Extending w (noted kind w) := confines_noted List.prefix_refl hkind w

theorem appendResult_within (call : ToolCall) (result : AgentToolResult) :
    (appendToolResultMessage call result).Within Extending := by
  apply Admits.pushMessage_bind extending_appends
  intro id
  exact extending_admits.announce_within (extending_noted ⟨rfl, fun _ _ => rfl⟩)

theorem lockPolicy_extends {α : Type} (f : RunPolicyState → α × RunPolicyState) :
    (lockPolicy f).Within Extending :=
  Future.Within.section_ fun _ => ⟨.inl rfl, List.prefix_refl _⟩

theorem observeToolFailure_within (call : ToolCall) (result : AgentToolResult) :
    (observeToolFailure h call result).Within Extending := by
  apply Future.Within.bind extending_admits.isCancelled_within
  intro cancelled
  split_ifs
  · exact Future.Within.pure
  · exact Future.Within.bind (lockPolicy_extends _) fun _ => Future.Within.pure
  · apply Future.Within.bind (lockPolicy_extends _)
    intro observed
    apply Future.Within.bind
    · apply Admits.whenever_within
      exact extending_admits.emit_within (extending_noted ⟨rfl, fun _ _ => rfl⟩)
    · exact fun _ => Future.Within.pure

theorem appendSkipped_extends (message : String) (calls : List AgentToolCall) :
    (appendSkippedSequentialCalls message calls).Within Extending := by
  induction calls with
  | nil => exact Future.Within.pure
  | cons call rest ih =>
    apply Future.Within.bind (appendResult_within call _)
    intro _
    exact ih

theorem executeSequential_within (fuel : Nat) (calls : List AgentToolCall) (allTerminate : Bool) :
    (executeToolCallsSequential h fuel calls allTerminate).Within Extending := by
  induction calls generalizing allTerminate with
  | nil => exact Future.Within.pure
  | cons call rest ih =>
    apply Future.Within.bind (extending_admits.emitToolExecutionStart_within call)
    intro _
    apply Future.Within.bind (extending_admits.executeOneToolCall_within fuel call)
    intro executed
    apply Future.Within.bind (extending_admits.emitToolExecutionEnd_within call _)
    intro _
    apply Future.Within.bind (appendResult_within call _)
    intro _
    apply Future.Within.bind (observeToolFailure_within call _)
    rintro (_ | message)
    · exact ih _
    · exact Future.Within.bind (appendSkipped_extends message rest) fun _ => Future.Within.pure

theorem recordBatch_within (prepared : List PreparedToolExecution) (completions : Completions)
    (allTerminate : Bool) (terminalFailure : Option String) :
    (recordBatch h prepared completions allTerminate terminalFailure).Within Extending := by
  induction prepared generalizing completions allTerminate terminalFailure with
  | nil => exact Future.Within.pure
  | cons execution rest ih =>
    unfold recordBatch
    rcases completions[execution.sourceIndex]? with _ | _ | ⟨result, terminate⟩
    · exact Admits.panicked_within
    · exact Admits.panicked_within
    · apply Future.Within.bind (appendResult_within execution.call _)
      intro _
      apply Future.Within.bind (observeToolFailure_within execution.call _)
      intro observed
      exact ih _ _ _

theorem failTruncated_within (calls : List AgentToolCall) :
    (failTruncatedToolCalls calls).Within Extending := by
  induction calls with
  | nil => exact Future.Within.pure
  | cons call rest ih =>
    apply Future.Within.bind (extending_admits.emitToolExecutionStart_within call)
    intro _
    apply Future.Within.bind (extending_admits.emitToolExecutionEnd_within call _)
    intro _
    apply Future.Within.bind (appendResult_within call _)
    intro _
    exact ih

/-- A batch extends the transcript. -/
theorem executeBatch_within (fuel : Nat) (reason : StopReason) (calls : List AgentToolCall) :
    (executeBatch h fuel reason calls).Within Extending := by
  unfold executeBatch executeToolCalls
  split_ifs
  · exact Future.Within.pure
  · exact Future.Within.bind (failTruncated_within calls) fun _ => Future.Within.pure
  · trivial
  · exact executeSequential_within fuel calls true
  · apply Future.Within.bind extending_admits.resetUpdates_within
    intro _
    apply Future.Within.bind (extending_admits.prepareBatch_within calls 0 _)
    intro prepared
    apply Future.Within.bind (extending_admits.startBatch_within prepared.1)
    intro pending
    apply Future.Within.bind (extending_admits.runBatch_within fuel fuel pending [] _)
    intro completions
    exact recordBatch_within prepared.1 completions true none

/-! ### Turns -/

/-- Before each turn the estimator is linked. -/
def LinkedLoop (enabled : Bool) (st : LoopState) : Now → Prop :=
  Metered enabled (Linked st.estimator)

/-- How a turn ends. -/
abbrev Turned (enabled : Bool) (next : Option LoopState) (m : Now) : Prop :=
  EstimatesSoFar m ∧ Again (LinkedLoop enabled) next m

theorem turned_pure {st : LoopState} (hsame : st.estimator = estimator) :
    Triple (Host.of acts answers) (Metered enabled (Linked estimator)) (pure (some st))
      (Ends EstimatesSoFar (Turned enabled)) := by
  subst hsame
  exact ends_pure (metered_stable (linked_lasts _)) fun m hm => ⟨hm.estimates, again_of_some hm⟩

theorem turned_last {p : Drive Unit} (hp : p.Within Extending) :
    Triple (Host.of acts answers) (Metered enabled (Linked estimator))
      (p >>= fun _ => pure none) (Ends EstimatesSoFar (Turned enabled)) := by
  apply ends_bind (linked_within hp)
  intro _
  exact ends_pure (metered_stable (linked_lasts _)) fun m hm => ⟨hm.estimates, again_none⟩

theorem extending_users : HasUsers Extending := fun _ _ =>
  extending_noted ⟨rfl, fun _ _ => rfl⟩

theorem nextTurn_ends {st : LoopState} (hsame : st.estimator = estimator) (reason : StopReason)
    (hasMoreToolCalls : Bool) (preparedContext : ContextEnvelope) :
    Triple (Host.of acts answers) (Metered enabled (Linked estimator))
      (nextTurn h st reason hasMoreToolCalls preparedContext)
      (Ends EstimatesSoFar (Turned enabled)) := by
  apply ends_bind (linked_within (extending_admits.pollQueues_within hasMoreToolCalls))
  intro queued
  split_ifs
  · apply ends_bind (linked_within (extending_admits.advanceTurn_within _))
    intro _
    apply ends_bind (linked_within (extending_admits.routine_within rfl))
    intro _
    apply ends_bind (linked_within
      (extending_admits.injectQueuedMessages_within extending_appends extending_users _ _))
    intro context
    exact turned_pure hsame
  · exact turned_last (extending_admits.emitAgentEndAndSucceed_within reason)

theorem finishTurn_ends {st : LoopState} (hsame : st.estimator = estimator) (reason : StopReason)
    (hasMoreToolCalls : Bool) :
    Triple (Host.of acts answers) (Metered enabled (Linked estimator))
      (finishTurn h st reason hasMoreToolCalls) (Ends EstimatesSoFar (Turned enabled)) := by
  apply ends_bind (linked_within extending_admits.currentContext_within)
  intro current
  apply ends_bind (linked_within Future.Within.ask)
  intro update
  apply ends_bind (linked_within (Admits.ofHook_within update))
  intro update
  apply ends_bind (linked_within Future.Within.ask)
  intro stop
  apply ends_bind (linked_within (Admits.ofHook_within stop))
  intro stop
  split_ifs
  · exact turned_last (extending_admits.emitAgentEndAndSucceed_within reason)
  · refine nextTurn_ends ?_ reason hasMoreToolCalls _
    exact hsame

theorem completeTurn_meters {st : LoopState} (hsame : st.estimator = estimator) (fuel : Nat)
    (reason : StopReason) (calls : List AgentToolCall) :
    Triple (Host.of acts answers) (Metered enabled (Linked estimator))
      (completeTurn h fuel st reason calls)
      (Ends EstimatesSoFar (Turned enabled)) := by
  apply ends_bind (linked_within (executeBatch_within fuel reason calls))
  intro outcome
  cases outcome.terminalFailure with
  | some message =>
    exact (tripCircuitBreaker_ends unestimating_admits estimatesSoFar_invariant _ _).pre
      fun _ hm => hm.estimates
  | none =>
    apply ends_bind (linked_within (extending_admits.routine_within rfl))
    intro _
    exact finishTurn_ends hsame reason _

theorem afterResponse_meters {st : LoopState} (hsame : st.estimator = estimator) (fuel : Nat)
    (response : ConsumedResponse) :
    Triple (Host.of acts answers) (Metered enabled (Linked estimator))
      (afterResponse h fuel st response)
      (Ends EstimatesSoFar (Turned enabled)) := by
  unfold afterResponse
  split_ifs
  · exact (failModelResponse_ends unestimating_admits estimatesSoFar_invariant _ _ _).pre
      fun _ hm => hm.estimates
  · apply ends_bind (linked_within extending_admits.isCancelled_within)
    rintro (_ | _)
    · exact completeTurn_meters hsame fuel _ _
    · exact (cancelModelResponse_ends unestimating_admits estimatesSoFar_invariant _).pre
        fun _ hm => hm.estimates
  · exact completeTurn_meters hsame fuel _ _

/-- **One turn** leaves the estimator linked. -/
theorem turn_meters (fuel : Nat) (runId : RunId) (st : LoopState) :
    Triple (Host.of acts answers) (LinkedLoop h.agent.automaticCompaction.enabled st)
      (turn h fuel runId st)
      (Ends EstimatesSoFar (Turned h.agent.automaticCompaction.enabled)) := by
  apply ends_bind (thresholdCompaction_ends st)
  intro st
  have hread : Triple (Host.of acts answers)
      (Metered h.agent.automaticCompaction.enabled (Linked st.estimator))
      (Future.read (·.agent.messages.length)) (Ends EstimatesSoFar fun n =>
        Metered h.agent.automaticCompaction.enabled (Measured st.estimator n)) := by
    refine ends_read (metered_stable (linked_lasts _)) (fun _ => metered_stable measured_lasts) ?_
    exact fun m hm => ⟨hm.idle.estimates, fun henabled => ⟨hm.idle.gauge henabled, rfl⟩⟩
  apply ends_bind hread
  intro requestMessageCount
  apply ends_bind (metered_within (still_admits.modelRequest_within runId st _) measured_lasts)
  intro request
  apply ends_bind (emitContextEstimate_ends request)
  intro _
  apply ends_bind (metered_within (Admits.openStream_within request) requesting_lasts)
  intro _
  apply ends_bind (consumeAssistantStream_meters fuel st.turnId request.model)
  intro response
  apply ends_bind (metered_within (still_admits.noteContinuation_within _) restorable_lasts)
  intro _
  apply ends_bind (recoverOverflow_ends response.contextOverflow)
  rintro (_ | estimator)
  · dsimp only [Option.getD_none]
    refine afterResponse_meters ?_ fuel response
    rfl
  · exact turned_pure rfl

/-! ### Runs -/

/-- **Context estimates are right.**  In every run of a claimed agent every recorded
    estimate is the nonzero input that the last response without error has reported
    since the last compaction, with the byte estimate of exactly the messages that were
    appended after its request, or the byte estimate of the whole transcript. -/
theorem estimates_right {a : Agent} {contents : List String} {skip : Bool} {w₀ w : World}
    {fuel : Nat} {m : Now} {o : Outcome Query CoreError Unit}
    (hstart : startRun a contents skip w₀ = (.ok h, w))
    (hrun : Run (Host.of acts answers) (drive h fuel) (Now.start w) o m) :
    Estimates Expected m.past := by
  have hclaimed := startRun_claimed hstart
  have hinitial : ∀ message ∈ h.initialMessages, ∀ w,
      Extending w (noted (.messageEnd message) w) := by
    intro message hmem
    obtain ⟨id, content, rfl⟩ := hclaimed.initial_user message hmem
    exact extending_users id content
  have hdrive := drive_ends (E := Host.of acts answers) (h := h) extending_admits
    (metered_invariant (linked_lasts {}) (linked_extend {})) unestimating_admits
    estimatesSoFar_invariant extending_appends extending_users unestimating_appends
    unestimating_messages hinitial (fun st => metered_stable (linked_lasts st.estimator))
    (fun _ _ hm => hm) (fun _ _ hm => hm.estimates) (turn_meters fuel)
  have hend := hdrive (Now.start w) o m ⟨trivial, fun _ => rfl⟩ hrun
  cases o with
  | done value => exact hend
  | failed error => exact hend
  | pending query => exact hend

/-- A host whose tool finds nothing, and which makes each further request of nothing. -/
def forgetful : Script where
  prepare := .ok { context := some { messages := [], hostMessages := [] } }
  execute call := some (.ok { toolCallId := call.id, content := "none" })

/-- An agent that estimates its context and never reaches the threshold. -/
def estimating : Agent where
  configuration := (lookupHandle .sequential).configuration
  capabilities := {
    hasCompactor := true
    automaticCompaction := { enabled := true, contextBudget := 1000 } }

/-- A response that reports its input and calls the tool. -/
def reportingItems (inputTokens : Nat) (call : ToolCall) : List Item :=
  [.ok (some (.usage { inputTokens := some inputTokens })), .ok (some (.toolCall call)),
    .ok (some (.end_ .toolUse)), .ok none]

/-- The second estimate starts from what the first response has reported. -/
theorem estimates_after_report :
    ∃ o m, Run (Host.of forgetful.acts forgetful.answers)
      (drive (promptHandle estimating {}) 6) (Now.start (prompted estimating {})) o m ∧
      Estimates Expected m.past := by
  obtain ⟨o, m, hrun⟩ : ∃ o m, Run (Host.of forgetful.acts forgetful.answers)
      (drive (promptHandle estimating {}) 6) (Now.start (prompted estimating {})) o m :=
    ⟨_, _, forgetful.prompt_run estimating {} (reportingItems 10 firstCall) 6⟩
  exact ⟨o, m, hrun, estimates_right (prompted_eq estimating rfl) hrun⟩

instance (confirmed : Option Confirmed) (messages : List AgentMessage) (estimated : Option Nat) :
    Decidable (ExpectedOfRequest confirmed messages estimated) :=
  match confirmed with
  | some _ => inferInstanceAs (Decidable (_ = _))
  | none => inferInstanceAs (Decidable (_ = _))

/-- If the last step records an estimate, it is as expected of the request. -/
def lastOfRequest : List (Step World Query Reply) → Bool
  | .own before after :: past =>
      match noteOf before after with
      | some (.contextEstimate estimated ..) =>
          decide (ExpectedOfRequest (meterOf past).confirmed before.agent.messages estimated)
      | _ => true
  | _ => true

theorem Estimates.always {past : List (Step World Query Reply)}
    (h : Estimates ExpectedOfRequest past) : always lastOfRequest past = true := by
  induction past with
  | nil => rfl
  | cons step past ih =>
    refine Bool.and_eq_true_iff.mpr ⟨?_, ih h.2⟩
    unfold lastOfRequest
    split
    · next before after past heq =>
      obtain ⟨rfl, rfl⟩ := List.cons.inj heq
      split
      · next hnote => exact decide_eq_true (h.1 _ _ _ _ _ _ _ rfl hnote)
      · rfl
    · rfl

/-- The second request is made of nothing, and the third estimate does not count what the
    first turn has left in the transcript. -/
theorem estimates_of_request :
    ∃ o m, Run (Host.of forgetful.acts forgetful.answers)
      (drive (promptHandle estimating {}) 6) (Now.start (prompted estimating {})) o m ∧
      ¬ Estimates ExpectedOfRequest m.past := by
  obtain ⟨o, m, hrun, hcomputed⟩ : ∃ o m, Run (Host.of forgetful.acts forgetful.answers)
      (drive (promptHandle estimating {}) 6) (Now.start (prompted estimating {})) o m ∧
      always lastOfRequest m.past = false :=
    ⟨_, _, forgetful.prompt_run estimating {}
      (reportingItems 10 firstCall ++ reportingItems 5 secondCall) 6, by decide +kernel⟩
  refine ⟨o, m, hrun, fun hestimates => ?_⟩
  exact Bool.false_ne_true (hcomputed.symm.trans hestimates.always)

end Tea.Contract
