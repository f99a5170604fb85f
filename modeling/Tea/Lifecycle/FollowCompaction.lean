/-
  Tea/Lifecycle/FollowCompaction.lean
  ===================================
  **Automatic compaction follows the lifecycle machine.**

  The transaction changes the mark and the proposal of the stage at most
  (`Compacted`); every failure leaves an open turn in which nothing is left to be
  done.
-/
import Tea.Lifecycle.FollowTools

namespace Tea.Lifecycle

open Tea.Async Tea.Core Tea.Run

variable {h : RunHandle} {s : Stage} {α β : Type}

/-! ### Compaction -/

/-- A compaction changes the mark, the proposal and the reservation of the stage only. -/
def Compacted (s x : Stage) : Prop :=
  ∃ proposal mark reserved, x = { s with proposal := proposal, mark := mark, reserved := reserved }

theorem Compacted.resting {x : Stage} (hx : Compacted s x) (hs : Resting s) : Resting x := by
  obtain ⟨proposal, mark, reserved, rfl⟩ := hx
  exact ⟨⟨hs.life, hs.speech, hs.fault⟩, hs.batch, hs.calls⟩

/-- A hook may reject the context; the stage stays. -/
theorem buildProviderContext_follows (hlife : s.life.running = true) (context : ContextEnvelope) :
    (buildProviderContext h context).Follows (machine h) (fun _ x => x = s)
      (fun _ x => x = s) s := by
  refine .bind (fun _ x => x = s) (ask_follows hlife (fun _ => trivial) fun _ => rfl) ?_
  rintro (error | transformed) s rfl
  · exact rfl
  refine .bind (fun _ x => x = s) (rfl : s = s) ?_
  rintro transformed s rfl
  refine .bind (fun _ x => x = s) (ask_follows hlife (fun _ => trivial) fun _ => rfl) ?_
  rintro (error | converted) s rfl <;> exact rfl

theorem cancelCompaction_follows (hs : Resting s) (reason : AutomaticCompactionReason)
    (retry : Bool) {ok : α → Stage → Prop} :
    (cancelCompaction reason retry : Drive α).Follows (machine h) ok (Failed h) s := by
  refine .bind _ (lockPolicy_steady (fun _ => ⟨rfl, rfl, rfl⟩) s hs.toInTurn) ?_
  rintro _ s rfl
  refine .bind (fun _ x => x = s) (emit_side hs.toInTurn rfl rfl) ?_
  rintro _ s rfl
  exact Future.Follows.fail hs.failed

theorem rejectCompaction_follows (hs : Resting s) (reason : AutomaticCompactionReason)
    (retry : Bool) (message : String) {ok : α → Stage → Prop} :
    (rejectCompaction reason retry message : Drive α).Follows (machine h) ok (Failed h) s := by
  refine .bind (fun _ x => x = s) (emit_side hs.toInTurn rfl rfl) ?_
  rintro _ s rfl
  exact Future.Follows.fail hs.failed

theorem failCompaction_follows (hs : Resting s) (reason : AutomaticCompactionReason)
    (retry : Bool) (error : String) {ok : α → Stage → Prop} :
    (failCompaction reason retry error : Drive α).Follows (machine h) ok (Failed h) s := by
  refine .bind (fun _ x => x = s) (isCancelled_follows hs.idle fun _ => rfl) ?_
  rintro (_ | _) s rfl
  · exact rejectCompaction_follows hs reason retry _
  · exact cancelCompaction_follows hs reason retry

theorem finishCompaction_follows (hs : Resting s) (reason : AutomaticCompactionReason)
    (retry : Bool) :
    (finishCompaction h reason retry).Follows (machine h) (fun _ x => x = s) (Failed h) s := by
  have hsteady : Steady h (finishCompaction h reason retry) := by
    refine Steady.read.bind fun after => ?_
    refine .bind (.whenever ?_) fun _ => ?_
    · exact Steady.read.bind fun _ => lockPolicy_steady fun _ => ⟨rfl, rfl, rfl⟩
    · exact .bind (.emit rfl) fun _ => .pure
  exact hsteady s hs.toInTurn

/-- Only the uncancelled owner of the agent commits. -/
theorem commitReplacement_follows (hs : Resting s) {replacement : List AgentMessage}
    (hproposal : s.proposal = some replacement) (hvalid : validateMessages replacement = .ok ()) :
    (commitReplacement replacement).Follows (machine h)
      (fun result x => (∃ error, result = .error error) ∧ x = s ∨
        result = .ok () ∧ x = { s with mark := none }) (Failed h) s := by
  refine Future.Follows.section_ fun w _ => ?_
  by_cases hcancelled : w.cancelled = true
  · simp only [if_pos hcancelled]
    exact ⟨s, .still hs.idle, .inl ⟨⟨_, rfl⟩, rfl⟩⟩
  simp only [if_neg hcancelled]
  by_cases howned : w.agent.phase = .running w.run.id
  · simp only [if_neg (not_not.mpr howned)]
    exact ⟨_, .commit hs.toInTurn hs.calls hproposal hvalid
      (Bool.eq_false_iff.mpr hcancelled) howned, .inr ⟨trivial, rfl⟩⟩
  · simp only [if_pos howned]
    exact ⟨s, .still hs.idle, .inl ⟨⟨_, rfl⟩, rfl⟩⟩

theorem commitAutomatic_follows (hs : Resting s) (reason : AutomaticCompactionReason)
    (retry : Bool) (retained : List AgentMessage) {replacement : List AgentMessage}
    (hproposal : s.proposal = some replacement) :
    (commitAutomatic h reason retry retained replacement).Follows (machine h)
      (fun _ x => Compacted s x) (Failed h) s := by
  refine .bind (fun _ x => x = s) (isCancelled_follows hs.idle fun _ => rfl) ?_
  rintro (_ | _) s rfl
  · rcases hvalid : validateMessages replacement with error | ⟨⟩
    · exact rejectCompaction_follows hs reason retry _
    simp only [Bool.false_eq_true, if_false]
    by_cases hsuffix : retained ≠ [] ∧ ¬ retained.isSuffixOf replacement = true
    · simp only [if_pos hsuffix]
      exact rejectCompaction_follows hs reason retry _
    simp only [if_neg hsuffix]
    refine .bind _ (commitReplacement_follows hs hproposal hvalid) ?_
    rintro _ x (⟨⟨error, rfl⟩, rfl⟩ | ⟨rfl, rfl⟩)
    · exact cancelCompaction_follows hs reason retry
    · have hrest : Resting { s with mark := none } :=
        ⟨⟨hs.life, hs.speech, hs.fault⟩, hs.batch, hs.calls⟩
      refine (finishCompaction_follows hrest reason retry).weaken ?_ fun _ _ => id
      rintro _ _ rfl
      exact ⟨s.proposal, none, s.reserved, rfl⟩
  · exact cancelCompaction_follows hs reason retry

theorem compactionProviderContext_follows (hlife : s.life.running = true)
    (context : CompactionContext) (source : List AgentMessage) :
    (compactionProviderContext h context source).Follows (machine h) (fun _ x => x = s)
      (fun _ x => x = s) s := by
  refine .bind _ (buildProviderContext_follows hlife _) ?_
  rintro source s rfl
  refine .bind _ (buildProviderContext_follows hlife _) ?_
  rintro active s rfl
  exact rfl

theorem runCompaction_follows (hs : Resting s) (hreserved : s.reserved = true)
    (reason : AutomaticCompactionReason) (retry : Bool) (before : Nat) :
    (runCompaction h reason retry before).Follows (machine h) (fun _ x => Compacted s x)
      (Failed h) s := by
  refine .bind (fun _ x => x = s) (read_follows hs.idle fun _ _ => rfl) ?_
  rintro context s rfl
  refine .bind _ (compactionProviderContext_follows hs.running _ _).attempt ?_
  rintro (error | provided) s rfl
  · exact failCompaction_follows hs reason retry _
  refine .bind (fun reply x => (∃ error, reply = .error error) ∧ x = { s with reserved := false } ∨
    ∃ result, reply = .ok result ∧
      x = { s with proposal := some result.messages, reserved := false }) ?_ ?_
  · refine ⟨hs.running, ?_⟩
    rintro (error | result)
    · exact ⟨_, .unproposed hreserved, .inl ⟨⟨error, rfl⟩, rfl⟩⟩
    · exact ⟨_, .proposed hreserved, .inr ⟨result, rfl, rfl⟩⟩
  · rintro _ x (⟨⟨error, rfl⟩, rfl⟩ | ⟨result, rfl, rfl⟩)
    · have hrest : Resting { s with reserved := false } :=
        ⟨⟨hs.life, hs.speech, hs.fault⟩, hs.batch, hs.calls⟩
      exact failCompaction_follows hrest reason retry _
    · have hrest : Resting { s with proposal := some result.messages, reserved := false } :=
        ⟨⟨hs.life, hs.speech, hs.fault⟩, hs.batch, hs.calls⟩
      refine (commitAutomatic_follows hrest reason retry _ rfl).weaken ?_ fun _ _ => id
      rintro _ _ ⟨proposal, mark, reserved, rfl⟩
      exact ⟨proposal, mark, reserved, rfl⟩

theorem maybeAutomaticCompaction_follows (hs : Resting s) (estimator : ContextEstimator)
    (reason : AutomaticCompactionReason) (retry : Bool) :
    (maybeAutomaticCompaction h estimator reason retry).Follows (machine h)
      (fun _ x => Compacted s x) (Failed h) s := by
  have hsame : Compacted s s := ⟨s.proposal, s.mark, s.reserved, rfl⟩
  unfold maybeAutomaticCompaction
  by_cases henabled : h.agent.automaticCompaction.enabled = true
  swap
  · simp only [henabled]
    exact Future.Follows.pure hsame
  simp only [henabled, Bool.not_true, Bool.false_eq_true, if_false]
  refine .bind (fun _ x => x = s) (read_follows hs.idle fun _ _ => rfl) ?_
  rintro before s rfl
  by_cases hbelow : reason = .threshold ∧ before < h.agent.automaticCompaction.thresholdTokens
  · simp only [hbelow]
    exact Future.Follows.pure hsame
  simp only [hbelow]
  refine .bind (fun _ x => x = s) (read_follows hs.idle fun _ _ => rfl) ?_
  rintro count s rfl
  refine .bind (fun _ x => x = s) (read_follows hs.idle fun _ _ => rfl) ?_
  rintro blocked s rfl
  by_cases hblocked : reason = .threshold ∧ blocked = some count
  · simp only [hblocked]
    exact Future.Follows.pure hsame
  simp only [hblocked]
  refine .bind (fun reserved x => x = { s with reserved := !reserved.2 })
    (fun w _ => ⟨_, .reserve hs.toInTurn, rfl⟩) ?_
  rintro ⟨number, _ | _⟩ _ rfl
  · have hrest : Resting { s with reserved := true } :=
      ⟨⟨hs.life, hs.speech, hs.fault⟩, hs.batch, hs.calls⟩
    refine .bind (fun _ x => x = { s with reserved := true }) (emit_side hrest.toInTurn rfl rfl) ?_
    rintro _ _ rfl
    refine .bind (fun _ x => x = { s with reserved := true }) (emit_side hrest.toInTurn rfl rfl) ?_
    rintro _ _ rfl
    by_cases hcompactor : h.agent.hasCompactor = true
    · simp only [hcompactor]
      refine (runCompaction_follows hrest rfl reason retry before).weaken ?_ fun _ _ => id
      rintro _ _ ⟨proposal, mark, reserved, rfl⟩
      exact ⟨proposal, mark, reserved, rfl⟩
    · simp only [hcompactor]
      refine .bind (fun _ x => x = { s with reserved := true })
        (emit_side hrest.toInTurn rfl rfl) ?_
      rintro _ _ rfl
      exact Future.Follows.fail hrest.failed
  · have hrest : Resting { s with reserved := false } :=
      ⟨⟨hs.life, hs.speech, hs.fault⟩, hs.batch, hs.calls⟩
    refine .bind (fun _ x => x = { s with reserved := false }) (emit_side hrest.toInTurn rfl rfl) ?_
    rintro _ _ rfl
    exact Future.Follows.fail hrest.failed

end Tea.Lifecycle
