/-
  Tea/Contract/Abandonment.lean
  =============================
  **A dropped handle releases its agent exactly if its run is not being driven.**

  `Drop` leaves the settlement to `drive` where the run has begun.  If the future of
  `drive` was dropped before, nobody settles; a compaction is in this state from its
  start.
-/
import Tea.Contract.CompactionAtomicity

namespace Tea.Contract

open Tea.Async Tea.Core Tea.Run Tea.Lifecycle

variable {h : RunHandle} {s : Stage} {w w' w₀ : World} {a : Agent}
  {acts : Now → ClientOp → Prop} {answers : Now → (query : Query) → Reply query → Prop}

/-! ### Released agents -/

/-- What other clients do afterwards. -/
def later (ops : List ClientOp) (w : World) : World := ops.foldl (fun w op => op.apply w) w

/-- The agent is settled and can be claimed again. -/
structure Released (a : Agent) (w : World) : Prop where
  settled : Settled w
  claimable : ∀ contents skip, ∃ h, (startRun a contents skip w).1 = .ok h

theorem Settled.claimable (hw : Settled w) (contents : List String) (skip : Bool) :
    ∃ h, (startRun a contents skip w).1 = .ok h := by
  have hactive : w.agent.phase.active = none := by rw [hw.phase]; rfl
  exact ⟨_, by simp only [startRun, nextRun, hactive]; rfl⟩

theorem Over.later (hw : Over w) (ops : List ClientOp) : Over (later ops w) := by
  induction ops generalizing w with
  | nil => exact hw
  | cons op rest ih => exact ih (hw.client op)

theorem Over.released (hw : Over w) : Released a w :=
  ⟨hw.settled, Settled.claimable hw.settled⟩

/-! ### Handles that may be dropped -/

/-- Where the run of a handle stands when no step of it is being made. -/
inductive Standing (w : World) : Prop where
  | created (held : w.held = true) (phase : w.run.phase = .created) (owned : Owned w)
  | ongoing (ongoing : Ongoing w)
  | finished (finished : Over w)

theorem Consistent.standing (hw : Consistent s w) (hlife : ∀ phase, s.life ≠ .finished phase) :
    Standing w := by
  by_cases hrunning : s.life.running = true
  · obtain ⟨hphase, _, hown⟩ := hw.owned hrunning
    exact .ongoing ⟨hw.held, hphase, hown⟩
  have hphased := hw.phased
  unfold Phased at hphased
  rcases hl : s.life <;> simp only [hl] at hphased hrunning
  case created =>
    rcases hphased with ⟨hphase, hown⟩ | ⟨hphase, hset⟩
    · exact .created hw.held hphase hown
    · exact .finished ⟨⟨hw.held, by rw [hphase]; rfl⟩, hset⟩
  case rejected => exact .finished ⟨⟨hw.held, by rw [hphased.1]; rfl⟩, hphased.2⟩
  case finished phase => exact absurd hl (hlife phase)
  case settled => exact .finished ⟨⟨hw.held, by rw [hphased.1]; exact hphased.2.1⟩, hphased.2.2⟩
  all_goals exact absurd rfl hrunning

/-- The states in which a handle may be dropped: it was never driven, or its future
    has ended or waits for a reply. -/
inductive Droppable (a : Agent) (w₀ : World) : World → Prop where
  | undrivenRun {contents skip h w acts answers o m}
      (start : startRun a contents skip w₀ = (.ok h, w))
      (wait : Run (Host.of acts answers) (pure () : Drive Unit) (Now.start w) o m) :
      Droppable a w₀ m.state
  | drivenRun {contents skip h w acts answers fuel o m}
      (start : startRun a contents skip w₀ = (.ok h, w))
      (run : Run (Host.of acts answers) (drive h fuel) (Now.start w) o m) :
      Droppable a w₀ m.state
  | undrivenCompaction {w acts answers o m} (start : startCompaction a w₀ = (.ok (), w))
      (wait : Run (Host.of acts answers) (pure () : Drive Unit) (Now.start w) o m) :
      Droppable a w₀ m.state
  | drivenCompaction {w acts answers o m} (start : startCompaction a w₀ = (.ok (), w))
      (run : Run (Host.of acts answers) driveCompaction (Now.start w) o m) :
      Droppable a w₀ m.state

theorem undrivenRun_standing {contents : List String} {skip : Bool}
    {o : Outcome Query CoreError Unit} {m : Now}
    (hstart : startRun a contents skip w₀ = (.ok h, w)) (hheld : w₀.held = true)
    (hwait : Run (Host.of acts answers) (pure () : Drive Unit) (Now.start w) o m) :
    Standing m.state := by
  have hpure : (pure () : Drive Unit).Follows (machine h)
      (fun _ x => x = Stage.claimed w.run.id) (fun _ _ => False) (Stage.claimed w.run.id) := rfl
  have hreached := hpure.run lifecycle_invariant
    ⟨(startRun_claimed hstart).consistent hheld, fun _ hmem => by cases hmem⟩ hwait
  cases o with
  | done value =>
    obtain ⟨_, rfl, hw, _⟩ := hreached
    exact Consistent.standing hw nofun
  | failed error => exact hreached.elim fun _ hs => hs.1.elim
  | pending query =>
    obtain ⟨s, hlife, hw, _⟩ := hreached
    have hrunning : s.life.running = true := hlife
    exact Consistent.standing hw fun phase heq => by rw [heq] at hrunning; cases hrunning

theorem drivenRun_standing {contents : List String} {skip : Bool} {fuel : Nat}
    {o : Outcome Query CoreError Unit} {m : Now}
    (hstart : startRun a contents skip w₀ = (.ok h, w)) (hheld : w₀.held = true)
    (hrun : Run (Host.of acts answers) (drive h fuel) (Now.start w) o m) : Standing m.state := by
  obtain ⟨s, hended, hw, _⟩ := drive_reaches lifecycle_invariant
    ⟨(startRun_claimed hstart).consistent hheld, fun _ hmem => by cases hmem⟩ hrun
  refine Consistent.standing hw fun phase heq => ?_
  cases o with
  | done value => rw [show s.life = .settled .succeeded from hended] at heq; cases heq
  | failed error =>
    rcases hended with hlife | ⟨_, hlife, _⟩ <;> rw [hlife] at heq <;> cases heq
  | pending query =>
    have hrunning : s.life.running = true := hended
    rw [heq] at hrunning
    cases hrunning

theorem undrivenCompaction_standing {o : Outcome Query CoreError Unit} {m : Now}
    (hstart : startCompaction a w₀ = (.ok (), w)) (hheld : w₀.held = true)
    (hwait : Run (Host.of acts answers) (pure () : Drive Unit) (Now.start w) o m) :
    Standing m.state := by
  obtain ⟨hongoing, htranscript, hqueues⟩ := startCompaction_claimed hstart hheld
  have hT := (untouched_historic acts answers w₀).ongoing
  have hpure : Triple (Host.of acts answers) (fun m => Ongoing m.state ∧ Untouched w₀ m)
      (pure () : Drive Unit) fun _ m => Ongoing m.state :=
    Triple.done hT.interfere fun m hm => hm.1
  exact .ongoing (hpure _ _ _ ⟨hongoing, htranscript, fun _ => hqueues⟩ hwait)

theorem drivenCompaction_standing {o : Outcome Query CoreError Unit} {m : Now}
    (hstart : startCompaction a w₀ = (.ok (), w)) (hheld : w₀.held = true)
    (hrun : Run (Host.of acts answers) driveCompaction (Now.start w) o m) : Standing m.state := by
  obtain ⟨hongoing, htranscript, hqueues⟩ := startCompaction_claimed hstart hheld
  have hpost := driveCompaction_triple _ _ _ ⟨hongoing, htranscript, fun _ => hqueues⟩ hrun
  cases o with
  | done value => exact .finished hpost.1
  | failed error => exact .finished hpost.1
  | pending query => exact .ongoing hpost

theorem Droppable.standing (hd : Droppable a w₀ w) (hheld : w₀.held = true) : Standing w := by
  cases hd with
  | undrivenRun start wait => exact undrivenRun_standing start hheld wait
  | drivenRun start run => exact drivenRun_standing start hheld run
  | undrivenCompaction start wait => exact undrivenCompaction_standing start hheld wait
  | drivenCompaction start run => exact drivenCompaction_standing start hheld run

/-! ### The drop -/

theorem dropHandle_created (hheld : w.held = true) (hphase : w.run.phase = .created)
    (hown : Owned w) : Over (dropHandle w) := by
  have hnot : ¬ w.run.phase.isTerminal = true := by rw [hphase]; nofun
  obtain ⟨hrun, hset⟩ := (abortRun_aborted hheld).created hphase hown
  rw [dropHandle, if_neg hnot]
  exact ⟨⟨abortRun_client.held.trans hheld, by rw [hrun]; rfl⟩, hset⟩

/-- A run that has begun keeps its agent. -/
theorem dropHandle_ongoing (hw : Ongoing w) : (dropHandle w).agent.phase ≠ .idle := by
  have hnot : ¬ w.run.phase.isTerminal = true := by rw [hw.phase]; nofun
  have hbegun : w.run.phase ≠ .created := by rw [hw.phase]; nofun
  have hown := ((abortRun_aborted hw.held).running hbegun).2.1 hw.owned
  rw [dropHandle, if_neg hnot]
  rcases hown.phase with hphase | hphase <;> rw [hphase] <;> nofun

/-- **Abandoned handles.**  Dropping a handle releases the agent for good if and only
    if the run is not in its running phase: it was never driven, or it is over. -/
theorem handle_abandoned (hdrop : Droppable a w₀ w) (hheld : w₀.held = true) :
    (∀ ops, Released a (later ops (dropHandle w))) ↔ w.run.phase ≠ .running := by
  cases hdrop.standing hheld with
  | created held phase owned =>
    have hover := dropHandle_created held phase owned
    exact ⟨fun _ => by rw [phase]; nofun, fun _ ops => (hover.later ops).released⟩
  | ongoing ongoing =>
    refine ⟨fun hreleased => ?_, fun hnot => absurd ongoing.phase hnot⟩
    exact absurd (hreleased []).settled.phase (dropHandle_ongoing ongoing)
  | finished hover =>
    have hdropped : dropHandle w = w := if_pos hover.terminal
    rw [hdropped]
    refine ⟨fun _ hrunning => ?_, fun _ ops => (hover.later ops).released⟩
    have hterminal := hover.terminal
    rw [hrunning] at hterminal
    cases hterminal

/-- Nobody does anything. -/
theorem idle_run (m : Now) :
    Run (Host.of accepting.acts accepting.answers) (pure () : Drive Unit) m (.done ()) m := .done

/-- A handle that was never driven, and one that was driven to its end. -/
theorem handle_abandoned_scripted :
    (∀ ops, Released {} (later ops (dropHandle (prompted {} observed)))) ∧
      ∀ ops, Released {} (later ops
        (dropHandle (accepting.prompt {} observed textReply 9).2.state)) := by
  have hundriven : Droppable {} observed (prompted {} observed) :=
    .undrivenRun (prompted_eq {} rfl) (idle_run (Now.start (prompted {} observed)))
  have hdriven : Droppable {} observed (accepting.prompt {} observed textReply 9).2.state :=
    .drivenRun (prompted_eq {} rfl) (accepting.prompt_run {} observed textReply 9)
  exact ⟨(handle_abandoned hundriven rfl).mpr (by decide +kernel),
    (handle_abandoned hdriven rfl).mpr (by decide +kernel)⟩

/-- A run whose future is dropped while the model is silent keeps the agent, and so
    does a compaction that is not driven at all. -/
theorem handle_kept :
    (∃ w, Droppable {} observed w ∧ (dropHandle w).activeRun ≠ none ∧
        ∀ contents skip, (startRun {} contents skip (dropHandle w)).1 =
          .error (.activeRun ⟨1⟩)) ∧
      ∃ w, Droppable compactor talked w ∧ (dropHandle w).activeRun ≠ none ∧
        ∀ contents skip, (startRun compactor contents skip (dropHandle w)).1 =
          .error (.activeRun ⟨1⟩) := by
  have hrejected : ∀ {a : Agent} {w : World}, w.agent.phase = .cancelling ⟨1⟩ →
      ∀ contents skip, (startRun a contents skip w).1 = .error (.activeRun ⟨1⟩) := by
    intro a w hphase contents skip
    have hactive : w.agent.phase.active = some ⟨1⟩ := by rw [hphase]; rfl
    rw [(start_of_active hactive).1]
  refine ⟨⟨_, .drivenRun (prompted_eq {} rfl) (accepting.prompt_run {} observed [] 9), ?_⟩,
    ⟨_, .undrivenCompaction (w := compacting) rfl (idle_run (Now.start compacting)), ?_⟩⟩
  · exact ⟨by decide +kernel, hrejected (by decide +kernel)⟩
  · exact ⟨by decide +kernel, hrejected (by decide +kernel)⟩

end Tea.Contract
