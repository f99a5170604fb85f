/-
  Tea/Lifecycle/Runs.lean
  =======================
  **What holds in every run of `drive`.**

  `lifecycle_invariant` is the invariant that every further one builds on: the
  state is consistent with the stage, and the run state has not changed since it
  became terminal.  `drive_reaches` carries an invariant of the machine from the
  claim of a run to any point of the run, in particular to its end (`Ended`).
-/
import Tea.Lifecycle.Consistency

namespace Tea.Lifecycle

open Tea.Async Tea.Core Tea.Run

variable {h : RunHandle} {s s' : Stage} {w w' : World}
  {acts : Now → ClientOp → Prop} {answers : Now → (query : Query) → Reply query → Prop}

/-! ### A terminal run -/

/-- A step that begins with a terminal run leaves the run state alone. -/
def SealedStep : Step World Query Reply → Prop
  | .interference before after => before.run.phase.isTerminal = true → after.run = before.run
  | .own before after => before.run.phase.isTerminal = true → after.run = before.run
  | .reply .. => True

/-- The run state has not changed since it became terminal. -/
def Sealed (past : List (Step World Query Reply)) : Prop := ∀ step ∈ past, SealedStep step

theorem Consistent.not_terminal (hw : Consistent s w) (hlife : s.life.running = true) :
    w.run.phase.isTerminal = false := by
  rw [(hw.owned hlife).1]
  rfl

theorem ClientOp.sealed (op : ClientOp) (hw : Consistent s w)
    (hterminal : w.run.phase.isTerminal = true) : (op.apply w).run = w.run := by
  have hnot : w.run.phase ≠ .created := fun hcreated => by rw [hcreated] at hterminal; cases hterminal
  exact (ClientOp.begun op hw.held hnot).1

/-- While the loop runs or is settled the run is not terminal; then only the agent
    is settled. -/
theorem Own.sealed (hown : Own h s w w' s') (hw : Consistent s w)
    (hterminal : w.run.phase.isTerminal = true) : w'.run = w.run := by
  have hidle : ¬ s.life.running = true := fun hlife => by
    rw [hw.not_terminal hlife] at hterminal
    cases hterminal
  have hcore : ∀ {c : Core}, core w' = c → c.run = w.run → w'.run = w.run := fun hcore hrun =>
    (congrArg Core.run hcore).trans hrun
  cases hown with
  | still => rfl
  | quiet life => exact absurd (Life.works_iff.mp life).1 hidle
  | begin _ phase => rw [phase] at hterminal; cases hterminal
  | reject => rfl
  | record records => exact absurd records.frame.1 hidle
  | advance life => exact absurd (by rcases life with life | life <;> rw [life] <;> rfl) hidle
  | append _ _ core_eq => exact hcore core_eq rfl
  | openText _ _ _ _ _ core_eq => exact hcore core_eq rfl
  | extendText _ _ core_eq => exact hcore core_eq rfl
  | closeText _ _ _ _ _ core_eq => exact hcore core_eq rfl
  | truncate _ _ _ _ core_eq => exact hcore core_eq rfl
  | skip _ quiet => exact hcore quiet.core_eq rfl
  | finish life => exact absurd (by rcases life with life | life <;> rw [life] <;> rfl) hidle
  | settle => exact settleAgent_run _ _
  | _ => rfl

/-! ### The invariant of every run -/

theorem lifecycle_invariant :
    (machine h).Invariant (Host.of acts answers)
      fun s m => Consistent s m.state ∧ Sealed m.past where
  consistent _ _ hI := hI.1
  interfere s m w hI hi := by
    obtain ⟨op, _, rfl⟩ := hi
    refine ⟨ClientOp.consistent op hI.1, ?_⟩
    rintro step (_ | ⟨_, hstep⟩)
    · exact ClientOp.sealed op hI.1
    · exact hI.2 step hstep
  own s m update s' hI hown := by
    refine ⟨Own.consistent hown hI.1, ?_⟩
    rintro step (_ | ⟨_, hstep⟩)
    · exact Own.sealed hown hI.1
    · exact hI.2 step hstep
  reply s m query answer s' hI _ hr := by
    refine ⟨Replies.consistent hr hI.1, ?_⟩
    rintro step (_ | ⟨_, hstep⟩)
    · trivial
    · exact hI.2 step hstep

/-- The stage in which `drive` ended. -/
def Ended : Outcome Query CoreError Unit → Stage → Prop
  | .done _, s => s.life = .settled .succeeded
  | .failed _, s => s.life = .rejected ∨ FailedEnd s
  | .pending _, s => s.life.running = true

/-- A run of `drive` ends in a stage with all that the machine keeps invariant. -/
theorem drive_reaches {I : Stage → Now → Prop}
    (hinv : (machine h).Invariant (Host.of acts answers) I) {fuel : Nat} {runId : RunId}
    {m m' : Now} {o : Outcome Query CoreError Unit} (hI : I (Stage.claimed runId) m)
    (hrun : Run (Host.of acts answers) (drive h fuel) m o m') : ∃ s, Ended o s ∧ I s m' := by
  have hreached := (drive_follows h fuel runId).run hinv hI hrun
  cases o with
  | done value => exact hreached
  | failed error => exact hreached
  | pending query => exact hreached

/-! ### The claim of a run -/

/-- The state in which `start_run` leaves an agent that was idle. -/
structure Claimed (a : Agent) (contents : List String) (skip : Bool) (w₀ : World)
    (h : RunHandle) (w : World) : Prop where
  idle : w₀.agent.phase = .idle
  handle : h = {
    initialMessages := (pushContents contents w₀.agent).1
    messageStartIndex := w₀.agent.messages.length, skipInitialSteering := skip
    configuration := a.configuration, agent := a.capabilities }
  world : w = claim ⟨satSucc w₀.nextRunId⟩ .created (pushContents contents w₀.agent).2
    { w₀ with nextRunId := w₀.nextRunId + 1 }

theorem AgentPhase.active_none {phase : AgentPhase} (hnone : phase.active = none) :
    phase = .idle := by
  cases phase with
  | idle => rfl
  | running runId => cases hnone
  | cancelling runId => cases hnone

theorem startRun_claimed {a : Agent} {contents : List String} {skip : Bool} {w₀ w : World}
    {h : RunHandle} (hstart : startRun a contents skip w₀ = (.ok h, w)) :
    Claimed a contents skip w₀ h w := by
  unfold startRun at hstart
  rcases hactive : w₀.agent.phase.active with _ | active
  · simp only [nextRun, hactive, Prod.mk.injEq, Except.ok.injEq] at hstart
    exact ⟨AgentPhase.active_none hactive, hstart.1.symm, hstart.2.symm⟩
  · simp only [nextRun, hactive, Prod.mk.injEq] at hstart
    cases hstart.1

theorem Claimed.consistent {a : Agent} {contents : List String} {skip : Bool} {w₀ w : World}
    {h : RunHandle} (hc : Claimed a contents skip w₀ h w) (hheld : w₀.held = true) :
    Consistent (Stage.claimed w.run.id) w := by
  obtain rfl := hc.world
  exact ⟨hheld, rfl, .inl ⟨rfl, .inl rfl, rfl⟩⟩

end Tea.Lifecycle
