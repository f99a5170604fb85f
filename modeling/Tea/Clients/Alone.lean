/-
  Tea/Clients/Alone.lean
  ======================
  **Calls that are not interrupted** are the operations of the lifecycle model, where
  each of them is one step: the starts of `Tea/Run/Agent.lean` and the aborts of
  `Tea/Core/World.lean`.
-/
import Tea.Clients.Calls

namespace Tea.Clients

open Tea.Async Tea.Core Tea.Run

variable {a : Agent} {s : Shared} {id : RunId}

/-- The state that the run claimed last and the other owners of its agent share. -/
def Shared.world (s : Shared) : World where
  agent := s.agent
  queues := s.queues
  steeringMode := s.steeringMode
  followUpMode := s.followUpMode
  nextRunId := s.nextRunId
  activeRun := s.activeRun.map s.idOf
  run := (s.runs (s.claims - 1)).state
  cancelled := (s.runs (s.claims - 1)).cancelled

/-- The next sections of a call, with none of another client between them. -/
def alone (a : Agent) : Nat → Point × Shared → Point × Shared
  | 0, c => c
  | n + 1, c => alone a n (section_ a c.1 c.2)

/-- What a start returns to its caller. -/
def Point.started : Point → Except CoreError RunHandle
  | .returned (.run _ handle) => .ok handle
  | .returned (.failed error) => .error error
  | _ => .error .cancelled

theorem publish_give_world (s : Shared) (id : RunId) (phase : RunPhase) (agent : AgentState) :
    (publish s.claims (s.give id phase agent)).world = Tea.Run.claim id phase agent s.world := by
  simp [publish, Shared.give, Shared.modifyRun, Shared.world, Shared.idOf, Tea.Run.claim,
    RunState.create]

/-- The state after `next_run_id.fetch_add(1)`. -/
def Shared.fetched (s : Shared) : Shared := { s with nextRunId := s.nextRunId + 1 }

/-- An uninterrupted start is that of the lifecycle model. -/
theorem startRun_alone (a : Agent) (contents : List String) (skip : Bool) (s : Shared) :
    (alone a 3 (.fetchRunId contents skip, s)).1.started =
        (startRun a contents skip s.world).1 ∧
      (alone a 3 (.fetchRunId contents skip, s)).2.world =
        (startRun a contents skip s.world).2 := by
  have hsections : alone a 3 (.fetchRunId contents skip, s) =
      alone a 1 (claim a ⟨satSucc s.nextRunId⟩ contents skip s.fetched) := rfl
  rw [hsections]
  rcases hphase : s.agent.phase.active with _ | active
  · have hidle : s.fetched.agent.phase.active = none := hphase
    have hworld : (nextRun s.world).2.agent.phase.active = none := hphase
    rw [claim_idle hidle, startRun]
    simp only [hworld]
    exact ⟨rfl, publish_give_world _ _ _ _⟩
  · have hactive : s.fetched.agent.phase.active = some active := hphase
    have hworld : (nextRun s.world).2.agent.phase.active = some active := hphase
    rw [claim_active hactive, startRun]
    simp only [hworld]
    exact ⟨rfl, rfl⟩

theorem startCompaction_alone (a : Agent) (s : Shared) :
    (alone a 5 (.fetchCompactionId, s)).2.world = (startCompaction a s.world).2 := by
  have hsections : alone a 5 (.fetchCompactionId, s) =
      alone a 3 (checkIdle (.readCompactor ⟨satSucc s.nextRunId⟩) s.fetched, s.fetched) := rfl
  rw [hsections, checkIdle, startCompaction]
  rcases hphase : s.agent.phase.active with _ | active
  · have hidle : s.fetched.agent.phase.active = none := hphase
    have hworld : (nextRun s.world).2.agent.phase.active = none := hphase
    simp only [hidle, hworld]
    by_cases hcompactor : a.capabilities.hasCompactor = true
    · simp only [alone, section_, hcompactor, if_true, claimCompaction_idle hidle]
      exact publish_give_world _ _ _ _
    · simp only [hcompactor, if_false, section_, alone, failed, Bool.false_eq_true]
      rfl
  · have hactive : s.fetched.agent.phase.active = some active := hphase
    have hworld : (nextRun s.world).2.agent.phase.active = some active := hphase
    simp only [hactive, hworld, section_, failed, alone]
    rfl

theorem clearTransient_phase (agent : AgentState) : agent.clearTransient.phase = agent.phase := rfl

/-- An uninterrupted `Agent::abort` is that of the lifecycle model. -/
theorem abort_alone (a : Agent)
    (hslot : s.activeRun = none ∨ s.activeRun = some (s.claims - 1)) :
    (alone a 6 (.readSlot, s)).2.world = s.world.abortAgent := by
  rcases hslot with hslot | hslot
  · simp [alone, section_, hslot, World.abortAgent, Shared.world]
  by_cases hcreated : (s.runs (s.claims - 1)).state.phase = .created
  · simp [alone, section_, hslot, World.abortAgent, Shared.world, Shared.cancel, stopCreated,
      markAgent, Shared.setPhase, Shared.modifyRun, hcreated, Shared.idOf, Shared.release]
  by_cases hidle : s.agent.phase = .idle
  · simp [alone, section_, hslot, World.abortAgent, Shared.world, Shared.cancel, stopCreated,
      markAgent, Shared.modifyRun, hcreated, Shared.idOf, clearTransient_phase, hidle]
    rw [← hidle]
    rfl
  · simp [alone, section_, hslot, World.abortAgent, Shared.world, Shared.cancel, stopCreated,
      markAgent, Shared.modifyRun, hcreated, Shared.idOf, clearTransient_phase, hidle]

/-- A change of the run claimed last. -/
theorem modifyRun_world {s : Shared} {run : Nat} (hrun : s.claims - 1 = run)
    {f : Claimed → Claimed} (hf : ∀ entry, (f entry).state.id = entry.state.id) :
    (s.modifyRun run f).world = { s.world with
      run := (f (s.runs run)).state, cancelled := (f (s.runs run)).cancelled } := by
  have hid := modifyRun_idOf s run hf
  simp only [Shared.world, hid]
  simp [Shared.modifyRun, hrun]

theorem cancel_world {s : Shared} {run : Nat} (hrun : s.claims - 1 = run) :
    (s.cancel run).world = { s.world with cancelled := true } := by
  have hchanged := modifyRun_world hrun (f := fun entry => { entry with cancelled := true })
    fun _ => rfl
  refine hchanged.trans ?_
  rw [← hrun]
  rfl

theorem setPhase_world {s : Shared} {run : Nat} (hrun : s.claims - 1 = run) (phase : RunPhase)
    (reason : Option StopReason) (error : Option String) :
    (s.setPhase run phase reason error).world = { s.world with
      run := { s.world.run with phase, stopReason := reason, error } } := by
  have hchanged := modifyRun_world hrun (f := fun entry => { entry with
    state := { entry.state with phase, stopReason := reason, error } }) fun _ => rfl
  refine hchanged.trans ?_
  rw [← hrun]
  rfl

theorem settleAgent_world {s : Shared} {run : Nat} (hrun : s.claims - 1 = run)
    (error : Option String) :
    (settleAgent run error s).world = s.world.settleAgent .idle error := by
  simp [settleAgent, Shared.release, Shared.world, Shared.modifyRun, World.settleAgent,
    AgentState.clearTransient, hrun]

/-- An uninterrupted `RunHandle::abort` of the run claimed last is that of the lifecycle
    model. -/
theorem abortRun_alone (a : Agent) {run : Nat} (hrun : s.claims - 1 = run) :
    (alone a 3 (.cancelRun run, s)).2.world = s.world.abortRun := by
  have hworld : (s.cancel run).world = { s.world with cancelled := true } := cancel_world hrun
  have hstate : ((s.cancel run).runs run).state = s.world.run := by
    rw [← hrun]
    simp [Shared.cancel, Shared.modifyRun, Shared.world]
  have hsections : alone a 3 (.cancelRun run, s) = alone a 2 (.stopRun run, s.cancel run) := rfl
  have hlast : (s.cancel run).claims - 1 = run := hrun
  rw [hsections]
  generalize s.cancel run = t at *
  by_cases hterminal : s.world.run.phase.isTerminal = true
  · simp only [alone, section_, hstate, hterminal, if_true, World.abortRun, hworld]
  by_cases hcreated : s.world.run.phase = .created
  · have hstop : stopCreated run t =
        t.setPhase run .cancelled (some .cancelled) s.world.run.error := by
      rw [stopCreated, if_pos (by rw [hstate, hcreated]), hstate]
    have habort : s.world.abortRun = World.settleAgent .idle none { s.world with
        cancelled := true
        run := { s.world.run with phase := .cancelled, stopReason := some .cancelled } } :=
      (if_neg hterminal).trans (if_pos hcreated)
    have hsettled := settleAgent_world
      (s := t.setPhase run .cancelled (some .cancelled) s.world.run.error) hlast none
    rw [setPhase_world hlast, hworld, ← habort] at hsettled
    simp only [alone, section_, hstate, hcreated, RunPhase.isTerminal, Bool.false_eq_true,
      if_false, if_true, hstop]
    exact hsettled
  · have hstop : stopCreated run t = t := if_neg (by rw [hstate]; exact hcreated)
    have habort : s.world.abortRun = { s.world with
        cancelled := true
        agent := { s.world.agent with phase := .cancelling s.world.run.id } } :=
      (if_neg hterminal).trans (if_neg hcreated)
    have hmarked : ∀ agent, ({ t with agent } : Shared).world = { t.world with agent } :=
      fun _ => rfl
    have hagent : t.agent = s.world.agent := congrArg World.agent hworld
    simp only [alone, section_, hstate, hterminal, hcreated, if_false, hstop, Bool.false_eq_true]
    rw [hmarked, hworld, Shared.idOf, hstate, hagent, habort]
end Tea.Clients
