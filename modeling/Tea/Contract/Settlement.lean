/-
  Tea/Contract/Settlement.lean
  ============================
  **A run is settled once**, by the call of `drive` that owns it, as long as every
  additional call begins when the run is terminal: a call that is rejected while the
  run is live is taken for a failure of the run and settles it.

  The additional calls are polled in a pool beside the owner.  One that begins late
  fails without an effect (`drive_rejects`), so the run is that of the owner alone.
-/
import Tea.Async.Pool
import Tea.Lifecycle.Script

namespace Tea.Contract

open Tea.Async Tea.Core Tea.Run Tea.Lifecycle

variable {h : RunHandle} {s : Stage} {w w₀ : World} {acts : Now → ClientOp → Prop}
  {answers : Now → (query : Query) → Reply query → Prop}

/-! ### Rejected calls -/

/-- `start_turn` refuses a terminal run, and `drive` returns the error as it is. -/
theorem drive_rejects (h : RunHandle) (fuel : Nat) : (drive h fuel).Rejects Terminal := by
  -- the critical sections are: held, the run's identifier, `start_turn`, the phase
  refine fun w hw => ⟨rfl, ?_⟩
  simp only [hw.held]
  refine fun w hw => ⟨rfl, fun w hw => ?_⟩
  have hnot : ¬ w.run.phase = .created := hw.begun
  simp only [if_neg hnot]
  refine ⟨trivial, fun w hw => ⟨?_, ?_⟩⟩
  · simp only [hw.terminal, Bool.not_true, Bool.or_false]
  · change Future.Rejects Terminal (if w.run.phase.isTerminal = true then Future.fail _ else _)
    rw [if_pos hw.terminal]
    trivial

/-! ### One settlement -/

/-- A call of `drive` on a terminal run. -/
def LateDrive (h : RunHandle) (m : Now) (p : Drive Unit) : Prop :=
  m.state.run.phase.isTerminal = true ∧ ∃ fuel, p = drive h fuel

/-- An additional call changes nothing, whatever others do meanwhile, and fails. -/
theorem drive_rejected {fuel : Nat} {o : Outcome Query CoreError Unit} {m m' : Now}
    (hm : Terminal m.state) (hrun : Run (Host.of acts answers) (drive h fuel) m o m') :
    (∃ error, o = .failed error) ∧ ∀ before after, .own before after ∈ m'.past →
      .own before after ∈ m.past ∨ after = before := by
  refine (drive_rejects h fuel).run (fun m w hm hi => ?_) hm hrun
  obtain ⟨op, _, rfl⟩ := hi
  exact hm.client op

/-- The invariant of a run holds of a pool in which every additional call is late. -/
theorem pool_reaches {fuel : Nat} {runId : RunId} {m m' : Now} {o : Outcome Query CoreError Unit}
    (hw : Consistent (Stage.claimed runId) m.state) (hsealed : Sealed m.past)
    (hpool : Pool (Host.of acts answers) (LateDrive h) (drive h fuel) [] m o m') :
    ∃ s, Ended o s ∧ Consistent s m'.state ∧ Sealed m'.past := by
  have hreached := (drive_follows h fuel runId).pool lifecycle_invariant (T := Terminal)
    (fun s m hI => ⟨hI.1, ?_⟩) (fun s m w hI hT hi => ?_) (fun s m update s' hI hT hown => ?_)
    (fun s m q hI hq => ?_) ⟨hw, hsealed⟩ (fun q hq => by cases hq) hpool
  · cases o <;> exact hreached
  · rintro step (_ | ⟨_, hstep⟩)
    · exact fun _ => rfl
    · exact hI.2 step hstep
  · obtain ⟨op, _, rfl⟩ := hi
    exact hT.client op
  · exact ⟨(Own.consistent hown hI.1).held, by rw [Own.sealed hown hI.1 hT.terminal]; exact hT.terminal⟩
  · obtain ⟨hterminal, fuel, rfl⟩ := hq
    exact ⟨⟨hI.1.held, hterminal⟩, drive_rejects h fuel⟩

/-- **One settlement.**  If every additional call of `drive` begins when the run is
    terminal, then the owning call leaves the agent settled and the run terminal,
    succeeded exactly if it returns `Ok`; the run state never changes once it is
    terminal, and an additional call fails and changes nothing. -/
theorem run_settled_once {a : Agent} {contents : List String} {skip : Bool} {fuel : Nat}
    {o : Outcome Query CoreError Unit} {m : Now}
    (hstart : startRun a contents skip w₀ = (.ok h, w)) (hheld : w₀.held = true)
    (hpool : Pool (Host.of acts answers) (LateDrive h) (drive h fuel) [] (Now.start w) o m) :
    Sealed m.past ∧
      (o.completed = true → Settled m.state ∧ m.state.run.phase.isTerminal = true ∧
        (m.state.run.phase = .succeeded ↔ o = .done ())) ∧
      ∀ {fuel' o' m₁ m₂}, m₁.state.held = true → m₁.state.run.phase.isTerminal = true →
        Run (Host.of acts answers) (drive h fuel') m₁ o' m₂ →
        (∃ error, o' = .failed error) ∧ ∀ before after, .own before after ∈ m₂.past →
          .own before after ∈ m₁.past ∨ after = before := by
  obtain ⟨s, hended, hw, hsealed⟩ := pool_reaches ((startRun_claimed hstart).consistent hheld)
    (fun _ hmem => by cases hmem) hpool
  refine ⟨hsealed, fun hcompleted => ?_, fun hheld hterminal hrun =>
    drive_rejected ⟨hheld, hterminal⟩ hrun⟩
  have hphased := hw.phased
  unfold Phased at hphased
  cases o with
  | done value =>
    simp only [show s.life = .settled .succeeded from hended] at hphased
    obtain ⟨hphase, hterminal, hset⟩ := hphased
    exact ⟨hset, by rw [hphase]; exact hterminal, fun _ => rfl, fun _ => hphase⟩
  | failed error =>
    rcases hended with hlife | ⟨phase, hlife, hfailed⟩
    · simp only [hlife] at hphased
      obtain ⟨hphase, hset⟩ := hphased
      refine ⟨hset, by rw [hphase]; rfl, fun hsucceeded => ?_, nofun⟩
      rw [hphase] at hsucceeded
      cases hsucceeded
    · simp only [hlife] at hphased
      obtain ⟨hphase, hterminal, hset⟩ := hphased
      refine ⟨hset, by rw [hphase]; exact hterminal, fun hsucceeded => ?_, nofun⟩
      exact absurd (hphase.symm.trans hsucceeded) hfailed
  | pending query => cases hcompleted

/-- A run that succeeds, and a second call of `drive` after it. -/
theorem run_settled_once_accepted :
    (accepting.prompt {} observed textReply 9).2.state.run.phase = .succeeded ∧
      ∃ error m, Run (Host.of accepting.acts accepting.answers) (drive (promptHandle {} observed) 9)
        (Now.start (accepting.prompt {} observed textReply 9).2.state) (.failed error) m := by
  have hpool : Pool (Host.of accepting.acts accepting.answers) (LateDrive (promptHandle {} observed))
      (drive (promptHandle {} observed) 9) [] (Now.start (prompted {} observed))
      (accepting.prompt {} observed textReply 9).1 (accepting.prompt {} observed textReply 9).2 :=
    (accepting.prompt_run {} observed textReply 9).pool
  obtain ⟨_, hcompleted, hrejected⟩ := run_settled_once (prompted_eq {} rfl) rfl hpool
  obtain ⟨_, _, hsucceeded⟩ := hcompleted (by decide +kernel)
  have hphase : (accepting.prompt {} observed textReply 9).2.state.run.phase = .succeeded := by
    decide +kernel
  have hagain := accepting.run [] (drive (promptHandle {} observed) 9)
    (Now.start (accepting.prompt {} observed textReply 9).2.state)
  obtain ⟨⟨error, heq⟩, _⟩ := hrejected (by decide +kernel) (by decide +kernel) hagain
  exact ⟨hphase, error, _, heq ▸ hagain⟩

/-- The prompt while the model is silent, and a second call of `drive` made then. -/
def waiting : Outcome Query CoreError Unit × Now := accepting.prompt {} observed [] 9

def again : Outcome Query CoreError Unit × Now :=
  accepting.play [] (drive (promptHandle {} observed) 9) (Now.start waiting.2.state)

/-- A call of `drive` on a run that waits for the model is rejected, and settles the
    run and its agent. -/
theorem rejected_call_settles :
    ∃ m m', Run (Host.of accepting.acts accepting.answers) (drive (promptHandle {} observed) 9)
        (Now.start (prompted {} observed)) (.pending .nextEvent) m ∧
      m.state.run.phase = .running ∧
      Run (Host.of accepting.acts accepting.answers) (drive (promptHandle {} observed) 9)
        (Now.start m.state) (.failed (.invalidTransition
          { entity := "run", source := "running", operation := "start_turn" })) m' ∧
      m'.state.run.phase = .failed ∧ m'.state.agent.phase = .idle := by
  have hwaiting : waiting.1 = .pending .nextEvent := by decide +kernel
  have hagain : again.1 = .failed (.invalidTransition
      { entity := "run", source := "running", operation := "start_turn" }) := by decide +kernel
  have hrun := accepting.prompt_run {} observed [] 9
  have hrun' := accepting.run [] (drive (promptHandle {} observed) 9) (Now.start waiting.2.state)
  exact ⟨waiting.2, again.2, hwaiting ▸ hrun, by decide +kernel, hagain ▸ hrun',
    by decide +kernel, by decide +kernel⟩

end Tea.Contract
