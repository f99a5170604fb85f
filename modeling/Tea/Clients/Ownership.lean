/-
  Tea/Clients/Ownership.lean
  ==========================
  **One run at a time**, in any interleaving of the calls.

  A run that is claimed and has not settled is the one claimed last, and the agent is
  not idle.  It settles once: the section that makes it terminal leaves its caller, and
  nobody else, the section that releases the agent.
-/
import Tea.Clients.Calls

namespace Tea.Clients

open Tea.Async Tea.Core Tea.Run

variable {ι : Type} [DecidableEq ι] {a : Agent} {s s' : Shared} {c : Clients ι Shared Point}

/-! ### What a point stands for -/

/-- The run whose entry the next sections use, through the slot or a handle. -/
def Point.reaches : Point → Option Nat
  | .cancelActive run => some run
  | .stopCreated run => some run
  | .markAgent run _ => some run
  | .clearQueues run _ => some run
  | .releaseSlot run => some run
  | .checkTerminal run => some run
  | .cancelRun run => some run
  | .stopRun run => some run
  | .markRun run => some run
  | .startTurn run _ => some run
  | .beginSettlement run => some run
  | .finish run .. => some run
  | .settleAgent run _ => some run
  | _ => none

/-- The run on whose behalf the agent is to be released. -/
def Point.owes : Point → Option Nat
  | .markAgent run immediately => if immediately then some run else none
  | .settleAgent run _ => some run
  | _ => none

theorem Point.reaches_of_owes {p : Point} {r : Nat} (h : p.owes = some r) :
    p.reaches = some r := by
  cases p with
  | markAgent run immediately =>
    cases immediately with
    | true => exact h
    | false => cases h
  | settleAgent => exact h
  | _ => cases h

/-- The run that is to be set as the active one. -/
def Point.publishes : Point → Option Nat
  | .publish run _ => some run
  | _ => none

def Point.ends : Point → Option RunPhase
  | .finish _ phase .. => some phase
  | _ => none

/-- What holds of the runs alone. -/
structure Owned (s : Shared) : Prop where
  last : ∀ r < s.claims, (s.runs r).settled = false → r + 1 = s.claims ∧ s.agent.phase ≠ .idle
  terminal : ∀ r < s.claims, (s.runs r).settled = true →
    (s.runs r).state.phase.isTerminal = true ∧ (s.runs r).published = true
  slot : ∀ r, s.activeRun = some r → r < s.claims ∧ (s.runs r).published = true

/-- What a client at point `p` relies on. -/
structure Relies (p : Point) (s : Shared) : Prop where
  reached : ∀ r, p.reaches = some r → r < s.claims ∧ (s.runs r).published = true
  owed : ∀ r, p.owes = some r →
    (s.runs r).settled = false ∧ (s.runs r).state.phase.isTerminal = true
  publishing : ∀ r, p.publishes = some r → r < s.claims ∧ (s.runs r).published = false
  ends : ∀ phase, p.ends = some phase → phase.isTerminal = true

/-- The ownership of the agent, with all clients. -/
structure Ownership (c : Clients ι Shared Point) : Prop where
  owned : Owned c.state
  relies : ∀ i, Relies (c.point i) c.state
  owedOnce : ∀ i j r r', (c.point i).owes = some r → (c.point j).owes = some r' → i = j
  publishedOnce : ∀ i j r, (c.point i).publishes = some r → (c.point j).publishes = some r → i = j

/-- A run that is owed or unpublished is the one claimed last. -/
theorem Owned.unique (h : Owned s) {r r' : Nat} (hr : r < s.claims) (hr' : r' < s.claims)
    (hs : (s.runs r).settled = false) (hs' : (s.runs r').settled = false) : r = r' := by
  have hlast := (h.last r hr hs).1
  have hlast' := (h.last r' hr' hs').1
  omega

theorem Owned.unsettled_of_running (h : Owned s) {r : Nat} (hr : r < s.claims)
    (hrunning : ¬ (s.runs r).state.phase.isTerminal = true) : (s.runs r).settled = false := by
  by_contra hsettled
  exact hrunning (h.terminal r hr (by simpa using hsettled)).1

theorem Owned.unsettled_of_unpublished (h : Owned s) {r : Nat} (hr : r < s.claims)
    (hunpublished : (s.runs r).published = false) : (s.runs r).settled = false := by
  by_contra hsettled
  have hpublished := (h.terminal r hr (by simpa using hsettled)).2
  rw [hunpublished] at hpublished
  cases hpublished

theorem Owned.all_settled (h : Owned s) (hidle : s.agent.phase = .idle) {r : Nat}
    (hr : r < s.claims) : (s.runs r).settled = true := by
  by_contra hunsettled
  exact (h.last r hr (by simpa using hunsettled)).2 hidle

/-! ### Steps -/

/-- What a step of one client leaves to the others. -/
structure Keeps (p : Point) (s s' : Shared) : Prop where
  claims : s.claims ≤ s'.claims
  published : ∀ r < s.claims, (s.runs r).published = true → (s'.runs r).published = true
  owed : ∀ r < s.claims, p.owes ≠ some r → (s.runs r).settled = false →
    (s.runs r).state.phase.isTerminal = true →
    (s'.runs r).settled = false ∧ (s'.runs r).state.phase.isTerminal = true
  publishing : ∀ r < s.claims, p.publishes ≠ some r → (s.runs r).published = false →
    (s'.runs r).published = false

theorem Ownership.set (h : Ownership c) {i : ι} {p' : Point} (howned : Owned s')
    (hkeeps : Keeps (c.point i) c.state s') (hrelies : Relies p' s')
    (howes : ∀ r, p'.owes = some r → ∀ j, j ≠ i → (c.point j).owes = none)
    (hpublishes : ∀ r, p'.publishes = some r → ∀ j, j ≠ i → (c.point j).publishes ≠ some r) :
    Ownership (c.set i p' s') := by
  have hcases := c.set_cases i p' s'
  refine ⟨howned, fun j => ?_, fun j k r r' hj hk => ?_, fun j k r hj hk => ?_⟩
  · rcases hcases j with ⟨heq, _⟩ | ⟨heq, hne⟩
    · rw [heq]
      exact hrelies
    · rw [heq]
      have hj := h.relies j
      refine ⟨fun r hr => ?_, fun r hr => ?_, fun r hr => ?_, hj.ends⟩
      · obtain ⟨hlt, hpublished⟩ := hj.reached r hr
        exact ⟨Nat.lt_of_lt_of_le hlt hkeeps.claims, hkeeps.published r hlt hpublished⟩
      · obtain ⟨hunsettled, hterminal⟩ := hj.owed r hr
        have hlt := (hj.reached r (Point.reaches_of_owes hr)).1
        refine hkeeps.owed r hlt (fun hi => ?_) hunsettled hterminal
        exact hne (h.owedOnce _ _ _ _ hr hi)
      · obtain ⟨hlt, hunpublished⟩ := hj.publishing r hr
        refine ⟨Nat.lt_of_lt_of_le hlt hkeeps.claims, hkeeps.publishing r hlt (fun hi => ?_)
          hunpublished⟩
        exact hne (h.publishedOnce _ _ _ hr hi)
  · rcases hcases j with ⟨heq, hji⟩ | ⟨heq, hji⟩ <;> rcases hcases k with ⟨heq', hki⟩ | ⟨heq', hki⟩ <;>
      rw [heq] at hj <;> rw [heq'] at hk
    · exact hji.trans hki.symm
    · rw [howes r hj k hki] at hk
      cases hk
    · rw [howes r' hk j hji] at hj
      cases hj
    · exact h.owedOnce _ _ _ _ hj hk
  · rcases hcases j with ⟨heq, hji⟩ | ⟨heq, hji⟩ <;> rcases hcases k with ⟨heq', hki⟩ | ⟨heq', hki⟩ <;>
      rw [heq] at hj <;> rw [heq'] at hk
    · exact hji.trans hki.symm
    · exact absurd hk (hpublishes r hj k hki)
    · exact absurd hj (hpublishes r hk j hji)
    · exact h.publishedOnce _ _ _ hj hk

/-- A step that leaves the runs as they are, but for tokens and the phases that are not
    terminal. -/
structure Quiet (s s' : Shared) : Prop where
  claims : s'.claims = s.claims
  slot : s'.activeRun = s.activeRun ∨ s'.activeRun = none
  idle : s'.agent.phase = .idle → s.agent.phase = .idle
  settled : ∀ r, (s'.runs r).settled = (s.runs r).settled
  published : ∀ r, (s'.runs r).published = (s.runs r).published
  terminal : ∀ r, (s'.runs r).state.phase.isTerminal = (s.runs r).state.phase.isTerminal

theorem Quiet.refl (s : Shared) : Quiet s s :=
  ⟨rfl, .inl rfl, id, fun _ => rfl, fun _ => rfl, fun _ => rfl⟩

theorem Quiet.owned (hq : Quiet s s') (h : Owned s) : Owned s' where
  last r hr hunsettled := by
    rw [hq.claims] at hr ⊢
    rw [hq.settled] at hunsettled
    obtain ⟨hlast, hactive⟩ := h.last r hr hunsettled
    exact ⟨hlast, fun hidle => hactive (hq.idle hidle)⟩
  terminal r hr hsettled := by
    rw [hq.claims] at hr
    rw [hq.settled] at hsettled
    rw [hq.terminal, hq.published]
    exact h.terminal r hr hsettled
  slot r hslot := by
    rw [hq.claims, hq.published]
    rcases hq.slot with heq | heq
    · exact h.slot r (heq ▸ hslot)
    · rw [heq] at hslot
      cases hslot

theorem Quiet.keeps (hq : Quiet s s') (p : Point) : Keeps p s s' where
  claims := Nat.le_of_eq hq.claims.symm
  published r _ hpublished := by rw [hq.published, hpublished]
  owed r _ _ hunsettled hterminal := by
    rw [hq.settled, hq.terminal]
    exact ⟨hunsettled, hterminal⟩
  publishing r _ _ hunpublished := by rw [hq.published, hunpublished]

theorem Quiet.relies (hq : Quiet s s') {p : Point} (hp : Relies p s) : Relies p s' where
  reached r hr := by
    rw [hq.claims, hq.published]
    exact hp.reached r hr
  owed r hr := by
    rw [hq.settled, hq.terminal]
    exact hp.owed r hr
  publishing r hr := by
    rw [hq.claims, hq.published]
    exact hp.publishing r hr
  ends := hp.ends

/-- A point that neither owes nor publishes relies on the run that it reaches. -/
theorem Relies.plain {p' : Point} (howes : p'.owes = none) (hpublishes : p'.publishes = none)
    (hends : p'.ends = none)
    (hreaches : ∀ r, p'.reaches = some r → r < s.claims ∧ (s.runs r).published = true) :
    Relies p' s where
  reached := hreaches
  owed r hr := by
    rw [howes] at hr
    cases hr
  publishing r hr := by
    rw [hpublishes] at hr
    cases hr
  ends phase hphase := by
    rw [hends] at hphase
    cases hphase

theorem Ownership.quiet (h : Ownership c) {i : ι} {p' : Point} (hq : Quiet c.state s')
    (hp : Relies p' c.state) (howes : p'.owes = none) (hpublishes : p'.publishes = none) :
    Ownership (c.set i p' s') := by
  refine h.set (hq.owned h.owned) (hq.keeps _) (hq.relies hp) ?_ ?_
  · intro r hr
    rw [howes] at hr
    cases hr
  · intro r hr
    rw [hpublishes] at hr
    cases hr

/-- A new run is claimed by the caller that will publish it. -/
theorem Ownership.give (h : Ownership c) {i : ι} {id : RunId} {phase : RunPhase}
    {agent : AgentState} {handle : RunHandle} (hidle : c.state.agent.phase.active = none) :
    Ownership (c.set i (.publish c.state.claims handle) (c.state.give id phase agent)) := by
  have hphase : c.state.agent.phase = .idle := by
    cases hactive : c.state.agent.phase <;> rw [hactive] at hidle <;> first | rfl | cases hidle
  have hnew : (c.state.give id phase agent).runs c.state.claims =
      { state := { RunState.create id with phase } } := by simp [Shared.give]
  have hold : ∀ r < c.state.claims,
      (c.state.give id phase agent).runs r = c.state.runs r := by
    intro r hr
    simp [Shared.give, Nat.ne_of_lt hr]
  have hclaims : (c.state.give id phase agent).claims = c.state.claims + 1 := rfl
  refine h.set ⟨?_, ?_, ?_⟩ ⟨?_, ?_, ?_, ?_⟩ ⟨?_, ?_, ?_, ?_⟩ ?_ ?_
  · intro r hr hunsettled
    refine ⟨?_, fun hidle => by cases hidle⟩
    by_contra hne
    have hlt : r < c.state.claims := by omega
    rw [hold r hlt, h.owned.all_settled hphase hlt] at hunsettled
    cases hunsettled
  · intro r hr hsettled
    by_cases hlt : r < c.state.claims
    · rw [hold r hlt] at hsettled ⊢
      exact h.owned.terminal r hlt hsettled
    · have heq : r = c.state.claims := by omega
      rw [heq, hnew] at hsettled
      cases hsettled
  · intro r hslot
    obtain ⟨hlt, hpublished⟩ := h.owned.slot r hslot
    rw [hold r hlt]
    exact ⟨by omega, hpublished⟩
  · omega
  · intro r hlt hpublished
    rw [hold r hlt, hpublished]
  · intro r hlt _ hunsettled hterminal
    rw [hold r hlt]
    exact ⟨hunsettled, hterminal⟩
  · intro r hlt _ hunpublished
    rw [hold r hlt, hunpublished]
  · intro r hr
    cases hr
  · intro r hr
    cases hr
  · intro r hr
    cases hr
    rw [hnew]
    exact ⟨by omega, rfl⟩
  · intro phase hphase
    cases hphase
  · intro r hr
    cases hr
  · intro r hr j hj hpublishes
    cases hr
    have hlt := ((h.relies j).publishing _ hpublishes).1
    omega

/-- The claimed run is set as the active one. -/
theorem Ownership.publish (h : Ownership c) {i : ι} {run : Nat} {handle : RunHandle}
    {result : Returned} (hpoint : c.point i = .publish run handle) :
    Ownership (c.set i (.returned result) (publish run c.state)) := by
  obtain ⟨hrun, hunpublished⟩ := (h.relies i).publishing run (by rw [hpoint]; rfl)
  have hsettled : ∀ r, ((Tea.Clients.publish run c.state).runs r).settled =
      (c.state.runs r).settled :=
    modifyRun_all c.state run (f := fun entry => { entry with published := true }) fun _ => rfl
  have hstate : ∀ r, ((Tea.Clients.publish run c.state).runs r).state = (c.state.runs r).state :=
    modifyRun_all c.state run (f := fun entry => { entry with published := true }) fun _ => rfl
  have hsame : ((Tea.Clients.publish run c.state).runs run).published = true := by
    simp [Tea.Clients.publish, Shared.modifyRun]
  have hother : ∀ r, r ≠ run → ((Tea.Clients.publish run c.state).runs r).published =
      (c.state.runs r).published := by
    intro r hne
    simp [Tea.Clients.publish, Shared.modifyRun, hne]
  have hkept : ∀ r, (c.state.runs r).published = true →
      ((Tea.Clients.publish run c.state).runs r).published = true := by
    intro r hpublished
    by_cases hr : r = run
    · rw [hr, hsame]
    · rw [hother r hr, hpublished]
  refine h.set ⟨?_, ?_, ?_⟩ ⟨Nat.le_refl _, fun r _ => hkept r, ?_, ?_⟩
    (.plain rfl rfl rfl fun r hr => by cases hr) ?_ ?_
  · intro r hr hunsettled
    rw [hsettled] at hunsettled
    exact h.owned.last r hr hunsettled
  · intro r hr hset
    rw [hsettled] at hset
    rw [hstate]
    exact ⟨(h.owned.terminal r hr hset).1, hkept r (h.owned.terminal r hr hset).2⟩
  · intro r hslot
    cases hslot
    exact ⟨hrun, hsame⟩
  · intro r _ _ hunsettled hterminal
    rw [hsettled, hstate]
    exact ⟨hunsettled, hterminal⟩
  · intro r _ hne hunpublished'
    rw [hpoint] at hne
    rw [hother r fun heq => hne (by rw [heq]; rfl)]
    exact hunpublished'
  · intro r hr
    cases hr
  · intro r hr
    cases hr

/-- A run becomes terminal, and the caller is left to release the agent. -/
theorem Ownership.stop (h : Ownership c) {i : ι} {run : Nat} {p' : Point} {phase : RunPhase}
    {reason : Option StopReason} {error : Option String}
    (hreaches : (c.point i).reaches = some run)
    (hrunning : ¬ (c.state.runs run).state.phase.isTerminal = true)
    (hterminal : phase.isTerminal = true) (howes : p'.owes = some run)
    (hpublishes : p'.publishes = none) (hends : p'.ends = none) :
    Ownership (c.set i p' (c.state.setPhase run phase reason error)) := by
  obtain ⟨hrun, hpublished⟩ := (h.relies i).reached run hreaches
  have hunsettled := h.owned.unsettled_of_running hrun hrunning
  have hsettled : ∀ r, ((c.state.setPhase run phase reason error).runs r).settled =
      (c.state.runs r).settled := modifyRun_all _ _ fun _ => rfl
  have hpublished' : ∀ r, ((c.state.setPhase run phase reason error).runs r).published =
      (c.state.runs r).published := modifyRun_all _ _ fun _ => rfl
  have hsame : ((c.state.setPhase run phase reason error).runs run).state.phase = phase := by
    simp [Shared.setPhase, Shared.modifyRun]
  have hother : ∀ r, r ≠ run → (c.state.setPhase run phase reason error).runs r =
      c.state.runs r := by
    intro r hne
    simp [Shared.setPhase, Shared.modifyRun, hne]
  have hkept : ∀ r, (c.state.runs r).state.phase.isTerminal = true →
      ((c.state.setPhase run phase reason error).runs r).state.phase.isTerminal = true := by
    intro r hr
    by_cases heq : r = run
    · rw [heq, hsame, hterminal]
    · rw [hother r heq, hr]
  refine h.set ⟨?_, ?_, ?_⟩ ⟨Nat.le_refl _, ?_, ?_, ?_⟩ ⟨?_, ?_, ?_, ?_⟩ ?_ ?_
  · intro r hr hset
    rw [hsettled] at hset
    exact h.owned.last r hr hset
  · intro r hr hset
    rw [hsettled] at hset
    rw [hpublished']
    exact ⟨hkept r (h.owned.terminal r hr hset).1, (h.owned.terminal r hr hset).2⟩
  · intro r hslot
    rw [hpublished']
    exact h.owned.slot r hslot
  · intro r _ hr
    rw [hpublished', hr]
  · intro r _ _ hset hterm
    rw [hsettled]
    exact ⟨hset, hkept r hterm⟩
  · intro r _ _ hr
    rw [hpublished', hr]
  · intro r hr
    rw [Point.reaches_of_owes howes, Option.some.injEq] at hr
    rw [← hr, hpublished']
    exact ⟨hrun, hpublished⟩
  · intro r hr
    rw [howes, Option.some.injEq] at hr
    rw [← hr, hsettled, hsame]
    exact ⟨hunsettled, hterminal⟩
  · intro r hr
    rw [hpublishes] at hr
    cases hr
  · intro phase hphase
    rw [hends] at hphase
    cases hphase
  · -- a run that is owed by another client would be the same one, and terminal
    intro r _ j _
    by_contra howed
    obtain ⟨r', hr'⟩ := Option.ne_none_iff_exists'.mp howed
    obtain ⟨hunsettled', hterminal'⟩ := (h.relies j).owed r' hr'
    have hlt := ((h.relies j).reached r' (Point.reaches_of_owes hr')).1
    rw [h.owned.unique hlt hrun hunsettled' hunsettled] at hterminal'
    exact hrunning hterminal'
  · intro r hr
    rw [hpublishes] at hr
    cases hr

/-- The agent is released on behalf of a run. -/
structure Released (run : Nat) (s s' : Shared) : Prop where
  claims : s'.claims = s.claims
  slot : s'.activeRun = s.activeRun ∨ s'.activeRun = none
  runs : s'.runs = (s.release run).runs

theorem Ownership.release (h : Ownership c) {i : ι} {run : Nat} {p' : Point}
    (hq : Released run c.state s') (howed : (c.point i).owes = some run)
    (howes : p'.owes = none) (hpublishes : p'.publishes = none) (hends : p'.ends = none)
    (hreaches : ∀ r, p'.reaches = some r → r = run) : Ownership (c.set i p' s') := by
  obtain ⟨hunsettled, hterminal⟩ := (h.relies i).owed run howed
  obtain ⟨hrun, hpublished⟩ := (h.relies i).reached run (Point.reaches_of_owes howed)
  have hstate : ∀ r, (s'.runs r).state = (c.state.runs r).state := by
    rw [hq.runs]
    exact modifyRun_all _ _ fun _ => rfl
  have hpublished' : ∀ r, (s'.runs r).published = (c.state.runs r).published := by
    rw [hq.runs]
    exact modifyRun_all _ _ fun _ => rfl
  have hsame : (s'.runs run).settled = true := by
    rw [hq.runs]
    simp [Shared.release, Shared.modifyRun]
  have hother : ∀ r, r ≠ run → (s'.runs r).settled = (c.state.runs r).settled := by
    intro r hne
    rw [hq.runs]
    simp [Shared.release, Shared.modifyRun, hne]
  -- no run is left unsettled
  have hall : ∀ r < c.state.claims, (s'.runs r).settled = true := by
    intro r hr
    by_cases heq : r = run
    · rw [heq, hsame]
    · rw [hother r heq]
      by_contra hset
      exact heq (h.owned.unique hr hrun (by simpa using hset) hunsettled)
  refine h.set ⟨?_, ?_, ?_⟩ ⟨?_, ?_, ?_, ?_⟩ (.plain howes hpublishes hends ?_) ?_ ?_
  · intro r hr hset
    rw [hq.claims] at hr
    rw [hall r hr] at hset
    cases hset
  · intro r hr _
    rw [hq.claims] at hr
    rw [hstate, hpublished']
    by_cases heq : r = run
    · rw [heq]
      exact ⟨hterminal, hpublished⟩
    · refine h.owned.terminal r hr ?_
      rw [← hother r heq]
      exact hall r hr
  · intro r hslot
    rw [hq.claims, hpublished']
    rcases hq.slot with heq | heq
    · exact h.owned.slot r (heq ▸ hslot)
    · rw [heq] at hslot
      cases hslot
  · exact Nat.le_of_eq hq.claims.symm
  · intro r _ hr
    rw [hpublished', hr]
  · intro r hr hne hset _
    have heq : r = run := h.owned.unique hr hrun hset hunsettled
    exact absurd (heq ▸ howed) hne
  · intro r _ _ hr
    rw [hpublished', hr]
  · intro r hr
    rw [hq.claims, hreaches r hr, hpublished']
    exact ⟨hrun, hpublished⟩
  · intro r hr
    rw [howes] at hr
    cases hr
  · intro r hr
    rw [hpublishes] at hr
    cases hr

/-! ### Every section keeps the ownership -/

theorem Quiet.modifyRun (s : Shared) (run : Nat) {f : Claimed → Claimed}
    (hsettled : ∀ entry, (f entry).settled = entry.settled)
    (hpublished : ∀ entry, (f entry).published = entry.published)
    (hterminal : (f (s.runs run)).state.phase.isTerminal =
      (s.runs run).state.phase.isTerminal) : Quiet s (s.modifyRun run f) where
  claims := rfl
  slot := .inl rfl
  idle := id
  settled := modifyRun_all s run hsettled
  published := modifyRun_all s run hpublished
  terminal r := by
    by_cases hr : r = run
    · rw [hr, modifyRun_same, hterminal]
    · rw [modifyRun_other s f hr]

theorem Quiet.cancel (s : Shared) (run : Nat) : Quiet s (s.cancel run) := by
  unfold Shared.cancel
  apply Quiet.modifyRun
  · intro entry
    rfl
  · intro entry
    rfl
  · rfl

/-- A run goes on to another phase that is not terminal. -/
theorem Quiet.advance (s : Shared) (run : Nat) (next : RunState → RunState)
    (hterminal : (next (s.runs run).state).phase.isTerminal =
      (s.runs run).state.phase.isTerminal) :
    Quiet s (s.modifyRun run fun entry => { entry with state := next entry.state }) := by
  apply Quiet.modifyRun
  · intro entry
    rfl
  · intro entry
    rfl
  · exact hterminal

/-- A step that leaves the runs, the slot and the phase of the agent alone. -/
theorem Quiet.other (hclaims : s'.claims = s.claims) (hslot : s'.activeRun = s.activeRun)
    (hphase : s'.agent.phase = s.agent.phase) (hruns : s'.runs = s.runs) : Quiet s s' := by
  refine ⟨hclaims, .inl hslot, fun hidle => hphase ▸ hidle, ?_, ?_, ?_⟩ <;> intro r <;> rw [hruns]

/-- A section that stays in the call, with the run it reaches, or returns. -/
theorem Ownership.stay (h : Ownership c) {i : ι} {p' : Point} (hq : Quiet c.state s')
    (howes : p'.owes = none) (hpublishes : p'.publishes = none) (hends : p'.ends = none)
    (hreaches : p'.reaches = none ∨ p'.reaches = (c.point i).reaches) :
    Ownership (c.set i p' s') := by
  refine h.quiet hq (.plain howes hpublishes hends fun r hr => ?_) howes hpublishes
  rcases hreaches with heq | heq
  · rw [heq] at hr
    cases hr
  · exact (h.relies i).reached r (heq ▸ hr)

theorem Ownership.call (h : Ownership c) {i : ι} {call : Call}
    (hadmitted : call.admitted c.state = true) : Ownership (c.set i call.entry c.state) := by
  obtain ⟨hrun, hphase⟩ := Bool.and_eq_true_iff.mp hadmitted
  have hreached : ∀ r, call.run? = some r → r < c.state.claims ∧
      (c.state.runs r).published = true := by
    intro r hr
    simpa [hr] using hrun
  refine h.quiet (.refl _) ?_ ?_ ?_
  · refine ⟨fun r hr => ?_, fun r hr => ?_, fun r hr => ?_, fun phase hp => ?_⟩ <;> cases call <;>
      first
        | exact hreached r hr
        | cases hr
        | (cases hp; exact hphase)
        | cases hp
  · cases call <;> rfl
  · cases call <;> rfl

theorem checkTail_cases (s : Shared) :
    (∃ error, checkTail s = failed error) ∨ checkTail s = .readSteeringMode ∨
      checkTail s = .fetchRunId [] false := by
  unfold checkTail
  split
  · exact .inl ⟨_, rfl⟩
  · split
    · exact .inl ⟨_, rfl⟩
    · split
      · exact .inr (.inl rfl)
      · exact .inr (.inr rfl)

theorem checkIdle_cases (next : Point) (s : Shared) :
    (∃ active, checkIdle next s = failed (.activeRun active)) ∨ checkIdle next s = next := by
  unfold checkIdle
  split
  · exact .inl ⟨_, rfl⟩
  · exact .inr rfl

theorem continueWith_cases (queued : List QueuedMessage) :
    (∃ error, continueWith queued = failed error) ∨
      ∃ contents, continueWith queued = .fetchRunId contents true := by
  unfold continueWith
  split
  · exact .inl ⟨_, rfl⟩
  · exact .inr ⟨_, rfl⟩

theorem stopCreated_of_created {run : Nat} (hcreated : (s.runs run).state.phase = .created) :
    stopCreated run s = s.setPhase run .cancelled (some .cancelled) (s.runs run).state.error :=
  if_pos hcreated

theorem stopCreated_of_driven {run : Nat} (hcreated : ¬ (s.runs run).state.phase = .created) :
    stopCreated run s = s := if_neg hcreated

theorem not_terminal_of_created {phase : RunPhase} (hcreated : phase = .created) :
    ¬ phase.isTerminal = true := by
  rw [hcreated]
  simp [RunPhase.isTerminal]

theorem Ownership.go (h : Ownership c) (i : ι) :
    Ownership (c.set i (section_ a (c.point i) c.state).1 (section_ a (c.point i) c.state).2) := by
  have hi := h.relies i
  -- a section that leaves the runs alone and reaches no other run
  have hstay : ∀ {p' s'}, Quiet c.state s' → p'.owes = none → p'.publishes = none →
      p'.ends = none → p'.reaches = none ∨ p'.reaches = (c.point i).reaches →
      Ownership (c.set i p' s') := h.stay
  have hquiet : ∀ {p' s'}, Quiet c.state s' → p'.reaches = none → p'.owes = none →
      p'.publishes = none → p'.ends = none → Ownership (c.set i p' s') :=
    fun hq hreaches howes hpublishes hends => hstay hq howes hpublishes hends (.inl hreaches)
  have hother := @Quiet.other c.state
  cases hpoint : c.point i with
  | returned result => exact hquiet (.refl _) rfl rfl rfl rfl
  | checkTail =>
    simp only [section_]
    rcases checkTail_cases c.state with ⟨_, heq⟩ | heq | heq <;> rw [heq] <;>
      exact hquiet (.refl _) rfl rfl rfl rfl
  | readSteeringMode => exact hquiet (.refl _) rfl rfl rfl rfl
  | readFollowUpMode steering => exact hquiet (.refl _) rfl rfl rfl rfl
  | drainTail steering followUp =>
    obtain ⟨queued, queues, heq, _⟩ := drainTail_spec steering followUp c.state
    simp only [section_, heq]
    rcases continueWith_cases queued with ⟨_, heq⟩ | ⟨_, heq⟩ <;> rw [heq] <;>
      exact hquiet (hother rfl rfl rfl rfl) rfl rfl rfl rfl
  | fetchRunId contents skip => exact hquiet (hother rfl rfl rfl rfl) rfl rfl rfl rfl
  | fetchCompactionId => exact hquiet (hother rfl rfl rfl rfl) rfl rfl rfl rfl
  | claim id contents skip =>
    rcases hphase : c.state.agent.phase.active with _ | active
    · simp only [section_, claim_idle hphase]
      exact h.give hphase
    · simp only [section_, claim_active hphase]
      exact hquiet (.refl _) rfl rfl rfl rfl
  | publish run handle => exact h.publish hpoint
  | checkIdle id =>
    simp only [section_]
    rcases checkIdle_cases (.readCompactor id) c.state with ⟨_, heq⟩ | heq <;> rw [heq] <;>
      exact hquiet (.refl _) rfl rfl rfl rfl
  | readCompactor id =>
    simp only [section_]
    split <;> exact hquiet (.refl _) rfl rfl rfl rfl
  | claimCompaction id =>
    rcases hphase : c.state.agent.phase.active with _ | active
    · simp only [section_, claimCompaction_idle hphase]
      exact h.give hphase
    · simp only [section_, claimCompaction_active hphase]
      exact hquiet (.refl _) rfl rfl rfl rfl
  | pushSteering content => exact hquiet (hother rfl rfl rfl rfl) rfl rfl rfl rfl
  | pushFollowUp content => exact hquiet (hother rfl rfl rfl rfl) rfl rfl rfl rfl
  | readSlot =>
    simp only [section_]
    rcases hslot : c.state.activeRun with _ | run
    · exact hquiet (.refl _) rfl rfl rfl rfl
    · refine h.quiet (.refl _) (.plain rfl rfl rfl fun r hr => ?_) rfl rfl
      cases hr
      exact h.owned.slot run hslot
  | cancelActive run =>
    refine hstay (.cancel c.state run) rfl rfl rfl (.inr ?_)
    rw [hpoint]
    rfl
  | cancelRun run =>
    refine hstay (.cancel c.state run) rfl rfl rfl (.inr ?_)
    rw [hpoint]
    rfl
  | stopCreated run =>
    simp only [section_]
    by_cases hcreated : (c.state.runs run).state.phase = .created
    · rw [stopCreated_of_created hcreated, decide_eq_true hcreated]
      exact h.stop (by rw [hpoint]; rfl) (not_terminal_of_created hcreated) rfl rfl rfl rfl
    · rw [stopCreated_of_driven hcreated, decide_eq_false hcreated]
      exact hstay (.refl _) rfl rfl rfl (.inr (by rw [hpoint]; rfl))
  | markAgent run immediately =>
    cases immediately with
    | true =>
      exact h.release ⟨rfl, .inl rfl, rfl⟩ (by rw [hpoint]; rfl) rfl rfl rfl fun r hr => by
        cases hr
        rfl
    | false =>
      refine hstay ?_ rfl rfl rfl (.inr (by rw [hpoint]; rfl))
      simp only [section_, markAgent, Bool.false_eq_true, if_false]
      split
      · exact ⟨rfl, .inl rfl, (fun hidle => by cases hidle), fun _ => rfl, fun _ => rfl,
          fun _ => rfl⟩
      · exact hother rfl rfl rfl rfl
  | clearQueues run immediately =>
    simp only [section_]
    cases immediately with
    | true => exact hstay (hother rfl rfl rfl rfl) rfl rfl rfl (.inr (by rw [hpoint]; rfl))
    | false => exact hquiet (hother rfl rfl rfl rfl) rfl rfl rfl rfl
  | releaseSlot run =>
    simp only [section_]
    split
    · exact hquiet ⟨rfl, .inr rfl, id, fun _ => rfl, fun _ => rfl, fun _ => rfl⟩ rfl rfl rfl rfl
    · exact hquiet (.refl _) rfl rfl rfl rfl
  | checkTerminal run =>
    simp only [section_]
    split
    · exact hquiet (.refl _) rfl rfl rfl rfl
    · exact hstay (.refl _) rfl rfl rfl (.inr (by rw [hpoint]; rfl))
  | stopRun run =>
    simp only [section_]
    by_cases hterminal : (c.state.runs run).state.phase.isTerminal = true
    · rw [if_pos hterminal]
      exact hquiet (.refl _) rfl rfl rfl rfl
    · rw [if_neg hterminal]
      by_cases hcreated : (c.state.runs run).state.phase = .created
      · rw [if_pos hcreated, stopCreated_of_created hcreated]
        exact h.stop (by rw [hpoint]; rfl) hterminal rfl rfl rfl rfl
      · rw [if_neg hcreated, stopCreated_of_driven hcreated]
        exact hstay (.refl _) rfl rfl rfl (.inr (by rw [hpoint]; rfl))
  | markRun run =>
    exact hquiet ⟨rfl, .inl rfl, (fun hidle => by cases hidle), fun _ => rfl, fun _ => rfl,
      fun _ => rfl⟩ rfl rfl rfl rfl
  | startTurn run turnId =>
    simp only [section_]
    by_cases hcreated : (c.state.runs run).state.phase = .created
    · rw [if_pos hcreated]
      refine hquiet (.advance c.state run
        (fun state => { state with phase := .running, turnId := some turnId }) ?_) rfl rfl rfl rfl
      rw [hcreated]
      rfl
    · rw [if_neg hcreated]
      exact hquiet (.refl _) rfl rfl rfl rfl
  | beginSettlement run =>
    simp only [section_]
    by_cases hterminal : (c.state.runs run).state.phase.isTerminal = true
    · rw [if_pos hterminal]
      exact hquiet (.refl _) rfl rfl rfl rfl
    · rw [if_neg hterminal]
      refine hquiet (.advance c.state run
        (fun state => { state with phase := .settling }) ?_) rfl rfl rfl rfl
      simpa [RunPhase.isTerminal] using hterminal
  | finish run phase reason error =>
    simp only [section_]
    by_cases hterminal : (c.state.runs run).state.phase.isTerminal = true
    · rw [if_pos hterminal]
      exact hquiet (.refl _) rfl rfl rfl rfl
    · rw [if_neg hterminal]
      exact h.stop (by rw [hpoint]; rfl) hterminal (hi.ends phase (by rw [hpoint]; rfl)) rfl rfl rfl
  | settleAgent run error =>
    exact h.release ⟨rfl, .inr rfl, rfl⟩ (by rw [hpoint]; rfl) rfl rfl rfl fun r hr => by cases hr

omit [DecidableEq ι] in
/-- Nobody is in a call. -/
theorem Ownership.idle (howned : Owned c.state) (hidle : ∀ i, (c.point i).isReturned = true) :
    Ownership c := by
  have hnone : ∀ i, (c.point i).reaches = none ∧ (c.point i).owes = none ∧
      (c.point i).publishes = none ∧ (c.point i).ends = none := by
    intro i
    have hi := hidle i
    cases hpoint : c.point i <;> rw [hpoint] at hi <;>
      first | exact ⟨rfl, rfl, rfl, rfl⟩ | cases hi
  refine ⟨howned, fun i => .plain (hnone i).2.1 (hnone i).2.2.1 (hnone i).2.2.2 fun r hr => ?_,
    fun i j r r' hr _ => ?_, fun i j r hr _ => ?_⟩
  · rw [(hnone i).1] at hr
    cases hr
  · rw [(hnone i).2.1] at hr
    cases hr
  · rw [(hnone i).2.2.1] at hr
    cases hr

theorem ownership_preserved :
    Sections.Preserved (calls a) (fun _ _ => True) (Ownership (ι := ι)) :=
  Sections.Preserved.of (fun _ _ _ h _ hadmitted => h.call hadmitted) fun _ i h _ _ => h.go i

end Tea.Clients
