/-
  Tea/Contract/AbortRaces.lean
  ============================
  **An abort meets the run it is aimed at**, in any interleaving with settlements and
  starts, unless one of three things comes between its sections: the run settles after
  the abort has read it and before the abort marks the agent, a start has claimed the
  agent and not yet set the active run when `Agent::abort` reads it, or the counter of
  the run identifiers is exhausted.

  The phase of the agent names the one run that has not settled, and the identifiers of
  all runs differ.
-/
import Tea.Clients.Ownership

namespace Tea.Contract

open Tea.Async Tea.Core Tea.Run Tea.Clients

variable {ι : Type} {a : Agent} {s s' : Shared} {c : Clients ι Shared Point}
  {p : Point}

/-! ### The condition -/

/-- An abort marks the agent before its run has settled, `Agent::abort` reads the slot
    when no claimed run is still to be set there, and a start finds an identifier. -/
def unraced (c : Clients ι Shared Point) : Move ι Call → Bool
  | .call .. => true
  | .go client =>
      match c.point client with
      | .markAgent run false => !(c.state.runs run).settled || c.state.agent.phase = .idle
      | .markRun run => !(c.state.runs run).settled
      | .readSlot => c.state.claims = 0 || (c.state.runs (c.state.claims - 1)).published
      | .fetchRunId .. => c.state.nextRunId ≠ 18446744073709551615
      | .fetchCompactionId => c.state.nextRunId ≠ 18446744073709551615
      | _ => true

/-! ### What the phase names -/

/-- The identifier a start has fetched and not yet given to a run. -/
def pending : Point → Option RunId
  | .claim id .. => some id
  | .checkIdle id => some id
  | .readCompactor id => some id
  | .claimCompaction id => some id
  | _ => none

/-- The run on whose behalf the agent was released, and its slot may not be yet. -/
def releases : Point → Option Nat
  | .clearQueues run immediately => if immediately then some run else none
  | .releaseSlot run => some run
  | _ => none

/-- The run that an abort in progress is aimed at. -/
def aim : Point → Option Nat
  | .cancelActive run => some run
  | .stopCreated run => some run
  | .markAgent run _ => some run
  | .clearQueues run _ => some run
  | .releaseSlot run => some run
  | .cancelRun run => some run
  | .stopRun run => some run
  | .markRun run => some run
  | .settleAgent run _ => some run
  | _ => none

structure Named (c : Clients ι Shared Point) : Prop where
  active : ∀ id, c.state.agent.phase.active = some id → ∃ run, run + 1 = c.state.claims ∧
    (c.state.runs run).settled = false ∧ c.state.idOf run = id
  slot : ∀ run < c.state.claims, (c.state.runs run).settled = false →
    (c.state.runs run).published = true → c.state.activeRun = some run
  distinct : ∀ run < c.state.claims, ∀ run' < c.state.claims,
    c.state.idOf run = c.state.idOf run' → run = run'
  below : ∀ run < c.state.claims, (c.state.idOf run).val.toNat ≤ c.state.nextRunId.toNat
  fetched : ∀ i id, pending (c.point i) = some id → id.val.toNat ≤ c.state.nextRunId.toNat ∧
    ∀ run < c.state.claims, c.state.idOf run ≠ id
  fetchedOnce : ∀ i j id, pending (c.point i) = some id → pending (c.point j) = some id → i = j
  released : ∀ i run, releases (c.point i) = some run →
    run < c.state.claims ∧ (c.state.runs run).settled = true

/-- What a step leaves of the names. -/
structure Renames (s s' : Shared) : Prop where
  claims : s'.claims = s.claims
  ids : ∀ run, s'.idOf run = s.idOf run
  counter : s.nextRunId.toNat ≤ s'.nextRunId.toNat
  settled : ∀ run, (s.runs run).settled = true → (s'.runs run).settled = true
  active : ∀ id, s'.agent.phase.active = some id → ∃ run, run + 1 = s'.claims ∧
    (s'.runs run).settled = false ∧ s'.idOf run = id
  slot : ∀ run < s'.claims, (s'.runs run).settled = false →
    (s'.runs run).published = true → s'.activeRun = some run

/-- A step that touches nothing that names refer to. -/
theorem Renames.same (h : Named c) (hclaims : s'.claims = c.state.claims)
    (hids : ∀ run, s'.idOf run = c.state.idOf run)
    (hcounter : c.state.nextRunId.toNat ≤ s'.nextRunId.toNat)
    (hsettled : ∀ run, (s'.runs run).settled = (c.state.runs run).settled)
    (hpublished : ∀ run, (s'.runs run).published = (c.state.runs run).published)
    (hphase : s'.agent.phase = c.state.agent.phase) (hslot : s'.activeRun = c.state.activeRun) :
    Renames c.state s' where
  claims := hclaims
  ids := hids
  counter := hcounter
  settled run hrun := by rw [hsettled, hrun]
  active id hid := by
    rw [hphase] at hid
    obtain ⟨run, hlast, hunsettled, hname⟩ := h.active id hid
    exact ⟨run, hlast.trans hclaims.symm, (hsettled run).trans hunsettled, (hids run).trans hname⟩
  slot run hrun hunsettled hpub := by
    rw [hclaims] at hrun
    rw [hsettled] at hunsettled
    rw [hpublished] at hpub
    rw [hslot]
    exact h.slot run hrun hunsettled hpub

/-- A change of one run that keeps its identifier and its settlement. -/
theorem Renames.modifyRun (h : Named c) (run : Nat) {f : Claimed → Claimed}
    (hid : ∀ entry, (f entry).state.id = entry.state.id)
    (hsettled : ∀ entry, (f entry).settled = entry.settled)
    (hpublished : ∀ entry, (f entry).published = entry.published) :
    Renames c.state (c.state.modifyRun run f) :=
  .same h rfl (fun other => congrFun (modifyRun_idOf c.state run hid) other) (Nat.le_refl _)
    (modifyRun_all _ _ hsettled) (modifyRun_all _ _ hpublished) rfl rfl

theorem Renames.cancel (h : Named c) (run : Nat) : Renames c.state (c.state.cancel run) := by
  apply Renames.modifyRun h <;> intro entry <;> rfl

theorem Renames.withState (h : Named c) (run : Nat) (next : RunState → RunState)
    (hid : ∀ state, (next state).id = state.id) :
    Renames c.state (c.state.modifyRun run fun entry => { entry with state := next entry.state }) := by
  apply Renames.modifyRun h
  · intro entry
    exact hid entry.state
  · intro entry
    rfl
  · intro entry
    rfl

/-- The agent is marked for a run that has not settled. -/
theorem Renames.mark (h : Named c) (ho : Owned c.state) {run : Nat} {agent : AgentState}
    (hrun : run < c.state.claims) (hunsettled : (c.state.runs run).settled = false) :
    Renames c.state { c.state with
      agent := { agent with phase := .cancelling (c.state.idOf run) } } where
  claims := rfl
  ids _ := rfl
  counter := Nat.le_refl _
  settled _ hsettled := hsettled
  active _ hid := ⟨run, (ho.last run hrun hunsettled).1, hunsettled, Option.some.inj hid⟩
  slot := h.slot

/-- The agent is released: no run is left that has not settled. -/
theorem Renames.release (ho : Owned c.state) {run : Nat} (hq : Released run c.state s')
    (hrun : run < c.state.claims) (hunsettled : (c.state.runs run).settled = false)
    (hcounter : c.state.nextRunId.toNat ≤ s'.nextRunId.toNat)
    (hphase : s'.agent.phase = .idle) : Renames c.state s' := by
  have hsame : (s'.runs run).settled = true := by
    rw [hq.runs]
    simp [Shared.release, Shared.modifyRun]
  have hother : ∀ r, r ≠ run → (s'.runs r).settled = (c.state.runs r).settled := by
    intro r hne
    rw [hq.runs]
    simp [Shared.release, Shared.modifyRun, hne]
  have hids : ∀ r, s'.idOf r = c.state.idOf r := by
    intro r
    simp only [Shared.idOf, hq.runs]
    by_cases hr : r = run
    · simp [Shared.release, Shared.modifyRun, hr]
    · simp [Shared.release, Shared.modifyRun, hr]
  refine ⟨hq.claims, hids, hcounter, fun r hr => ?_, fun id hid => ?_, fun r hr hset _ => ?_⟩
  · by_cases heq : r = run
    · rw [heq, hsame]
    · rw [hother r heq, hr]
  · rw [hphase] at hid
    cases hid
  · rw [hq.claims] at hr
    by_cases heq : r = run
    · rw [heq, hsame] at hset
      cases hset
    · rw [hother r heq] at hset
      exact absurd (ho.unique hr hrun hset hunsettled) heq

/-- The slot is cleared for a run that has settled. -/
theorem Renames.releaseSlot (h : Named c) {run : Nat} (hrun : run < c.state.claims)
    (hsettled : (c.state.runs run).settled = true)
    (hslot : c.state.activeRun.map c.state.idOf = some (c.state.idOf run)) :
    Renames c.state { c.state with activeRun := none } where
  claims := rfl
  ids _ := rfl
  counter := Nat.le_refl _
  settled _ hsettled := hsettled
  active := h.active
  slot r hr hunsettled hpublished := by
    rw [h.slot r hr hunsettled hpublished] at hslot
    have hsame : r = run := h.distinct r hr run hrun (Option.some.inj hslot)
    change (c.state.runs r).settled = false at hunsettled
    rw [hsame, hsettled] at hunsettled
    cases hunsettled

theorem Renames.publish (h : Named c) (ho : Owned c.state) {run : Nat}
    (hrun : run < c.state.claims) (hunsettled : (c.state.runs run).settled = false) :
    Renames c.state (Clients.publish run c.state) := by
  have hsettled : ∀ r, ((Clients.publish run c.state).runs r).settled = (c.state.runs r).settled :=
    modifyRun_all c.state run (f := fun entry => { entry with published := true }) fun _ => rfl
  have hids : ∀ r, (Clients.publish run c.state).idOf r = c.state.idOf r :=
    modifyRun_all c.state run (f := fun entry => { entry with published := true })
      (g := fun entry => entry.state.id) fun _ => rfl
  refine ⟨rfl, hids, Nat.le_refl _, fun r hr => by rw [hsettled, hr], fun id hid => ?_,
    fun r hr hset _ => ?_⟩
  · obtain ⟨r, hlast, hset, hname⟩ := h.active id hid
    exact ⟨r, hlast, (hsettled r).trans hset, (hids r).trans hname⟩
  · rw [hsettled] at hset
    exact congrArg some (ho.unique hrun hr hunsettled hset)

variable [DecidableEq ι]

theorem Named.set (h : Named c) {i : ι} {p' : Point} (hr : Renames c.state s')
    (hpending : ∀ id, pending p' = some id → pending (c.point i) = some id ∨
      (c.state.nextRunId.toNat < id.val.toNat ∧ id.val.toNat ≤ s'.nextRunId.toNat))
    (hreleases : ∀ run, releases p' = some run →
      run < s'.claims ∧ (s'.runs run).settled = true) :
    Named (c.set i p' s') := by
  have hcases := c.set_cases i p' s'
  have hclaims := hr.claims
  have hcounter := hr.counter
  refine ⟨hr.active, hr.slot, ?_, ?_, fun j id hj => ?_, fun j k id hj hk => ?_, fun j run hj => ?_⟩
  · intro run hrun run' hrun'
    simp only [Clients.set_state, hr.ids, hr.claims] at hrun hrun' ⊢
    exact h.distinct run hrun run' hrun'
  · intro run hrun
    simp only [Clients.set_state, hr.ids, hr.claims] at hrun ⊢
    exact (h.below run hrun).trans hr.counter
  · simp only [Clients.set_state, hr.ids, hr.claims]
    have hold : ∀ k, pending (c.point k) = some id → id.val.toNat ≤ s'.nextRunId.toNat ∧
        ∀ run < c.state.claims, c.state.idOf run ≠ id := by
      intro k hk
      obtain ⟨hle, hfresh⟩ := h.fetched k id hk
      exact ⟨hle.trans hr.counter, hfresh⟩
    rcases hcases j with ⟨heq, _⟩ | ⟨heq, _⟩ <;> rw [heq] at hj
    · rcases hpending id hj with hsame | ⟨hlt, hle⟩
      · exact hold i hsame
      · refine ⟨hle, fun run hrun hid => ?_⟩
        have hbelow := h.below run hrun
        rw [hid] at hbelow
        omega
    · exact hold j hj
  · -- a new identifier is above all that were fetched before
    have hnew : ∀ k, pending p' = some id → pending (c.point k) = some id → i = k := by
      intro k hp hk
      rcases hpending id hp with hsame | ⟨hlt, _⟩
      · exact h.fetchedOnce i k id hsame hk
      · have hle := (h.fetched k id hk).1
        omega
    rcases hcases j with ⟨heq, hji⟩ | ⟨heq, hji⟩ <;> rcases hcases k with ⟨heq', hki⟩ | ⟨heq', hki⟩ <;>
      rw [heq] at hj <;> rw [heq'] at hk
    · exact hji.trans hki.symm
    · exact hji.trans (hnew k hj hk)
    · exact (hnew j hk hj).symm.trans hki.symm
    · exact h.fetchedOnce j k id hj hk
  · rcases hcases j with ⟨heq, _⟩ | ⟨heq, _⟩ <;> rw [heq] at hj
    · exact hreleases run hj
    · obtain ⟨hrun, hsettled⟩ := h.released j run hj
      simp only [Clients.set_state, hr.claims]
      exact ⟨hrun, hr.settled run hsettled⟩

/-- A new run is named by the identifier its start has fetched. -/
theorem Named.give (h : Named c) (ho : Owned c.state) {i : ι} {id : RunId} {phase : RunPhase}
    {agent : AgentState} {handle : RunHandle} (hidle : c.state.agent.phase.active = none)
    (hpending : pending (c.point i) = some id) :
    Named (c.set i (.publish c.state.claims handle) (c.state.give id phase agent)) := by
  have hphase : c.state.agent.phase = .idle := by
    cases hactive : c.state.agent.phase <;> rw [hactive] at hidle <;> first | rfl | cases hidle
  have hnew : (c.state.give id phase agent).runs c.state.claims =
      { state := { RunState.create id with phase } } := by simp [Shared.give]
  have hold : ∀ r < c.state.claims, (c.state.give id phase agent).runs r = c.state.runs r := by
    intro r hr
    simp [Shared.give, Nat.ne_of_lt hr]
  have hids : ∀ r < c.state.claims, (c.state.give id phase agent).idOf r = c.state.idOf r := by
    intro r hr
    rw [Shared.idOf, hold r hr, Shared.idOf]
  have hid : (c.state.give id phase agent).idOf c.state.claims = id := by
    rw [Shared.idOf, hnew]
    rfl
  have hcases : ∀ r < c.state.claims + 1, r < c.state.claims ∨ r = c.state.claims := fun r hr => by
    omega
  obtain ⟨hle, hfresh⟩ := h.fetched i id hpending
  have hother : ∀ j id', pending ((c.set i (.publish c.state.claims handle)
      (c.state.give id phase agent)).point j) = some id' →
      j ≠ i ∧ pending (c.point j) = some id' := by
    intro j id' hj
    by_cases hji : j = i
    · rw [hji, Clients.set_self] at hj
      cases hj
    · rw [c.set_other _ _ hji] at hj
      exact ⟨hji, hj⟩
  refine ⟨fun id' hid' => ?_, ?_, ?_, ?_, fun j id' hj => ?_, fun j k id' hj hk => ?_,
    fun j run hj => ?_⟩
  · cases hid'
    exact ⟨c.state.claims, rfl, by rw [Clients.set_state, hnew], hid⟩
  · -- every older run has settled, and the new one is not published
    intro run hrun hunsettled hpublished
    simp only [Clients.set_state] at hunsettled hpublished
    rcases hcases run hrun with hlt | rfl
    · rw [hold run hlt, ho.all_settled hphase hlt] at hunsettled
      cases hunsettled
    · rw [hnew] at hpublished
      cases hpublished
  · intro run hrun run' hrun' heq
    simp only [Clients.set_state] at heq
    rcases hcases run hrun with hlt | rfl <;> rcases hcases run' hrun' with hlt' | rfl
    · rw [hids run hlt, hids run' hlt'] at heq
      exact h.distinct run hlt run' hlt' heq
    · rw [hids run hlt, hid] at heq
      exact absurd heq (hfresh run hlt)
    · rw [hids run' hlt', hid] at heq
      exact absurd heq.symm (hfresh run' hlt')
    · rfl
  · intro run hrun
    simp only [Clients.set_state]
    rcases hcases run hrun with hlt | rfl
    · rw [hids run hlt]
      exact h.below run hlt
    · rw [hid]
      exact hle
  · obtain ⟨hne, hj⟩ := hother j id' hj
    obtain ⟨hle', hfresh'⟩ := h.fetched j id' hj
    refine ⟨hle', fun run hrun => ?_⟩
    simp only [Clients.set_state]
    rcases hcases run hrun with hlt | rfl
    · rw [hids run hlt]
      exact hfresh' run hlt
    · rw [hid]
      intro heq
      exact hne (h.fetchedOnce j i id' hj (heq ▸ hpending))
  · exact h.fetchedOnce j k id' (hother j id' hj).2 (hother k id' hk).2
  · by_cases hji : j = i
    · rw [hji, Clients.set_self] at hj
      cases hj
    · rw [c.set_other _ _ hji] at hj
      obtain ⟨hrun, hsettled⟩ := h.released j run hj
      simp only [Clients.set_state]
      rw [hold run hrun]
      exact ⟨Nat.lt_succ_of_lt hrun, hsettled⟩

/-! ### Every section keeps the names -/

theorem Named.fetch (h : Named c) {i : ι} {p' : Point}
    (hroom : c.state.nextRunId ≠ 18446744073709551615)
    (hpending : pending p' = some ⟨satSucc c.state.nextRunId⟩) (hreleases : releases p' = none) :
    Named (c.set i p' { c.state with nextRunId := c.state.nextRunId + 1 }) := by
  have hcounter : c.state.nextRunId + 1 = satSucc c.state.nextRunId := (if_neg hroom).symm
  have hsucc : (satSucc c.state.nextRunId).toNat = c.state.nextRunId.toNat + 1 := by
    refine satSucc_eq_succ ?_
    have hle := toNat_le_u64Max c.state.nextRunId
    refine Nat.lt_of_le_of_ne hle fun heq => hroom ?_
    exact UInt64.toNat_inj.mp heq
  refine h.set (.same h rfl (fun _ => rfl) ?_ (fun _ => rfl) (fun _ => rfl) rfl rfl) ?_ ?_
  · change c.state.nextRunId.toNat ≤ (c.state.nextRunId + 1).toNat
    rw [hcounter]
    omega
  · intro id hid
    rw [hpending, Option.some.injEq] at hid
    rw [← hid, hcounter]
    refine .inr ⟨?_, Nat.le_refl _⟩
    change c.state.nextRunId.toNat < (satSucc c.state.nextRunId).toNat
    omega
  · intro run hrun
    rw [hreleases] at hrun
    cases hrun

theorem Named.call (h : Named c) (i : ι) (call : Call) : Named (c.set i call.entry c.state) := by
  refine h.set (.same h rfl (fun _ => rfl) (Nat.le_refl _) (fun _ => rfl) (fun _ => rfl) rfl rfl)
    (fun id hid => ?_) fun run hrun => ?_
  · cases call <;> cases hid
  · cases call <;> cases hrun

theorem Named.go (h : Named c) (ho : Ownership c) {i : ι} (hunraced : unraced c (.go i) = true) :
    Named (c.set i (section_ a (c.point i) c.state).1 (section_ a (c.point i) c.state).2) := by
  have hi := ho.relies i
  -- a section that goes on with no identifier fetched and no slot to release
  have hstep : ∀ {p' s'}, Renames c.state s' → pending p' = none → releases p' = none →
      Named (c.set i p' s') := by
    intro p' s' hr hpending hreleases
    refine h.set hr (fun id hid => ?_) fun run hrun => ?_
    · rw [hpending] at hid
      cases hid
    · rw [hreleases] at hrun
      cases hrun
  have hsame : ∀ {s'}, s'.claims = c.state.claims → s'.runs = c.state.runs →
      s'.nextRunId = c.state.nextRunId → s'.agent.phase = c.state.agent.phase →
      s'.activeRun = c.state.activeRun → Renames c.state s' := by
    intro s' hclaims hruns hcounter hphase hslot
    refine .same h hclaims (fun r => ?_) (by rw [hcounter]) (fun r => by rw [hruns])
      (fun r => by rw [hruns]) hphase hslot
    rw [Shared.idOf, hruns, Shared.idOf]
  have hrefl : Renames c.state c.state := hsame rfl rfl rfl rfl rfl
  -- a section that keeps the identifier fetched
  have hkeep : ∀ {p' s'}, Renames c.state s' → pending p' = pending (c.point i) →
      releases p' = none → Named (c.set i p' s') := by
    intro p' s' hr hpending hreleases
    refine h.set hr (fun id hid => .inl (hpending ▸ hid)) fun run hrun => ?_
    rw [hreleases] at hrun
    cases hrun
  cases hpoint : c.point i with
  | returned result => exact hstep hrefl rfl rfl
  | checkTail =>
    simp only [section_]
    rcases checkTail_cases c.state with ⟨_, heq⟩ | heq | heq <;> rw [heq] <;>
      exact hstep hrefl rfl rfl
  | readSteeringMode => exact hstep hrefl rfl rfl
  | readFollowUpMode steering => exact hstep hrefl rfl rfl
  | drainTail steering followUp =>
    obtain ⟨queued, queues, heq, _⟩ := drainTail_spec steering followUp c.state
    simp only [section_, heq]
    rcases continueWith_cases queued with ⟨_, heq⟩ | ⟨_, heq⟩ <;> rw [heq] <;>
      exact hstep (hsame rfl rfl rfl rfl rfl) rfl rfl
  | fetchRunId contents skip =>
    refine h.fetch ?_ rfl rfl
    simpa [unraced, hpoint] using hunraced
  | fetchCompactionId =>
    refine h.fetch ?_ rfl rfl
    simpa [unraced, hpoint] using hunraced
  | claim id contents skip =>
    rcases hphase : c.state.agent.phase.active with _ | active
    · simp only [section_, claim_idle hphase]
      exact h.give ho.owned hphase (by rw [hpoint]; rfl)
    · simp only [section_, claim_active hphase]
      exact hstep hrefl rfl rfl
  | publish run handle =>
    obtain ⟨hrun, hunpublished⟩ := hi.publishing run (by rw [hpoint]; rfl)
    exact hstep (.publish h ho.owned hrun (ho.owned.unsettled_of_unpublished hrun hunpublished))
      rfl rfl
  | checkIdle id =>
    simp only [section_]
    rcases checkIdle_cases (.readCompactor id) c.state with ⟨_, heq⟩ | heq <;> rw [heq]
    · exact hstep hrefl rfl rfl
    · exact hkeep hrefl (by rw [hpoint]; rfl) rfl
  | readCompactor id =>
    simp only [section_]
    split
    · exact hkeep hrefl (by rw [hpoint]; rfl) rfl
    · exact hstep hrefl rfl rfl
  | claimCompaction id =>
    rcases hphase : c.state.agent.phase.active with _ | active
    · simp only [section_, claimCompaction_idle hphase]
      exact h.give ho.owned hphase (by rw [hpoint]; rfl)
    · simp only [section_, claimCompaction_active hphase]
      exact hstep hrefl rfl rfl
  | pushSteering content => exact hstep (hsame rfl rfl rfl rfl rfl) rfl rfl
  | pushFollowUp content => exact hstep (hsame rfl rfl rfl rfl rfl) rfl rfl
  | readSlot =>
    simp only [section_]
    split <;> exact hstep hrefl rfl rfl
  | cancelActive run => exact hstep (.cancel h run) rfl rfl
  | cancelRun run => exact hstep (.cancel h run) rfl rfl
  | stopCreated run =>
    simp only [section_]
    by_cases hcreated : (c.state.runs run).state.phase = .created
    · rw [stopCreated_of_created hcreated]
      exact hstep (.withState h run (fun state => { state with
        phase := .cancelled, stopReason := some .cancelled
        error := (c.state.runs run).state.error }) fun _ => rfl) rfl rfl
    · rw [stopCreated_of_driven hcreated]
      exact hstep hrefl rfl rfl
  | markAgent run immediately =>
    obtain ⟨hrun, _⟩ := hi.reached run (by rw [hpoint]; rfl)
    cases immediately with
    | true =>
      obtain ⟨hunsettled, _⟩ := hi.owed run (by rw [hpoint]; rfl)
      refine h.set (.release ho.owned ⟨rfl, .inl rfl, rfl⟩ hrun hunsettled (Nat.le_refl _) rfl)
        (fun id hid => by cases hid) fun r hr => ?_
      cases hr
      refine ⟨hrun, ?_⟩
      simp [section_, markAgent, Shared.release, Shared.modifyRun]
    | false =>
      simp only [section_, markAgent, Bool.false_eq_true, if_false]
      split
      · rename_i hactive
        have hunsettled : (c.state.runs run).settled = false := by
          simp only [unraced, hpoint, Bool.or_eq_true, decide_eq_true_eq] at hunraced
          rcases hunraced with hunsettled | hidle
          · simpa using hunsettled
          · exact absurd hidle hactive
        exact hstep (.mark h ho.owned hrun hunsettled) rfl rfl
      · exact hstep (hsame rfl rfl rfl rfl rfl) rfl rfl
  | clearQueues run immediately =>
    simp only [section_]
    cases immediately with
    | true =>
      refine h.set (hsame rfl rfl rfl rfl rfl) (fun id hid => by cases hid) fun r hr => ?_
      cases hr
      exact h.released i run (by rw [hpoint]; rfl)
    | false => exact hstep (hsame rfl rfl rfl rfl rfl) rfl rfl
  | releaseSlot run =>
    obtain ⟨hrun, hsettled⟩ := h.released i run (by rw [hpoint]; rfl)
    simp only [section_]
    split
    · rename_i hslot
      exact hstep (.releaseSlot h hrun hsettled hslot) rfl rfl
    · exact hstep hrefl rfl rfl
  | checkTerminal run =>
    simp only [section_]
    split <;> exact hstep hrefl rfl rfl
  | stopRun run =>
    simp only [section_]
    by_cases hterminal : (c.state.runs run).state.phase.isTerminal = true
    · rw [if_pos hterminal]
      exact hstep hrefl rfl rfl
    · rw [if_neg hterminal]
      by_cases hcreated : (c.state.runs run).state.phase = .created
      · rw [if_pos hcreated, stopCreated_of_created hcreated]
        exact hstep (.withState h run (fun state => { state with
          phase := .cancelled, stopReason := some .cancelled
          error := (c.state.runs run).state.error }) fun _ => rfl) rfl rfl
      · rw [if_neg hcreated, stopCreated_of_driven hcreated]
        exact hstep hrefl rfl rfl
  | markRun run =>
    obtain ⟨hrun, _⟩ := hi.reached run (by rw [hpoint]; rfl)
    have hunsettled : (c.state.runs run).settled = false := by
      simpa [unraced, hpoint] using hunraced
    exact hstep (.mark h ho.owned hrun hunsettled) rfl rfl
  | startTurn run turnId =>
    simp only [section_]
    split
    · exact hstep (.withState h run (fun state => { state with
        phase := .running, turnId := some turnId }) fun _ => rfl) rfl rfl
    · exact hstep hrefl rfl rfl
  | beginSettlement run =>
    simp only [section_]
    split
    · exact hstep hrefl rfl rfl
    · exact hstep (.withState h run (fun state => { state with phase := .settling }) fun _ => rfl)
        rfl rfl
  | finish run phase reason error =>
    simp only [section_]
    split
    · exact hstep hrefl rfl rfl
    · exact hstep (.withState h run (fun state => { state with
        phase, stopReason := some reason, error }) fun _ => rfl) rfl rfl
  | settleAgent run error =>
    obtain ⟨hrun, _⟩ := hi.reached run (by rw [hpoint]; rfl)
    obtain ⟨hunsettled, _⟩ := hi.owed run (by rw [hpoint]; rfl)
    exact hstep (.release ho.owned ⟨rfl, .inr rfl, rfl⟩ hrun hunsettled (Nat.le_refl _) rfl) rfl rfl

theorem named_preserved :
    Sections.Preserved (calls a) (fun c m => unraced c m = true)
      (fun c : Clients ι Shared Point => Ownership c ∧ Named c) :=
  Sections.Preserved.of
    (fun _ i call ⟨ho, h⟩ _ hadmitted => ⟨ho.call hadmitted, h.call i call⟩)
    fun _ i ⟨ho, h⟩ _ hunraced => ⟨ho.go i, h.go ho hunraced⟩

/-! ### What an abort touches -/

/-- The section of an abort, and of a settlement, touches no other run. -/
theorem section_other {run other : Nat} (haim : aim p = some run) (hne : other ≠ run)
    (s : Shared) : (section_ a p s).2.runs other = s.runs other := by
  have hcancel : (s.cancel run).runs other = s.runs other := modifyRun_other _ _ hne
  have hrelease : ∀ t : Shared, (t.release run).runs other = t.runs other := fun t =>
    modifyRun_other _ _ hne
  have hstop : (stopCreated run s).runs other = s.runs other := by
    unfold stopCreated
    split
    · exact modifyRun_other _ _ hne
    · rfl
  cases p with
  | cancelActive =>
    cases haim
    exact hcancel
  | cancelRun =>
    cases haim
    exact hcancel
  | stopCreated =>
    cases haim
    exact hstop
  | stopRun =>
    cases haim
    simp only [section_]
    split
    · rfl
    · exact hstop
  | markAgent _ immediately =>
    cases haim
    cases immediately with
    | true => exact hrelease { s with agent := s.agent.clearTransient }
    | false =>
      simp only [section_, markAgent, Bool.false_eq_true, if_false]
      split <;> rfl
  | clearQueues =>
    cases haim
    rfl
  | releaseSlot =>
    cases haim
    simp only [section_]
    split <;> rfl
  | markRun =>
    cases haim
    rfl
  | settleAgent =>
    cases haim
    exact hrelease s
  | _ => cases haim

omit [DecidableEq ι] in
/-- The phase of an agent that another run owns is left alone. -/
theorem section_phase (h : Named c) (ho : Ownership c) {i : ι} {run : Nat}
    (hunraced : unraced c (.go i) = true) (haim : aim (c.point i) = some run) {id : RunId}
    (hactive : c.state.agent.phase.active = some id) (hid : id ≠ c.state.idOf run) :
    (section_ a (c.point i) c.state).2.agent.phase = c.state.agent.phase := by
  have hi := ho.relies i
  obtain ⟨last, hlast, hunsettled, hname⟩ := h.active id hactive
  -- a run that has not settled is the one that the phase names
  have hsettled : ∀ r < c.state.claims, (c.state.runs r).settled = false → id = c.state.idOf r := by
    intro r hr hr'
    rw [ho.owned.unique hr (by omega) hr' hunsettled, hname]
  have hstop : (stopCreated run c.state).agent.phase = c.state.agent.phase := by
    unfold stopCreated
    split <;> rfl
  cases hpoint : c.point i with
  | cancelActive => rfl
  | cancelRun => rfl
  | stopCreated =>
    rw [hpoint] at haim
    cases haim
    exact hstop
  | stopRun =>
    rw [hpoint] at haim
    cases haim
    simp only [section_]
    split
    · rfl
    · exact hstop
  | markAgent _ immediately =>
    rw [hpoint] at haim
    cases haim
    obtain ⟨hrun, _⟩ := hi.reached run (by rw [hpoint]; rfl)
    cases immediately with
    | true =>
      obtain ⟨howed, _⟩ := hi.owed run (by rw [hpoint]; rfl)
      exact absurd (hsettled run hrun howed) hid
    | false =>
      simp only [unraced, hpoint, Bool.or_eq_true, decide_eq_true_eq] at hunraced
      rcases hunraced with hrunning | hidle
      · exact absurd (hsettled run hrun (by simpa using hrunning)) hid
      · rw [hidle] at hactive
        cases hactive
  | clearQueues => rfl
  | releaseSlot =>
    simp only [section_]
    split <;> rfl
  | markRun =>
    rw [hpoint] at haim
    cases haim
    obtain ⟨hrun, _⟩ := hi.reached run (by rw [hpoint]; rfl)
    exact absurd (hsettled run hrun (by simpa [unraced, hpoint] using hunraced)) hid
  | settleAgent =>
    rw [hpoint] at haim
    cases haim
    obtain ⟨hrun, _⟩ := hi.reached run (by rw [hpoint]; rfl)
    obtain ⟨howed, _⟩ := hi.owed run (by rw [hpoint]; rfl)
    exact absurd (hsettled run hrun howed) hid
  | _ =>
    rw [hpoint] at haim
    cases haim

/-! ### What an abort cannot miss -/

/-- Tokens and settlements are never taken back. -/
structure Lasts (s s' : Shared) : Prop where
  claims : s.claims ≤ s'.claims
  cancelled : ∀ run < s.claims, (s.runs run).cancelled = true → (s'.runs run).cancelled = true
  settled : ∀ run < s.claims, (s.runs run).settled = true → (s'.runs run).settled = true

theorem Lasts.same (hclaims : s'.claims = s.claims) (hruns : s'.runs = s.runs) : Lasts s s' := by
  refine ⟨Nat.le_of_eq hclaims.symm, fun run _ h => ?_, fun run _ h => ?_⟩
  · rw [hruns, h]
  · rw [hruns, h]

theorem Lasts.modifyRun (s : Shared) (run : Nat) {f : Claimed → Claimed}
    (hcancelled : ∀ entry, entry.cancelled = true → (f entry).cancelled = true)
    (hsettled : ∀ entry, entry.settled = true → (f entry).settled = true) :
    Lasts s (s.modifyRun run f) := by
  refine ⟨Nat.le_refl _, fun r _ h => ?_, fun r _ h => ?_⟩ <;> by_cases hr : r = run
  · rw [hr, modifyRun_same]
    exact hcancelled _ (hr ▸ h)
  · rw [modifyRun_other s f hr, h]
  · rw [hr, modifyRun_same]
    exact hsettled _ (hr ▸ h)
  · rw [modifyRun_other s f hr, h]

theorem Lasts.give (s : Shared) (id : RunId) (phase : RunPhase) (agent : AgentState) :
    Lasts s (s.give id phase agent) := by
  refine ⟨Nat.le_succ _, fun run hrun h => ?_, fun run hrun h => ?_⟩
  · simp [Shared.give, Nat.ne_of_lt hrun, h]
  · simp [Shared.give, Nat.ne_of_lt hrun, h]

theorem section_lasts (a : Agent) (p : Point) (s : Shared) : Lasts s (section_ a p s).2 := by
  have hrefl : Lasts s s := .same rfl rfl
  have hcancel : ∀ run, Lasts s (s.cancel run) := by
    intro run
    apply Lasts.modifyRun
    · intro _ _
      rfl
    · intro _ h
      exact h
  have hstate : ∀ run (next : RunState → RunState),
      Lasts s (s.modifyRun run fun entry => { entry with state := next entry.state }) := by
    intro run next
    apply Lasts.modifyRun
    · intro _ h
      exact h
    · intro _ h
      exact h
  have hstop : ∀ run, Lasts s (stopCreated run s) := by
    intro run
    unfold stopCreated
    split
    · exact hstate run fun state => { state with
        phase := .cancelled, stopReason := some .cancelled, error := (s.runs run).state.error }
    · exact hrefl
  have hrelease : ∀ (t : Shared) run, t.claims = s.claims → t.runs = s.runs →
      Lasts s (t.release run) := by
    intro t run hclaims hruns
    have hmodify : Lasts { t with agent := { t.agent with phase := .idle } } (t.release run) := by
      apply Lasts.modifyRun
      · intro _ h
        exact h
      · intro _ _
        rfl
    refine ⟨?_, ?_, ?_⟩ <;> rw [← hclaims]
    · exact hmodify.claims
    · rw [← hruns]
      exact hmodify.cancelled
    · rw [← hruns]
      exact hmodify.settled
  cases p with
  | drainTail steering followUp =>
    obtain ⟨queued, queues, heq, _⟩ := drainTail_spec steering followUp s
    simp only [section_, heq]
    exact .same rfl rfl
  | claim id contents skip =>
    rcases hphase : s.agent.phase.active with _ | active
    · simp only [section_, claim_idle hphase]
      exact .give s id .created _
    · simp only [section_, claim_active hphase]
      exact hrefl
  | claimCompaction id =>
    rcases hphase : s.agent.phase.active with _ | active
    · simp only [section_, claimCompaction_idle hphase]
      exact .give s id .running _
    · simp only [section_, claimCompaction_active hphase]
      exact hrefl
  | publish run handle =>
    have hmodify : Lasts s (s.modifyRun run fun entry => { entry with published := true }) := by
      apply Lasts.modifyRun
      · intro _ h
        exact h
      · intro _ h
        exact h
    exact ⟨hmodify.claims, hmodify.cancelled, hmodify.settled⟩
  | readSlot =>
    simp only [section_]
    split <;> exact hrefl
  | cancelActive run => exact hcancel run
  | cancelRun run => exact hcancel run
  | stopCreated run => exact hstop run
  | stopRun run =>
    simp only [section_]
    split
    · exact hrefl
    · exact hstop run
  | markAgent run immediately =>
    cases immediately with
    | true => exact hrelease { s with agent := s.agent.clearTransient } run rfl rfl
    | false =>
      simp only [section_, markAgent, Bool.false_eq_true, if_false]
      split <;> exact .same rfl rfl
  | releaseSlot run =>
    simp only [section_]
    split <;> exact .same rfl rfl
  | startTurn run turnId =>
    simp only [section_]
    split
    · exact hstate run fun state => { state with phase := .running, turnId := some turnId }
    · exact hrefl
  | beginSettlement run =>
    simp only [section_]
    split
    · exact hrefl
    · exact hstate run fun state => { state with phase := .settling }
  | finish run phase reason error =>
    simp only [section_]
    split
    · exact hrefl
    · exact hstate run fun state => { state with phase, stopReason := some reason, error }
  | settleAgent run error =>
    have hreleased := hrelease s run rfl rfl
    exact ⟨hreleased.claims, hreleased.cancelled, hreleased.settled⟩
  | _ => exact .same rfl rfl

/-- `Agent::abort` is on its way to the token of the run, or has cancelled it, or the run
    has settled. -/
structure Meets (client : ι) (run : Nat) (c : Clients ι Shared Point) : Prop where
  claimed : run < c.state.claims
  met : (c.state.runs run).cancelled = true ∨ (c.state.runs run).settled = true ∨
    c.point client = .readSlot ∨ c.point client = .cancelActive run

theorem Meets.move {client : ι} {run : Nat} (hm : Meets client run c) (ho : Ownership c)
    (h : Named c) {m : Move ι Call} (hunraced : unraced c m = true) (hstays : m.Stays client) :
    Meets client run ((calls a).move c m) := by
  have hlasts : Lasts c.state ((calls a).move c m).state := by
    cases m with
    | call other call =>
      simp only [Sections.move]
      split <;> exact .same rfl rfl
    | go other =>
      simp only [Sections.move]
      split
      · exact .same rfl rfl
      · exact section_lasts a _ _
  refine ⟨Nat.lt_of_lt_of_le hm.claimed hlasts.claims, ?_⟩
  rcases hm.met with hcancelled | hsettled | hpoint | hpoint
  · exact .inl (hlasts.cancelled run hm.claimed hcancelled)
  · exact .inr (.inl (hlasts.settled run hm.claimed hsettled))
  · rcases Sections.move_stays (S := calls a) (c := c) hstays with heq | ⟨rfl, hgoing⟩
    · exact .inr (.inr (.inl (heq.trans hpoint)))
    · cases hsettled : (c.state.runs run).settled with
      | true => exact .inr (.inl (hlasts.settled run hm.claimed hsettled))
      | false =>
        -- the run owns the agent, and its start has set it as the active one
        have hlast := (ho.owned.last run hm.claimed hsettled).1
        have hpublished : (c.state.runs run).published = true := by
          simp only [unraced, hpoint, Bool.or_eq_true, decide_eq_true_eq, ← hlast] at hunraced
          simpa using hunraced
        have hslot := h.slot run hm.claimed hsettled hpublished
        refine .inr (.inr (.inr ?_))
        rw [Sections.move_go hgoing, Clients.set_self]
        simp only [calls, hpoint, section_, hslot]
  · rcases Sections.move_stays (S := calls a) (c := c) hstays with heq | ⟨rfl, hgoing⟩
    · exact .inr (.inr (.inr (heq.trans hpoint)))
    · refine .inl ?_
      rw [Sections.move_go hgoing, Clients.set_state]
      simp only [calls, hpoint, section_, Shared.cancel, modifyRun_same]

theorem Meets.play {client : ι} {run : Nat} (hm : Meets client run c) (ho : Ownership c)
    (h : Named c) {moves : List (Move ι Call)}
    (hunraced : (calls a).Along (fun c m => unraced c m = true) c moves)
    (hstays : ∀ m ∈ moves, m.Stays client) : Meets client run ((calls a).play c moves) := by
  induction moves generalizing c with
  | nil => exact hm
  | cons m moves ih =>
    obtain ⟨ho', h'⟩ := named_preserved (a := a) c m ⟨ho, h⟩ hunraced.1
    exact ih (hm.move ho h hunraced.1 (hstays m (List.mem_cons_self ..))) ho' h' hunraced.2
      fun m hmem => hstays m (List.mem_cons_of_mem _ hmem)

/-! ### Aborts -/

/-- An agent that has claimed no run, with clients that have made no call. -/
structure FreshAgent (c : Clients ι Shared Point) : Prop where
  claims : c.state.claims = 0
  slot : c.state.activeRun = none
  phase : c.state.agent.phase = .idle
  idle : ∀ i, (c.point i).isReturned = true

omit [DecidableEq ι] in
theorem FreshAgent.named (h : FreshAgent c) : Ownership c ∧ Named c := by
  have hnone : ∀ run, ¬ run < c.state.claims := by
    intro run hrun
    rw [h.claims] at hrun
    exact Nat.not_lt_zero _ hrun
  have hpoint : ∀ i, pending (c.point i) = none ∧ releases (c.point i) = none := by
    intro i
    have hi := h.idle i
    cases hpoint : c.point i <;> rw [hpoint] at hi <;> first | exact ⟨rfl, rfl⟩ | cases hi
  refine ⟨.idle ⟨fun r hr => absurd hr (hnone r), fun r hr => absurd hr (hnone r), fun r hr => ?_⟩
    h.idle, fun id hid => ?_, fun r hr => absurd hr (hnone r), fun r hr => absurd hr (hnone r),
    fun r hr => absurd hr (hnone r), fun i id hi => ?_, fun i j id hi => ?_, fun i run hi => ?_⟩
  · rw [h.slot] at hr
    cases hr
  · rw [h.phase] at hid
    cases hid
  · rw [(hpoint i).1] at hi
    cases hi
  · rw [(hpoint i).1] at hi
    cases hi
  · rw [(hpoint i).2] at hi
    cases hi

/-- **Aborts.**  In every interleaving of calls whose moves meet the condition: the phase
    is not `Cancelling` for a run that has settled; a section of an abort leaves the
    state and the token of every other run alone, and the phase where another run owns
    the agent; and `Agent::abort` cancels the run that owned the agent when it began,
    unless this run settles first. -/
theorem aborts_meet_their_run (hfresh : FreshAgent c) {moves : List (Move ι Call)}
    (hunraced : (calls a).Along (fun c m => unraced c m = true) c moves) :
    (∀ id, ((calls a).play c moves).state.agent.phase = .cancelling id →
      ∀ run < ((calls a).play c moves).state.claims,
        ((calls a).play c moves).state.idOf run = id →
        (((calls a).play c moves).state.runs run).settled = false) ∧
    (∀ before client later, moves = before ++ .go client :: later →
      ∀ run, aim (((calls a).play c before).point client) = some run →
        (∀ other, other ≠ run → ((calls a).play c (before ++ [.go client])).state.runs other =
          ((calls a).play c before).state.runs other) ∧
        ∀ id, ((calls a).play c before).state.agent.phase.active = some id →
          id ≠ ((calls a).play c before).state.idOf run →
          ((calls a).play c (before ++ [.go client])).state.agent.phase =
            ((calls a).play c before).state.agent.phase) ∧
    ∀ before client during, moves = before ++ during →
      ((calls a).play c before).point client = .readSlot → (∀ m ∈ during, m.Stays client) →
      ∀ id, ((calls a).play c before).state.agent.phase = .running id →
        (((calls a).play c moves).point client).isReturned = true →
        ∃ run, ((calls a).play c before).state.idOf run = id ∧
          ((((calls a).play c moves).state.runs run).cancelled = true ∨
            (((calls a).play c moves).state.runs run).settled = true) := by
  have hreached : ∀ before later, moves = before ++ later →
      (Ownership ((calls a).play c before) ∧ Named ((calls a).play c before)) ∧
        (calls a).Along (fun c m => unraced c m = true) ((calls a).play c before) later := by
    intro before later heq
    rw [heq, Sections.along_append] at hunraced
    exact ⟨named_preserved.play hfresh.named hunraced.1, hunraced.2⟩
  refine ⟨fun id hphase run hrun hid => ?_, fun before client later heq run haim => ?_,
    fun before client during heq hpoint hstays id hphase hreturned => ?_⟩
  · obtain ⟨⟨ho, h⟩, _⟩ := hreached moves [] (List.append_nil _).symm
    obtain ⟨last, hlast, hunsettled, hname⟩ := h.active id (by rw [hphase]; rfl)
    rw [h.distinct run hrun last (by omega) (hid.trans hname.symm)]
    exact hunsettled
  · obtain ⟨⟨ho, h⟩, hlater⟩ := hreached before _ heq
    have hgoing : (((calls a).play c before).point client).isReturned = false := by
      cases hpoint : ((calls a).play c before).point client <;> rw [hpoint] at haim <;>
        first | rfl | cases haim
    rw [Sections.play_append, Sections.play_cons, Sections.play_nil, Sections.move_go hgoing]
    exact ⟨fun other hne => section_other haim hne _, fun id hactive hid =>
      section_phase h ho hlater.1 haim hactive hid⟩
  · obtain ⟨⟨ho, h⟩, hduring⟩ := hreached before during heq
    obtain ⟨last, hlast, hunsettled, hname⟩ := h.active id (by rw [hphase]; rfl)
    have hmeets : Meets client last ((calls a).play c before) :=
      ⟨by omega, .inr (.inr (.inl hpoint))⟩
    have hend := (hmeets.play ho h hduring hstays).met
    rw [← Sections.play_append, ← heq] at hend
    refine ⟨last, hname, ?_⟩
    rcases hend with hcancelled | hsettled | hgoing | hgoing
    · exact .inl hcancelled
    · exact .inr hsettled
    · rw [hgoing] at hreturned
      cases hreturned
    · rw [hgoing] at hreturned
      cases hreturned

theorem unused_fresh : FreshAgent (unused {}) := ⟨rfl, rfl, rfl, fun _ => rfl⟩

/-- A client prompts and begins to drive the run. -/
def driven : List (Move Nat Call) :=
  [.call 0 (.startPrompt "hi"), .go 0, .go 0, .go 0, .call 0 (.startTurn 0 ⟨1⟩), .go 0]

/-- An agent that nobody has used before. -/
def playFresh (moves : List (Move Nat Call)) : Clients Nat Shared Point :=
  (calls {}).play (unused {}) moves

/-- A further client begins to abort the agent. -/
def aborting : List (Move Nat Call) := driven ++ [.call 1 .abort]

/-- The sections of the abort. -/
def sections : List (Move Nat Call) := [.go 1, .go 1, .go 1, .go 1, .go 1]

/-- An abort that nothing interferes with. -/
theorem aborts_meet_their_run_driven :
    ∃ run, (playFresh aborting).state.idOf run = ⟨1⟩ ∧
      (((playFresh (aborting ++ sections)).state.runs run).cancelled = true ∨
        ((playFresh (aborting ++ sections)).state.runs run).settled = true) := by
  have hunraced : (calls {}).Along (fun c m => unraced c m = true) (unused {})
      (aborting ++ sections) := by
    decide +kernel
  exact (aborts_meet_their_run unused_fresh hunraced).2.2 aborting 1 sections rfl rfl (by decide)
    ⟨1⟩ (by decide +kernel) (by decide +kernel)

/-- A run settles between the two sections of an abort of its handle. -/
def settledMeanwhile : List (Move Nat Call) :=
  driven ++ [.call 1 (.abortRun 0), .go 1, .go 1,
    .call 0 (.finish 0 .cancelled .aborted none), .go 0, .go 0]

/-- The next prompt. -/
def promptedAgain : List (Move Nat Call) :=
  settledMeanwhile ++ [.call 0 (.startPrompt "again"), .go 0, .go 0, .go 0]

/-- A run has claimed the agent and not yet set the active run. -/
def unpublished : List (Move Nat Call) :=
  [.call 0 (.startPrompt "hi"), .go 0, .go 0, .call 1 .abort]

/-- An abort resurrects a run that has settled, takes the agent from the next run, and
    misses a run that owns the agent. -/
theorem aborts_race :
    ((playFresh (settledMeanwhile ++ [.go 1])).state.agent.phase = .cancelling ⟨1⟩ ∧
      ((playFresh (settledMeanwhile ++ [.go 1])).state.runs 0).settled = true) ∧
    ((playFresh promptedAgain).state.agent.phase = .running ⟨2⟩ ∧
      (playFresh (promptedAgain ++ [.go 1])).state.agent.phase = .cancelling ⟨1⟩) ∧
    ((playFresh unpublished).state.agent.phase = .running ⟨1⟩ ∧
      ((playFresh (unpublished ++ [.go 1])).point 1).isReturned = true ∧
      ((playFresh (unpublished ++ [.go 1])).state.runs 0).cancelled = false ∧
      ((playFresh (unpublished ++ [.go 1])).state.runs 0).settled = false) := by
  decide +kernel

end Tea.Contract
