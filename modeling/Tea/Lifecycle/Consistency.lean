/-
  Tea/Lifecycle/Consistency.lean
  ==============================
  **The shared state stays consistent with the stage of the run**, whatever its
  clients do between two steps of the run.

  A client changes neither the transcript nor the events of the run, and the run
  state only by aborting a run that was never driven (`ClientOp.client`).  Once the
  run state is terminal nothing changes it (`Sealed`).
-/
import Tea.Lifecycle.FollowSettle

namespace Tea.Lifecycle

open Tea.Async Tea.Core Tea.Run

variable {h : RunHandle} {s s' : Stage} {w w' : World}

/-! ### Clients -/

/-- What no client changes. -/
structure Client (w w' : World) : Prop where
  messages : w'.agent.messages = w.agent.messages
  nextMessageId : w'.agent.nextMessageId = w.agent.nextMessageId
  held : w'.held = w.held
  policy : w'.policy = w.policy
  settling : w'.settling = w.settling
  id : w'.run.id = w.run.id
  events : w'.run.events = w.run.events
  turnId : w'.run.turnId = w.run.turnId

theorem Client.kinds (hc : Client w w') : w'.run.kinds = w.run.kinds := by
  rw [RunState.kinds, hc.events, RunState.kinds]

theorem settleAgent_client (phase : AgentPhase) (error : Option String) :
    Client w (w.settleAgent phase error) := by
  unfold World.settleAgent
  split <;> exact ⟨rfl, rfl, rfl, rfl, rfl, rfl, rfl, rfl⟩

theorem abortRun_client : Client w w.abortRun := by
  unfold World.abortRun
  by_cases hterminal : w.run.phase.isTerminal = true
  · simp only [if_pos hterminal]
    exact ⟨rfl, rfl, rfl, rfl, rfl, rfl, rfl, rfl⟩
  simp only [if_neg hterminal]
  by_cases hcreated : w.run.phase = .created
  · simp only [if_pos hcreated]
    have hsettle := settleAgent_client (w := { w with
      cancelled := true
      run := { w.run with phase := .cancelled, stopReason := some .cancelled } }) .idle none
    exact ⟨hsettle.messages, hsettle.nextMessageId, hsettle.held, hsettle.policy,
      hsettle.settling, hsettle.id, hsettle.events, hsettle.turnId⟩
  simp only [if_neg hcreated]
  split <;> exact ⟨rfl, rfl, rfl, rfl, rfl, rfl, rfl, rfl⟩

theorem abortAgent_client : Client w w.abortAgent := by
  unfold World.abortAgent
  rcases w.activeRun with _ | id
  · exact ⟨rfl, rfl, rfl, rfl, rfl, rfl, rfl, rfl⟩
  · by_cases hcreated : w.run.phase = .created
    · simp only [hcreated, if_true]
      exact ⟨rfl, rfl, rfl, rfl, rfl, rfl, rfl, rfl⟩
    · simp only [hcreated, if_false]
      exact ⟨rfl, rfl, rfl, rfl, rfl, rfl, rfl, rfl⟩

theorem ClientOp.client (op : ClientOp) (w : World) : Client w (op.apply w) := by
  cases op with
  | abortRun => exact abortRun_client
  | abortAgent => exact abortAgent_client
  | _ => exact ⟨rfl, rfl, rfl, rfl, rfl, rfl, rfl, rfl⟩

/-- A client that does not abort leaves the agent and the run alone. -/
theorem ClientOp.frame (op : ClientOp) (w : World) (hrun : op ≠ .abortRun)
    (hagent : op ≠ .abortAgent) :
    (op.apply w).agent = w.agent ∧ (op.apply w).activeRun = w.activeRun ∧
      (op.apply w).run = w.run := by
  cases op with
  | abortRun => exact absurd rfl hrun
  | abortAgent => exact absurd rfl hagent
  | _ => exact ⟨rfl, rfl, rfl⟩

/-! ### Aborts -/

theorem settleAgent_settled (hheld : w.held = true) (error : Option String) :
    Settled (w.settleAgent .idle error) := by
  unfold World.settleAgent
  rw [if_pos hheld]
  exact ⟨rfl, rfl, rfl, rfl, rfl⟩

@[simp] theorem settleAgent_run (phase : AgentPhase) (error : Option String) :
    (w.settleAgent phase error).run = w.run := by
  unfold World.settleAgent
  split <;> rfl

/-- What an abort does, by the phase of the run. -/
structure Aborted (w w' : World) : Prop where
  created : w.run.phase = .created → Owned w →
    w'.run = { w.run with phase := .cancelled, stopReason := some .cancelled } ∧ Settled w'
  running : w.run.phase ≠ .created → w'.run = w.run ∧ (Owned w → Owned w') ∧
    (w.run.phase.isTerminal = true → Settled w → Settled w')

theorem abortRun_aborted (hheld : w.held = true) : Aborted w w.abortRun := by
  constructor
  · intro hcreated _
    have hnot : ¬ w.run.phase.isTerminal = true := by rw [hcreated]; nofun
    simp only [World.abortRun, if_neg hnot, if_pos hcreated]
    refine ⟨by simp, settleAgent_settled ?_ none⟩
    exact hheld
  · intro hcreated
    by_cases hterminal : w.run.phase.isTerminal = true
    · simp only [World.abortRun, if_pos hterminal]
      exact ⟨trivial, fun hown => ⟨hown.phase, hown.activeRun⟩, fun _ hs =>
        ⟨hs.phase, hs.activeRun, hs.streaming, hs.pending, hs.response⟩⟩
    · simp only [World.abortRun, if_neg hterminal, if_neg hcreated, if_pos hheld]
      exact ⟨trivial, fun hown => ⟨.inr rfl, hown.activeRun⟩, fun hterm => absurd hterm hterminal⟩

theorem abortAgent_aborted : Aborted w w.abortAgent := by
  constructor
  · intro hcreated hown
    simp only [World.abortAgent, hown.activeRun, hcreated, if_true]
    exact ⟨trivial, rfl, rfl, rfl, rfl, rfl⟩
  · intro hcreated
    rcases hactive : w.activeRun with _ | id
    · simp only [World.abortAgent, hactive]
      exact ⟨trivial, fun hown => hown, fun _ hs => hs⟩
    · simp only [World.abortAgent, hactive, hcreated, if_false]
      refine ⟨trivial, fun hown => ⟨.inr ?_, ?_⟩, fun _ hs => ?_⟩
      · have hid : id = w.run.id := by
          have := hown.activeRun
          rw [hactive] at this
          exact Option.some.inj this
        have hactive : w.agent.phase ≠ .idle := by
          rcases hown.phase with hphase | hphase <;> rw [hphase] <;> nofun
        simp only [if_pos hactive, hid]
      · exact hactive.symm.trans hown.activeRun
      · rw [hs.activeRun] at hactive
        cases hactive

/-- No client changes the state of a run that has begun, or takes its agent away. -/
theorem ClientOp.begun (op : ClientOp) (hheld : w.held = true) (hbegun : w.run.phase ≠ .created) :
    (op.apply w).run = w.run ∧ (Owned w → Owned (op.apply w)) ∧
      (w.run.phase.isTerminal = true → Settled w → Settled (op.apply w)) := by
  by_cases hrun : op = .abortRun
  · subst hrun
    exact (abortRun_aborted hheld).running hbegun
  by_cases hagent : op = .abortAgent
  · subst hagent
    exact abortAgent_aborted.running hbegun
  · obtain ⟨hagent, hactive, hrun⟩ := ClientOp.frame op w hrun hagent
    refine ⟨hrun, fun hown => ⟨?_, ?_⟩, fun _ hs => ⟨?_, ?_, ?_, ?_, ?_⟩⟩
    · rw [hagent, hrun]; exact hown.phase
    · rw [hactive, hrun]; exact hown.activeRun
    · rw [hagent]; exact hs.phase
    · exact hactive.trans hs.activeRun
    · rw [hagent]; exact hs.streaming
    · rw [hagent]; exact hs.pending
    · rw [hagent]; exact hs.response

/-- The run state is terminal. -/
structure Terminal (w : World) : Prop where
  held : w.held = true
  terminal : w.run.phase.isTerminal = true

theorem Terminal.begun (hw : Terminal w) : w.run.phase ≠ .created := by
  intro hcreated
  have hterminal := hw.terminal
  rw [hcreated] at hterminal
  cases hterminal

theorem Terminal.client (op : ClientOp) (hw : Terminal w) : Terminal (op.apply w) :=
  ⟨(ClientOp.client op w).held.trans hw.held,
    by rw [(ClientOp.begun op hw.held hw.begun).1]; exact hw.terminal⟩

theorem Aborted.consistent (ha : Aborted w w') (hc : Client w w') (hw : Consistent s w) :
    Consistent s w' := by
  refine ⟨hc.held.trans hw.held, hc.id.trans hw.id, ?_⟩
  have hphased := hw.phased
  unfold Phased at hphased ⊢
  rcases hlife : s.life <;> simp only [hlife] at hphased ⊢
  case created =>
    rcases hphased with ⟨hphase, hown⟩ | ⟨hphase, hset⟩
    · obtain ⟨hrun, hset⟩ := ha.created hphase hown
      exact .inr ⟨by rw [hrun], hset⟩
    · obtain ⟨hrun, _, hkeep⟩ := ha.running (by rw [hphase]; nofun)
      exact .inr ⟨by rw [hrun, hphase], hkeep (by rw [hphase]; rfl) hset⟩
  case rejected =>
    obtain ⟨hrun, _, hkeep⟩ := ha.running (by rw [hphased.1]; nofun)
    exact ⟨by rw [hrun, hphased.1], hkeep (by rw [hphased.1]; rfl) hphased.2⟩
  case finished phase =>
    obtain ⟨rfl, hterminal⟩ := hphased
    have hnot : w.run.phase ≠ .created := fun hcreated => by rw [hcreated] at hterminal; cases hterminal
    exact ⟨by rw [(ha.running hnot).1], hterminal⟩
  case settled phase =>
    obtain ⟨rfl, hterminal, hset⟩ := hphased
    have hnot : w.run.phase ≠ .created := fun hcreated => by rw [hcreated] at hterminal; cases hterminal
    obtain ⟨hrun, _, hkeep⟩ := ha.running hnot
    exact ⟨by rw [hrun], hterminal, hkeep hterminal hset⟩
  all_goals
    obtain ⟨hphase, hturn, hown⟩ := hphased
    obtain ⟨hrun, hkeep, _⟩ := ha.running (by rw [hphase]; nofun)
    exact ⟨by rw [hrun, hphase], by rw [hrun, hturn], hkeep hown⟩

/-- A state with the same agent and run is consistent with the same stages. -/
theorem Consistent.frame (hw : Consistent s w) (hheld : w'.held = w.held)
    (hagent : w'.agent = w.agent) (hactive : w'.activeRun = w.activeRun)
    (hrun : w'.run = w.run) : Consistent s w' := by
  have hsettled : Settled w → Settled w' := fun hs =>
    ⟨by rw [hagent]; exact hs.phase, hactive.trans hs.activeRun, by rw [hagent]; exact hs.streaming,
      by rw [hagent]; exact hs.pending, by rw [hagent]; exact hs.response⟩
  have hphased := hw.phased
  refine ⟨hheld.trans hw.held, by rw [hrun]; exact hw.id, ?_⟩
  unfold Phased at hphased ⊢
  rw [hrun]
  have howned : Owned w → Owned w' := fun hown =>
    ⟨by rw [hrun, hagent]; exact hown.phase, by rw [hrun, hactive]; exact hown.activeRun⟩
  rcases hlife : s.life <;> simp only [hlife] at hphased ⊢
  case created => exact hphased.imp (And.imp_right howned) (And.imp_right hsettled)
  case rejected => exact ⟨hphased.1, hsettled hphased.2⟩
  case finished => exact hphased
  case settled => exact ⟨hphased.1, hphased.2.1, hsettled hphased.2.2⟩
  all_goals exact ⟨hphased.1, hphased.2.1, howned hphased.2.2⟩

theorem ClientOp.consistent (op : ClientOp) (hw : Consistent s w) :
    Consistent s (op.apply w) := by
  by_cases hrun : op = .abortRun
  · subst hrun
    exact (abortRun_aborted hw.held).consistent abortRun_client hw
  by_cases hagent : op = .abortAgent
  · subst hagent
    exact abortAgent_aborted.consistent abortAgent_client hw
  · obtain ⟨hagent, hactive, hrun⟩ := ClientOp.frame op w hrun hagent
    exact hw.frame (ClientOp.client op w).held hagent hactive hrun

/-! ### Own steps -/

/-- What a consistent state has in common while the loop runs or is settled. -/
theorem Consistent.of_running (hlife : s.life.running = true) (hheld : w.held = true)
    (hid : w.run.id = s.runId) (hphase : w.run.phase = .running)
    (hturn : w.run.turnId = some s.turn) (hown : Owned w) : Consistent s w := by
  refine ⟨hheld, hid, ?_⟩
  unfold Phased
  rcases hl : s.life <;> simp only [hl, Life.running] at hlife ⊢
  case created => cases hlife
  case rejected => cases hlife
  case finished => cases hlife
  case settled => cases hlife
  all_goals exact ⟨hphase, hturn, hown⟩

/-- A step between two stages in which the loop runs. -/
theorem Consistent.step (hw : Consistent s w) (hlife : s.life.running = true)
    (hlife' : s'.life.running = true) (hrunId : s'.runId = s.runId) (hheld : w'.held = w.held)
    (hid : w'.run.id = w.run.id) (hphase : w'.run.phase = w.run.phase)
    (hturn : w'.run.turnId = some s'.turn) (hagent : w'.agent.phase = w.agent.phase)
    (hactive : w'.activeRun = w.activeRun) : Consistent s' w' := by
  obtain ⟨hrunning, _, hown⟩ := hw.owned hlife
  refine .of_running hlife' (hheld.trans hw.held) (by rw [hid, hw.id, hrunId])
    (hphase.trans hrunning) hturn ⟨?_, ?_⟩
  · rw [hid, hagent]
    exact hown.phase
  · rw [hid, hactive]
    exact hown.activeRun

/-- A step that leaves the core alone but for the transcript and the policy. -/
theorem Consistent.core_step (hw : Consistent s w) (hlife : s.life.running = true)
    (hlife' : s'.life.running = true) (hrunId : s'.runId = s.runId) (hturn : s'.turn = s.turn)
    {c : Core} (hcore : core w' = c) (hheld : c.held = w.held) (hrun : c.run = w.run)
    (hagent : c.agentPhase = w.agent.phase) (hactive : c.activeRun = w.activeRun) :
    Consistent s' w' := by
  subst hcore
  replace hrun : w'.run = w.run := hrun
  refine hw.step hlife hlife' hrunId hheld (by rw [hrun]) (by rw [hrun]) ?_ hagent hactive
  rw [hrun, hturn]
  exact (hw.owned hlife).2.1

/-- An event is recorded while the loop runs or is settled. -/
theorem Records.frame {kind : AgentEventKind} (hr : Records h s kind s') :
    s.life.running = true ∧ s'.turn = s.turn ∧ s'.runId = s.runId := by
  cases hr with
  | agentStart life => exact ⟨by rw [life]; rfl, rfl, rfl⟩
  | turnStart life => exact ⟨by rcases life with life | life <;> rw [life] <;> rfl, rfl, rfl⟩
  | messageStart speaking _ => exact ⟨speaking.running, rfl, rfl⟩
  | promptStart turn => exact ⟨turn.running, rfl, rfl⟩
  | textStart turn => exact ⟨turn.running, rfl, rfl⟩
  | textUpdate turn => exact ⟨turn.running, rfl, rfl⟩
  | messageEnd speaking _ => exact ⟨speaking.running, rfl, rfl⟩
  | side turn => exact ⟨turn.running, rfl, rfl⟩
  | turnEnd turn => exact ⟨turn.running, rfl, rfl⟩
  | agentEnd life => exact ⟨by rcases life with life | life <;> rw [life] <;> rfl, rfl, rfl⟩
  | settleTurnEnd life => exact ⟨by rw [life]; rfl, rfl, rfl⟩
  | settleAgentEnd life => exact ⟨by rw [life]; rfl, rfl, rfl⟩

theorem Appends.frame {message : AgentMessage} (ha : Appends s message s') :
    s.life.running = true ∧ s'.life.running = true ∧ s'.turn = s.turn ∧ s'.runId = s.runId := by
  cases ha with
  | user turn => exact ⟨turn.running, turn.running, rfl, rfl⟩
  | result turn => exact ⟨turn.running, turn.running, rfl, rfl⟩
  | response turn => exact ⟨turn.running, turn.running, rfl, rfl⟩
  | failure life => exact ⟨by rw [life]; rfl, rfl, rfl, rfl⟩

theorem Own.consistent (hown : Own h s w w' s') (hw : Consistent s w) : Consistent s' w' := by
  cases hown with
  | still => exact hw
  | quiet life quiet =>
    have hrunning := (Life.works_iff.mp life).1
    exact hw.core_step hrunning hrunning rfl rfl quiet.core_eq rfl rfl rfl rfl
  | begin life phase =>
    have hphased := hw.phased
    simp only [Phased, life] at hphased
    rcases hphased with ⟨_, hown⟩ | ⟨hcancelled, _⟩
    · exact .of_running rfl hw.held hw.id rfl rfl ⟨hown.phase, hown.activeRun⟩
    · rw [phase] at hcancelled
      cases hcancelled
  | reject life phase =>
    have hphased := hw.phased
    simp only [Phased, life] at hphased
    refine ⟨hw.held, hw.id, ?_⟩
    rcases hphased with ⟨hcreated, _⟩ | hphased
    · exact absurd hcreated phase
    · exact hphased
  | record records =>
    obtain ⟨hlife, hturn, hid⟩ := records.frame
    refine hw.step hlife records.running hid rfl rfl rfl ?_ rfl rfl
    rw [hturn]
    exact (hw.owned hlife).2.1
  | advance life =>
    have hrunning : s.life.running = true := by rcases life with life | life <;> rw [life] <;> rfl
    exact hw.step hrunning rfl rfl rfl rfl rfl rfl rfl rfl
  | firstSteering turn =>
    exact hw.step turn.running turn.running rfl rfl rfl rfl (hw.owned turn.running).2.1 rfl rfl
  | drainSteering life =>
    have hrunning : s.life.running = true := by rw [life]; rfl
    exact hw.step hrunning rfl rfl rfl rfl rfl (hw.owned hrunning).2.1 rfl rfl
  | drainFollowUp life =>
    have hrunning : s.life.running = true := by rw [life]; rfl
    exact hw.step hrunning rfl rfl rfl rfl rfl (hw.owned hrunning).2.1 rfl rfl
  | append appends id core_eq =>
    obtain ⟨hlife, hlife', hturn, hid⟩ := appends.frame
    exact hw.core_step hlife hlife' hid hturn core_eq rfl rfl rfl rfl
  | openText turn _ _ _ _ core_eq =>
    exact hw.core_step turn.running turn.running rfl rfl core_eq rfl rfl rfl rfl
  | extendText turn _ core_eq =>
    exact hw.core_step turn.running turn.running rfl rfl core_eq rfl rfl rfl rfl
  | closeText turn _ _ _ _ core_eq =>
    exact hw.core_step turn.running turn.running rfl rfl core_eq rfl rfl rfl rfl
  | mark turn => exact ⟨hw.held, hw.id, hw.phased⟩
  | claim turn =>
    exact hw.step turn.running turn.running rfl rfl rfl rfl (hw.owned turn.running).2.1 rfl rfl
  | report life => exact ⟨hw.held, hw.id, hw.phased⟩
  | policy turn =>
    exact hw.step turn.running turn.running rfl rfl rfl rfl (hw.owned turn.running).2.1 rfl rfl
  | reserve turn =>
    exact hw.step turn.running turn.running rfl rfl rfl rfl (hw.owned turn.running).2.1 rfl rfl
  | decide turn =>
    exact hw.step turn.running turn.running rfl rfl rfl rfl (hw.owned turn.running).2.1 rfl rfl
  | truncate turn _ _ _ core_eq =>
    exact hw.core_step turn.running turn.running rfl rfl core_eq rfl rfl rfl rfl
  | commit turn =>
    exact hw.step turn.running turn.running rfl rfl rfl rfl (hw.owned turn.running).2.1 rfl rfl
  | leave failed life =>
    have hrunning := looping_running life
    exact hw.step hrunning rfl rfl rfl rfl rfl (hw.owned hrunning).2.1 rfl rfl
  | skip life quiet =>
    exact hw.core_step (by rw [life]; rfl) rfl rfl rfl quiet.core_eq rfl rfl rfl rfl
  | finish life terminal => exact ⟨hw.held, hw.id, rfl, terminal⟩
  | @settle phase error life =>
    have hphased := hw.phased
    simp only [Phased, life] at hphased
    have hclient := settleAgent_client (w := w) .idle error
    refine ⟨hclient.held.trans hw.held, hclient.id.trans hw.id, ?_⟩
    exact ⟨by rw [settleAgent_run]; exact hphased.1, hphased.2, settleAgent_settled hw.held error⟩

theorem Replies.frame {query : Query} {reply : Reply query} (hr : Replies s query reply s') :
    s'.turn = s.turn ∧ s'.runId = s.runId ∧
      (s'.life = s.life ∨ s.life = .turnClosed ∧ s'.life = .polling) := by
  cases hr with
  | declined life => exact ⟨rfl, rfl, .inr ⟨life, rfl⟩⟩
  | event =>
    unfold Stage.receive
    split
    · exact ⟨rfl, rfl, .inl rfl⟩
    · split <;> exact ⟨rfl, rfl, .inl rfl⟩
    · split <;> exact ⟨rfl, rfl, .inl rfl⟩
  | _ => exact ⟨rfl, rfl, .inl rfl⟩

theorem Replies.consistent {query : Query} {reply : Reply query}
    (hr : Replies s query reply s') (hw : Consistent s w) : Consistent s' w := by
  obtain ⟨hturn, hid, hlife | ⟨hlife, hlife'⟩⟩ := hr.frame
  · refine ⟨hw.held, hid ▸ hw.id, ?_⟩
    have hphased := hw.phased
    unfold Phased at hphased ⊢
    rw [hlife, hturn]
    exact hphased
  · obtain ⟨hphase, hturnId, hown⟩ := hw.owned (by rw [hlife]; rfl)
    exact .of_running (by rw [hlife']; rfl) hw.held (hid ▸ hw.id) hphase (hturn ▸ hturnId) hown

end Tea.Lifecycle
