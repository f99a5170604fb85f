/-
  Tea/Contract/TurnBracket.lean
  =============================
  **The turns of a run are bracketed and numbered**, as long as no hook fails after
  the end of a turn: the settlement of that failure closes the turn once more.
-/
import Tea.Lifecycle.Moves

namespace Tea.Contract

open Tea.Async Tea.Core Tea.Run Tea.Lifecycle

variable {h : RunHandle} {s s' : Stage} {w w' : World}
  {acts : Now → ClientOp → Prop} {answers : Now → (query : Query) → Reply query → Prop}

/-! ### Brackets -/

/-- The number of turns so far, and whether the last one is open. -/
structure Turns where
  count : Nat := 0
  isOpen : Bool := false
deriving DecidableEq

/-- Turns are opened and closed in order, and all are closed at the end of the agent. -/
def Turns.accept (turns : Turns) : AgentEventKind → Option Turns
  | .turnStart id =>
      if turns.isOpen = false ∧ id.val.toNat = turns.count + 1 then
        some { count := turns.count + 1, isOpen := true }
      else none
  | .turnEnd id _ =>
      if turns.isOpen = true ∧ id.val.toNat = turns.count then some { turns with isOpen := false }
      else none
  | .agentEnd _ => if turns.isOpen = false then some turns else none
  | _ => some turns

/-- The turns of an event list, if they are bracketed and numbered from one. -/
def turnsOf (kinds : List AgentEventKind) : Option Turns := kinds.foldlM Turns.accept {}

theorem turnsOf_snoc {kinds : List AgentEventKind} {turns turns' : Turns} {kind : AgentEventKind}
    (hk : turnsOf kinds = some turns) (hkind : turns.accept kind = some turns') :
    turnsOf (kinds ++ [kind]) = some turns' := by
  unfold turnsOf at hk ⊢
  rw [List.foldlM_append, hk]
  exact (bind_pure _).trans hkind

/-! ### The invariant -/

/-- The turns that belong to a stage. -/
def turns (s : Stage) : Turns :=
  match s.life with
  | .created => {}
  | .rejected => {}
  | .opening => {}
  | .started => {}
  | .turnOpen => { count := s.turn.val.toNat, isOpen := true }
  | .failing => { count := s.turn.val.toNat, isOpen := true }
  | .settling => { count := s.turn.val.toNat, isOpen := true }
  | .advanced => { count := s.turn.val.toNat - 1 }
  | _ => { count := s.turn.val.toNat }

/-- The run may go on with a further turn. -/
def mayAdvance : Life → Bool
  | .polling => true
  | .polled => true
  | .drained => true
  | _ => false

structure Numbered (s : Stage) (kinds : List AgentEventKind) : Prop where
  kinds : turnsOf kinds = some (turns s)
  first : s.life = .opening ∨ s.life = .started → s.turn = ⟨1⟩
  positive : 1 ≤ s.turn.val.toNat
  room : mayAdvance s.life = true → s.turn.val.toNat < u64Max
  fault : s.fault ≠ some .boundaryHook

theorem Records.numbered {kind : AgentEventKind} (hr : Records h s kind s')
    {kinds : List AgentEventKind} (hn : Numbered s kinds) : Numbered s' (kinds ++ [kind]) := by
  have hsame : s'.life = s.life → s'.turn = s.turn →
      (∀ t : Turns, t.accept kind = some t) → Numbered s' (kinds ++ [kind]) := by
    intro hlife hturn haccept
    have hturns : turns s' = turns s := by rw [turns, hlife, hturn, turns]
    exact ⟨hturns ▸ turnsOf_snoc hn.kinds (haccept _), hturn ▸ hlife ▸ hn.first,
      hturn ▸ hn.positive, hturn ▸ hlife ▸ hn.room, hr.fault ▸ hn.fault⟩
  cases hr with
  | agentStart life =>
    refine ⟨turnsOf_snoc hn.kinds ?_, fun _ => hn.first (.inl life), hn.positive, nofun, hn.fault⟩
    simp only [turns, life, Turns.accept]
  | turnStart life =>
    refine ⟨turnsOf_snoc hn.kinds ?_, nofun, hn.positive, nofun, hn.fault⟩
    rcases life with life | life
    · simp only [turns, life, hn.first (.inr life), Turns.accept]
      rfl
    · have hpositive := hn.positive
      simp only [turns, life, Turns.accept]
      rw [if_pos ⟨trivial, by omega⟩, Nat.sub_add_cancel hpositive]
  | messageStart => exact hsame rfl rfl fun _ => rfl
  | promptStart => exact hsame rfl rfl fun _ => rfl
  | textStart => exact hsame rfl rfl fun _ => rfl
  | textUpdate => exact hsame rfl rfl fun _ => rfl
  | messageEnd => exact hsame rfl rfl fun _ => rfl
  | side _ side => exact hsame rfl rfl fun _ => by cases kind <;> first | rfl | cases side
  | turnEnd turn =>
    refine ⟨turnsOf_snoc hn.kinds ?_, nofun, hn.positive, nofun, hn.fault⟩
    simp only [turns, turn.life, Turns.accept, and_self, if_true]
  | agentEnd life =>
    refine ⟨turnsOf_snoc hn.kinds ?_, nofun, hn.positive, nofun, hn.fault⟩
    rcases life with life | life <;> simp only [turns, life, Turns.accept, if_true]
  | settleTurnEnd life =>
    refine ⟨turnsOf_snoc hn.kinds ?_, nofun, hn.positive, nofun, hn.fault⟩
    simp only [turns, life, Turns.accept, and_self, if_true]
  | settleAgentEnd life =>
    refine ⟨turnsOf_snoc hn.kinds ?_, nofun, hn.positive, nofun, hn.fault⟩
    simp only [turns, life, Turns.accept, if_true]

/-- Without a failed observer or boundary hook the loop fails in an open turn only. -/
theorem LoopFailed.turnOpen (hf : LoopFailed h s) (hlife : s.life.looping = true)
    (hobserver : s.fault ≠ some .observer) (hhook : s.fault ≠ some .boundaryHook) :
    s.life = .turnOpen := by
  unfold LoopFailed at hf
  rcases hfault : s.fault with _ | _ | _ | _ <;> simp only [hfault] at hf
  · rcases hf with hf | ⟨phase, hf, _⟩ | ⟨hf, _⟩
    · rw [hf] at hlife; cases hlife
    · rw [hf] at hlife; cases hlife
    · exact hf
  · exact absurd hfault hobserver
  · exact absurd hfault hhook
  · exact hf.1

theorem Moves.numbered (hm : Moves h s s') (hobserver : s.fault ≠ some .observer)
    {kinds : List AgentEventKind} (hn : Numbered s kinds) : Numbered s' kinds := by
  cases hm with
  | stay life turn fault =>
    have hturns : turns s' = turns s := by rw [turns, life, turn, turns]
    exact ⟨hturns ▸ hn.kinds, turn ▸ life ▸ hn.first, turn ▸ hn.positive,
      turn ▸ life ▸ hn.room, fault ▸ hn.fault⟩
  | begin life =>
    have hk := hn.kinds
    simp only [turns, life] at hk
    exact ⟨hk, fun _ => rfl, Nat.le_refl 1, nofun, hn.fault⟩
  | reject life =>
    have hk := hn.kinds
    simp only [turns, life] at hk
    exact ⟨hk, nofun, hn.positive, nofun, hn.fault⟩
  | poll life turn fault =>
    have hk := hn.kinds
    have hroom := hn.room (by rcases life with ⟨life, _⟩ | ⟨life, _⟩ <;> rw [life] <;> rfl)
    refine ⟨?_, fun hlife => ?_, turn ▸ hn.positive, fun _ => turn ▸ hroom, fault ▸ hn.fault⟩
    · rcases life with ⟨life, life'⟩ | ⟨life, life'⟩ <;>
        simp only [turns, life, life', turn] at hk ⊢ <;> exact hk
    · rcases life with ⟨_, life'⟩ | ⟨_, life'⟩ <;> rcases hlife with hlife | hlife <;>
        rw [life'] at hlife <;> cases hlife
  | advance life =>
    have hk := hn.kinds
    have hnext : (satSucc s.turn.val).toNat = s.turn.val.toNat + 1 :=
      satSucc_eq_succ (hn.room (by rcases life with life | life <;> rw [life] <;> rfl))
    refine ⟨?_, nofun, ?_, nofun, hn.fault⟩
    · simp only [turns, nextTurnId, hnext, Nat.add_sub_cancel]
      rcases life with life | life <;> simp only [turns, life] at hk <;> exact hk
    · simp only [nextTurnId, hnext]
      omega
  | leave failed life =>
    have hk := hn.kinds
    simp only [turns, LoopFailed.turnOpen failed life hobserver hn.fault] at hk
    exact ⟨hk, nofun, hn.positive, nofun, hn.fault⟩
  | skip life life' turn fault =>
    have hk := hn.kinds
    simp only [turns, life] at hk
    refine ⟨?_, ?_, turn ▸ hn.positive, ?_, fault ▸ hn.fault⟩
    · simp only [turns, life', turn]
      exact hk
    · rw [life']; nofun
    · rw [life']; nofun
  | finish life =>
    have hk := hn.kinds
    refine ⟨?_, nofun, hn.positive, nofun, hn.fault⟩
    rcases life with life | life <;> simp only [turns, life] at hk <;> exact hk
  | settle life =>
    have hk := hn.kinds
    simp only [turns, life] at hk
    exact ⟨hk, nofun, hn.positive, nofun, hn.fault⟩

/-- The hooks between two turns do not fail, and let no run go on whose turn has the
    largest identifier. -/
structure BoundaryHooks (answers : Now → (query : Query) → Reply query → Prop) : Prop where
  prepare : ∀ m context error, ¬ answers m (.prepareNextTurn context) (.error error)
  stop : ∀ m context error, ¬ answers m (.shouldStopAfterTurn context) (.error error)
  room : ∀ m context id, answers m (.shouldStopAfterTurn context) (.ok false) →
    m.state.run.turnId = some id → id.val.toNat < u64Max

theorem Replies.numbered (hhooks : BoundaryHooks answers) {m : Now} {query : Query}
    {reply : Reply query} (hr : Replies s query reply s') (ha : answers m query reply)
    (hc : Consistent s m.state) {kinds : List AgentEventKind} (hn : Numbered s kinds) :
    Numbered s' kinds := by
  obtain ⟨hturn, _, hlife⟩ := hr.frame
  have hsame : s'.life = s.life → s'.fault ≠ some .boundaryHook → Numbered s' kinds := by
    intro hlife hfault
    have hturns : turns s' = turns s := by rw [turns, hlife, hturn, turns]
    exact ⟨hturns ▸ hn.kinds, hturn ▸ hlife ▸ hn.first, hturn ▸ hn.positive,
      hturn ▸ hlife ▸ hn.room, hfault⟩
  cases hr with
  | accepted => exact hsame rfl hn.fault
  | refused => exact hsame rfl nofun
  | opened => exact hsame rfl hn.fault
  | unopened => exact hsame rfl hn.fault
  | @event reply turn calls =>
    refine hsame ?_ ?_
    · rcases hlife with hlife | ⟨hclosed, _⟩
      · exact hlife
      · rw [turn.life] at hclosed; cases hclosed
    · rcases Stage.receive_fault (s := s) reply with hfault | hfault
      · rw [hfault]; exact hn.fault
      · rw [hfault]; nofun
  | unprepared => exact absurd ha (hhooks.prepare _ _ _)
  | undecided => exact absurd ha (hhooks.stop _ _ _)
  | declined life =>
    have hk := hn.kinds
    simp only [turns, life] at hk
    refine ⟨hk, nofun, hn.positive, fun _ => ?_, hn.fault⟩
    exact hhooks.room m _ _ ha (hc.owned (by rw [life]; rfl)).2.1
  | proposed => exact hsame rfl hn.fault
  | unproposed => exact hsame rfl hn.fault
  | passive => exact hsame rfl hn.fault

theorem numbered_invariant (hat : Attentive answers) (hhooks : BoundaryHooks answers) :
    (machine h).Invariant (Host.of acts answers) fun s m =>
      ((Consistent s m.state ∧ Sealed m.past) ∧ s.fault ≠ some .observer) ∧
        Numbered s m.state.run.kinds := by
  refine (attentive_invariant hat).and ?_ ?_ ?_
  · rintro s m w _ hn ⟨op, _, rfl⟩
    exact (ClientOp.client op m.state).kinds ▸ hn
  · intro s m update s' ⟨_, hf⟩ hn hown
    rcases hown.moves with ⟨kind, records, hkinds, _⟩ | ⟨moves, hkinds, _⟩
    · exact hkinds ▸ Records.numbered records hn
    · exact hkinds ▸ Moves.numbered moves hf hn
  · intro s m query answer s' ⟨⟨hc, _⟩, _⟩ hn ha hr
    exact Replies.numbered hhooks hr ha hc hn

/-! ### Turn brackets -/

/-- A host whose `prepare_next_turn` hook fails. -/
def failsToPrepare : Script where
  prepare := .error { hook := "prepare_next_turn", message := "unavailable" }

end Tea.Contract
