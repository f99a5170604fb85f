/-
  Tea/Contract/AgentBracket.lean
  ==============================
  **`AgentStart` and `AgentEnd` bracket the events of a run**, as long as no
  observer rejects the `AgentEnd` that the run loop itself emits: the settlement of
  that rejection records a second one.
-/
import Tea.Lifecycle.Moves

namespace Tea.Contract

open Tea.Async Tea.Core Tea.Run Tea.Lifecycle

variable {h : RunHandle} {s s' : Stage} {w w' : World}
  {acts : Now → ClientOp → Prop} {answers : Now → (query : Query) → Reply query → Prop}

def isAgentStart : AgentEventKind → Bool
  | .agentStart => true
  | _ => false

/-- The events of a settled run. -/
structure EventsSettled (kinds : List AgentEventKind) : Prop where
  start_once : kinds.countP isAgentStart ≤ 1
  start_first : kinds ≠ [] → kinds.head? = some .agentStart
  end_once : kinds.countP isAgentEnd = 1
  end_last : ∃ messages, kinds.getLast? = some (.agentEnd messages)

/-- The drive call was refused: the run had been aborted before it was driven. -/
def Refused (m : Now) : Prop :=
  m.state.run.kinds = [] ∧ ∀ before after, .own before after ∈ m.past → after = before

/-! ### The bracket of a life -/

def Inner (kinds : List AgentEventKind) : Prop :=
  ∀ kind ∈ kinds, isAgentStart kind = false ∧ isAgentEnd kind = false

def Begun (kinds : List AgentEventKind) : Prop :=
  ∃ inner, kinds = .agentStart :: inner ∧ Inner inner

def Complete (kinds : List AgentEventKind) : Prop :=
  ∃ inner messages, kinds = .agentStart :: (inner ++ [.agentEnd messages]) ∧ Inner inner

theorem Begun.snoc {kinds : List AgentEventKind} {kind : AgentEventKind} (hk : Begun kinds)
    (hstart : isAgentStart kind = false) (hend : isAgentEnd kind = false) :
    Begun (kinds ++ [kind]) := by
  obtain ⟨inner, rfl, hinner⟩ := hk
  refine ⟨inner ++ [kind], rfl, fun k hk => ?_⟩
  rcases List.mem_append.mp hk with hk | hk
  · exact hinner k hk
  · rw [List.mem_singleton.mp hk]
    exact ⟨hstart, hend⟩

theorem Begun.complete {kinds : List AgentEventKind} (hk : Begun kinds)
    (messages : List AgentMessage) : Complete (kinds ++ [.agentEnd messages]) := by
  obtain ⟨inner, rfl, hinner⟩ := hk
  exact ⟨inner, messages, rfl, hinner⟩

theorem Complete.settled {kinds : List AgentEventKind} (hk : Complete kinds) :
    EventsSettled kinds := by
  obtain ⟨inner, messages, rfl, hinner⟩ := hk
  have hstart : inner.countP isAgentStart = 0 :=
    List.countP_eq_zero.mpr fun kind hkind => by simp [(hinner kind hkind).1]
  have hend : inner.countP isAgentEnd = 0 :=
    List.countP_eq_zero.mpr fun kind hkind => by simp [(hinner kind hkind).2]
  refine ⟨?_, fun _ => rfl, ?_, messages, ?_⟩
  · simp only [List.countP_cons, List.countP_append, hstart, isAgentStart]
    simp
  · simp only [List.countP_cons, List.countP_append, hend, isAgentEnd]
    simp
  · rw [← List.cons_append, List.getLast?_concat]

/-- The bracket that belongs to a life. -/
def bracket : Life → List AgentEventKind → Prop
  | .created => (· = [])
  | .rejected => (· = [])
  | .opening => (· = [])
  | .ended => Complete
  | .settledEnd => Complete
  | .finished _ => Complete
  | .settled _ => Complete
  | _ => Begun

theorem bracket_begun {life : Life} (hlife : life.running = true) (hopening : life ≠ .opening)
    (hended : life ≠ .ended) (hend : life ≠ .settledEnd) : bracket life = Begun := by
  cases life <;> first | rfl | contradiction

theorem side_inner {kind : AgentEventKind} (hside : isSide kind = true) :
    isAgentStart kind = false ∧ isAgentEnd kind = false := by
  cases kind <;> first | exact ⟨rfl, rfl⟩ | cases hside

/-- Between the two brackets the events leave the bracket open. -/
theorem Records.inner {kind : AgentEventKind} (hr : Records h s kind s')
    (hstart : isAgentStart kind = false) (hend : isAgentEnd kind = false) :
    bracket s.life = Begun ∧ bracket s'.life = Begun := by
  have hturn : TurnOpen s → bracket s.life = Begun := fun hs => by rw [hs.life]; rfl
  have hspeaking : Speaking s → bracket s.life = Begun := fun hs => by
    rcases hs with hs | hlife
    · exact hturn hs
    · rw [hlife]; rfl
  cases hr with
  | agentStart => cases hstart
  | agentEnd => cases hend
  | settleAgentEnd => cases hend
  | turnStart life => exact ⟨by rcases life with life | life <;> rw [life] <;> rfl, rfl⟩
  | messageStart speaking => exact ⟨hspeaking speaking, hspeaking speaking⟩
  | promptStart turn => exact ⟨hturn turn.turnOpen, hturn turn.turnOpen⟩
  | textStart turn => exact ⟨hturn turn, hturn turn⟩
  | textUpdate turn => exact ⟨hturn turn, hturn turn⟩
  | messageEnd speaking => exact ⟨hspeaking speaking, hspeaking speaking⟩
  | side turn => exact ⟨hturn turn.turnOpen, hturn turn.turnOpen⟩
  | turnEnd turn => exact ⟨hturn turn.turnOpen, rfl⟩
  | settleTurnEnd life => exact ⟨by rw [life]; rfl, rfl⟩

theorem Records.bracket {kind : AgentEventKind} (hr : Records h s kind s')
    {kinds : List AgentEventKind} (hk : Contract.bracket s.life kinds) :
    Contract.bracket s'.life (kinds ++ [kind]) := by
  by_cases hstart : isAgentStart kind = false
  · by_cases hend : isAgentEnd kind = false
    · obtain ⟨hs, hs'⟩ := Records.inner hr hstart hend
      rw [hs] at hk
      rw [hs']
      exact hk.snoc hstart hend
    · cases hr with
      | agentEnd life =>
        have hbegun : Begun kinds := by rcases life with life | life <;> rw [life] at hk <;> exact hk
        exact hbegun.complete _
      | settleAgentEnd life =>
        rw [life] at hk
        exact Begun.complete hk _
      | side _ side => exact absurd (side_inner side).2 hend
      | _ => exact absurd rfl hend
  · cases hr with
    | agentStart life =>
      rw [life] at hk
      exact ⟨[], by rw [show kinds = [] from hk]; rfl, fun _ hmem => by cases hmem⟩
    | side _ side => exact absurd (side_inner side).1 hstart
    | _ => exact absurd rfl hstart

/-! ### The invariant -/

/-- The loop has returned. -/
def left : Life → Bool
  | .failing => true
  | .settling => true
  | .settledTurn => true
  | .settledEnd => true
  | .finished _ => true
  | .settled _ => true
  | _ => false

structure Bracketed (s : Stage) (m : Now) : Prop where
  kinds : bracket s.life m.state.run.kinds
  fault : s.life = .ended → s.fault = none
  settling : m.state.settling = true → left s.life = true
  unbegun : s.life = .created ∨ s.life = .rejected →
    ∀ before after, .own before after ∈ m.past → after = before

theorem Moves.bracket (hm : Moves h s s') (hfault : s.life = .ended → s.fault = none)
    {kinds : List AgentEventKind} (hk : Contract.bracket s.life kinds) :
    Contract.bracket s'.life kinds := by
  cases hm with
  | stay life => rw [life]; exact hk
  | begin life => rw [life] at hk; exact hk
  | reject life => rw [life] at hk; exact hk
  | poll life =>
    rcases life with ⟨life, life'⟩ | ⟨life, life'⟩ <;> rw [life] at hk <;> rw [life'] <;> exact hk
  | advance life => rcases life with life | life <;> rw [life] at hk <;> exact hk
  | leave failed life =>
    have hended : s.life ≠ .ended := fun hended => by
      unfold LoopFailed at failed
      rw [hfault hended] at failed
      rcases failed with hlife | ⟨phase, hlife, _⟩ | ⟨hlife, _⟩ <;> rw [hended] at hlife <;>
        cases hlife
    rw [bracket_begun (looping_running life) (fun h => by rw [h] at life; cases life) hended
      (fun h => by rw [h] at life; cases life)] at hk
    exact hk
  | skip life life' => rw [life] at hk; rw [life']; exact hk
  | finish life => rcases life with life | life <;> rw [life] at hk <;> exact hk
  | settle life => rw [life] at hk; exact hk

theorem Moves.left (hm : Moves h s s') (hleft : Contract.left s.life = true) :
    Contract.left s'.life = true := by
  cases hm with
  | stay life => rw [life]; exact hleft
  | begin life => rw [life] at hleft; cases hleft
  | reject life => rw [life] at hleft; cases hleft
  | poll life => rcases life with ⟨life, _⟩ | ⟨life, _⟩ <;> rw [life] at hleft <;> cases hleft
  | advance life => rcases life with life | life <;> rw [life] at hleft <;> cases hleft
  | skip _ life' => rw [life']; rfl
  | _ => rfl

theorem Records.left {kind : AgentEventKind} (hr : Records h s kind s')
    (hleft : Contract.left s.life = true) : Contract.left s'.life = true := by
  have hturn : ¬ TurnOpen s := fun hs => by rw [hs.life] at hleft; cases hleft
  cases hr with
  | agentStart => rename_i life; rw [life] at hleft; cases hleft
  | turnStart life => rcases life with life | life <;> rw [life] at hleft <;> cases hleft
  | promptStart turn => exact absurd turn.turnOpen hturn
  | textStart turn => exact absurd turn hturn
  | textUpdate turn => exact absurd turn hturn
  | side turn => exact absurd turn.turnOpen hturn
  | turnEnd turn => exact absurd turn.turnOpen hturn
  | agentEnd life => rcases life with life | life <;> rw [life] at hleft <;> cases hleft
  | messageStart => exact hleft
  | messageEnd => exact hleft
  | _ => rfl

theorem Records.ended_fault {kind : AgentEventKind} (hr : Records h s kind s')
    (hended : s'.life = .ended) : s'.fault = none := by
  cases hr with
  | agentEnd _ _ fault => exact fault
  | messageStart speaking => exact absurd hended speaking.not_ended
  | messageEnd speaking => exact absurd hended speaking.not_ended
  | promptStart turn => exact absurd hended turn.turnOpen.not_ended
  | side turn => exact absurd hended turn.turnOpen.not_ended
  | textStart turn => exact absurd hended turn.not_ended
  | textUpdate turn => exact absurd hended turn.not_ended
  | _ => cases hended

theorem Moves.ended_fault (hm : Moves h s s') (hfault : s.life = .ended → s.fault = none)
    (hended : s'.life = .ended) : s'.fault = none := by
  cases hm with
  | stay life _ fault => rw [fault]; exact hfault (life ▸ hended)
  | poll life => rcases life with ⟨_, life'⟩ | ⟨_, life'⟩ <;> rw [life'] at hended <;> cases hended
  | skip _ life' => rw [life'] at hended; cases hended
  | _ => cases hended

/-- No observer rejects the `AgentEnd` of a loop that has not returned an error. -/
def AcceptsEnd (answers : Now → (query : Query) → Reply query → Prop) : Prop :=
  ∀ m observer event error, answers m (.observe observer event) (.error error) →
    isAgentEnd event.kind = true → m.state.settling = true

theorem Replies.ended_fault (hanswers : AcceptsEnd answers) {m : Now} {query : Query}
    {reply : Reply query} (ha : answers m query reply) (hr : Replies s query reply s')
    (hb : Bracketed s m) (hended : s'.life = .ended) : s'.fault = none := by
  have hframe := hr.frame.2.2
  cases hr with
  | @refused observer event error hend =>
    have hsettling := hanswers m observer event error ha (hend hended)
    have hleft := hb.settling hsettling
    rw [show s.life = .ended from hended] at hleft
    cases hleft
  | accepted => exact hb.fault hended
  | event turn =>
    rcases hframe with hlife | ⟨_, hlife⟩
    · rw [hlife, turn.life] at hended
      cases hended
    · rw [hlife] at hended
      cases hended
  | opened turn => exact absurd hended turn.turnOpen.not_ended
  | unopened turn => exact absurd hended turn.turnOpen.not_ended
  | unprepared life => rw [show s.life = .ended from hended] at life; cases life
  | undecided life => rw [show s.life = .ended from hended] at life; cases life
  | declined => cases hended
  | proposed => exact hb.fault hended
  | unproposed => exact hb.fault hended
  | passive => exact hb.fault hended

theorem bracketed_invariant (hanswers : AcceptsEnd answers) :
    (machine h).Invariant (Host.of acts answers)
      fun s m => (Consistent s m.state ∧ Sealed m.past) ∧ Bracketed s m := by
  refine lifecycle_invariant.and ?_ ?_ ?_
  · rintro s m w _ hb ⟨op, _, rfl⟩
    have hc := ClientOp.client op m.state
    refine ⟨?_, hb.fault, fun hset => hb.settling (hc.settling ▸ hset), ?_⟩
    · exact hc.kinds ▸ hb.kinds
    · rintro hlife before after (_ | ⟨_, hmem⟩)
      exact hb.unbegun hlife before after hmem
  · intro s m update s' _ hb hown
    have hpast : s'.life = .created ∨ s'.life = .rejected →
        ∀ before after, .own before after ∈ (m.own update).past → after = before := by
      rintro hlife before after (_ | ⟨_, hmem⟩)
      · exact hown.still_of_unbegun hlife
      · exact hb.unbegun (hown.unbegun hlife) before after hmem
    rcases hown.moves with ⟨kind, records, hkinds, hset⟩ | ⟨moves, hkinds, hset⟩
    · refine ⟨?_, Records.ended_fault records, fun hsettling => ?_, hpast⟩
      · exact hkinds ▸ Records.bracket records hb.kinds
      · exact Records.left records (hb.settling (hset ▸ hsettling))
    · refine ⟨?_, Moves.ended_fault moves hb.fault, fun hsettling => ?_, hpast⟩
      · exact hkinds ▸ Moves.bracket moves hb.fault hb.kinds
      · rcases hset with hset | hlife
        · exact Moves.left moves (hb.settling (hset ▸ hsettling))
        · rw [hlife]; rfl
  · intro s m query answer s' _ hb ha hr
    obtain ⟨_, _, hlife⟩ := hr.frame
    refine ⟨?_, Replies.ended_fault hanswers ha hr hb, fun hsettling => ?_, ?_⟩
    · rcases hlife with hlife | ⟨hlife, hlife'⟩
      · rw [hlife]; exact hb.kinds
      · rw [hlife']
        have hk := hb.kinds
        rw [hlife] at hk
        exact hk
    · have hleft := hb.settling hsettling
      rcases hlife with hlife | ⟨hlife, hlife'⟩
      · rw [hlife]; exact hleft
      · rw [hlife] at hleft
        cases hleft
    · rintro hunbegun before after (_ | ⟨_, hmem⟩)
      refine hb.unbegun ?_ before after hmem
      rcases hlife with hlife | ⟨_, hlife'⟩
      · exact hlife ▸ hunbegun
      · rcases hunbegun with hunbegun | hunbegun <;> rw [hlife'] at hunbegun <;> cases hunbegun

/-! ### Settled events -/

theorem Claimed.bracketed {a : Agent} {contents : List String} {skip : Bool} {w₀ : World}
    (hc : Claimed a contents skip w₀ h w) : Bracketed (Stage.claimed w.run.id) (Now.start w) := by
  obtain rfl := hc.world
  exact ⟨rfl, nofun, nofun, fun _ _ _ hmem => by cases hmem⟩

/-- A host whose observer rejects every `AgentEnd`. -/
def rejectsEnd : Script where
  observe kind := if isAgentEnd kind then .error .cancelled else .ok ()

end Tea.Contract
