/-
  Tea/Lifecycle/Moves.lean
  ========================
  **What a step of the run does to its events.**

  A critical section records one event as the grammar says, or it records none and
  moves the stage at most along the life of the run (`Own.moves`).  Every property
  of the recorded events is proved from these two cases.
-/
import Tea.Lifecycle.Script

namespace Tea.Lifecycle

open Tea.Async Tea.Core Tea.Run

variable {h : RunHandle} {s s' : Stage} {w w' : World}
  {acts : Now → ClientOp → Prop} {answers : Now → (query : Query) → Reply query → Prop}

/-- The moves of a stage without an event. -/
inductive Moves (h : RunHandle) : Stage → Stage → Prop where
  | stay {s s' : Stage} (life : s'.life = s.life) (turn : s'.turn = s.turn)
      (fault : s'.fault = s.fault) : Moves h s s'
  | begin {s : Stage} (life : s.life = .created) : Moves h s { s with life := .opening, turn := ⟨1⟩ }
  | reject {s : Stage} (life : s.life = .created) : Moves h s { s with life := .rejected }
  | poll {s s' : Stage} (life : s.life = .polling ∧ s'.life = .polled ∨
        s.life = .polled ∧ s'.life = .drained) (turn : s'.turn = s.turn)
      (fault : s'.fault = s.fault) : Moves h s s'
  | advance {s : Stage} (life : s.life = .polled ∨ s.life = .drained) :
      Moves h s { s with life := .advanced, turn := nextTurnId s.turn }
  | leave {s : Stage} (failed : LoopFailed h s) (life : s.life.looping = true) :
      Moves h s { s with life := .failing }
  | skip {s s' : Stage} (life : s.life = .failing) (life' : s'.life = .settling)
      (turn : s'.turn = s.turn) (fault : s'.fault = s.fault) : Moves h s s'
  | finish {s : Stage} {phase : RunPhase} (life : s.life = .ended ∨ s.life = .settledEnd) :
      Moves h s { s with life := .finished phase }
  | settle {s : Stage} {phase : RunPhase} (life : s.life = .finished phase) :
      Moves h s { s with life := .settled phase }

theorem Own.moves (hown : Own h s w w' s') :
    (∃ kind, Records h s kind s' ∧ w'.run.kinds = w.run.kinds ++ [kind] ∧
        w'.settling = w.settling) ∨
      (Moves h s s' ∧ w'.run.kinds = w.run.kinds ∧
        (w'.settling = w.settling ∨ s'.life = .failing)) := by
  have hcore : ∀ {c : Core}, core w' = c → c.run = w.run → c.settling = w.settling →
      w'.run.kinds = w.run.kinds ∧ (w'.settling = w.settling ∨ s'.life = .failing) := by
    intro c hc hrun hsettling
    have hrun' : w'.run = w.run := (congrArg Core.run hc).trans hrun
    exact ⟨by rw [hrun'], .inl ((congrArg Core.settling hc).trans hsettling)⟩
  cases hown with
  | still => exact .inr ⟨.stay rfl rfl rfl, rfl, .inl rfl⟩
  | quiet _ quiet => exact .inr ⟨.stay rfl rfl rfl, hcore quiet.core_eq rfl rfl⟩
  | begin life => exact .inr ⟨.begin life, rfl, .inl rfl⟩
  | reject life => exact .inr ⟨.reject life, rfl, .inl rfl⟩
  | record records => exact .inl ⟨_, records, by simp, rfl⟩
  | advance life => exact .inr ⟨.advance life, rfl, .inl rfl⟩
  | drainSteering life => exact .inr ⟨.poll (.inl ⟨life, rfl⟩) rfl rfl, rfl, .inl rfl⟩
  | drainFollowUp life => exact .inr ⟨.poll (.inr ⟨life, rfl⟩) rfl rfl, rfl, .inl rfl⟩
  | append appends _ core_eq =>
    refine .inr ⟨?_, hcore core_eq rfl rfl⟩
    cases appends with
    | failure life => exact .skip life rfl rfl rfl
    | _ => exact .stay rfl rfl rfl
  | openText _ _ _ _ _ core_eq => exact .inr ⟨.stay rfl rfl rfl, hcore core_eq rfl rfl⟩
  | extendText _ _ core_eq => exact .inr ⟨.stay rfl rfl rfl, hcore core_eq rfl rfl⟩
  | closeText _ _ _ _ _ core_eq => exact .inr ⟨.stay rfl rfl rfl, hcore core_eq rfl rfl⟩
  | truncate _ _ _ _ core_eq => exact .inr ⟨.stay rfl rfl rfl, hcore core_eq rfl rfl⟩
  | leave failed life => exact .inr ⟨.leave failed life, rfl, .inr rfl⟩
  | skip life quiet => exact .inr ⟨.skip life rfl rfl rfl, hcore quiet.core_eq rfl rfl⟩
  | finish life => exact .inr ⟨.finish life, rfl, .inl rfl⟩
  | settle life =>
    have hclient := settleAgent_client (w := w) .idle ‹_›
    exact .inr ⟨.settle life, hclient.kinds, .inl hclient.settling⟩
  | _ => exact .inr ⟨.stay rfl rfl rfl, rfl, .inl rfl⟩

/-- A run that was refused, or is not begun, has changed nothing. -/
theorem Own.unbegun (hown : Own h s w w' s') (hlife : s'.life = .created ∨ s'.life = .rejected) :
    s.life = .created ∨ s.life = .rejected := by
  rcases hown.moves with ⟨kind, records, _⟩ | ⟨moves, _⟩
  · have hrunning := records.running
    rcases hlife with hlife | hlife <;> rw [hlife] at hrunning <;> cases hrunning
  · cases moves with
    | stay life => exact life ▸ hlife
    | reject life => exact .inl life
    | poll life =>
      rcases life with ⟨_, life'⟩ | ⟨_, life'⟩ <;> rcases hlife with hlife | hlife <;>
        rw [life'] at hlife <;> cases hlife
    | skip _ life' => rcases hlife with hlife | hlife <;> rw [life'] at hlife <;> cases hlife
    | _ => rcases hlife with hlife | hlife <;> cases hlife

theorem Own.still_of_unbegun (hown : Own h s w w' s')
    (hlife : s'.life = .created ∨ s'.life = .rejected) : w' = w := by
  have hidle : ¬ s.life.running = true := by
    rcases hown.unbegun hlife with hlife | hlife <;> rw [hlife] <;> exact Bool.false_ne_true
  have hturn : ¬ TurnOpen s := fun hturn => hidle hturn.running
  cases hown with
  | still => rfl
  | quiet life => exact absurd (Life.works_iff.mp life).1 hidle
  | begin => rcases hlife with hlife | hlife <;> cases hlife
  | reject => rfl
  | record records => exact absurd records.frame.1 hidle
  | advance => rcases hlife with hlife | hlife <;> cases hlife
  | firstSteering turn => exact absurd turn.turnOpen hturn
  | drainSteering life => exact absurd (by rw [life]; rfl) hidle
  | drainFollowUp life => exact absurd (by rw [life]; rfl) hidle
  | append appends => exact absurd appends.frame.1 hidle
  | openText turn => exact absurd turn.turnOpen hturn
  | extendText turn => exact absurd turn hturn
  | closeText turn => exact absurd turn hturn
  | mark => rfl
  | claim turn => exact absurd turn.turnOpen hturn
  | report => rfl
  | policy turn => exact absurd turn.turnOpen hturn
  | reserve turn => exact absurd turn.turnOpen hturn
  | decide turn => exact absurd turn.turnOpen hturn
  | truncate turn => exact absurd turn.turnOpen hturn
  | commit turn => exact absurd turn.turnOpen hturn
  | leave => rcases hlife with hlife | hlife <;> cases hlife
  | skip => rcases hlife with hlife | hlife <;> cases hlife
  | finish => rcases hlife with hlife | hlife <;> cases hlife
  | settle => rcases hlife with hlife | hlife <;> cases hlife

/-! ### Faults -/

theorem Records.fault {kind : AgentEventKind} (hr : Records h s kind s') : s'.fault = s.fault := by
  cases hr <;> rfl

/-- Faults come from replies only. -/
theorem Own.fault (hown : Own h s w w' s') : s'.fault = s.fault := by
  cases hown with
  | record records => exact records.fault
  | append appends => cases appends <;> rfl
  | _ => rfl

/-- No observer fails. -/
def Attentive (answers : Now → (query : Query) → Reply query → Prop) : Prop :=
  ∀ m observer event error, ¬ answers m (.observe observer event) (.error error)

theorem Script.attentive {S : Script} (hS : ∀ kind, S.observe kind = .ok ()) :
    Attentive S.answers := by
  intro m observer event error ha
  have hreply := Script.answers_observe ha
  rw [hS] at hreply
  cases hreply

/-- The stream fails after the events of a response, or breaks its protocol. -/
def Broken (events : List ModelStreamEvent) : Item → Prop
  | .error _ => True
  | .ok none => (collect events).reason = none
  | .ok (some _) => (collect events).reason ≠ none

instance (events : List ModelStreamEvent) : DecidablePred (Broken events)
  | .error _ => isTrue trivial
  | .ok none => inferInstanceAs (Decidable (_ = none))
  | .ok (some _) => inferInstanceAs (Decidable (_ ≠ none))

/-- An item of a stream is a further event, the end of a complete response, or a
    failure. -/
theorem Stage.receive_cases (item : Item) :
    (∃ event, item = .ok (some event) ∧ (collect s.response).reason = none ∧
        s.receive item = { s with response := s.response ++ [event] }) ∨
      (item = .ok none ∧ (collect s.response).reason ≠ none ∧ s.receive item = s) ∨
      (Broken s.response item ∧ s.receive item = { s with fault := some .stream }) := by
  rcases item with error | _ | event
  · exact .inr (.inr ⟨trivial, rfl⟩)
  · rcases hreason : (collect s.response).reason with _ | reason
    · exact .inr (.inr ⟨hreason, by simp only [Stage.receive, hreason, Option.isNone_none, if_true]⟩)
    · refine .inr (.inl ⟨rfl, Option.some_ne_none reason, ?_⟩)
      simp only [Stage.receive, hreason, Option.isNone_some, Bool.false_eq_true, if_false]
  · rcases hreason : (collect s.response).reason with _ | reason
    · refine .inl ⟨event, rfl, rfl, ?_⟩
      simp only [Stage.receive, hreason, Option.isSome_none, Bool.false_eq_true, if_false]
    · refine .inr (.inr ⟨?_, by simp only [Stage.receive, hreason, Option.isSome_some, if_true]⟩)
      rw [Broken, hreason]
      exact Option.some_ne_none reason

theorem Stage.receive_fault (item : Item) :
    (s.receive item).fault = s.fault ∨ (s.receive item).fault = some .stream := by
  rcases Stage.receive_cases (s := s) item with ⟨_, _, _, heq⟩ | ⟨_, _, heq⟩ | ⟨_, heq⟩
  · exact .inl (by rw [heq])
  · exact .inl (by rw [heq])
  · exact .inr (by rw [heq])

theorem Replies.unfailed (hat : Attentive answers) {m : Now} {query : Query}
    {reply : Reply query} (ha : answers m query reply) (hr : Replies s query reply s')
    (hf : s.fault ≠ some .observer) : s'.fault ≠ some .observer := by
  cases hr with
  | refused => exact absurd ha (hat _ _ _ _)
  | @event reply turn calls =>
    rcases Stage.receive_fault (s := s) reply with hfault | hfault
    · rw [hfault]; exact hf
    · rw [hfault]; exact fun heq => by cases heq
  | unprepared => exact fun heq => by cases heq
  | undecided => exact fun heq => by cases heq
  | _ => exact hf

theorem attentive_invariant (hat : Attentive answers) :
    (machine h).Invariant (Host.of acts answers)
      fun s m => (Consistent s m.state ∧ Sealed m.past) ∧ s.fault ≠ some .observer := by
  refine lifecycle_invariant.and (fun _ _ _ _ hf _ => hf) ?_ ?_
  · intro s m update s' _ hf hown
    rw [hown.fault]
    exact hf
  · intro s m query answer s' _ hf ha hr
    exact hr.unfailed hat ha hf

end Tea.Lifecycle
