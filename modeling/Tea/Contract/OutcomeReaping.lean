/-
  Tea/Contract/OutcomeReaping.lean
  ================================
  **Outcomes of operations in the terminal application.**  The agent is idle as soon as
  an operation is settled, before its outcome is sent and before the loop reaps it; an
  operation that is started in between takes the place of the receiver, and the
  outcome is lost (`outcome_lost`).  In every run in which nothing is started while an
  outcome is still to be reaped, and which no error and no panic cuts short, each
  operation is reaped exactly once before the loop ends (`outcomes_reaped`).
-/

import Tea.Tui.Moves

namespace Tea.Contract

open Tea.Async Tea.Core Tea.Run Tea.Tui

variable {app app' : App}

/-! ### The invariant -/

/-- Each operation is reaped or held, and never both; the agent is driven by the
    operation that is held. -/
structure Reaping (app : App) : Prop where
  nodup : app.reaped.Nodup
  taken : ∀ i, i ∈ app.reaped ↔ ∃ outcome, app.stageOf i = some (.taken outcome)
  owned : ∀ i < app.operations.length, i ∈ app.reaped ∨ app.activeTask = some i
  held : ∀ i, app.activeTask = some i → i < app.operations.length ∧ i ∉ app.reaped
  driven : app.agentIsActive = true →
    app.driver = app.activeTask ∧ app.activeTask.isSome
  ended : ∀ error, app.loop = .ended error → app.activeTask = none
  alive : ∀ i, app.stageOf i ≠ some .vanished

theorem reaping_start (h : Entered app) : Reaping app where
  nodup := by rw [h.reaped]; exact List.nodup_nil
  taken := by simp [h.reaped, App.stageOf, h.operations]
  owned := by simp [h.operations]
  held := by simp [h.activeTask]
  driven := by simp [App.agentIsActive, h.idle]
  ended := by simp [h.activeTask]
  alive := by simp [App.stageOf, h.operations]

/-- The transition neither starts an operation nor ends the loop while an outcome is
    still to be reaped, and no task panics. -/
def Orderly (t : Transition App Label) : Prop :=
  match t.label with
  | .handle event r =>
      t.before.activeTask = none ∨
        t.before.startedBy event = none ∧ (event.choosesModel t.before = false ∨ r.select = none)
  | .crash _ => t.before.activeTask = none
  | .vanish _ => False
  | _ => True

instance : DecidablePred Orderly := fun ⟨before, label, _⟩ =>
  match label with
  | .handle event r => inferInstanceAs (Decidable
      (before.activeTask = none ∨
        before.startedBy event = none ∧ (event.choosesModel before = false ∨ r.select = none)))
  | .crash _ => inferInstanceAs (Decidable (before.activeTask = none))
  | .vanish _ => inferInstanceAs (Decidable False)
  | .reap _ | .quiet | .work _ | .settle _ _ | .retire _ _ | .send _ =>
      inferInstanceAs (Decidable True)

/-- Only the stage of an operation that is not taken has changed. -/
theorem Reaping.moved {i : Nat} {stage : OperationStage} (h : Reaping app)
    (hoperations : app'.operations = (app.setStage i stage).operations)
    (hreaped : app'.reaped = app.reaped) (hactive : app'.activeTask = app.activeTask)
    (hloop : app'.loop = app.loop)
    (hbefore : ∀ outcome, app.stageOf i ≠ some (.taken outcome))
    (hafter : ∀ outcome, stage ≠ .taken outcome) (halive : stage ≠ .vanished)
    (hdriven : app'.agentIsActive = true → app'.driver = app'.activeTask ∧ app'.activeTask.isSome) :
    Reaping app' where
  nodup := by rw [hreaped]; exact h.nodup
  alive := by
    intro j hvanished
    have hstage : app'.stageOf j = (app.setStage i stage).stageOf j := by
      simp only [App.stageOf, hoperations]
    rw [hstage, stageOf_setStage] at hvanished
    split_ifs at hvanished
    · rw [Option.map_eq_some_iff] at hvanished
      obtain ⟨-, -, heq⟩ := hvanished
      exact halive heq
    · exact h.alive j hvanished
  taken := by
    intro j
    have hstage : app'.stageOf j = (app.setStage i stage).stageOf j := by
      simp only [App.stageOf, hoperations]
    rw [hreaped, h.taken j, hstage, stageOf_setStage]
    split_ifs with heq
    · subst heq
      constructor
      · rintro ⟨outcome, htaken⟩
        exact absurd htaken (hbefore outcome)
      · rintro ⟨outcome, htaken⟩
        rw [Option.map_eq_some_iff] at htaken
        obtain ⟨-, -, heq⟩ := htaken
        exact absurd heq (hafter outcome)
    · rfl
  owned := by
    rw [hoperations, length_setStage, hreaped, hactive]
    exact h.owned
  held := by
    rw [hoperations, length_setStage, hreaped, hactive]
    exact h.held
  driven := hdriven
  ended := by
    rw [hloop, hactive]
    exact h.ended

/-- When an outcome waits in the held channel the agent is idle. -/
theorem Reaping.idle_of_sent {i : Nat} {outcome : Except CoreError Unit} (h : Reaping app)
    (hheld : app.activeTask = some i) (hsent : app.stageOf i = some (.sent outcome)) :
    app.agentIsActive = false := by
  rw [← Bool.not_eq_true]
  intro hactive
  have hdriver := (h.driven hactive).1
  rw [hheld] at hdriver
  have hdriving := (driver_some hdriver).2.2
  rw [hsent] at hdriving
  cases hdriving

/-- A reap keeps the invariant: what was held is taken. -/
theorem Reaping.reap {r : Surroundings} {i : Nat} {outcome : Except CoreError Unit}
    (h : Reaping app) (hreaps : Reaps r i outcome app app') : Reaping app' := by
  obtain ⟨hlt, hnot⟩ := h.held i hreaps.held
  have hidle := h.idle_of_sent hreaps.held hreaps.sent
  have hstage : ∀ j, app'.stageOf j = (app.setStage i (.taken outcome)).stageOf j := by
    intro j
    simp only [App.stageOf, hreaps.operations]
  refine ⟨?_, ?_, ?_, ?_, ?_, fun _ _ => hreaps.activeTask, ?_⟩
  · rw [hreaps.reaped, List.nodup_append]
    refine ⟨h.nodup, List.nodup_singleton i, ?_⟩
    intro j hj k hk heq
    rw [List.mem_singleton] at hk
    rw [heq, hk] at hj
    exact hnot hj
  · intro j
    rw [hreaps.reaped, List.mem_append, List.mem_singleton, hstage, stageOf_setStage]
    split_ifs with heq
    · subst heq
      simp [hreaps.sent]
    · have hne : j ≠ i := fun heq' => heq heq'.symm
      rw [← h.taken j]
      simp [hne]
  · intro j hj
    rw [hreaps.operations, length_setStage] at hj
    rw [hreaps.reaped, List.mem_append, List.mem_singleton]
    left
    rcases h.owned j hj with hreaped | hheld
    · exact .inl hreaped
    · right
      rw [hreaps.held, Option.some.injEq] at hheld
      exact hheld.symm
  · intro j hj
    rw [hreaps.activeTask] at hj
    cases hj
  · intro hactive
    have hsame : app'.agentIsActive = app.agentIsActive := by
      simp only [App.agentIsActive, hreaps.core]
    rw [hsame, hidle] at hactive
    cases hactive
  · intro j hvanished
    rw [hstage, stageOf_setStage] at hvanished
    split_ifs at hvanished
    · rw [Option.map_eq_some_iff] at hvanished
      obtain ⟨-, -, heq⟩ := hvanished
      cases heq
    · exact h.alive j hvanished

/-- What is handled without starting anything keeps the invariant. -/
theorem Reaping.kept (h : Reaping app) (hkept : Kept app app') : Reaping app' where
  nodup := by rw [hkept.reaped]; exact h.nodup
  taken := by
    simp only [App.stageOf, hkept.operations, hkept.reaped]
    exact h.taken
  owned := by
    rw [hkept.operations, hkept.reaped, hkept.activeTask]
    exact h.owned
  held := by
    rw [hkept.operations, hkept.reaped, hkept.activeTask]
    exact h.held
  driven := by
    intro hactive
    have hbefore := hkept.active hactive
    have hdriven := h.driven hbefore
    have hdriver : app'.driver = app.driver := by
      simp only [App.driver, App.stageOf, hkept.operations, hactive, hbefore]
    rw [hdriver, hkept.activeTask]
    exact hdriven
  ended := by
    rw [hkept.loop, hkept.activeTask]
    exact h.ended
  alive := by
    simp only [App.stageOf, hkept.operations]
    exact h.alive

/-- An operation that starts when none is held keeps the invariant. -/
theorem Reaping.starts {prompt : Option String} (h : Reaping app)
    (hstarts : Starts prompt app app') (hfree : app.activeTask = none)
    (hloop : app.loop = .handling) : Reaping app' := by
  have hlast : app'.stageOf app.operations.length = some .driving := by
    simp [App.stageOf, hstarts.operations]
  have hearlier : ∀ j < app.operations.length, app'.stageOf j = app.stageOf j := by
    intro j hj
    simp only [App.stageOf, hstarts.operations, List.getElem?_append_left hj]
  have hbound : ∀ j ∈ app.reaped, j < app.operations.length := by
    intro j hj
    obtain ⟨outcome, htaken⟩ := (h.taken j).mp hj
    by_contra hge
    rw [App.stageOf, List.getElem?_eq_none (by omega)] at htaken
    cases htaken
  refine ⟨?_, ?_, ?_, ?_, ?_, ?_, ?_⟩
  · rw [hstarts.reaped]
    exact h.nodup
  · intro j
    rw [hstarts.reaped]
    rcases Nat.lt_trichotomy j app.operations.length with hlt | heq | hgt
    · rw [hearlier j hlt]
      exact h.taken j
    · subst heq
      rw [hlast]
      constructor
      · intro hmem
        exact absurd (hbound _ hmem) (by omega)
      · rintro ⟨outcome, htaken⟩
        cases htaken
    · constructor
      · intro hmem
        exact absurd (hbound _ hmem) (by omega)
      · rintro ⟨outcome, htaken⟩
        rw [App.stageOf, hstarts.operations, List.getElem?_eq_none (by simp; omega)] at htaken
        cases htaken
  · intro j hj
    rw [hstarts.reaped, hstarts.activeTask]
    rw [hstarts.operations, List.length_append, List.length_singleton] at hj
    rcases Nat.lt_succ_iff_lt_or_eq.mp hj with hlt | heq
    · rcases h.owned j hlt with hreaped | hheld
      · exact .inl hreaped
      · rw [hfree] at hheld
        cases hheld
    · exact .inr (by rw [heq])
  · intro j hj
    rw [hstarts.activeTask, Option.some.injEq] at hj
    subst hj
    rw [hstarts.operations, hstarts.reaped]
    refine ⟨by simp, ?_⟩
    intro hmem
    exact absurd (hbound _ hmem) (by omega)
  · intro _
    have hlen : app'.operations.length - 1 = app.operations.length := by
      rw [hstarts.operations]
      simp
    rw [hstarts.activeTask, App.driver, hlen, hlast, if_pos ⟨hstarts.active, rfl⟩]
    exact ⟨rfl, rfl⟩
  · intro error hended
    rw [hstarts.loop, hloop] at hended
    cases hended
  · intro j hvanished
    rcases Nat.lt_trichotomy j app.operations.length with hlt | heq | hgt
    · rw [hearlier j hlt] at hvanished
      exact h.alive j hvanished
    · rw [heq, hlast] at hvanished
      cases hvanished
    · rw [App.stageOf, hstarts.operations, List.getElem?_eq_none (by simp; omega)] at hvanished
      cases hvanished

theorem Reaping.goes (h : Reaping app) {loop : Loop}
    (hloop : ∀ error, loop = .ended error → app.activeTask = none) :
    Reaping { app with loop } :=
  ⟨h.nodup, h.taken, h.owned, h.held, h.driven, hloop, h.alive⟩

/-! ### Runs -/

/-- A reap, whatever it finds. -/
theorem Reaping.reapTask (h : Reaping app) (r : Surroundings) : Reaping (app.reapTask r) := by
  rcases reapTask_cases app r with ⟨i, outcome, hreaps⟩ | ⟨i, hloses⟩ | hsame
  · exact h.reap hreaps
  · exact absurd hloses.vanished (h.alive i)
  · rw [hsame]
    exact h

/-- A terminal event that starts nothing, or finds nothing held. -/
theorem Reaping.handle (h : Reaping app) {r : Surroundings} {event : UiEvent}
    (hloop : app.loop = .handling)
    (horderly : app.activeTask = none ∨
      app.startedBy event = none ∧ (event.choosesModel app = false ∨ r.select = none)) :
    Reaping (app.handleEvent r event).1 ∧
      ∀ error, (app.handleEvent r event).2 = some error →
        (app.handleEvent r event).1.activeTask = none := by
  have hcases := handleEvent_cases app r event
  cases hstarted : app.startedBy event with
  | some prompt =>
    rw [hstarted] at hcases horderly
    obtain ⟨hstarts, hnone⟩ := hcases
    have hfree : app.activeTask = none := horderly.resolve_right fun h => by cases h.1
    refine ⟨h.starts hstarts hfree hloop, ?_⟩
    intro error herror
    rw [hnone] at herror
    cases herror
  | none =>
    rw [hstarted] at hcases
    refine ⟨h.kept hcases, ?_⟩
    intro error herror
    rw [hcases.activeTask]
    apply horderly.resolve_right
    rintro ⟨-, hselect⟩
    obtain ⟨hfailed, hchooses⟩ := handleEvent_error herror
    rw [hfailed, hchooses] at hselect
    rcases hselect with hselect | hselect
    · cases hselect
    · cases hselect

/-- A driving operation that is not the driver of the agent, or an operation on its way,
    moves on; the driver stays. -/
theorem Reaping.background {i : Nat} {stage before : OperationStage} (h : Reaping app)
    (hbefore : app.stageOf i = some before) (hdriver : app.driver ≠ some i)
    (hlive : ∀ outcome, before ≠ .taken outcome) (hafter : ∀ outcome, stage ≠ .taken outcome)
    (halive : stage ≠ .vanished) : Reaping (app.setStage i stage) := by
  refine h.moved rfl rfl rfl rfl ?_ hafter halive ?_
  · intro outcome htaken
    rw [hbefore, Option.some.injEq] at htaken
    exact hlive outcome htaken
  · intro hactive
    obtain ⟨hsame, hheld⟩ := h.driven hactive
    have hkept : (app.setStage i stage).driver = app.driver := by
      cases hdriven : app.driver with
      | none =>
        rw [hdriven] at hsame
        rw [← hsame] at hheld
        cases hheld
      | some j =>
        obtain ⟨-, hj, hdriving⟩ := driver_some hdriven
        have hne : i ≠ j := by
          rintro rfl
          exact hdriver hdriven
        rw [App.driver, length_setStage, ← hj, stageOf_setStage, if_neg hne]
        exact if_pos ⟨hactive, hdriving⟩
    rw [hkept]
    exact ⟨hsame, hheld⟩

/-- **An orderly step** keeps the invariant. -/
theorem Reaping.step {label : Label} (h : Reaping app) (hmade : app.step label = some app')
    (horderly : Orderly ⟨app, label, app'⟩) : Reaping app' := by
  cases label with
  | reap r =>
    simp only [App.step] at hmade
    split_ifs at hmade with htop hquit
    · cases hmade
      apply (h.reapTask r).goes
      intro error _
      simp only [Bool.and_eq_true, Option.isNone_iff_eq_none] at hquit
      exact hquit.2
    · cases hmade
      exact (h.reapTask r).goes fun error hended => by cases hended
  | handle event r =>
    simp only [App.step] at hmade
    split_ifs at hmade with hloop
    have hhandled := h.handle hloop horderly
    split at hmade
    · rename_i result hresult
      cases hmade
      rw [hresult] at hhandled
      exact hhandled.1.goes fun error hended => by cases hended
    · rename_i result error hresult
      cases hmade
      rw [hresult] at hhandled
      exact hhandled.1.goes fun _ _ => hhandled.2 error rfl
  | quiet =>
    simp only [App.step] at hmade
    split_ifs at hmade
    cases hmade
    exact h.goes fun error hended => by cases hended
  | crash error =>
    simp only [App.step] at hmade
    split_ifs at hmade
    cases hmade
    exact h.goes fun _ _ => horderly
  | work core =>
    simp only [App.step] at hmade
    split_ifs at hmade with hworks
    cases hmade
    obtain ⟨i, hdriver⟩ := Option.isSome_iff_exists.mp hworks.1
    obtain ⟨hactive, -, hdriving⟩ := driver_some hdriver
    refine ⟨h.nodup, h.taken, h.owned, h.held, ?_, h.ended, h.alive⟩
    intro hstill
    have hdriven := h.driven hactive
    have hsame : { app with core : App }.driver = app.driver := by
      simp only [App.driver, App.stageOf, hstill, hactive]
    rw [hsame]
    exact hdriven
  | settle core outcome =>
    simp only [App.step] at hmade
    split at hmade
    · rename_i i hdriver
      split_ifs at hmade with hidle
      cases hmade
      obtain ⟨-, -, hdriving⟩ := driver_some hdriver
      refine h.moved rfl rfl rfl rfl ?_ (fun _ heq => by cases heq) (fun heq => by cases heq) ?_
      · intro outcome htaken
        rw [hdriving] at htaken
        cases htaken
      · intro hactive
        simp [App.agentIsActive, App.setStage, hidle] at hactive
    · cases hmade
  | retire i outcome =>
    simp only [App.step] at hmade
    split_ifs at hmade with hretires
    cases hmade
    exact h.background hretires.1 hretires.2 (fun _ heq => by cases heq)
      (fun _ heq => by cases heq) (fun heq => by cases heq)
  | send i =>
    simp only [App.step] at hmade
    split at hmade
    · rename_i outcome hsettled
      cases hmade
      refine h.background hsettled ?_ (fun _ heq => by cases heq) (fun _ heq => by cases heq)
        (fun heq => by cases heq)
      intro hdriver
      have hdriving := (driver_some hdriver).2.2
      rw [hsettled] at hdriving
      cases hdriving
    · cases hmade
  | vanish i => exact horderly.elim

/-! ### What every operation is owed -/

/-- What a reap that takes an outcome has to show for it: a saved transcript after a
    success, a notice after an error. -/
def Answered (r : Surroundings) (outcome : Except CoreError Unit) (before after : App) : Prop :=
  match outcome with
  | .ok () => before.core.agent.messages ≠ [] →
      after.saves = before.saves ++ [{ messages := before.core.agent.messages, error := r.save }]
  | .error error => App.outcomeNotice error ∈ after.notices

/-- Each operation is reaped at most once, and held until it is; at the end of the loop
    each has been reaped and the agent is idle; each reap answers for its outcome. -/
structure OutcomesReaped (past : List (Transition App Label)) (app : App) : Prop where
  once : app.reaped.Nodup
  held : ∀ i < app.operations.length, i ∈ app.reaped ∨ app.activeTask = some i
  exit : ∀ error, app.loop = .ended error →
    (∀ i < app.operations.length, i ∈ app.reaped) ∧ app.agentIsActive = false
  kept : ∀ t ∈ past, ∀ i, t.before.activeTask = some i →
    t.after.activeTask = some i ∨ t.after.activeTask = none ∧ i ∈ t.after.reaped
  answered : ∀ t ∈ past, ∀ r i outcome, t.label = .reap r → t.before.activeTask = some i →
    t.before.stageOf i = some (.sent outcome) → Answered r outcome t.before t.after

/-- A receiver is kept until its outcome is taken. -/
theorem Reaping.kept_receiver {label : Label} (h : Reaping app)
    (hmade : app.step label = some app') (horderly : Orderly ⟨app, label, app'⟩) {i : Nat}
    (hheld : app.activeTask = some i) :
    app'.activeTask = some i ∨ app'.activeTask = none ∧ i ∈ app'.reaped := by
  have hstays : ∀ app₁ : App, app₁.activeTask = app.activeTask →
      app₁.activeTask = some i ∨ app₁.activeTask = none ∧ i ∈ app₁.reaped := by
    intro app₁ hsame
    left
    rw [hsame, hheld]
  cases label with
  | reap r =>
    have hreap : (app.reapTask r).activeTask = some i ∨
        (app.reapTask r).activeTask = none ∧ i ∈ (app.reapTask r).reaped := by
      rcases reapTask_cases app r with ⟨j, outcome, hreaps⟩ | ⟨j, hloses⟩ | hsame
      · have hj : j = i := by
          have hboth := hreaps.held.symm.trans hheld
          simpa using hboth
        right
        refine ⟨hreaps.activeTask, ?_⟩
        rw [hreaps.reaped, hj]
        simp
      · exact absurd hloses.vanished (h.alive j)
      · rw [hsame]
        exact .inl hheld
    simp only [App.step] at hmade
    split_ifs at hmade
    · cases hmade
      exact hreap
    · cases hmade
      exact hreap
  | handle event r =>
    have hcases := handleEvent_cases app r event
    have hnone : app.startedBy event = none := by
      rcases horderly with hfree | hquiet
      · rw [hheld] at hfree
        cases hfree
      · exact hquiet.1
    rw [hnone] at hcases
    simp only [App.step] at hmade
    split_ifs at hmade
    split at hmade
    all_goals
      rename_i hresult
      cases hmade
      rw [hresult] at hcases
      exact hstays _ hcases.activeTask
  | quiet =>
    simp only [App.step] at hmade
    split_ifs at hmade
    cases hmade
    exact hstays _ rfl
  | crash error =>
    simp only [App.step] at hmade
    split_ifs at hmade
    cases hmade
    exact hstays _ rfl
  | work core =>
    simp only [App.step] at hmade
    split_ifs at hmade
    cases hmade
    exact hstays _ rfl
  | settle core outcome =>
    simp only [App.step] at hmade
    split at hmade
    · split_ifs at hmade
      cases hmade
      exact hstays _ rfl
    · cases hmade
  | retire j outcome =>
    simp only [App.step] at hmade
    split_ifs at hmade
    cases hmade
    exact hstays _ rfl
  | send j =>
    simp only [App.step] at hmade
    split at hmade
    · cases hmade
      exact hstays _ rfl
    · cases hmade
  | vanish j => exact horderly.elim

/-- A reap of an outcome answers for it. -/
theorem Reaping.answers {r : Surroundings} {i : Nat} {outcome : Except CoreError Unit}
    (h : Reaping app) (hmade : app.step (.reap r) = some app')
    (hheld : app.activeTask = some i) (hsent : app.stageOf i = some (.sent outcome)) :
    Answered r outcome app app' := by
  have hidle := h.idle_of_sent hheld hsent
  have hanswers : Answered r outcome app (app.reapTask r) := by
    cases outcome with
    | ok value =>
      intro hmessages
      exact ((reapTask_success hheld hsent).success rfl).2.2 hidle hmessages
    | error error => exact ((reapTask_failure hheld hsent).failure error rfl).1
  simp only [App.step] at hmade
  split_ifs at hmade
  · cases hmade
    exact hanswers
  · cases hmade
    exact hanswers

/-- **Every outcome is reaped exactly once** in a run whose steps are all orderly. -/
theorem outcomes_reaped {start : App} {past : List (Transition App Label)}
    (hstart : Entered start) (hrun : Runs start past app) (horderly : ∀ t ∈ past, Orderly t) :
    OutcomesReaped past app := by
  have hstep : ∀ (s : App) (label : Label) (s' : App), s.step label = some s' →
      Orderly ⟨s, label, s'⟩ → Reaping s → Reaping s' := by
    intro s label s' hmade hadmitted hreaping
    exact hreaping.step hmade hadmitted
  have hreaping : Reaping app := hrun.invariant (reaping_start hstart) hstep horderly
  have hsteps := hrun.always (reaping_start hstart) hstep horderly
  refine ⟨hreaping.nodup, hreaping.owned, ?_, ?_, ?_⟩
  · intro error hended
    have hfree := hreaping.ended error hended
    constructor
    · intro i hi
      apply (hreaping.owned i hi).resolve_right
      rw [hfree]
      intro heq
      cases heq
    · rw [← Bool.not_eq_true]
      intro hactive
      have hheld := (hreaping.driven hactive).2
      rw [hfree] at hheld
      cases hheld
  · intro t ht i hheld
    obtain ⟨hbefore, hmade⟩ := hsteps t ht
    exact hbefore.kept_receiver hmade (horderly t ht) hheld
  · intro t ht r i outcome hlabel hheld hsent
    obtain ⟨hbefore, hmade⟩ := hsteps t ht
    rw [hlabel] at hmade
    exact hbefore.answers hmade hheld hsent

/-! ### Runs that lose and keep an outcome -/

/-- The composer holds a prompt when the loop is entered. -/
def prompted : App := { composer := "a" }

theorem prompted_entered : Entered prompted := ⟨rfl, rfl, rfl, rfl, rfl, rfl⟩

/-- A second prompt is submitted after the first run has settled and before its
    outcome is sent; the application is left when the second outcome is reaped. -/
def overtaking : List Label :=
  [.reap {}, .handle .submit {}, .settle {} (.ok ()), .reap {}, .handle (.edit "b") {},
   .reap {}, .handle .submit {}, .send 0, .settle {} (.ok ()), .send 1, .reap {},
   .handle .controlC {}, .reap {}]

/-- One prompt, whose outcome is reaped before the application is left. -/
def leaving : List Label :=
  [.reap {}, .handle .submit {}, .settle {} (.ok ()), .send 0, .reap {}, .handle .controlC {},
   .reap {}]

theorem overtaking_enabled : (trail App.step prompted overtaking).isSome = true := by
  decide

theorem leaving_enabled : (trail App.step prompted leaving).isSome = true := by
  decide

/-- **An operation started between settlement and reap** takes the receiver: the first
    outcome is never reaped. -/
theorem outcome_lost : ∃ start past app, Entered start ∧ Runs start past app ∧
    app.loop = .ended none ∧ 0 < app.operations.length ∧ 0 ∉ app.reaped := by
  refine ⟨prompted, _, _, prompted_entered, trail_get overtaking_enabled, ?_, ?_, ?_⟩
  · decide +kernel
  · decide +kernel
  · decide +kernel

/-- A prompt whose outcome is reaped before the application is left. -/
theorem outcomes_reaped_answered : ∃ past app, Runs prompted past app ∧
    app.loop = .ended none ∧ app.reaped = [0] ∧ OutcomesReaped past app := by
  have horderly : ∀ t ∈ ((trail App.step prompted leaving).get leaving_enabled).1,
      Orderly t := by
    decide +kernel
  refine ⟨_, _, trail_get leaving_enabled, ?_, ?_, ?_⟩
  · decide +kernel
  · decide +kernel
  · exact outcomes_reaped prompted_entered (trail_get leaving_enabled) horderly

end Tea.Contract
