/-
  Tea/Contract/PromptConservation.lean
  ====================================
  **Prompts typed into the terminal application.**  A submitted text leaves the composer
  before it is known what becomes of it, and is remembered in one slot.  It is lost when
  the agent has no provider (`prompt_dropped_and_revived`), and the slot outlives its operation when
  an error is reaped while something else is in the composer, so that a failed compaction
  brings it back.  In every run without such steps each text is
  accounted for, and the slot belongs to the operation that is held
  (`prompts_conserved`).
-/

import Tea.Tui.Moves

namespace Tea.Contract

open Tea.Async Tea.Core Tea.Run Tea.Tui

variable {app app' : App}

/-! ### What becomes of a submitted text -/

/-- The text an event submits as a prompt: neither blank nor a command. -/
def promptOf (app : App) (event : UiEvent) : Option String :=
  (event.input app).filter fun text => !isBlank text && !isCommand text

/-- The text is the prompt of a run just started, the last message enqueued for
    steering, or again the composer's text. -/
def Found (text : String) (before after : App) : Prop :=
  (∃ handle, startPrompt before.agent text before.core = (.ok handle, after.core) ∧
    after.operations = before.operations ++ [({ prompt := text } : Operation)] ∧
    after.activeTask = some before.operations.length) ∨
  (∃ sequence, (after.core.queues.steering.entries.getLast?) = some ⟨sequence, text⟩ ∧
    after.core = before.core.steer text) ∨
  after.composer = text

theorem submitPrompt_accounts (app : App) (text : String)
    (hsetUp : app.agentIsActive = true ∨ app.agent.capabilities.hasProvider = true) :
    Found text app (app.submitPrompt text) := by
  unfold App.submitPrompt
  by_cases hactive : app.agentIsActive = true
  · right
    left
    rw [if_pos hactive]
    refine ⟨satSucc app.core.queues.steering.nextSequence, ?_, rfl⟩
    simp [App.notice, World.steer, MessageQueue.push]
  · have hprovider := hsetUp.resolve_left hactive
    rw [if_neg hactive, if_neg (by simp [hprovider])]
    cases hstarted : startPrompt app.agent text app.core with
    | mk result core =>
      cases result with
      | ok handle =>
        left
        exact ⟨handle, hstarted, rfl, rfl⟩
      | error error =>
        right
        right
        rfl

/-- A submitted prompt is accounted for, once the agent is active or has a provider. -/
theorem handleEvent_accounts {event : UiEvent} {text : String} (r : Surroundings)
    (hprompt : promptOf app event = some text)
    (hsetUp : app.agentIsActive = true ∨ app.agent.capabilities.hasProvider = true) :
    (app.handleEvent r event).2 = none ∧ Found text app (app.handleEvent r event).1 := by
  obtain ⟨hinput, hkind⟩ := Option.filter_eq_some_iff.mp hprompt
  simp only [Bool.and_eq_true, Bool.not_eq_true'] at hkind
  have hsubmit : ∀ before : App, before.composer = text →
      before.submitComposer r = ({ before with composer := "" }.submitPrompt text, none) := by
    intro before hcomposer
    simp only [App.submitComposer, hcomposer, hkind.1, hkind.2, Bool.false_eq_true, if_false]
  have haccounts := submitPrompt_accounts { app with composer := "" } text hsetUp
  cases event with
  | submit =>
    have hcomposer : app.composer = text := Option.some.inj hinput
    have hsubmitted := hsubmit app hcomposer
    rw [App.handleEvent, hsubmitted]
    exact ⟨rfl, haccounts⟩
  | submitCompletion command =>
    have hcomposer : command ++ " " = text := Option.some.inj hinput
    have hsubmitted := hsubmit { app with composer := command ++ " " } hcomposer
    rw [App.handleEvent, hsubmitted]
    exact ⟨rfl, haccounts⟩
  | edit text => cases hinput
  | controlC => cases hinput
  | pickModel => cases hinput
  | pickSession id => cases hinput

/-! ### The slot -/

/-- The remembered prompt started the operation whose receiver is held. -/
def Remembered (app : App) : Prop :=
  ∀ text, app.submittedPrompt = some text →
    ∃ i, app.activeTask = some i ∧ (app.operations[i]?).map (·.prompt) = some (some text)

/-- A reap does not empty the slot: an error waits while other text is in the composer,
    or the task is gone. -/
def leavesSlot (app : App) : Bool :=
  match app.activeTask.bind app.stageOf with
  | some (.sent (.error _)) => app.composer ≠ ""
  | some .vanished => true
  | _ => false

/-- The transition neither submits a prompt to an agent without provider, nor lets the
    remembered prompt outlive its operation: no compaction takes its receiver, and no
    error is reaped over other text, nor a task found gone, while it is remembered. -/
def Careful (t : Transition App Label) : Prop :=
  match t.label with
  | .handle event _ =>
      (promptOf t.before event = none ∨ t.before.agentIsActive = true ∨
        t.before.agent.capabilities.hasProvider = true) ∧
      (t.before.startedBy event ≠ some none ∨ t.before.submittedPrompt = none)
  | .reap _ => t.before.submittedPrompt = none ∨ leavesSlot t.before = false
  | _ => True

instance : DecidablePred Careful := fun ⟨before, label, _⟩ =>
  match label with
  | .handle event _ => inferInstanceAs (Decidable
      ((promptOf before event = none ∨ before.agentIsActive = true ∨
        before.agent.capabilities.hasProvider = true) ∧
      (before.startedBy event ≠ some none ∨ before.submittedPrompt = none)))
  | .reap _ =>
      inferInstanceAs (Decidable (before.submittedPrompt = none ∨ leavesSlot before = false))
  | .quiet | .crash _ | .work _ | .settle _ _ | .retire _ _ | .send _ | .vanish _ =>
      inferInstanceAs (Decidable True)

/-- Handling that starts nothing leaves the slot to its operation. -/
theorem Remembered.kept (h : Remembered app) (hkept : Kept app app') : Remembered app' := by
  intro text htext
  rw [hkept.submittedPrompt] at htext
  rw [hkept.activeTask, hkept.operations]
  exact h text htext

/-- A run that starts is remembered with its own prompt. -/
theorem Remembered.starts {prompt : Option String} (hstarts : Starts prompt app app')
    (hfree : prompt ≠ none ∨ app.submittedPrompt = none) : Remembered app' := by
  intro text htext
  rw [hstarts.submittedPrompt] at htext
  cases prompt with
  | none =>
    simp only [Option.isSome_none, Bool.false_eq_true, if_false] at htext
    rw [hfree.resolve_left (by simp)] at htext
    cases htext
  | some prompt =>
    simp only [Option.isSome_some, if_true] at htext
    refine ⟨app.operations.length, hstarts.activeTask, ?_⟩
    rw [hstarts.operations, List.getElem?_concat_length]
    simpa using htext

/-- A change of stage keeps the prompts. -/
theorem Remembered.moved {i : Nat} {stage : OperationStage} (h : Remembered app)
    (hoperations : app'.operations = (app.setStage i stage).operations)
    (hactive : app'.activeTask = app.activeTask)
    (hsubmitted : app'.submittedPrompt = app.submittedPrompt) : Remembered app' := by
  intro text htext
  rw [hsubmitted] at htext
  obtain ⟨j, hheld, hprompt⟩ := h text htext
  refine ⟨j, by rw [hactive, hheld], ?_⟩
  rw [hoperations, prompt_setStage]
  exact hprompt

/-- After a careful reap the slot is empty, unless nothing was reaped. -/
theorem reapTask_forgets {r : Surroundings} (hcareful : Careful ⟨app, .reap r, app'⟩) :
    (app.reapTask r).submittedPrompt = none ∨ app.reapTask r = app := by
  rcases reapTask_cases app r with ⟨i, outcome, hreaps⟩ | ⟨i, hloses⟩ | hsame
  · left
    cases outcome with
    | ok value => exact (hreaps.success rfl).1
    | error error =>
      have hslot := (hreaps.failure error rfl).2
      simp only [Careful, leavesSlot, hreaps.held, Option.bind_some, hreaps.sent] at hcareful
      split_ifs at hslot with hempty
      · exact hslot.2
      · rw [hslot.2]
        exact hcareful.resolve_right (by simpa using hempty)
  · left
    simp only [Careful, leavesSlot, hloses.held, Option.bind_some, hloses.vanished] at hcareful
    rw [hloses.result]
    exact hcareful.resolve_right (by simp)
  · exact .inr hsame

/-- **A careful step** keeps the slot with the operation that is held. -/
theorem Remembered.step {label : Label} (h : Remembered app)
    (hmade : app.step label = some app') (hcareful : Careful ⟨app, label, app'⟩) :
    Remembered app' := by
  cases label with
  | reap r =>
    have hreaped : Remembered (app.reapTask r) := by
      rcases reapTask_forgets hcareful with hforgotten | hsame
      · intro text htext
        rw [hforgotten] at htext
        cases htext
      · rw [hsame]
        exact h
    simp only [App.step] at hmade
    split_ifs at hmade
    · cases hmade
      exact hreaped
    · cases hmade
      exact hreaped
  | handle event r =>
    have hhandled : Remembered (app.handleEvent r event).1 := by
      have hcases := handleEvent_cases app r event
      obtain ⟨-, hfree⟩ := hcareful
      cases hstarted : app.startedBy event with
      | none =>
        rw [hstarted] at hcases
        exact h.kept hcases
      | some prompt =>
        simp only [hstarted] at hcases hfree
        apply Remembered.starts hcases.1
        simpa using hfree
    simp only [App.step] at hmade
    split_ifs at hmade
    split at hmade
    all_goals
      rename_i hresult
      cases hmade
      rw [hresult] at hhandled
      exact hhandled
  | quiet =>
    simp only [App.step] at hmade
    split_ifs at hmade
    cases hmade
    exact h
  | crash error =>
    simp only [App.step] at hmade
    split_ifs at hmade
    cases hmade
    exact h
  | work core =>
    simp only [App.step] at hmade
    split_ifs at hmade
    cases hmade
    exact h
  | settle core outcome =>
    simp only [App.step] at hmade
    split at hmade
    · split_ifs at hmade
      cases hmade
      exact h.moved rfl rfl rfl
    · cases hmade
  | retire i outcome =>
    simp only [App.step] at hmade
    split_ifs at hmade
    cases hmade
    exact h.moved rfl rfl rfl
  | send i =>
    simp only [App.step] at hmade
    split at hmade
    · cases hmade
      exact h.moved rfl rfl rfl
    · cases hmade
  | vanish i =>
    simp only [App.step] at hmade
    split at hmade
    · cases hmade
      exact h.moved rfl rfl rfl
    · cases hmade

/-! ### Runs -/

/-- A reap changes the composer only to restore, after an error, the prompt of the
    operation it reaps. -/
def RestoresOwn (before after : App) : Prop :=
  after.composer ≠ before.composer → before.composer = "" ∧
    ∃ i error, before.activeTask = some i ∧ before.stageOf i = some (.sent (.error error)) ∧
      (before.operations[i]?).map (·.prompt) = some (some after.composer)

/-- Each submitted prompt is accounted for, a reap restores only the prompt of its own
    operation and forgets it, and what is remembered is the prompt of the operation
    that is held. -/
structure PromptsConserved (past : List (Transition App Label)) (app : App) : Prop where
  accounted : ∀ t ∈ past, ∀ event r text, t.label = .handle event r →
    promptOf t.before event = some text → Found text t.before t.after
  restored : ∀ t ∈ past, ∀ r, t.label = .reap r → RestoresOwn t.before t.after
  forgotten : ∀ t ∈ past, ∀ r, t.label = .reap r → t.before.activeTask ≠ none →
    t.after.activeTask = none → t.after.submittedPrompt = none
  remembered : Remembered app

/-- With the slot in order, a reap restores only the prompt of its own operation. -/
theorem Remembered.restores (h : Remembered app) (r : Surroundings) :
    RestoresOwn app (app.reapTask r) := by
  intro hchanged
  rcases reapTask_cases app r with ⟨i, outcome, hreaps⟩ | ⟨i, hloses⟩ | hsame
  · cases outcome with
    | ok value => exact absurd (hreaps.success rfl).2.1 hchanged
    | error error =>
      have hslot := (hreaps.failure error rfl).2
      split_ifs at hslot with hempty
      · refine ⟨hempty, i, error, hreaps.held, hreaps.sent, ?_⟩
        cases hsubmitted : app.submittedPrompt with
        | none =>
          rw [hsubmitted, Option.getD_none, ← hempty] at hslot
          exact absurd hslot.1 hchanged
        | some text =>
          obtain ⟨j, hheld, hprompt⟩ := h text hsubmitted
          rw [hreaps.held, Option.some.injEq] at hheld
          rw [hslot.1, hsubmitted, Option.getD_some, hheld]
          exact hprompt
      · exact absurd hslot.1 hchanged
  · rw [hloses.result] at hchanged
    exact absurd rfl hchanged
  · rw [hsame] at hchanged
    exact absurd rfl hchanged

/-- **Prompts are conserved** in a run whose steps are all careful. -/
theorem prompts_conserved {start : App} {past : List (Transition App Label)}
    (hstart : Entered start) (hrun : Runs start past app) (hcareful : ∀ t ∈ past, Careful t) :
    PromptsConserved past app := by
  have hfresh : Remembered start := by
    intro text htext
    rw [hstart.submittedPrompt] at htext
    cases htext
  have hstep : ∀ (s : App) (label : Label) (s' : App), s.step label = some s' →
      Careful ⟨s, label, s'⟩ → Remembered s → Remembered s' := by
    intro s label s' hmade hadmitted hslot
    exact hslot.step hmade hadmitted
  have hsteps := hrun.always hfresh hstep hcareful
  refine ⟨?_, ?_, ?_, hrun.invariant hfresh hstep hcareful⟩
  · rintro ⟨before, label, after⟩ ht event r text rfl hprompt
    obtain ⟨-, hmade⟩ := hsteps _ ht
    obtain ⟨hadmitted, -⟩ := hcareful _ ht
    have hsetUp := hadmitted.resolve_left (by simp [hprompt])
    obtain ⟨hnone, haccounted⟩ := handleEvent_accounts r hprompt hsetUp
    simp only [App.step] at hmade
    split_ifs at hmade
    split at hmade
    · rename_i hresult
      cases hmade
      rw [hresult] at haccounted
      exact haccounted
    · rename_i hresult
      rw [hresult] at hnone
      cases hnone
  · rintro ⟨before, label, after⟩ ht r rfl
    obtain ⟨hslot, hmade⟩ := hsteps _ ht
    have hrestores := hslot.restores r
    simp only [App.step] at hmade
    split_ifs at hmade
    · cases hmade
      exact hrestores
    · cases hmade
      exact hrestores
  · rintro ⟨before, label, after⟩ ht r rfl hheld hfree
    obtain ⟨hslot, hmade⟩ := hsteps _ ht
    have hslot' := hslot.step hmade (hcareful _ ht)
    cases hsubmitted : after.submittedPrompt with
    | none => rfl
    | some text =>
      obtain ⟨i, hi, -⟩ := hslot' text hsubmitted
      rw [hfree] at hi
      cases hi

/-! ### Runs that lose and keep a prompt -/

/-- A text is typed for an agent without provider. -/
def unconfigured : App :=
  { composer := "a", agent := { capabilities := { hasProvider := false } } }

/-- A text is typed for an agent that can also compact. -/
def compactable : App :=
  { composer := "a", agent := { capabilities := { hasCompactor := true } } }

/-- A run fails and is reaped while the composer holds another text; a compaction is
    started then, and it fails too. -/
def reviving : List Label :=
  [.reap {}, .handle .submit {}, .settle {} (.error .cancelled), .reap {},
   .handle (.edit "b") {}, .send 0, .reap {}, .handle (.edit "/compact") {}, .reap {},
   .handle .submit {}, .settle {} (.error .cancelled), .send 1, .reap {}]

/-- A run fails and its prompt is restored. -/
def restoring : List Label :=
  [.reap {}, .handle .submit {}, .settle {} (.error .cancelled), .send 0, .reap {}]

theorem unconfigured_entered : Entered unconfigured := ⟨rfl, rfl, rfl, rfl, rfl, rfl⟩

theorem compactable_entered : Entered compactable := ⟨rfl, rfl, rfl, rfl, rfl, rfl⟩

theorem dropping_enabled :
    (trail App.step unconfigured [.reap {}, .handle .submit {}]).isSome = true := by
  decide

theorem reviving_enabled : (trail App.step compactable reviving).isSome = true := by
  decide

theorem restoring_enabled : (trail App.step compactable restoring).isSome = true := by
  decide

/-- **A text typed for an agent without provider** is gone when it is submitted, and a
    failed compaction brings back the prompt of an earlier run. -/
theorem prompt_dropped_and_revived :
    (∃ past app, Entered unconfigured ∧ Runs unconfigured past app ∧
      unconfigured.composer = "a" ∧ app.composer = "" ∧ app.operations = [] ∧
      app.core.queues.steering.entries = [] ∧ app.submittedPrompt = none) ∧
    ∃ past app, Entered compactable ∧ Runs compactable past app ∧ app.reaped = [0, 1] ∧
      (app.operations[1]?).map (·.prompt) = some none ∧ app.composer = "a" := by
  constructor
  · refine ⟨_, _, unconfigured_entered, trail_get dropping_enabled, rfl, ?_, ?_, ?_, ?_⟩
    · decide +kernel
    · decide +kernel
    · decide +kernel
    · decide +kernel
  · refine ⟨_, _, compactable_entered, trail_get reviving_enabled, ?_, ?_, ?_⟩
    · decide +kernel
    · decide +kernel
    · decide +kernel

/-- The prompt of a failed run comes back to the composer. -/
theorem prompts_conserved_restored : ∃ past app, Runs compactable past app ∧
    app.reaped = [0] ∧ app.composer = "a" ∧ PromptsConserved past app := by
  have hcareful : ∀ t ∈ ((trail App.step compactable restoring).get restoring_enabled).1,
      Careful t := by
    decide +kernel
  refine ⟨_, _, trail_get restoring_enabled, ?_, ?_, ?_⟩
  · decide +kernel
  · decide +kernel
  · exact prompts_conserved compactable_entered (trail_get restoring_enabled) hcareful

end Tea.Contract
