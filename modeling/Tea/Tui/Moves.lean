/-
  Tea/Tui/Moves.lean
  ==================
  **What a step of the application can do** to the operations it spawned.  A terminal
  event leaves them alone or starts one, and it starts one only when the agent is idle
  (`handleEvent_cases`); a reap empties the held channel or changes nothing
  (`reapTask_cases`); the background moves one operation on.
-/

import Tea.Tui.App

namespace Tea.Tui

open Tea.Core Tea.Run

variable {app app' : App} {r : Surroundings}

/-! ### Handlers that start nothing -/

/-- The operations and what is remembered of them are as before, and the agent is not
    newly active. -/
structure Kept (app app' : App) : Prop where
  operations : app'.operations = app.operations
  activeTask : app'.activeTask = app.activeTask
  submittedPrompt : app'.submittedPrompt = app.submittedPrompt
  reaped : app'.reaped = app.reaped
  loop : app'.loop = app.loop
  active : app'.agentIsActive = true → app.agentIsActive = true

theorem Kept.refl (app : App) : Kept app app :=
  ⟨rfl, rfl, rfl, rfl, rfl, id⟩

theorem Kept.trans {app'' : App} (h : Kept app app') (h' : Kept app' app'') : Kept app app'' where
  operations := h'.operations.trans h.operations
  activeTask := h'.activeTask.trans h.activeTask
  submittedPrompt := h'.submittedPrompt.trans h.submittedPrompt
  reaped := h'.reaped.trans h.reaped
  loop := h'.loop.trans h.loop
  active hactive := h.active (h'.active hactive)

theorem kept_notice (app : App) (text : String) : Kept app (app.notice text) :=
  ⟨rfl, rfl, rfl, rfl, rfl, id⟩

theorem Kept.notice (h : Kept app app') (text : String) : Kept app (app'.notice text) :=
  h.trans (kept_notice app' text)

/-- A change of the agent alone that does not make it active. -/
theorem kept_core {core : World} (h : core.agent.phase ≠ .idle → app.core.agent.phase ≠ .idle) :
    Kept app { app with core } where
  operations := rfl
  activeTask := rfl
  submittedPrompt := rfl
  reaped := rfl
  loop := rfl
  active := by simpa [App.agentIsActive] using h

theorem kept_composer (text : String) : Kept app { app with composer := text } :=
  ⟨rfl, rfl, rfl, rfl, rfl, id⟩

theorem abortAgent_active {w : World} (h : w.abortAgent.agent.phase ≠ .idle) :
    w.agent.phase ≠ .idle := by
  unfold World.abortAgent at h
  split at h
  · exact h
  · rename_i id hrun
    simp only at h
    split_ifs at h with hcreated hphase
    · exact absurd rfl h
    · exact hphase
    · exact h

theorem reset_idle {w w' : World} (h : reset w = (.ok (), w')) : w'.agent.phase = .idle := by
  unfold reset at h
  split at h
  · cases h
  · rename_i hactive
    cases h
    cases hphase : w.agent.phase <;> simp [AgentPhase.active, hphase] at hactive
    simp [AgentState.clearTransient, hphase]

theorem restoreMessages_idle {messages : List AgentMessage} {w w' : World}
    (h : restoreMessages messages w = (.ok (), w')) : w'.agent.phase = .idle := by
  unfold restoreMessages at h
  split at h
  · cases h
  · rename_i hactive
    split at h
    · cases h
    · cases h
      cases hphase : w.agent.phase <;> simp [AgentPhase.active, hphase] at hactive
      simp [AgentState.clearTransient, AgentState.replaceMessages, hphase]

theorem persistSession_kept (app : App) (r : Surroundings) : Kept app (app.persistSession r).2 := by
  unfold App.persistSession
  split_ifs
  · exact .refl app
  · exact .refl app
  · cases r.save with
    | none => exact ⟨rfl, rfl, rfl, rfl, rfl, id⟩
    | some error => exact ⟨rfl, rfl, rfl, rfl, rfl, id⟩

theorem reloadAfterSettlement_kept : Kept app (app.reloadAfterSettlement r) := by
  unfold App.reloadAfterSettlement
  split
  · exact kept_notice app _
  · exact .refl app

theorem selectModel_kept (app : App) (r : Surroundings) : Kept app (app.selectModel r).1 := by
  unfold App.selectModel
  split_ifs
  · exact kept_notice app _
  · split
    · exact .refl app
    · exact ⟨rfl, rfl, rfl, rfl, rfl, id⟩

theorem openModelPicker_kept : Kept app app.openModelPicker := by
  unfold App.openModelPicker
  split_ifs
  · exact kept_notice app _
  · exact .refl app

theorem openSessionPicker_kept : Kept app (app.openSessionPicker r) := by
  unfold App.openSessionPicker
  split_ifs
  · exact kept_notice app _
  · split
    · exact kept_notice app _
    · exact .refl app

theorem resumeSession_kept (app : App) (r : Surroundings) (id : String) : Kept app (app.resumeSession r id).1 := by
  unfold App.resumeSession
  split_ifs with hactive
  · exact kept_notice app _
  · split
    · exact .refl app
    · rename_i hasModel messages _
      split
      · exact .refl app
      · have hselected : Kept app (if hasModel then app.selectModel r else (app, none)).1 := by
          split_ifs
          · exact selectModel_kept app r
          · exact .refl app
        split
        · rename_i hresult
          rw [hresult] at hselected
          exact hselected
        · rename_i hresult
          rw [hresult] at hselected
          split
          · exact hselected
          · rename_i hrestored
            have hidle := restoreMessages_idle hrestored
            exact (hselected.trans (kept_core fun hne => absurd hidle hne)).notice _

theorem newSession_kept : Kept app (app.newSession r).1 := by
  unfold App.newSession
  split_ifs
  · exact kept_notice app _
  · have hsaved := persistSession_kept app r
    split
    · rename_i hresult
      rw [hresult] at hsaved
      exact hsaved.notice _
    · rename_i hresult
      rw [hresult] at hsaved
      split
      · exact hsaved
      · rename_i hreset
        have hidle := reset_idle hreset
        exact ((hsaved.trans (kept_core fun hne => absurd hidle hne)).trans
          (kept_composer "")).notice _

theorem reported_kept {result : App × Option String} (h : Kept app result.1) :
    Kept app (App.reported result) := by
  obtain ⟨after, error⟩ := result
  cases error with
  | none => exact h
  | some error => exact h.notice error

theorem clear_kept : Kept app app.clear := by
  unfold App.clear
  split
  · rename_i hreset
    have hidle := reset_idle hreset
    exact (kept_core fun hne => absurd hidle hne).notice _
  · exact kept_notice app _
  · exact kept_notice app _

theorem quit_kept : Kept app app.quit := by
  unfold App.quit
  dsimp only
  split_ifs
  · have hkept : Kept app { app with quitting := true } := ⟨rfl, rfl, rfl, rfl, rfl, id⟩
    exact (hkept.trans (kept_core abortAgent_active)).notice _
  · exact ⟨rfl, rfl, rfl, rfl, rfl, id⟩

theorem enqueueCommandPrompt_kept {content usage done : String} {push : String → World → World}
    (hpush : ∀ content w, (push content w).agent = w.agent) :
    Kept app (app.enqueueCommandPrompt content usage done push) := by
  unfold App.enqueueCommandPrompt
  dsimp only
  split_ifs
  · exact kept_notice app _
  · apply Kept.notice
    apply kept_core
    rw [hpush]
    exact id

theorem handleControlC_kept : Kept app app.handleControlC := by
  unfold App.handleControlC
  split_ifs
  · exact (kept_core abortAgent_active).notice _
  · exact ⟨rfl, rfl, rfl, rfl, rfl, id⟩
  · exact kept_composer ""

/-! ### Starting an operation -/

/-- The event starts an operation: the agent was idle, and the receiver of the new
    operation is held. -/
structure Starts (prompt : Option String) (app app' : App) : Prop where
  idle : app.agentIsActive = false
  operations : app'.operations = app.operations ++ [({ prompt } : Operation)]
  activeTask : app'.activeTask = some app.operations.length
  submittedPrompt : app'.submittedPrompt = if prompt.isSome then prompt else app.submittedPrompt
  reaped : app'.reaped = app.reaped
  loop : app'.loop = app.loop
  active : app'.agentIsActive = true

/-- What a line typed into the composer starts when it is submitted: nothing, a run with
    itself as the prompt, or a compaction. -/
def App.starting (app : App) (input : String) : Option (Option String) :=
  if app.agentIsActive || isBlank input then none
  else if isCommand input then
    if (splitWhitespace input).headD "" = "/compact" ∧ app.agent.capabilities.hasCompactor then
      some none
    else none
  else if app.agent.capabilities.hasProvider then some (some input)
  else none

theorem active_none {w : World} : w.agent.phase.active = none ↔ w.agent.phase = .idle := by
  cases h : w.agent.phase <;> simp [AgentPhase.active]

theorem compact_cases (app : App) :
    if app.agentIsActive = false ∧ app.agent.capabilities.hasCompactor then
      Starts none app app.compact
    else Kept app app.compact := by
  unfold App.compact startCompaction nextRun
  by_cases hidle : app.core.agent.phase = .idle
  · have hinactive : app.agentIsActive = false := by simp [App.agentIsActive, hidle]
    simp only [active_none.mpr hidle, hinactive, true_and]
    split_ifs with hcompactor
    · exact ⟨hinactive, rfl, rfl, rfl, rfl, rfl, rfl⟩
    · apply Kept.notice
      exact kept_core fun h => h
  · have hactive : app.agentIsActive = true := by simp [App.agentIsActive, hidle]
    simp only [hactive, Bool.true_eq_false, false_and, if_false]
    obtain ⟨id, hid⟩ : ∃ id, app.core.agent.phase.active = some id := by
      cases h : app.core.agent.phase.active with
      | none => exact absurd (active_none.mp h) hidle
      | some id => exact ⟨id, rfl⟩
    simp only [hid]
    apply Kept.notice
    exact kept_core fun h => h

theorem submitPrompt_cases (app : App) (input : String) :
    if app.agentIsActive = false ∧ app.agent.capabilities.hasProvider then
      Starts (some input) app (app.submitPrompt input)
    else Kept app (app.submitPrompt input) := by
  unfold App.submitPrompt
  by_cases hidle : app.core.agent.phase = .idle
  · have hinactive : app.agentIsActive = false := by simp [App.agentIsActive, hidle]
    simp only [hinactive, true_and, Bool.false_eq_true, if_false]
    split_ifs with hprovider hmissing hmissing
    · simp [hprovider] at hmissing
    · simp only [startPrompt, startRun, nextRun, active_none.mpr hidle]
      exact ⟨hinactive, rfl, rfl, rfl, rfl, rfl, rfl⟩
    · exact (kept_notice app _).trans openModelPicker_kept
    · simp [hprovider] at hmissing
  · have hactive : app.agentIsActive = true := by simp [App.agentIsActive, hidle]
    simp only [hactive, Bool.true_eq_false, false_and, if_false, if_true]
    apply Kept.notice
    exact kept_core fun h => h

theorem kept_ite {c : Prop} [Decidable c] {x y : App × Option String} (hx : Kept app x.1)
    (hy : Kept app y.1) : Kept app (if c then x else y).1 := by
  split_ifs
  · exact hx
  · exact hy

/-- A branch that cannot fail. -/
theorem kept_ite_ok {c : Prop} [Decidable c] {x : App} {y : App × Option String}
    (hx : Kept app x) (hy : Kept app y.1) : Kept app (if c then (x, none) else y).1 :=
  kept_ite hx hy

theorem dispatchCommand_compact {input : String}
    (h : (splitWhitespace input).headD "" = "/compact") :
    app.dispatchCommand r input =
      if app.agentIsActive then
        (app.notice "/compact is unavailable while a run is active", none)
      else (app.compact, none) := by
  have hspec : (find "/compact").any (fun spec => !spec.allowedWhileActive) = true := by
    decide
  have hnotice : "/compact" ++ " is unavailable while a run is active" =
      "/compact is unavailable while a run is active" := by decide
  simp only [App.dispatchCommand, h, hspec, hnotice, Bool.and_true, String.reduceEq, or_self,
    if_false, if_true]

theorem dispatchCommand_cases (app : App) (r : Surroundings) (input : String) :
    if app.agentIsActive = false ∧ (splitWhitespace input).headD "" = "/compact" ∧
        app.agent.capabilities.hasCompactor then
      Starts none app (app.dispatchCommand r input).1 ∧ (app.dispatchCommand r input).2 = none
    else Kept app (app.dispatchCommand r input).1 := by
  by_cases hcommand : (splitWhitespace input).headD "" = "/compact"
  · rw [dispatchCommand_compact hcommand]
    have hcompact := compact_cases app
    cases hactive : app.agentIsActive with
    | true => exact kept_notice app _
    | false =>
      rw [hactive] at hcompact
      simp only [hcommand, true_and, Bool.false_eq_true, if_false] at hcompact ⊢
      split_ifs at hcompact ⊢
      · exact ⟨hcompact, trivial⟩
      · exact hcompact
  · rw [if_neg (fun h => hcommand h.2.1)]
    unfold App.dispatchCommand
    dsimp only
    refine kept_ite_ok (kept_notice app _) ?_
    refine kept_ite_ok (.refl app) ?_
    refine kept_ite (kept_ite (selectModel_kept app r) openModelPicker_kept) ?_
    refine kept_ite_ok (enqueueCommandPrompt_kept fun _ _ => rfl) ?_
    refine kept_ite_ok (enqueueCommandPrompt_kept fun _ _ => rfl) ?_
    refine kept_ite_ok openSessionPicker_kept ?_
    refine kept_ite_ok (reported_kept newSession_kept) ?_
    rw [if_neg hcommand]
    refine kept_ite ?_ ?_
    · split
      · exact reloadAfterSettlement_kept
      · exact kept_notice app _
    · refine kept_ite_ok clear_kept ?_
      exact kept_ite_ok quit_kept (kept_notice app _)

theorem submitComposer_cases (app : App) (r : Surroundings) :
    match app.starting app.composer with
    | some prompt => Starts prompt app (app.submitComposer r).1 ∧ (app.submitComposer r).2 = none
    | none => Kept app (app.submitComposer r).1 := by
  have hempty : Kept app { app with composer := "" } := kept_composer ""
  have hprompt := submitPrompt_cases { app with composer := "" } app.composer
  have hcommand := dispatchCommand_cases { app with composer := "" } r app.composer
  have hsame : { app with composer := "" : App }.agentIsActive = app.agentIsActive := rfl
  unfold App.submitComposer App.starting
  dsimp only
  simp only [hsame] at hprompt hcommand
  cases hblank : isBlank app.composer with
  | true =>
    simp only [Bool.or_true, if_true]
    exact hempty
  | false =>
    simp only [Bool.or_false, Bool.false_eq_true, if_false]
    cases hslash : isCommand app.composer with
    | true =>
      simp only [if_true]
      split_ifs at hcommand with hstarts
      · rw [if_neg (by simp [hstarts.1]), if_pos hstarts.2]
        obtain ⟨hcommand, hnone⟩ := hcommand
        exact ⟨⟨hcommand.idle, hcommand.operations, hcommand.activeTask,
          hcommand.submittedPrompt, hcommand.reaped, hcommand.loop, hcommand.active⟩, hnone⟩
      · have hnone : (if app.agentIsActive = true then none
            else if (splitWhitespace app.composer).headD "" = "/compact" ∧
              app.agent.capabilities.hasCompactor = true then some none else none) =
            (none : Option (Option String)) := by
          split_ifs with hactive hcompact
          · rfl
          · exact absurd ⟨by simpa using hactive, hcompact⟩ hstarts
          · rfl
        rw [hnone]
        exact hempty.trans hcommand
    | false =>
      simp only [Bool.false_eq_true, if_false]
      split_ifs at hprompt with hstarts
      · rw [if_neg (by simp [hstarts.1]), if_pos hstarts.2]
        exact ⟨⟨hprompt.idle, hprompt.operations, hprompt.activeTask, hprompt.submittedPrompt,
          hprompt.reaped, hprompt.loop, hprompt.active⟩, trivial⟩
      · have hnone : (if app.agentIsActive = true then none
            else if app.agent.capabilities.hasProvider = true then some (some app.composer)
              else none) = (none : Option (Option String)) := by
          split_ifs with hactive hprovider
          · rfl
          · exact absurd ⟨by simpa using hactive, hprovider⟩ hstarts
          · rfl
        rw [hnone]
        exact hempty.trans hprompt

/-- The line that an event submits. -/
def UiEvent.input (app : App) : UiEvent → Option String
  | .submit => some app.composer
  | .submitCompletion command => some (command ++ " ")
  | _ => none

/-- What an event starts. -/
def App.startedBy (app : App) (event : UiEvent) : Option (Option String) :=
  (event.input app).bind app.starting

/-- **A terminal event** starts what its line asks for, or leaves the operations alone. -/
theorem handleEvent_cases (app : App) (r : Surroundings) (event : UiEvent) :
    match app.startedBy event with
    | some prompt =>
        Starts prompt app (app.handleEvent r event).1 ∧ (app.handleEvent r event).2 = none
    | none => Kept app (app.handleEvent r event).1 := by
  cases event with
  | edit text => exact kept_composer text
  | submit =>
    have hcases := submitComposer_cases app r
    exact hcases
  | submitCompletion command =>
    have hcases := submitComposer_cases { app with composer := command ++ " " } r
    have hsame : App.starting { app with composer := command ++ " " } (command ++ " ") =
        app.starting (command ++ " ") := rfl
    simp only [hsame] at hcases
    have hstarted : app.startedBy (.submitCompletion command) = app.starting (command ++ " ") :=
      rfl
    have hevent : app.handleEvent r (.submitCompletion command) =
        { app with composer := command ++ " " : App }.submitComposer r := rfl
    rw [hstarted, hevent]
    split at hcases
    · obtain ⟨hcases, hnone⟩ := hcases
      exact ⟨⟨hcases.idle, hcases.operations, hcases.activeTask, hcases.submittedPrompt,
        hcases.reaped, hcases.loop, hcases.active⟩, hnone⟩
    · exact (kept_composer (command ++ " ")).trans hcases
  | controlC => exact handleControlC_kept
  | pickModel =>
    have hkept := reported_kept (selectModel_kept app r)
    exact hkept
  | pickSession id =>
    have hkept := reported_kept (resumeSession_kept app r id)
    exact hkept

/-- An event that submits a `/model` command. -/
def UiEvent.choosesModel (app : App) (event : UiEvent) : Bool :=
  (event.input app).any fun input => (splitWhitespace input).headD "" = "/model"

/-- A branch that cannot fail. -/
theorem error_of_ite_ok {c : Prop} [Decidable c] {x : App} {y : App × Option String}
    {error : String} (h : (if c then (x, none) else y).2 = some error) : y.2 = some error := by
  split at h
  · cases h
  · exact h

theorem selectModel_error {error : String} (h : (app.selectModel r).2 = some error) :
    r.select = some error := by
  unfold App.selectModel at h
  split at h
  · cases h
  · split at h
    · rename_i hreply
      cases h
      exact hreply
    · cases h

/-- Only a model selection that fails ends the loop. -/
theorem dispatchCommand_error {input error : String}
    (h : (app.dispatchCommand r input).2 = some error) :
    r.select = some error ∧ (splitWhitespace input).headD "" = "/model" := by
  unfold App.dispatchCommand at h
  dsimp only at h
  replace h := error_of_ite_ok (error_of_ite_ok h)
  split at h
  · rename_i hmodel
    split at h
    · exact ⟨selectModel_error h, hmodel⟩
    · cases h
  · replace h := error_of_ite_ok (error_of_ite_ok (error_of_ite_ok (error_of_ite_ok
      (error_of_ite_ok h))))
    split at h
    · split at h
      · cases h
      · cases h
    · replace h := error_of_ite_ok (error_of_ite_ok h)
      cases h

theorem handleEvent_error {event : UiEvent} {error : String}
    (h : (app.handleEvent r event).2 = some error) :
    r.select = some error ∧ event.choosesModel app = true := by
  have hsubmit : ∀ app : App, (app.submitComposer r).2 = some error →
      r.select = some error ∧ (splitWhitespace app.composer).headD "" = "/model" := by
    intro app h
    unfold App.submitComposer at h
    dsimp only at h
    split at h
    · cases h
    · split at h
      · exact dispatchCommand_error h
      · cases h
  cases event with
  | submit =>
    obtain ⟨hselect, hmodel⟩ := hsubmit app h
    exact ⟨hselect, decide_eq_true hmodel⟩
  | submitCompletion command =>
    obtain ⟨hselect, hmodel⟩ := hsubmit _ h
    exact ⟨hselect, decide_eq_true hmodel⟩
  | edit text => cases h
  | controlC => cases h
  | pickModel => cases h
  | pickSession id => cases h

/-! ### Reaping -/

/-- A reap took the outcome of operation `i`. -/
structure Reaps (r : Surroundings) (i : Nat) (outcome : Except CoreError Unit) (app app' : App) :
    Prop where
  held : app.activeTask = some i
  sent : app.stageOf i = some (.sent outcome)
  operations : app'.operations = (app.setStage i (.taken outcome)).operations
  activeTask : app'.activeTask = none
  reaped : app'.reaped = app.reaped ++ [i]
  core : app'.core = app.core
  /-- A success is saved, and nothing remains to be restored. -/
  success : outcome = .ok () → app'.submittedPrompt = none ∧ app'.composer = app.composer ∧
    (app.agentIsActive = false → app.core.agent.messages ≠ [] →
      app'.saves = app.saves ++ [{ messages := app.core.agent.messages, error := r.save }])
  /-- An error is shown, and the remembered prompt comes back to an empty composer. -/
  failure : ∀ error, outcome = .error error → App.outcomeNotice error ∈ app'.notices ∧
    if app.composer = "" then
      app'.composer = app.submittedPrompt.getD "" ∧ app'.submittedPrompt = none
    else app'.composer = app.composer ∧ app'.submittedPrompt = app.submittedPrompt

/-- A reap found the task of operation `i` gone. -/
structure Loses (i : Nat) (app app' : App) : Prop where
  held : app.activeTask = some i
  vanished : app.stageOf i = some .vanished
  result : app' = { app with activeTask := none }.notice "operation task ended unexpectedly"

/-- A session is saved when the agent is idle and has messages. -/
theorem persistSession_spec (app : App) (r : Surroundings) :
    let app' := (app.persistSession r).2
    app'.core = app.core ∧ app'.composer = app.composer ∧
      (app.agentIsActive = false → app.core.agent.messages ≠ [] →
        app'.saves = app.saves ++ [{ messages := app.core.agent.messages, error := r.save }]) := by
  unfold App.persistSession
  split_ifs with hactive hempty
  · exact ⟨rfl, rfl, fun hidle => absurd hactive (by simp [hidle])⟩
  · exact ⟨rfl, rfl, fun _ hne => absurd hempty hne⟩
  · cases hsave : r.save with
    | none => exact ⟨rfl, rfl, fun _ _ => rfl⟩
    | some error => exact ⟨rfl, rfl, fun _ _ => rfl⟩

theorem reloadAfterSettlement_spec (app : App) (r : Surroundings) :
    let app' := app.reloadAfterSettlement r
    app'.core = app.core ∧ app'.composer = app.composer ∧ app'.saves = app.saves ∧
      ∀ text ∈ app.notices, text ∈ app'.notices := by
  unfold App.reloadAfterSettlement
  split
  · refine ⟨rfl, rfl, rfl, ?_⟩
    intro text htext
    simp [App.notice, htext]
  · exact ⟨rfl, rfl, rfl, fun _ htext => htext⟩

theorem reapTask_success {i : Nat} (hheld : app.activeTask = some i)
    (hsent : app.stageOf i = some (.sent (.ok ()))) :
    Reaps r i (.ok ()) app (app.reapTask r) := by
  let taken : App := { app.taking i (.ok ()) with submittedPrompt := none }
  have hreap : app.reapTask r = ((taken.reloadAfterSettlement r).persistSession r).2 := by
    simp only [App.reapTask, hheld, hsent, taken]
  have hreload : Kept taken (taken.reloadAfterSettlement r) := reloadAfterSettlement_kept
  obtain ⟨hcore, hcomposer, hsaves, -⟩ := reloadAfterSettlement_spec taken r
  have hkept := hreload.trans (persistSession_kept (taken.reloadAfterSettlement r) r)
  obtain ⟨hcore', hcomposer', hsaves'⟩ := persistSession_spec (taken.reloadAfterSettlement r) r
  rw [hreap]
  refine ⟨hheld, hsent, hkept.operations, hkept.activeTask, hkept.reaped, hcore'.trans hcore, ?_, ?_⟩
  · intro _
    refine ⟨hkept.submittedPrompt, hcomposer'.trans hcomposer, ?_⟩
    rw [App.agentIsActive, hcore] at hsaves'
    intro hidle hmessages
    rw [hsaves' hidle hmessages, hsaves]
    rfl
  · intro error herror
    cases herror

theorem reapTask_failure {i : Nat} {error : CoreError} (hheld : app.activeTask = some i)
    (hsent : app.stageOf i = some (.sent (.error error))) :
    Reaps r i (.error error) app (app.reapTask r) := by
  let taken := app.taking i (.error error)
  let restored := taken.restoreSubmittedPrompt (App.outcomeNotice error)
  have hreap : app.reapTask r = restored.reloadAfterSettlement r := by
    simp only [App.reapTask, hheld, hsent, restored, taken]
  have hkept : Kept restored (restored.reloadAfterSettlement r) := reloadAfterSettlement_kept
  obtain ⟨hcore, hcomposer, -, hnotices⟩ := reloadAfterSettlement_spec restored r
  have hnotice : App.outcomeNotice error ∈ restored.notices := by
    simp [restored, App.restoreSubmittedPrompt, App.notice]
  have hrestored : restored.operations = taken.operations ∧ restored.activeTask = none ∧
      restored.reaped = taken.reaped ∧ restored.core = app.core ∧
      if app.composer = "" then
        restored.composer = app.submittedPrompt.getD "" ∧ restored.submittedPrompt = none
      else restored.composer = app.composer ∧ restored.submittedPrompt = app.submittedPrompt := by
    have hcomposed : taken.composer = app.composer := rfl
    have hsubmitted : taken.submittedPrompt = app.submittedPrompt := rfl
    simp only [restored, App.restoreSubmittedPrompt, hcomposed, hsubmitted]
    by_cases hempty : app.composer = ""
    · simp only [if_pos hempty]
      cases hprompt : app.submittedPrompt with
      | none => exact ⟨rfl, rfl, rfl, rfl, hcomposed.trans hempty, hprompt⟩
      | some prompt => exact ⟨rfl, rfl, rfl, rfl, rfl, rfl⟩
    · simp only [if_neg hempty]
      exact ⟨rfl, rfl, rfl, rfl, rfl, rfl⟩
  obtain ⟨hoperations, hactive, hreaped, hsame, hprompt⟩ := hrestored
  rw [hreap]
  refine ⟨hheld, hsent, hkept.operations.trans hoperations, hkept.activeTask.trans hactive,
    hkept.reaped.trans hreaped, hcore.trans hsame, ?_, ?_⟩
  · intro hok
    cases hok
  · intro error' heq
    cases heq
    refine ⟨hnotices _ hnotice, ?_⟩
    rw [hcomposer, hkept.submittedPrompt]
    exact hprompt

/-- **A reap** takes the outcome that is in the held channel, finds the task gone, or
    changes nothing. -/
theorem reapTask_cases (app : App) (r : Surroundings) :
    (∃ i outcome, Reaps r i outcome app (app.reapTask r)) ∨
    (∃ i, Loses i app (app.reapTask r)) ∨ app.reapTask r = app := by
  cases hheld : app.activeTask with
  | none =>
    right
    right
    simp only [App.reapTask, hheld]
  | some i =>
    have hother : (∀ outcome, app.stageOf i ≠ some (.sent outcome)) →
        app.stageOf i ≠ some .vanished → app.reapTask r = app := by
      intro hsent hvanished
      unfold App.reapTask
      rw [hheld]
      dsimp only
      split
      · rename_i hstage
        exact absurd hstage (hsent _)
      · rename_i hstage
        exact absurd hstage (hsent _)
      · rename_i hstage
        exact absurd hstage hvanished
      · rfl
    by_cases hsent : ∃ outcome, app.stageOf i = some (.sent outcome)
    · obtain ⟨outcome, hsent⟩ := hsent
      left
      cases outcome with
      | ok value => exact ⟨i, _, reapTask_success hheld hsent⟩
      | error error => exact ⟨i, _, reapTask_failure hheld hsent⟩
    · by_cases hvanished : app.stageOf i = some .vanished
      · right
        left
        refine ⟨i, hheld, hvanished, ?_⟩
        simp only [App.reapTask, hheld, hvanished]
      · right
        right
        exact hother (fun outcome h => hsent ⟨outcome, h⟩) hvanished

/-! ### The background -/

theorem stageOf_setStage (app : App) (i j : Nat) (stage : OperationStage) :
    (app.setStage i stage).stageOf j =
      if i = j then (app.stageOf j).map fun _ => stage else app.stageOf j := by
  simp only [App.stageOf, App.setStage, List.getElem?_modify]
  split_ifs with heq
  · cases app.operations[j]? <;> rfl
  · cases app.operations[j]? <;> rfl

@[simp] theorem length_setStage (app : App) (i : Nat) (stage : OperationStage) :
    (app.setStage i stage).operations.length = app.operations.length := by
  simp [App.setStage]

/-- Moving an operation on keeps the prompt that started it. -/
theorem prompt_setStage (app : App) (i j : Nat) (stage : OperationStage) :
    ((app.setStage i stage).operations[j]?).map (·.prompt) =
      (app.operations[j]?).map (·.prompt) := by
  simp only [App.setStage, List.getElem?_modify]
  split_ifs with heq
  · cases app.operations[j]? <;> rfl
  · cases app.operations[j]? <;> rfl

theorem driver_some {i : Nat} (h : app.driver = some i) :
    app.agentIsActive = true ∧ i = app.operations.length - 1 ∧ app.stageOf i = some .driving := by
  unfold App.driver at h
  split_ifs at h with hdriven
  cases h
  exact ⟨hdriven.1, rfl, hdriven.2⟩

end Tea.Tui
