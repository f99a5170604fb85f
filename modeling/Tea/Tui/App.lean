/-
  Tea/Tui/App.lean
  ================
  **The terminal application** around an agent (`app/runtime.rs`, `app/input.rs`,
  `app/picker.rs`).  The event loop reaps the outcome of the operation it holds,
  leaves when it is asked to, and handles one terminal event; a spawned operation
  drives the agent in the background, settles it and then sends its outcome.  What
  the file system, the provider registry and the session files answer comes with the
  label of a step (`Surroundings`).
-/

import Tea.Run.Agent
import Tea.Tui.Commands
import Tea.Async.Execution

namespace Tea.Tui

open Tea.Async Tea.Core Tea.Run

/-! ### State -/

/-- How far a spawned operation is: it drives the agent; the agent is settled; the
    outcome is in the channel; the outcome was taken; or the task ended without one. -/
inductive OperationStage where
  | driving
  | settled (outcome : Except CoreError Unit)
  | sent (outcome : Except CoreError Unit)
  | taken (outcome : Except CoreError Unit)
  | vanished
deriving DecidableEq

/-- A future given to `spawn_operation`: a run with the prompt that started it, or a
    compaction. -/
structure Operation where
  prompt : Option String
  stage : OperationStage := .driving
deriving DecidableEq

/-- A call of `SessionStore::save` with what came of it. -/
structure SaveAttempt where
  messages : List AgentMessage
  error : Option String
deriving DecidableEq

/-- Where the event loop stands: before its reap, before its event, or behind its end. -/
inductive Loop where
  | top
  | handling
  | ended (error : Option String)
deriving DecidableEq

/-- `App`.  An operation is named by its place in `operations`, and `activeTask` holds
    the receiver of one; `reaped` lists the operations whose outcome `reap_task` took,
    `notices` and `saves` what was shown and stored. -/
structure App where
  agent : Agent := {}
  core : World := {}
  composer : String := ""
  submittedPrompt : Option String := none
  activeTask : Option Nat := none
  quitting : Bool := false
  loop : Loop := .top
  operations : List Operation := []
  reaped : List Nat := []
  notices : List String := []
  saves : List SaveAttempt := []

/-- What the surroundings answer during one step: the error of a reload, of a save or
    of a model selection, what the session picker has to say, and the saved session. -/
structure Surroundings where
  reload : Option String := none
  save : Option String := none
  select : Option String := none
  sessions : Option String := none
  load : Except String (Bool × List AgentMessage) := .error "not found"

namespace App

variable (r : Surroundings) (app : App)

def notice (text : String) : App := { app with notices := app.notices ++ [text] }

def agentIsActive : Bool := app.core.agent.phase ≠ .idle

/-- `spawn_operation`: the new receiver takes the place of the one that was held. -/
def spawnOperation (prompt : Option String) : App :=
  { app with
    activeTask := some app.operations.length
    operations := app.operations ++ [{ prompt }] }

/-- Move operation `i` to a stage. -/
def setStage (i : Nat) (stage : OperationStage) : App :=
  { app with operations := app.operations.modify i fun operation => { operation with stage } }

def stageOf (i : Nat) : Option OperationStage := (app.operations[i]?).map (·.stage)

/-! ### Reaping -/

/-- `reload_tea_extensions_after_settlement` -/
def reloadAfterSettlement : App :=
  match r.reload with
  | some error =>
      app.notice ("Tea extensions were not reloaded; the previous snapshot remains active: " ++ error)
  | none => app

/-- `persist_session`, with its answer. -/
def persistSession : Bool × App :=
  if app.agentIsActive then (false, app)
  else if app.core.agent.messages = [] then (true, app)
  else
    let app := { app with
      saves := app.saves ++ [{ messages := app.core.agent.messages, error := r.save }] }
    match r.save with
    | some error => (false, app.notice ("session was not saved: " ++ error))
    | none => (true, app)

/-- `restore_submitted_prompt` -/
def restoreSubmittedPrompt (text : String) : App :=
  let app :=
    if app.composer = "" then
      match app.submittedPrompt with
      | some prompt => { app with composer := prompt, submittedPrompt := none }
      | none => app
    else app
  app.notice text

/-- The notice of an error outcome. -/
def outcomeNotice : CoreError → String
  | .cancelled => "cancelled; prompt restored for explicit re-submit"
  | error => error.display ++ "; prompt restored for explicit re-submit"

/-- The receiver yields its outcome and is dropped. -/
def taking (i : Nat) (outcome : Except CoreError Unit) : App :=
  { app.setStage i (.taken outcome) with activeTask := none, reaped := app.reaped ++ [i] }

/-- `reap_task` -/
def reapTask : App :=
  match app.activeTask with
  | none => app
  | some i =>
      match app.stageOf i with
      | some (.sent (.ok ())) =>
          let app := { app.taking i (.ok ()) with submittedPrompt := none }
          ((app.reloadAfterSettlement r).persistSession r).2
      | some (.sent (.error error)) =>
          ((app.taking i (.error error)).restoreSubmittedPrompt (outcomeNotice error))
            |>.reloadAfterSettlement r
      | some .vanished =>
          { app with activeTask := none }.notice "operation task ended unexpectedly"
      | _ => app

/-! ### Commands -/

/-- `select_model`; an error goes to the caller. -/
def selectModel : App × Option String :=
  if app.agentIsActive then (app.notice "model changes require an idle agent", none)
  else
    match r.select with
    | some error => (app, some error)
    | none =>
        let capabilities := { app.agent.capabilities with hasProvider := true }
        ({ app with agent := { app.agent with capabilities } }.notice "model selected", none)

/-- `open_model_picker` -/
def openModelPicker : App :=
  if app.agentIsActive then app.notice "model changes require an idle agent" else app

/-- `open_session_picker` -/
def openSessionPicker : App :=
  if app.agentIsActive then app.notice "session changes require an idle agent"
  else
    match r.sessions with
    | some text => app.notice text
    | none => app

/-- `resume_session`; an error goes to the caller. -/
def resumeSession (id : String) : App × Option String :=
  if app.agentIsActive then (app.notice "session changes require an idle agent", none)
  else
    match r.load with
    | .error error => (app, some error)
    | .ok (hasModel, messages) =>
        match validateMessages messages with
        | .error error => (app, some (CoreError.compaction error).display)
        | .ok () =>
            match if hasModel then app.selectModel r else (app, none) with
            | (app, some error) => (app, some error)
            | (app, none) =>
                match restoreMessages messages app.core with
                | (.error error, _) => (app, some error.display)
                | (.ok (), core) => ({ app with core }.notice ("resumed session " ++ id), none)

/-- `new_session`; an error goes to the caller. -/
def newSession : App × Option String :=
  if app.agentIsActive then (app.notice "new session requires an idle agent", none)
  else
    match app.persistSession r with
    | (false, app) =>
        (app.notice "new session cancelled; the current session was not saved", none)
    | (true, app) =>
        match reset app.core with
        | (.error error, _) => (app, some error.display)
        | (.ok (), core) => ({ app with core, composer := "" }.notice "new session", none)

/-- `/compact` -/
def compact : App :=
  match startCompaction app.agent app.core with
  | (.ok (), core) => { app with core }.spawnOperation none
  | (.error .missingCompactor, core) =>
      { app with core }.notice "manual compaction is unavailable for this provider/model"
  | (.error error, core) => { app with core }.notice error.display

/-- `/clear` -/
def clear : App :=
  match reset app.core with
  | (.ok (), core) => { app with core }.notice "cleared"
  | (.error (.activeRun _), _) => app.notice "cannot clear while the agent is active"
  | (.error error, _) => app.notice error.display

/-- `/quit` -/
def quit : App :=
  let app := { app with quitting := true }
  if app.agentIsActive then
    { app with core := app.core.abortAgent }.notice "cancelling before exit"
  else app

/-- `enqueue_command_prompt` for the two queues. -/
def enqueueCommandPrompt (content usage done : String) (push : String → World → World) : App :=
  let content := trim content
  if content.isEmpty then app.notice usage
  else { app with core := push content app.core }.notice done

/-- Show the error of a command that does not end the loop. -/
def reported : App × Option String → App
  | (app, some error) => app.notice error
  | (app, none) => app

/-- `dispatch_command`; the error of a model selection ends the loop. -/
def dispatchCommand (input : String) : App × Option String :=
  let words := splitWhitespace input
  let command := words.headD ""
  if app.agentIsActive && (find command).any (fun spec => !spec.allowedWhileActive) then
    (app.notice (command ++ " is unavailable while a run is active"), none)
  else if command = "/help" ∨ command = "/cost" then (app, none)
  else if command = "/model" then
    if 2 < words.length then app.selectModel r
    else (app.openModelPicker, none)
  else if command = "/steer" then
    (app.enqueueCommandPrompt (stripPrefix "/steer" input) "usage: /steer <prompt>"
      "steering queued" World.steer, none)
  else if command = "/followup" then
    (app.enqueueCommandPrompt (stripPrefix "/followup" input) "usage: /followup <prompt>"
      "follow-up queued" World.followUp, none)
  else if command = "/session" ∨ command = "/resume" then (app.openSessionPicker r, none)
  else if command = "/new" then (reported (app.newSession r), none)
  else if command = "/compact" then (app.compact, none)
  else if command = "/reload-extensions" then
    match r.reload with
    | some _ => (app.reloadAfterSettlement r, none)
    | none => (app.notice "Tea extensions reloaded", none)
  else if command = "/clear" then (app.clear, none)
  else if command = "/quit" then (app.quit, none)
  else (app.notice ("unknown command " ++ command), none)

/-! ### Terminal events -/

/-- A text submitted as a prompt. -/
def submitPrompt (input : String) : App :=
  if app.agentIsActive then { app with core := app.core.steer input }.notice "steering queued"
  else if !app.agent.capabilities.hasProvider then
    (app.notice "select a model first").openModelPicker
  else
    match startPrompt app.agent input app.core with
    | (.ok _, core) =>
        { app with core, submittedPrompt := some input }.spawnOperation (some input)
    | (.error error, core) => { app with core, composer := input }.notice error.display

/-- `submit_composer`: the text leaves the composer before anything is known of it. -/
def submitComposer : App × Option String :=
  let input := app.composer
  let app := { app with composer := "" }
  if isBlank input then (app, none)
  else if isCommand input then app.dispatchCommand r input
  else (app.submitPrompt input, none)

/-- `handle_control_c` -/
def handleControlC : App :=
  if app.agentIsActive then { app with core := app.core.abortAgent }.notice "cancelling"
  else if app.composer = "" then { app with quitting := true }
  else { app with composer := "" }

end App

/-- What the handler of terminal events comes to: an edit that leaves a text in the
    composer, a submission, possibly of a completed command name, an interrupt, or the
    commit of a picker. -/
inductive UiEvent where
  | edit (text : String)
  | submit
  | submitCompletion (command : String)
  | controlC
  | pickModel
  | pickSession (id : String)

/-- `handle_terminal_event`; an error ends the loop. -/
def App.handleEvent (app : App) (r : Surroundings) : UiEvent → App × Option String
  | .edit text => ({ app with composer := text }, none)
  | .submit => app.submitComposer r
  | .submitCompletion command => { app with composer := command ++ " " }.submitComposer r
  | .controlC => (app.handleControlC, none)
  | .pickModel => (reported (app.selectModel r), none)
  | .pickSession id => (reported (app.resumeSession r id), none)

/-! ### Steps -/

/-- The steps of the loop, and those of the operations in the background. -/
inductive Label where
  | reap (r : Surroundings)
  | handle (event : UiEvent) (r : Surroundings)
  | quiet
  | crash (error : String)
  | work (core : World)
  | settle (core : World) (outcome : Except CoreError Unit)
  | retire (i : Nat) (outcome : Except CoreError Unit)
  | send (i : Nat)
  | vanish (i : Nat)

namespace App

variable (app : App)

/-- The operation that drives the agent: the one started last, while the agent is
    active. -/
def driver : Option Nat :=
  if app.agentIsActive ∧ app.stageOf (app.operations.length - 1) = some .driving then
    some (app.operations.length - 1)
  else none

/-- One step; none where the label is not enabled. -/
def step : Label → Option App
  | .reap r =>
      if app.loop = .top then
        let app := app.reapTask r
        if app.quitting && app.activeTask.isNone then some { app with loop := .ended none }
        else some { app with loop := .handling }
      else none
  | .handle event r =>
      if app.loop = .handling then
        match app.handleEvent r event with
        | (app, none) => some { app with loop := .top }
        | (app, some error) => some { app with loop := .ended (some error) }
      else none
  | .quiet => if app.loop = .handling then some { app with loop := .top } else none
  | .crash error =>
      if app.loop = .handling then some { app with loop := .ended (some error) } else none
  -- the agent stays with the run that owns it until it is settled
  | .work core =>
      if app.driver.isSome ∧ core.agent.phase ≠ .idle then some { app with core } else none
  | .settle core outcome =>
      match app.driver with
      | some i =>
          if core.agent.phase = .idle then some ({ app with core }.setStage i (.settled outcome))
          else none
      | none => none
  -- a run that was aborted before it was driven finds its agent settled
  | .retire i outcome =>
      if app.stageOf i = some .driving ∧ app.driver ≠ some i then
        some (app.setStage i (.settled outcome))
      else none
  | .send i =>
      match app.stageOf i with
      | some (.settled outcome) => some (app.setStage i (.sent outcome))
      | _ => none
  -- the task of an operation panics: its handle is dropped, and so is the sender
  | .vanish i =>
      if app.stageOf i = some .driving then
        let core := if app.driver = some i then dropHandle app.core else app.core
        some ({ app with core }.setStage i .vanished)
      else none

end App

/-- The executions of the application. -/
abbrev Runs := Execution fun (app : App) label app' => app.step label = some app'

/-- The application when its loop is entered: nothing is spawned and the agent is idle. -/
structure Entered (app : App) : Prop where
  operations : app.operations = []
  activeTask : app.activeTask = none
  submittedPrompt : app.submittedPrompt = none
  reaped : app.reaped = []
  loop : app.loop = .top
  idle : app.core.agent.phase = .idle

end Tea.Tui
