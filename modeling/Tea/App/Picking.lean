/-
  Tea/App/Picking.lean
  ====================
  **Pickers of the application** (`open_model_picker`, `open_session_picker`, `commit_picker`):
  a picker is opened while the agent is idle, edited, and committed with a switch.
-/
import Tea.App.Switching
import Tea.Tui.Picker

namespace Tea.App

open Tea.Core Tea.Session Tea.Tui

/-! ### Errors -/

def sessionErrorDisplay : SessionError → String
  | .io path message => "session I/O failed at " ++ path ++ ": " ++ message
  | .contract path message => "invalid session at " ++ path ++ ": " ++ message
  | .json path line message =>
    "invalid session JSON at " ++ path ++ " line " ++ toString line ++ ": " ++ message

def AppError.display : AppError → String
  | .setup message => message
  | .registry error => error.display
  | .session error => sessionErrorDisplay error
  | .core error => error.display

/-! ### Opening -/

/-- The picker on its surface. -/
def showPicker (picker : Picker) (state : AppState) : AppState :=
  { state with picker := some picker }.setSurface <|
    match picker with
    | .model _ _ => .modelPicker
    | .customModel _ _ => .customModel
    | .session _ _ _ => .sessionPicker

variable {F Config P : Type}

namespace SwitchState

variable (host : SwitchHost F Config P) (s : SwitchState P)

def openModelPicker : SwitchState P :=
  if s.agentIsActive then s.notice "model changes require an idle agent"
  else { s with state := showPicker (.model "" 0) s.state }

def openSessionPicker : Except AppError Unit × SwitchState P :=
  if s.agentIsActive then (.ok (), s.notice "session changes require an idle agent")
  else
    match host.teaHome, host.workspace with
    | some (home, scan), some workspace =>
      match list host.codec home workspace scan with
      | .error error => (.error (.session error), s)
      | .ok [] => (.ok (), { s with state := s.state.closeSurface.notice "no saved sessions" })
      | .ok entries => (.ok (), { s with state := showPicker (.session "" 0 entries) s.state })
    | _, _ => (.error (.setup "Tea home is not initialized"), s)

/-! ### Committing -/

/-- The error of a switch is shown over the picker that led to it. -/
def keepPicker (picker : Picker) : Except AppError Unit × SwitchState P → SwitchState P
  | (.ok (), s) => s
  | (.error error, s) => { s with state := showPicker picker (s.state.notice error.display) }

/-- The commit of a model candidate. -/
def commitModel (picker : Picker) (candidate : ModelCandidate) : SwitchState P :=
  match candidate.model with
  | some model => keepPicker picker (s.selectModel host candidate.provider model.id)
  | none => { s with state := showPicker (.customModel candidate.provider "") s.state }

/-- The commit of a saved session. -/
def commitSession (picker : Picker) (summary : SessionSummary) : SwitchState P :=
  keepPicker picker (s.resumeSession host summary.id)

def commitPicker : SwitchState P :=
  match s.state.picker with
  | none => s
  | some (.model filter selected) =>
    ((modelCandidates host.registry filter)[selected]?.map
      (s.commitModel host (.model filter selected))).getD s
  | some (.customModel provider input) =>
    if isBlank input then s.notice "custom model ID cannot be empty"
    else keepPicker (.customModel provider input) (s.selectModel host provider input)
  | some (.session filter selected entries) =>
    ((sessionMatches filter entries)[selected]?.map
      (s.commitSession host (.session filter selected entries))).getD s

end SwitchState

end Tea.App
