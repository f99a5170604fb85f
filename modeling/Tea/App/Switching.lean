/-
  Tea/App/Switching.lean
  ======================
  **The switch of models and of sessions** (`select_model`, `resume_session`): a sequence of
  operations on the agent, each of which may fail, and of changes to what the host shows.
-/
import Tea.Encoding.Utf8
import Tea.Provider.Registry
import Tea.Run.Agent
import Tea.Tui.Transcript

namespace Tea.App

open Tea.Core Tea.Encoding Tea.Session Tea.Tui
open Tea.Provider.Registry hiding ModelDescriptor

/-! ### Policies -/

/-- `AutomaticCompactionPolicy::validate` -/
def validatePolicy (policy : AutomaticCompactionPolicy) : Except String Unit :=
  if !policy.enabled then .ok ()
  else if policy.contextBudget ≤ policy.reservedTokens then
    .error "automatic compaction reserve must be smaller than the context budget"
  else if policy.maxCompactionsPerRun = 0 then
    .error "enabled automatic compaction requires a non-zero per-run compaction limit"
  else if policy.overflowRecovery = .compactAndRetry && policy.maxOverflowRetriesPerRun = 0 then
    .error "overflow retry recovery requires a non-zero retry limit"
  else .ok ()

def automaticCompactionPolicy (contextWindow : ContextWindow) : AutomaticCompactionPolicy :=
  let capacity := contextWindow.tokens.toNat
  { enabled := true
    contextBudget := capacity
    reservedTokens := min (capacity / 4) 16384
    recentTokens := min (capacity / 2) 20000
    overflowRecovery := .compactAndRetry
    maxCompactionsPerRun := 4
    maxOverflowRetriesPerRun := 1 }

/-- `AutomaticCompactionPolicy::disabled` -/
def disabledPolicy : AutomaticCompactionPolicy := {}

/-! ### Setters of the agent -/

variable {F Config P : Type}

/-- The agent with its provider and its policy. -/
structure HostAgent (P : Type) where
  world : World
  provider : Option P
  automaticCompaction : AutomaticCompactionPolicy

namespace HostAgent

variable (agent : HostAgent P)

def replaceModelProvider (model : ModelDescriptor) (provider : P) :
    Except CoreError Unit × HostAgent P :=
  match agent.world.agent.phase.active with
  | some runId => (.error (.activeRun runId), agent)
  | none =>
    (.ok (), { agent with
      world := { agent.world with agent := { agent.world.agent with model := some model } }
      provider := some provider })

def replaceThinkingLevel (thinkingLevel : ThinkingLevel) : Except CoreError Unit × HostAgent P :=
  match agent.world.agent.phase.active with
  | some runId => (.error (.activeRun runId), agent)
  | none =>
    (.ok (), { agent with
      world := { agent.world with agent := { agent.world.agent with thinkingLevel } } })

def replaceAutomaticCompaction (policy : AutomaticCompactionPolicy) :
    Except CoreError Unit × HostAgent P :=
  match validatePolicy policy with
  | .error message => (.error (.invalidAutomaticCompactionPolicy message), agent)
  | .ok () =>
    match agent.world.agent.phase.active with
    | some runId => (.error (.activeRun runId), agent)
    | none => (.ok (), { agent with automaticCompaction := policy })

def restoreMessages (messages : List AgentMessage) : Except CoreError Unit × HostAgent P :=
  let (result, world) := Run.restoreMessages messages agent.world
  (result, { agent with world })

end HostAgent

/-! ### The application -/

inductive AppError where
  | setup (message : String)
  | registry (error : RegistryError)
  | session (error : SessionError)
  | core (error : CoreError)
deriving DecidableEq

/-- What a switch reads and does not change: the options, the registry with the constructors of
    configurations, the environment, and the home with its sessions. -/
structure SwitchHost (F Config P : Type) where
  codec : JsonCodec F
  registry : ProviderRegistry
  adapter : Adapter Config P
  /-- `std::env::var` -/
  environment : String → Option String
  openrouterConfig : (key model : String) → Except String Config
  /-- `CommandCodeHostContext::new` with the workspace, then `CommandCodeConfig::new` -/
  commandcodeConfig : (key model workspace : String) → Except String Config
  localConfig : (baseUrl model : String) → Except String Config
  localContextWindow : Option ContextWindow
  /-- `--local-base-url`, which may not be UTF-8 -/
  localBaseUrl : Option (Option String)
  workspace : Option (List UInt8)
  teaHome : Option (Home × Scan)
  /-- What `save_last_model` fails with. -/
  saveLastModel : ModelDescriptor → Option String

/-- What a switch changes. -/
structure SwitchState (P : Type) where
  core : Option (HostAgent P)
  /-- The compactor, with what it is configured to. -/
  compactor : Option (Option (ModelDescriptor × P))
  state : AppState
  currentSession : Option SessionRecord

namespace SwitchState

variable (host : SwitchHost F Config P) (s : SwitchState P)

def agentIsActive : Bool := s.core.any fun agent => agent.world.agent.phase ≠ .idle

def notice (text : String) : SwitchState P := { s with state := s.state.notice text }

/-- An operation of `agent_or_setup()?`. -/
def onAgent (operation : HostAgent P → Except CoreError Unit × HostAgent P) :
    Except AppError Unit × SwitchState P :=
  match s.core with
  | none => (.error (.setup "agent is not initialized"), s)
  | some agent =>
    let (result, agent) := operation agent
    (result.mapError .core, { s with core := some agent })

/-- `PathBuf::to_string_lossy` -/
def lossyPath (path : List UInt8) : String := String.ofList (fromUtf8Lossy path)

def providerConfiguration (provider model : String) : Except AppError Config :=
  if provider = "openrouter" then
    match host.environment "OPENROUTER_API_KEY" with
    | none => .error (.setup "OPENROUTER_API_KEY is required for OpenRouter")
    | some key => (host.openrouterConfig key model).mapError .setup
  else if provider = "command-code" then
    match host.environment "COMMANDCODE_API_KEY" with
    | none => .error (.setup "COMMANDCODE_API_KEY is required for Command Code")
    | some key =>
      match host.workspace with
      | none => .error (.setup "workspace is not initialized")
      | some workspace =>
        (host.commandcodeConfig key model (lossyPath workspace)).mapError .setup
  else if provider = "local" then
    match host.localBaseUrl with
    | some none => .error (.setup "--local-base-url must be valid UTF-8")
    | some (some baseUrl) => (host.localConfig baseUrl model).mapError .setup
    | none => (host.localConfig "http://127.0.0.1:8000/v1" model).mapError .setup
  else .error (.setup ("provider " ++ debugStr provider ++ " is not compiled in"))

def configuredProvider (provider model : String) : Except AppError (ConfiguredProvider P) := do
  let selection ← (host.registry.resolveModel provider model).mapError .registry
  let configuration ← providerConfiguration host provider model
  (host.registry.build host.adapter selection.descriptor configuration).mapError .registry

/-- The context window of a selected model. -/
def contextWindowOf (provider model : String) : Option ContextWindow :=
  host.localContextWindow <|>
    (((host.registry.provider provider).bind fun entry => entry.model model).bind
      fun model => model.contextWindow).bind
        fun tokens => if h : tokens ≠ 0 then some ⟨tokens, h⟩ else none

/-- The updates of `select_model` behind its operations on the agent. -/
def showModel (agent : HostAgent P) (descriptor : ModelDescriptor)
    (contextWindow : Option ContextWindow) : SwitchState P :=
  let shown : AppState := { s.state with
    automaticCompactionEnabled := agent.automaticCompaction.enabled
    selectedContextWindow := contextWindow
    selectedModel := some descriptor
    contextEstimate := none }
  let s : SwitchState P := { s with
    state := (shown.closeSurface.setSnapshot agent.world.agent).notice "model selected"
    currentSession := s.currentSession.map fun session =>
      { session with model := some descriptor } }
  if host.teaHome.isSome then
    match host.saveLastModel descriptor with
    | some error => s.notice ("model selected but preference was not saved: " ++ error)
    | none => s
  else s

def selectModel (provider model : String) : Except AppError Unit × SwitchState P :=
  if s.agentIsActive then (.ok (), s.notice "model changes require an idle agent")
  else if provider ≠ "local" ∧ host.localContextWindow.isSome then
    (.error (.setup "--local-context-window requires --provider local"), s)
  else
    match configuredProvider host provider model with
    | .error error => (.error error, s)
    | .ok configured =>
      match s.onAgent fun agent =>
          agent.replaceModelProvider configured.descriptor configured.provider with
      | (.error error, s) => (.error error, s)
      | (.ok (), s) =>
        let s := { s with
          compactor := s.compactor.map fun _ => some (configured.descriptor, configured.provider) }
        let contextWindow := contextWindowOf host provider model
        let policy :=
          if s.compactor.isSome then
            (contextWindow.map automaticCompactionPolicy).getD disabledPolicy
          else disabledPolicy
        match s.onAgent fun agent => agent.replaceAutomaticCompaction policy with
        | (.error error, s) => (.error error, s)
        | (.ok (), s) =>
          match s.core with
          | none => (.error (.setup "agent is not initialized"), s)
          | some agent => (.ok (), s.showModel host agent configured.descriptor contextWindow)

/-- The record of a session that belongs to the workspace. -/
def loadSession (id : String) : Except AppError SessionRecord :=
  match host.teaHome, host.workspace with
  | some (home, scan), some workspace =>
    match load host.codec home workspace id scan with
    | .error error => .error (.session error)
    | .ok record =>
      if record.cwd ≠ "" ∧ record.cwd ≠ lossyPath workspace then
        .error (.setup ("session belongs to workspace " ++ record.cwd ++
          "; current workspace is " ++ lossyPath workspace))
      else .ok record
  | _, _ => .error (.setup "Tea home is not initialized")

/-- `resume_session` behind the selection of the model. -/
def restoreSession (id : String) (record : SessionRecord) :
    Except AppError Unit × SwitchState P :=
  match s.onAgent fun agent => agent.replaceThinkingLevel record.thinkingLevel with
  | (.error error, s) => (.error error, s)
  | (.ok (), s) =>
    match s.onAgent fun agent => agent.restoreMessages record.messages with
    | (.error error, s) => (.error error, s)
    | (.ok (), s) =>
      match s.core with
      | none => (.error (.setup "agent is not initialized"), s)
      | some agent =>
        let shown := (s.state.restoreMessages record.messages).setSnapshot agent.world.agent
        (.ok (), { s with
          state := shown.closeSurface.notice ("resumed session " ++ id)
          currentSession := some record })

def resumeSession (id : String) : Except AppError Unit × SwitchState P :=
  if s.agentIsActive then (.ok (), s.notice "session changes require an idle agent")
  else
    match loadSession host id with
    | .error error => (.error error, s)
    | .ok record =>
      match validateMessages record.messages with
      | .error error => (.error (.core (.compaction error)), s)
      | .ok () =>
        match record.model with
        | none => s.restoreSession id record
        | some model =>
          match s.selectModel host model.provider model.model with
          | (.error error, s) => (.error error, s)
          | (.ok (), s) => s.restoreSession id record

end SwitchState

end Tea.App
