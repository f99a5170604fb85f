/-
  Tea/Contract/SwitchAtomicity.lean
  =================================
  **A switch is made as a whole or not at all**: while the agent is idle, none of the operations
  behind the first change fails.
-/
import Tea.App.Switching
import Tea.Encoding.JsonText

namespace Tea.Contract

open Tea.App Tea.Core Tea.Tui
open Tea.App (AppError)

variable {F Config P : Type}

/-! ### Policies -/

theorem validatePolicy_automatic (contextWindow : ContextWindow) :
    validatePolicy (automaticCompactionPolicy contextWindow) = .ok () := by
  have hpos : 0 < contextWindow.tokens.toNat := by
    rcases Nat.eq_zero_or_pos contextWindow.tokens.toNat with hzero | hpos
    · exact absurd (UInt64.toNat_inj.mp hzero) contextWindow.nonzero
    · exact hpos
  unfold validatePolicy automaticCompactionPolicy
  have hroom : ¬ contextWindow.tokens.toNat ≤ min (contextWindow.tokens.toNat / 4) 16384 := by
    omega
  dsimp only
  rw [if_neg (by decide), if_neg hroom, if_neg (by decide), if_neg (by simp)]

theorem validatePolicy_selected (compactor : Bool) (contextWindow : Option ContextWindow) :
    validatePolicy (if compactor then
      (contextWindow.map automaticCompactionPolicy).getD disabledPolicy else disabledPolicy) =
        .ok () := by
  cases compactor with
  | false => rfl
  | true =>
    cases contextWindow with
    | none => rfl
    | some contextWindow => exact validatePolicy_automatic contextWindow

/-! ### Operations on an idle agent -/

def IdleAgent (agent : HostAgent P) : Prop := agent.world.agent.phase = .idle

theorem IdleAgent.active {agent : HostAgent P} (h : IdleAgent agent) :
    agent.world.agent.phase.active = none := by
  have hphase : agent.world.agent.phase = .idle := h
  rw [hphase]
  rfl

/-- The agent of the application, if there is one, is idle. -/
def IdleState (s : SwitchState P) : Prop := ∀ agent, s.core = some agent → IdleAgent agent

/-- The operation does not fail on an idle agent, and leaves it idle. -/
def Succeeds (operation : HostAgent P → Except CoreError Unit × HostAgent P) : Prop :=
  ∀ agent, IdleAgent agent → ∃ agent', operation agent = (.ok (), agent') ∧ IdleAgent agent'

theorem succeeds_provider (model : ModelDescriptor) (provider : P) :
    Succeeds fun agent => agent.replaceModelProvider model provider := by
  intro agent h
  dsimp only [HostAgent.replaceModelProvider]
  rw [h.active]
  exact ⟨_, rfl, h⟩

theorem succeeds_thinking (thinkingLevel : ThinkingLevel) :
    Succeeds fun agent : HostAgent P => agent.replaceThinkingLevel thinkingLevel := by
  intro agent h
  dsimp only [HostAgent.replaceThinkingLevel]
  rw [h.active]
  exact ⟨_, rfl, h⟩

theorem succeeds_policy {policy : AutomaticCompactionPolicy}
    (hpolicy : validatePolicy policy = .ok ()) :
    Succeeds fun agent : HostAgent P => agent.replaceAutomaticCompaction policy := by
  intro agent h
  dsimp only [HostAgent.replaceAutomaticCompaction]
  rw [hpolicy, h.active]
  exact ⟨_, rfl, h⟩

theorem succeeds_restore {messages : List AgentMessage}
    (hmessages : validateMessages messages = .ok ()) :
    Succeeds fun agent : HostAgent P => agent.restoreMessages messages := by
  intro agent h
  dsimp only [HostAgent.restoreMessages, Run.restoreMessages]
  rw [h.active, hmessages]
  exact ⟨_, rfl, h⟩

/-- An operation fails only if there is no agent. -/
theorem onAgent_cases {s : SwitchState P} (h : IdleState s)
    {operation : HostAgent P → Except CoreError Unit × HostAgent P} (hop : Succeeds operation) :
    (s.core = none ∧ ∃ error, s.onAgent operation = (.error error, s)) ∨
      ∃ agent, IdleAgent agent ∧ s.onAgent operation = (.ok (), { s with core := some agent }) := by
  unfold SwitchState.onAgent
  cases hcore : s.core with
  | none => exact .inl ⟨rfl, _, rfl⟩
  | some agent =>
    obtain ⟨agent', hresult, hidle⟩ := hop agent (h agent hcore)
    refine .inr ⟨agent', hidle, ?_⟩
    dsimp only
    rw [hresult]
    rfl

theorem idleState_some {s : SwitchState P} {agent : HostAgent P} (h : IdleAgent agent)
    (hcore : s.core = some agent) : IdleState s := by
  intro other hother
  rw [hcore] at hother
  cases hother
  exact h

/-! ### Switches -/

variable {host : SwitchHost F Config P} {s : SwitchState P}

/-- There is an error and nothing has changed, or a success that leaves an idle agent. -/
def AllOrNothing (s : SwitchState P) (out : Except AppError Unit × SwitchState P) : Prop :=
  (∃ error, out = (.error error, s)) ∨
    ∃ s' agent, out = (.ok (), s') ∧ s'.core = some agent ∧ IdleAgent agent

theorem core_showModel (host : SwitchHost F Config P) (s : SwitchState P) (agent : HostAgent P)
    (descriptor : ModelDescriptor) (contextWindow : Option ContextWindow) :
    (s.showModel host agent descriptor contextWindow).core = s.core := by
  unfold SwitchState.showModel
  dsimp only
  split_ifs
  · cases host.saveLastModel descriptor with
    | some error => rfl
    | none => rfl
  · rfl

theorem not_active (h : IdleState s) : s.agentIsActive = false := by
  unfold SwitchState.agentIsActive
  cases hcore : s.core with
  | none => rfl
  | some agent =>
    have hphase : agent.world.agent.phase = .idle := h agent hcore
    simp [hphase]

theorem selectModel_atomic (h : IdleState s) (provider model : String) :
    AllOrNothing s (s.selectModel host provider model) := by
  unfold SwitchState.selectModel
  rw [not_active h, if_neg Bool.false_ne_true]
  split_ifs with hwindow
  · exact .inl ⟨_, rfl⟩
  · cases hconfigured : SwitchState.configuredProvider host provider model with
    | error error => exact .inl ⟨error, rfl⟩
    | ok configured =>
      dsimp only
      rcases onAgent_cases h (succeeds_provider configured.descriptor configured.provider) with
        ⟨-, error, hfailed⟩ | ⟨agent, hidle, hok⟩
      · rw [hfailed]
        exact .inl ⟨error, rfl⟩
      · rw [hok]
        dsimp only
        -- from here on there is an agent, and it is idle
        have hidle' : IdleState (P := P) ⟨some agent,
            s.compactor.map fun _ => some (configured.descriptor, configured.provider),
            s.state, s.currentSession⟩ := idleState_some hidle rfl
        have hpolicy := validatePolicy_selected
          (s.compactor.map fun _ => some (configured.descriptor, configured.provider)).isSome
          (SwitchState.contextWindowOf host provider model)
        rcases onAgent_cases hidle' (succeeds_policy hpolicy) with
          ⟨hnone, -⟩ | ⟨agent', hlast, hok'⟩
        · cases hnone
        · rw [hok']
          refine .inr ⟨_, agent', rfl, ?_, hlast⟩
          rw [core_showModel]

theorem restoreSession_atomic (h : IdleState s) (id : String) {record : Session.SessionRecord}
    (hmessages : validateMessages record.messages = .ok ()) :
    (s.core = none ∧ ∃ error, s.restoreSession id record = (.error error, s)) ∨
      ∃ s' agent, s.restoreSession id record = (.ok (), s') ∧ s'.core = some agent ∧
        IdleAgent agent := by
  unfold SwitchState.restoreSession
  rcases onAgent_cases h (succeeds_thinking record.thinkingLevel) with
    ⟨hnone, error, hfailed⟩ | ⟨agent, hidle, hok⟩
  · rw [hfailed]
    exact .inl ⟨hnone, error, rfl⟩
  · rw [hok]
    dsimp only
    have hidle' : IdleState { s with core := some agent } := idleState_some hidle rfl
    rcases onAgent_cases hidle' (succeeds_restore hmessages) with ⟨hnone, -⟩ | ⟨agent', hlast, hok'⟩
    · cases hnone
    · rw [hok']
      exact .inr ⟨_, agent', rfl, rfl, hlast⟩

theorem resumeSession_atomic (h : IdleState s) (id : String) :
    AllOrNothing s (s.resumeSession host id) := by
  unfold SwitchState.resumeSession
  rw [not_active h, if_neg Bool.false_ne_true]
  cases SwitchState.loadSession host id with
  | error error => exact .inl ⟨error, rfl⟩
  | ok record =>
    dsimp only
    cases hmessages : validateMessages record.messages with
    | error error => exact .inl ⟨_, rfl⟩
    | ok _ =>
      dsimp only
      cases record.model with
      | none =>
        rcases restoreSession_atomic h id hmessages with ⟨-, hfailed⟩ | hok
        · exact .inl hfailed
        · exact .inr hok
      | some model =>
        dsimp only
        rcases @selectModel_atomic _ _ _ host _ h model.provider model.model with
          ⟨error, hfailed⟩ | ⟨s', agent, hok, hcore, hidle⟩
        · rw [hfailed]
          exact .inl ⟨error, rfl⟩
        · rw [hok]
          dsimp only
          rcases restoreSession_atomic (idleState_some hidle hcore) id hmessages with
            ⟨hnone, -⟩ | hrestored
          · rw [hcore] at hnone
            cases hnone
          · exact .inr hrestored

theorem AllOrNothing.unchanged {out : Except AppError Unit × SwitchState P}
    (h : AllOrNothing s out) {error : AppError} {s' : SwitchState P}
    (hout : out = (.error error, s')) : s' = s := by
  rcases h with ⟨error', heq⟩ | ⟨s'', agent, heq, -⟩
  · rw [hout] at heq
    exact (Prod.mk.inj heq).2
  · rw [hout] at heq
    cases heq

/-- **A switch is made as a whole or not at all.**  If the selection of a model or the resumption
    of a session is an error while the agent is idle, nothing has changed; the policy of every
    context window is valid. -/
theorem switching_all_or_nothing (host : SwitchHost F Config P) (s : SwitchState P)
    (h : IdleState s) :
    (∀ provider model error s', s.selectModel host provider model = (.error error, s') → s' = s) ∧
      (∀ id error s', s.resumeSession host id = (.error error, s') → s' = s) ∧
      ∀ contextWindow, validatePolicy (automaticCompactionPolicy contextWindow) = .ok () := by
  refine ⟨?_, ?_, validatePolicy_automatic⟩
  · intro provider model error s' hout
    exact (selectModel_atomic h provider model).unchanged hout
  · intro id error s' hout
    exact (resumeSession_atomic h id).unchanged hout

/-- A host without providers, home and options. -/
def bareHost : SwitchHost Encoding.Decimal Unit Unit where
  codec := Encoding.textCodec
  registry := ⟨[]⟩
  adapter := ⟨fun _ => "local", fun _ => "", id⟩
  environment _ := none
  openrouterConfig _ _ := .ok ()
  commandcodeConfig _ _ _ := .ok ()
  localConfig _ _ := .ok ()
  localContextWindow := none
  localBaseUrl := none
  workspace := none
  teaHome := none
  saveLastModel _ := none

/-- An agent that was never given a model. -/
def bareState : SwitchState Unit := ⟨some ⟨{}, none, {}⟩, none, {}, none⟩

theorem unknown_provider_changes_nothing :
    (bareState.selectModel bareHost "nowhere" "any").1 =
        .error (.registry (.unknownProvider "nowhere")) ∧
      (bareState.selectModel bareHost "nowhere" "any").2 = bareState := by
  have hidle : IdleState bareState := by
    intro agent h
    cases h
    rfl
  refine ⟨rfl, ?_⟩
  exact (switching_all_or_nothing bareHost bareState hidle).1 "nowhere" "any" _ _ rfl

end Tea.Contract
