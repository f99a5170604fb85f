/-
  Tea/Contract/RequestBudget.lean
  ===============================
  **The budgets of overflow recovery and automatic compaction.**

  A turn begins with one request due.  A further one falls due only when a retry has
  been allowed, which the overflow of the first response does once: the flag of the
  retried continuation stays until a response that is no overflow, after which no
  request falls due in the turn.  A compactor is called once for each compaction that
  was counted.

  What is counted here are the steps of a run, and not the counters of the code.
-/
import Tea.Lifecycle.Writes

namespace Tea.Contract

open Tea.Async Tea.Core Tea.Run Tea.Lifecycle

variable {h : RunHandle} {s s' : Stage} {w w' : World}
  {acts : Now → ClientOp → Prop} {answers : Now → (query : Query) → Reply query → Prop}
  {past : List (Step World Query Reply)} {step : Step World Query Reply}

/-! ### What is counted -/

/-- A provider request, answered by its stream or by an error. -/
def isRequest : Step World Query Reply → Bool
  | .reply (.stream _) _ => true
  | _ => false

/-- A call of the compactor by an automatic compaction. -/
def isCompactorCall : Step World Query Reply → Bool
  | .reply (.compactAutomatic ..) _ => true
  | _ => false

def isTurnStart : AgentEventKind → Bool
  | .turnStart _ => true
  | _ => false

/-- The step records the start of a turn. -/
def startsTurn : Step World Query Reply → Bool
  | .own before after => (after.run.kinds.drop before.run.kinds.length).any isTurnStart
  | _ => false

/-- The requests since the last start of a turn. -/
def requests : List (Step World Query Reply) → Nat
  | [] => 0
  | step :: past => if startsTurn step then 0 else requests past + (isRequest step).toNat

/-- The turn identifier of the state that the past has led to. -/
def turnOf : List (Step World Query Reply) → Option TurnId
  | [] => none
  | .interference _ after :: _ => after.run.turnId
  | .own _ after :: _ => after.run.turnId
  | .reply .. :: past => turnOf past

/-- The requests made under a turn identifier. -/
def requestsFor (id : TurnId) : List (Step World Query Reply) → Nat
  | [] => 0
  | step :: past =>
      requestsFor id past + (isRequest step && decide (turnOf past = some id)).toNat

/-- The requests that retry the one before them. -/
def retries : List (Step World Query Reply) → Nat
  | [] => 0
  | step :: past => retries past + (isRequest step && decide (0 < requests past)).toNat

/-- The budgets of the run of handle `h`, kept by its past. -/
structure Budgeted (h : RunHandle) (past : List (Step World Query Reply)) : Prop where
  turn : requests past ≤ 2
  identifier : ∀ id : TurnId, id.val.toNat < u64Max → requestsFor id past ≤ 2
  retries : retries past ≤ h.agent.automaticCompaction.maxOverflowRetriesPerRun.toNat
  compactions :
    past.countP isCompactorCall ≤ h.agent.automaticCompaction.maxCompactionsPerRun.toNat
  overflowed : ∀ request reply earlier, past = .reply (.stream request) reply :: earlier →
    0 < requests earlier → (collect (responseOf earlier)).contextOverflow = true

/-! ### The invariant -/

/-- What is left to be spent. -/
structure Spending (h : RunHandle) (s : Stage) (w : World)
    (past : List (Step World Query Reply)) : Prop where
  due : s.due = true → requests past = 0 ∨ (requests past = 1 ∧
    w.policy.overflowRetriedThisContinuation = true ∧
    (collect s.response).contextOverflow = true)
  turn : requests past ≤ 2
  spent : requests past = 2 → w.policy.overflowRetriedThisContinuation = true ∨
    ((collect s.response).reason ≠ none ∧ (collect s.response).contextOverflow = false)
  decided : s.decision = some true → requests past ≤ 1 ∧
    w.policy.overflowRetriedThisContinuation = true ∧
    (collect s.response).contextOverflow = true
  retries : retries past ≤ w.policy.overflowRetries
  owed : s.decision = some true ∨ (s.due = true ∧ requests past = 1) →
    Contract.retries past + 1 ≤ w.policy.overflowRetries
  retriesLimit :
    w.policy.overflowRetries ≤ h.agent.automaticCompaction.maxOverflowRetriesPerRun.toNat
  compactions : past.countP isCompactorCall ≤ w.policy.automaticCompactions
  reserved : s.reserved = true →
    past.countP isCompactorCall + 1 ≤ w.policy.automaticCompactions
  compactionsLimit :
    w.policy.automaticCompactions ≤ h.agent.automaticCompaction.maxCompactionsPerRun.toNat

/-- A step that is no request, no call of the compactor and no start of a turn. -/
structure Uncounted (step : Step World Query Reply) : Prop where
  start : startsTurn step = false
  request : isRequest step = false
  call : isCompactorCall step = false

theorem requests_other (hstart : startsTurn step = false) (hrequest : isRequest step = false) :
    requests (step :: past) = requests past := by
  simp [requests, hstart, hrequest]

theorem Uncounted.requests (hu : Uncounted step) :
    Contract.requests (step :: past) = Contract.requests past :=
  requests_other hu.start hu.request

theorem Uncounted.retries (hu : Uncounted step) :
    Contract.retries (step :: past) = Contract.retries past := by
  simp [Contract.retries, hu.request]

theorem Uncounted.compactions (hu : Uncounted step) :
    (step :: past).countP isCompactorCall = past.countP isCompactorCall := by
  simp [hu.call]

theorem requestsFor_other (hrequest : isRequest step = false) (id : TurnId) :
    requestsFor id (step :: past) = requestsFor id past := by
  simp [requestsFor, hrequest]

theorem Uncounted.own (hkinds : w'.run.kinds = w.run.kinds) : Uncounted (.own w w') where
  start := by simp [startsTurn, hkinds]
  request := rfl
  call := rfl

theorem Uncounted.interference : Uncounted (.interference w w') := ⟨rfl, rfl, rfl⟩

theorem startsTurn_record {kind : AgentEventKind}
    (hkinds : w'.run.kinds = w.run.kinds ++ [kind]) :
    startsTurn (.own w w') = isTurnStart kind := by
  simp [startsTurn, hkinds]

theorem Uncounted.passive {query : Query} {reply : Reply query} (hp : passive query reply) :
    Uncounted (.reply query reply) := by
  cases query with
  | stream => exact hp.elim
  | compactAutomatic => exact hp.elim
  | _ => exact ⟨rfl, rfl, rfl⟩

/-- An uncounted step that leaves the counters and the response alone. -/
theorem Spending.frame (hp : Spending h s w past) (hu : Uncounted step)
    (hpolicy : w'.policy = w.policy) (hdue : s'.due = s.due) (hdecision : s'.decision = s.decision)
    (hresponse : s'.response = s.response) (hreserved : s'.reserved = s.reserved) :
    Spending h s' w' (step :: past) where
  due := by
    rw [hu.requests, hdue, hpolicy, hresponse]
    exact hp.due
  turn := by
    rw [hu.requests]
    exact hp.turn
  spent := by
    rw [hu.requests, hpolicy, hresponse]
    exact hp.spent
  decided := by
    rw [hu.requests, hdecision, hpolicy, hresponse]
    exact hp.decided
  retries := by
    rw [hu.retries, hpolicy]
    exact hp.retries
  owed := by
    rw [hu.requests, hu.retries, hpolicy, hdecision, hdue]
    exact hp.owed
  retriesLimit := by
    rw [hpolicy]
    exact hp.retriesLimit
  compactions := by
    rw [hu.compactions, hpolicy]
    exact hp.compactions
  reserved := by
    rw [hu.compactions, hpolicy, hreserved]
    exact hp.reserved
  compactionsLimit := by
    rw [hpolicy]
    exact hp.compactionsLimit

/-! ### Steps of the run -/

theorem Records.spending {kind : AgentEventKind} (hr : Records h s kind s')
    (hp : Spending h s w past) (hpolicy : w'.policy = w.policy)
    (hkinds : w'.run.kinds = w.run.kinds ++ [kind]) : Spending h s' w' (.own w w' :: past) := by
  have hside : isTurnStart kind = false → s'.due = s.due → s'.decision = s.decision →
      s'.response = s.response → s'.reserved = s.reserved →
      Spending h s' w' (.own w w' :: past) := fun hkind =>
    hp.frame ⟨(startsTurn_record hkinds).trans hkind, rfl, rfl⟩ hpolicy
  cases hr with
  | turnStart =>
    -- a request is due, and none has been made
    have hstart : startsTurn (.own w w') = true := startsTurn_record hkinds
    have hrequests : requests (.own w w' :: past) = 0 := by simp [requests, hstart]
    have hretries : Contract.retries (.own w w' :: past) = Contract.retries past := by
      simp [Contract.retries, isRequest]
    have hcalls : (Step.own w w' :: past).countP isCompactorCall = past.countP isCompactorCall := by
      simp [isCompactorCall]
    refine ⟨fun _ => .inl hrequests, ?_, ?_, ?_, ?_, ?_, ?_, ?_, ?_, ?_⟩
    · omega
    · intro htwo
      omega
    · intro hdecision
      obtain ⟨_, hflag, hoverflow⟩ := hp.decided hdecision
      rw [hpolicy]
      exact ⟨by omega, hflag, hoverflow⟩
    · rw [hretries, hpolicy]
      exact hp.retries
    · rw [hretries, hpolicy]
      rintro (hdecision | ⟨_, hone⟩)
      · exact hp.owed (.inl hdecision)
      · omega
    · rw [hpolicy]
      exact hp.retriesLimit
    · rw [hcalls, hpolicy]
      exact hp.compactions
    · rw [hcalls, hpolicy]
      exact hp.reserved
    · rw [hpolicy]
      exact hp.compactionsLimit
  | side _ side =>
    refine hside ?_ rfl rfl rfl rfl
    cases kind with
    | turnStart => cases side
    | _ => rfl
  | _ => exact hside rfl rfl rfl rfl rfl

/-- What the decision on a retry does to the counters. -/
theorem allowOverflowRetry_cases (limit : Nat) (policy : RunPolicyState) :
    (allowOverflowRetry limit policy = (false, policy)) ∨
      (policy.overflowRetriedThisContinuation = false ∧ policy.overflowRetries < limit ∧
        allowOverflowRetry limit policy = (true, { policy with
          overflowRetries := satSucc32 policy.overflowRetries
          overflowRetriedThisContinuation := true })) := by
  unfold allowOverflowRetry
  by_cases hrefused : policy.overflowRetriedThisContinuation = true ∨ limit ≤ policy.overflowRetries
  · exact .inl (if_pos hrefused)
  · rw [if_neg hrefused]
    rw [not_or, Bool.not_eq_true, Nat.not_le] at hrefused
    exact .inr ⟨hrefused.1, hrefused.2, rfl⟩

/-- What the reservation of a compaction does to the counters. -/
theorem reserveCompaction_cases (limit : Nat) (policy : RunPolicyState) :
    (reserveCompaction limit policy = ((policy.automaticCompactions, true), policy)) ∨
      (policy.automaticCompactions < limit ∧
        reserveCompaction limit policy = ((satSucc32 policy.automaticCompactions, false),
          { policy with automaticCompactions := satSucc32 policy.automaticCompactions })) := by
  unfold reserveCompaction
  by_cases hreached : limit ≤ policy.automaticCompactions
  · exact .inl (if_pos hreached)
  · rw [if_neg hreached]
    exact .inr ⟨Nat.not_le.mp hreached, rfl⟩

/-- A counter below a limit of the same width does not saturate. -/
theorem satSucc32_below {n : Nat} {limit : UInt32} (hn : n < limit.toNat) :
    satSucc32 n = n + 1 := by
  have hlimit := limit.toNat_lt
  rw [satSucc32]
  omega

/-- The decision on a retry, which is allowed for a first response only. -/
theorem Spending.decide (hp : Spending h s w past)
    (hoverflow : (collect s.response).contextOverflow = true) :
    Spending h
      { s with decision := some (allowOverflowRetry
          h.agent.automaticCompaction.maxOverflowRetriesPerRun.toNat w.policy).1 }
      { w with policy := (allowOverflowRetry
          h.agent.automaticCompaction.maxOverflowRetriesPerRun.toNat w.policy).2 } past := by
  rcases allowOverflowRetry_cases
    h.agent.automaticCompaction.maxOverflowRetriesPerRun.toNat w.policy with
    heq | ⟨hflag, hlimit, heq⟩
  · rw [heq]
    refine ⟨hp.due, hp.turn, hp.spent, fun htrue => ?_, hp.retries, ?_, hp.retriesLimit,
      hp.compactions, hp.reserved, hp.compactionsLimit⟩
    · cases htrue
    · rintro (htrue | hdue)
      · cases htrue
      · exact hp.owed (.inr hdue)
  · rw [heq]
    have hsucc := satSucc32_below hlimit
    have hretries := hp.retries
    have hone : requests past ≤ 1 := by
      have hturn := hp.turn
      by_contra hnot
      rcases hp.spent (by omega) with hset | ⟨_, hno⟩
      · rw [hflag] at hset
        cases hset
      · rw [hoverflow] at hno
        cases hno
    refine ⟨fun hdue => ?_, hp.turn, fun _ => .inl rfl, fun _ => ⟨hone, rfl, hoverflow⟩, ?_,
      fun _ => ?_, ?_, hp.compactions, hp.reserved, hp.compactionsLimit⟩
    · rcases hp.due hdue with hzero | ⟨hrequest, _, _⟩
      · exact .inl hzero
      · exact .inr ⟨hrequest, rfl, hoverflow⟩
    · simp only [hsucc]
      omega
    · simp only [hsucc]
      omega
    · simp only [hsucc]
      exact hlimit

theorem Spending.reserve (hp : Spending h s w past) :
    Spending h
      { s with reserved := !(reserveCompaction
          h.agent.automaticCompaction.maxCompactionsPerRun.toNat w.policy).1.2 }
      { w with policy := (reserveCompaction
          h.agent.automaticCompaction.maxCompactionsPerRun.toNat w.policy).2 } past := by
  rcases reserveCompaction_cases
    h.agent.automaticCompaction.maxCompactionsPerRun.toNat w.policy with heq | ⟨hlimit, heq⟩
  · rw [heq]
    refine ⟨hp.due, hp.turn, hp.spent, hp.decided, hp.retries, hp.owed, hp.retriesLimit,
      hp.compactions, fun htrue => ?_, hp.compactionsLimit⟩
    cases htrue
  · rw [heq]
    have hsucc := satSucc32_below hlimit
    have hcompactions := hp.compactions
    refine ⟨hp.due, hp.turn, hp.spent, hp.decided, hp.retries, hp.owed, hp.retriesLimit, ?_,
      fun _ => ?_, ?_⟩
    · simp only [hsucc]
      omega
    · simp only [hsucc]
      omega
    · simp only [hsucc]
      exact hlimit

/-- The flag of the retried continuation is reset by a response that is no overflow. -/
theorem Spending.policy (hp : Spending h s w past) {policy : RunPolicyState}
    (hcompactions : policy.automaticCompactions = w.policy.automaticCompactions)
    (hretries : policy.overflowRetries = w.policy.overflowRetries)
    (hretried : policy.overflowRetriedThisContinuation = w.policy.overflowRetriedThisContinuation ∨
      (policy.overflowRetriedThisContinuation = false ∧
        (collect s.response).reason ≠ none ∧ (collect s.response).contextOverflow = false)) :
    Spending h s { w with policy } past := by
  have hkept : (collect s.response).contextOverflow = true →
      policy.overflowRetriedThisContinuation = w.policy.overflowRetriedThisContinuation := by
    intro hoverflow
    rcases hretried with hsame | ⟨_, _, hno⟩
    · exact hsame
    · rw [hoverflow] at hno
      cases hno
  refine ⟨fun hdue => ?_, hp.turn, fun htwo => ?_, fun hdecision => ?_, ?_, ?_, ?_, ?_, ?_, ?_⟩
  · rcases hp.due hdue with hzero | ⟨hone, hflag, hoverflow⟩
    · exact .inl hzero
    · exact .inr ⟨hone, (hkept hoverflow).trans hflag, hoverflow⟩
  · rcases hretried with hsame | ⟨_, hdone⟩
    · rw [hsame]
      exact hp.spent htwo
    · exact .inr hdone
  · obtain ⟨hone, hflag, hoverflow⟩ := hp.decided hdecision
    exact ⟨hone, (hkept hoverflow).trans hflag, hoverflow⟩
  · rw [hretries]
    exact hp.retries
  · rw [hretries]
    exact hp.owed
  · rw [hretries]
    exact hp.retriesLimit
  · rw [hcompactions]
    exact hp.compactions
  · rw [hcompactions]
    exact hp.reserved
  · rw [hcompactions]
    exact hp.compactionsLimit

/-- The restored transcript is sent again. -/
theorem Spending.truncate (hp : Spending h s w past) (hdecision : s.decision = some true) :
    Spending h { s with calls := [], mark := none, due := true } w past := by
  refine ⟨fun _ => ?_, hp.turn, hp.spent, hp.decided, hp.retries, fun _ => ?_, hp.retriesLimit,
    hp.compactions, hp.reserved, hp.compactionsLimit⟩
  · obtain ⟨hone, hflag, hoverflow⟩ := hp.decided hdecision
    rcases Nat.le_one_iff_eq_zero_or_eq_one.mp hone with hzero | hone
    · exact .inl hzero
    · exact .inr ⟨hone, hflag, hoverflow⟩
  · exact hp.owed (.inl hdecision)

theorem Own.spending (hown : Own h s w w' s') (hp : Spending h s w past) :
    Spending h s' w' (.own w w' :: past) := by
  have hcore : ∀ {c : Core}, core w' = c → c.run = w.run → c.policy = w.policy →
      w'.run.kinds = w.run.kinds ∧ w'.policy = w.policy := by
    rintro _ rfl hrun hpolicy
    exact ⟨congrArg RunState.kinds hrun, hpolicy⟩
  cases hown with
  | record records => exact Records.spending records hp rfl (by simp)
  | policy _ compactions retries retried =>
    exact (hp.policy compactions retries retried).frame (.own rfl) rfl rfl rfl rfl rfl
  | reserve => exact hp.reserve.frame (.own rfl) rfl rfl rfl rfl rfl
  | decide _ overflow => exact (hp.decide overflow).frame (.own rfl) rfl rfl rfl rfl rfl
  | truncate _ _ _ decision core_eq =>
    obtain ⟨hkinds, hpolicy⟩ := hcore core_eq rfl rfl
    exact (hp.truncate decision).frame (.own hkinds) hpolicy rfl rfl rfl rfl
  | quiet _ quiet =>
    obtain ⟨hkinds, hpolicy⟩ := hcore quiet.core_eq rfl rfl
    exact hp.frame (.own hkinds) hpolicy rfl rfl rfl rfl
  | skip _ quiet =>
    obtain ⟨hkinds, hpolicy⟩ := hcore quiet.core_eq rfl rfl
    exact hp.frame (.own hkinds) hpolicy rfl rfl rfl rfl
  | append appends _ core_eq =>
    obtain ⟨hkinds, hpolicy⟩ := hcore core_eq rfl rfl
    cases appends <;> exact hp.frame (.own hkinds) hpolicy rfl rfl rfl rfl
  | openText _ _ _ _ _ core_eq =>
    obtain ⟨hkinds, hpolicy⟩ := hcore core_eq rfl rfl
    exact hp.frame (.own hkinds) hpolicy rfl rfl rfl rfl
  | extendText _ _ core_eq =>
    obtain ⟨hkinds, hpolicy⟩ := hcore core_eq rfl rfl
    exact hp.frame (.own hkinds) hpolicy rfl rfl rfl rfl
  | closeText _ _ _ _ _ core_eq =>
    obtain ⟨hkinds, hpolicy⟩ := hcore core_eq rfl rfl
    exact hp.frame (.own hkinds) hpolicy rfl rfl rfl rfl
  | settle =>
    have hclient := settleAgent_client (w := w) .idle ‹_›
    exact hp.frame (.own hclient.kinds) hclient.policy rfl rfl rfl rfl
  | _ => exact hp.frame (.own rfl) rfl rfl rfl rfl rfl

/-! ### Replies -/

/-- An overflow ends the response. -/
theorem overflow_ends (events : List ModelStreamEvent)
    (hoverflow : (collect events).contextOverflow = true) : (collect events).reason ≠ none := by
  induction events using List.reverseRecOn with
  | nil => cases hoverflow
  | append_singleton events event ih =>
    simp only [collect, List.foldl_append, List.foldl_cons, List.foldl_nil] at hoverflow ih ⊢
    cases event with
    | textDelta => exact ih hoverflow
    | toolCall => exact ih hoverflow
    | usage => exact ih hoverflow
    | _ => exact fun heq => by cases heq

/-- A request is made when it is due. -/
theorem Spending.request (hp : Spending h s w past) (hstep : isRequest step = true)
    (hstart : startsTurn step = false) (hcall : isCompactorCall step = false)
    (hdue : s.due = true) (hdue' : s'.due = false) (hdecision : s'.decision ≠ some true)
    (hreserved : s'.reserved = s.reserved) : Spending h s' w (step :: past) := by
  have hrequests : requests (step :: past) = requests past + 1 := by
    simp [requests, hstart, hstep]
  have hcalls : (step :: past).countP isCompactorCall = past.countP isCompactorCall := by
    simp [hcall]
  have hretries : Contract.retries (step :: past) ≤ w.policy.overflowRetries := by
    rcases Nat.eq_zero_or_pos (requests past) with hzero | hpos
    · simpa [Contract.retries, hzero] using hp.retries
    · rcases hp.due hdue with hzero | ⟨hone, _⟩
      · omega
      · simpa [Contract.retries, hstep, hpos] using hp.owed (.inr ⟨hdue, hone⟩)
  refine ⟨fun htrue => ?_, ?_, fun htwo => ?_, fun htrue => absurd htrue hdecision, hretries, ?_,
    hp.retriesLimit, ?_, ?_, hp.compactionsLimit⟩
  · rw [hdue'] at htrue
    cases htrue
  · rcases hp.due hdue with hzero | ⟨hone, _⟩ <;> omega
  · rcases hp.due hdue with hzero | ⟨_, hflag, _⟩
    · omega
    · exact .inl hflag
  · rintro (htrue | ⟨htrue, _⟩)
    · exact absurd htrue hdecision
    · rw [hdue'] at htrue
      cases htrue
  · rw [hcalls]
    exact hp.compactions
  · rw [hcalls, hreserved]
    exact hp.reserved

/-- The compactor is called once a compaction has been reserved. -/
theorem Spending.call (hp : Spending h s w past) (hstep : isCompactorCall step = true)
    (hstart : startsTurn step = false) (hrequest : isRequest step = false)
    (hreserved : s.reserved = true) {proposal : Option (List AgentMessage)} :
    Spending h { s with proposal := proposal, reserved := false } w (step :: past) := by
  have hrequests : requests (step :: past) = requests past := by
    simp [requests, hstart, hrequest]
  have hretries : Contract.retries (step :: past) = Contract.retries past := by
    simp [Contract.retries, hrequest]
  have hcalls : (step :: past).countP isCompactorCall = past.countP isCompactorCall + 1 := by
    simp [hstep]
  refine ⟨?_, ?_, ?_, ?_, ?_, ?_, hp.retriesLimit, ?_, fun htrue => ?_, hp.compactionsLimit⟩
  · rw [hrequests]
    exact hp.due
  · rw [hrequests]
    exact hp.turn
  · rw [hrequests]
    exact hp.spent
  · rw [hrequests]
    exact hp.decided
  · rw [hretries]
    exact hp.retries
  · rw [hretries, hrequests]
    exact hp.owed
  · rw [hcalls]
    exact hp.reserved hreserved
  · cases htrue

theorem Spending.receive (hp : Spending h s w past) (item : Item) :
    Spending h (s.receive item) w past := by
  rcases Stage.receive_cases (s := s) item with ⟨event, _, hopen, heq⟩ | ⟨_, _, heq⟩ | ⟨_, heq⟩
  · -- a response that goes on is no overflow
    have hno : ¬ (collect s.response).contextOverflow = true := fun hoverflow =>
      overflow_ends s.response hoverflow hopen
    rw [heq]
    refine ⟨fun hdue => ?_, hp.turn, fun htwo => ?_, fun hdecision => ?_, hp.retries, hp.owed,
      hp.retriesLimit, hp.compactions, hp.reserved, hp.compactionsLimit⟩
    · rcases hp.due hdue with hzero | ⟨_, _, hoverflow⟩
      · exact .inl hzero
      · exact absurd hoverflow hno
    · rcases hp.spent htwo with hflag | ⟨hended, _⟩
      · exact .inl hflag
      · exact absurd hopen hended
    · exact absurd (hp.decided hdecision).2.2 hno
  · rw [heq]
    exact hp
  · rw [heq]
    exact ⟨hp.due, hp.turn, hp.spent, hp.decided, hp.retries, hp.owed, hp.retriesLimit,
      hp.compactions, hp.reserved, hp.compactionsLimit⟩

theorem Replies.spending {query : Query} {reply : Reply query} (hr : Replies s query reply s')
    (hp : Spending h s w past) : Spending h s' w (.reply query reply :: past) := by
  cases hr with
  | opened _ _ due =>
    exact hp.request rfl rfl rfl due rfl (fun heq => by cases heq) rfl
  | unopened _ _ due =>
    exact hp.request rfl rfl rfl due rfl (fun heq => by cases heq) rfl
  | event => exact (hp.receive _).frame ⟨rfl, rfl, rfl⟩ rfl rfl rfl rfl rfl
  | proposed reserved => exact hp.call rfl rfl rfl reserved
  | unproposed reserved => exact hp.call rfl rfl rfl reserved
  | passive hpassive => exact hp.frame (.passive hpassive) rfl rfl rfl rfl rfl
  | _ => exact hp.frame ⟨rfl, rfl, rfl⟩ rfl rfl rfl rfl rfl

theorem Spending.claimed {runId : RunId} (hpolicy : w.policy = {}) :
    Spending h (Stage.claimed runId) w [] := by
  refine ⟨?_, ?_, ?_, ?_, ?_, ?_, ?_, ?_, ?_, ?_⟩
  · exact fun hdue => by cases hdue
  · exact Nat.zero_le _
  · exact fun htwo => by cases htwo
  · exact fun hdecision => by cases hdecision
  · exact Nat.zero_le _
  · rintro (hdecision | ⟨hdue, _⟩)
    · cases hdecision
    · cases hdue
  · rw [hpolicy]
    exact Nat.zero_le _
  · exact Nat.zero_le _
  · exact fun hreserved => by cases hreserved
  · rw [hpolicy]
    exact Nat.zero_le _

/-! ### Turn identifiers -/

/-- The start of the current turn is not recorded. -/
def unstarted : Life → Bool
  | .created => true
  | .rejected => true
  | .opening => true
  | .started => true
  | .advanced => true
  | _ => false

/-- The requests are counted under the identifier of their turn. -/
structure Numbering (s : Stage) (w : World) (past : List (Step World Query Reply)) : Prop where
  current : turnOf past = w.run.turnId
  first : s.life = .created → s.turn = ⟨1⟩ ∧ ∀ id, requestsFor id past = 0
  later : ∀ id : TurnId, s.turn.val.toNat < id.val.toNat → requestsFor id past = 0
  fresh : unstarted s.life = true → s.turn.val.toNat < u64Max → requestsFor s.turn past = 0
  started : unstarted s.life = false → s.turn.val.toNat < u64Max →
    requestsFor s.turn past ≤ requests past
  all : ∀ id : TurnId, id.val.toNat < u64Max → requestsFor id past ≤ 2

/-- A step that makes no request and leaves the turn alone. -/
theorem Numbering.frame (hn : Numbering s w past) (hstart : startsTurn step = false)
    (hrequest : isRequest step = false)
    (hcurrent : turnOf (step :: past) = w'.run.turnId) (hturn : s'.turn = s.turn)
    (hcreated : s'.life = .created → s.life = .created)
    (hunstarted : unstarted s'.life = true → unstarted s.life = true) :
    Numbering s' w' (step :: past) where
  current := hcurrent
  first hlife := by
    rw [hturn]
    exact ⟨(hn.first (hcreated hlife)).1, fun id =>
      (requestsFor_other hrequest id).trans ((hn.first (hcreated hlife)).2 id)⟩
  later id hlt := by
    rw [requestsFor_other hrequest]
    exact hn.later id (hturn ▸ hlt)
  fresh hlife hlt := by
    rw [hturn] at hlt ⊢
    rw [requestsFor_other hrequest]
    exact hn.fresh (hunstarted hlife) hlt
  started _ hlt := by
    rw [hturn] at hlt ⊢
    rw [requestsFor_other hrequest, requests_other hstart hrequest]
    by_cases hlife : unstarted s.life = true
    · rw [hn.fresh hlife hlt]
      exact Nat.zero_le _
    · exact hn.started (Bool.eq_false_iff.mpr hlife) hlt
  all id hlt := by
    rw [requestsFor_other hrequest]
    exact hn.all id hlt

/-- The start of a turn begins a new count. -/
theorem Numbering.turnStart (hn : Numbering s w past) (hrequest : isRequest step = false)
    (hcurrent : turnOf (step :: past) = w'.run.turnId)
    (hunstarted : unstarted s.life = true) :
    Numbering { s with life := .turnOpen, due := true } w' (step :: past) := by
  have hsame : ∀ id, requestsFor id (step :: past) = requestsFor id past :=
    requestsFor_other hrequest
  refine ⟨hcurrent, fun hlife => ?_, fun id hlt => ?_, fun hlife => ?_, fun _ hlt => ?_,
    fun id hlt => ?_⟩
  · cases hlife
  · exact (hsame id).trans (hn.later id hlt)
  · cases hlife
  · rw [(hsame _).trans (hn.fresh hunstarted hlt)]
    exact Nat.zero_le _
  · rw [hsame]
    exact hn.all id hlt

/-- The next turn has a new identifier, unless the counter is exhausted. -/
theorem Numbering.advance (hn : Numbering s w past) (hrequest : isRequest step = false)
    (hcurrent : turnOf (step :: past) = w'.run.turnId) {life : Life}
    (hlife : unstarted life = true) (hcreated : life ≠ .created) :
    Numbering { s with life := life, turn := nextTurnId s.turn } w' (step :: past) := by
  have hle : s.turn.val.toNat ≤ (satSucc s.turn.val).toNat := le_satSucc _
  have hfresh : (satSucc s.turn.val).toNat < u64Max →
      requestsFor (nextTurnId s.turn) past = 0 := by
    intro hlt
    refine hn.later _ ?_
    have hsucc := satSucc_toNat s.turn.val
    change s.turn.val.toNat < (satSucc s.turn.val).toNat
    omega
  refine ⟨hcurrent, fun heq => absurd heq hcreated, fun id hlt => ?_, fun _ hlt => ?_, fun hno => ?_,
    fun id hlt => ?_⟩
  · rw [requestsFor_other hrequest]
    exact hn.later id (Nat.lt_of_le_of_lt hle hlt)
  · rw [requestsFor_other hrequest]
    exact hfresh hlt
  · rw [show unstarted life = false from hno] at hlife
    cases hlife
  · rw [requestsFor_other hrequest]
    exact hn.all id hlt

theorem Records.numbering {kind : AgentEventKind} (hr : Records h s kind s')
    (hn : Numbering s w past) (hkinds : w'.run.kinds = w.run.kinds ++ [kind]) :
    Numbering s' w' (.own w w' :: past) := by
  have hside : isTurnStart kind = false → s'.turn = s.turn →
      (s'.life = .created → s.life = .created) →
      (unstarted s'.life = true → unstarted s.life = true) →
      Numbering s' w' (.own w w' :: past) := fun hkind =>
    hn.frame ((startsTurn_record hkinds).trans hkind) rfl rfl
  cases hr with
  | turnStart life =>
    refine hn.turnStart rfl rfl ?_
    rcases life with life | life <;> rw [life] <;> rfl
  | agentStart life =>
    exact hside rfl rfl (fun hlife => by cases hlife) fun _ => by rw [life]; rfl
  | side _ side =>
    refine hside ?_ rfl id id
    cases kind with
    | turnStart => cases side
    | _ => rfl
  | turnEnd => exact hside rfl rfl (fun hlife => by cases hlife) fun hlife => by cases hlife
  | agentEnd => exact hside rfl rfl (fun hlife => by cases hlife) fun hlife => by cases hlife
  | settleTurnEnd => exact hside rfl rfl (fun hlife => by cases hlife) fun hlife => by cases hlife
  | settleAgentEnd => exact hside rfl rfl (fun hlife => by cases hlife) fun hlife => by cases hlife
  | _ => exact hside rfl rfl id id

theorem Moves.numbering (hm : Moves h s s') (hn : Numbering s w past)
    (hkinds : w'.run.kinds = w.run.kinds) : Numbering s' w' (.own w w' :: past) := by
  have hframe : s'.turn = s.turn → (s'.life = .created → s.life = .created) →
      (unstarted s'.life = true → unstarted s.life = true) →
      Numbering s' w' (.own w w' :: past) :=
    hn.frame (Uncounted.own hkinds).start rfl rfl
  cases hm with
  | stay life turn =>
    rw [life] at hframe
    exact hframe turn id id
  | begin life =>
    refine hframe (hn.first life).1.symm (fun hlife => by cases hlife) fun _ => ?_
    rw [life]
    rfl
  | reject life =>
    refine hframe rfl (fun hlife => by cases hlife) fun _ => ?_
    rw [life]
    rfl
  | poll life turn =>
    rcases life with ⟨_, life⟩ | ⟨_, life⟩ <;> rw [life] at hframe <;>
      exact hframe turn (fun hlife => by cases hlife) fun hlife => by cases hlife
  | advance => exact hn.advance rfl rfl rfl fun hlife => by cases hlife
  | skip _ life turn =>
    rw [life] at hframe
    exact hframe turn (fun hlife => by cases hlife) fun hlife => by cases hlife
  | _ => exact hframe rfl (fun hlife => by cases hlife) fun hlife => by cases hlife

/-- A request is counted under the identifier of the turn. -/
theorem Numbering.request (hn : Numbering s w past) (hstep : isRequest step = true)
    (hstart : startsTurn step = false) (hcurrent : turnOf (step :: past) = turnOf past)
    (hlife : s.life = .turnOpen) (hid : w.run.turnId = some s.turn)
    (hturn : requests past ≤ 1) {s' : Stage} (hsame : s'.turn = s.turn ∧ s'.life = s.life) :
    Numbering s' w (step :: past) := by
  have hrequests : requests (step :: past) = requests past + 1 := by
    simp [requests, hstart, hstep]
  have hnow : requestsFor s.turn (step :: past) = requestsFor s.turn past + 1 := by
    simp [requestsFor, hstep, hn.current, hid]
  have hother : ∀ id, id ≠ s.turn → requestsFor id (step :: past) = requestsFor id past := by
    intro id hne
    simp [requestsFor, hn.current, hid, hne.symm]
  have hstarted := hn.started (by rw [hlife]; rfl)
  obtain ⟨hturn', hlife'⟩ := hsame
  refine ⟨hcurrent.trans hn.current, fun heq => ?_, fun id hlt => ?_, fun heq => ?_,
    fun _ hlt => ?_, fun id hlt => ?_⟩
  · rw [hlife', hlife] at heq
    cases heq
  · rw [hturn'] at hlt
    have hne : id ≠ s.turn := fun heq => by
      rw [heq] at hlt
      omega
    rw [hother id hne]
    exact hn.later id hlt
  · rw [hlife', hlife] at heq
    cases heq
  · rw [hturn'] at hlt ⊢
    have hle := hstarted hlt
    omega
  · by_cases hid : id = s.turn
    · rw [hid] at hlt ⊢
      have hle := hstarted hlt
      omega
    · rw [hother id hid]
      exact hn.all id hlt

theorem Replies.numbering {query : Query} {reply : Reply query} (hr : Replies s query reply s')
    (hw : Consistent s w) (hp : Spending h s w past) (hn : Numbering s w past) :
    Numbering s' w (.reply query reply :: past) := by
  have hone : s.due = true → requests past ≤ 1 := fun hdue => by
    rcases hp.due hdue with hzero | ⟨hone, _⟩ <;> omega
  have hframe : isRequest (.reply query reply) = false → s'.turn = s.turn → s'.life = s.life →
      Numbering s' w (.reply query reply :: past) := fun hrequest hturn hlife =>
    hn.frame rfl hrequest hn.current hturn (fun heq => hlife ▸ heq) fun heq => hlife ▸ heq
  cases hr with
  | opened turn _ due =>
    exact hn.request rfl rfl rfl turn.life (hw.owned turn.running).2.1 (hone due) ⟨rfl, rfl⟩
  | unopened turn _ due =>
    exact hn.request rfl rfl rfl turn.life (hw.owned turn.running).2.1 (hone due) ⟨rfl, rfl⟩
  | @event item =>
    rcases Stage.receive_cases (s := s) item with ⟨_, _, _, heq⟩ | ⟨_, _, heq⟩ | ⟨_, heq⟩ <;>
      rw [heq] at hframe ⊢ <;> exact hframe rfl rfl rfl
  | declined life =>
    refine hn.frame rfl rfl hn.current rfl (fun heq => ?_) fun heq => ?_
    · cases heq
    · cases heq
  | passive hpassive => exact hframe (Uncounted.passive hpassive).request rfl rfl
  | _ => exact hframe rfl rfl rfl

/-! ### The budgets -/

theorem Heard.own {m : Now} {update : World → World} (hown : Own h s m.state (update m.state) s')
    (hh : Heard s m) : Heard s' (m.own update) := by
  intro hfault
  rw [Own.response hown]
  exact hh (Own.fault hown ▸ hfault)

/-- The counts of the past are within the budgets. -/
theorem Spending.budgeted (hp : Spending h s w past) (hn : Numbering s w past)
    (hoverflowed : ∀ request reply earlier, past = .reply (.stream request) reply :: earlier →
      0 < requests earlier → (collect (responseOf earlier)).contextOverflow = true) :
    Budgeted h past where
  turn := hp.turn
  identifier := hn.all
  retries := hp.retries.trans hp.retriesLimit
  compactions := hp.compactions.trans hp.compactionsLimit
  overflowed := hoverflowed

theorem budget_invariant :
    (machine h).Invariant (Host.of acts answers) fun s m =>
      (Consistent s m.state ∧ Sealed m.past) ∧ Heard s m ∧ Spending h s m.state m.past ∧
        Numbering s m.state m.past ∧ ∀ past, past <:+ m.past → Budgeted h past := by
  -- the last step is within the budgets as those before
  have hthroughout : ∀ {s : Stage} {w : World} {step past},
      Spending h s w (step :: past) → Numbering s w (step :: past) →
      (∀ earlier, earlier <:+ past → Budgeted h earlier) →
      (∀ request reply, step = .reply (.stream request) reply →
        0 < requests past → (collect (responseOf past)).contextOverflow = true) →
      ∀ earlier, earlier <:+ step :: past → Budgeted h earlier := by
    intro s w step past hp hn hbefore hstep earlier hsuffix
    rcases List.suffix_cons_iff.mp hsuffix with rfl | hsuffix
    · refine hp.budgeted hn ?_
      rintro request reply _ heq
      obtain ⟨rfl, rfl⟩ := List.cons.inj heq
      exact hstep request reply rfl
    · exact hbefore earlier hsuffix
  refine lifecycle_invariant.and ?_ ?_ ?_
  · rintro s m w _ ⟨hh, hp, hn, hb⟩ ⟨op, _, rfl⟩
    have hclient := ClientOp.client op m.state
    have hp' : Spending h s (op.apply m.state)
        (.interference m.state (op.apply m.state) :: m.past) :=
      hp.frame .interference hclient.policy rfl rfl rfl rfl
    have hn' : Numbering s (op.apply m.state)
        (.interference m.state (op.apply m.state) :: m.past) :=
      hn.frame rfl rfl rfl rfl id id
    exact ⟨hh, hp', hn', hthroughout hp' hn' hb fun _ _ heq => by cases heq⟩
  · intro s m update s' _ ⟨hh, hp, hn, hb⟩ hown
    have hp' := Own.spending hown hp
    have hn' : Numbering s' (update m.state) (.own m.state (update m.state) :: m.past) := by
      rcases Own.moves hown with ⟨kind, records, hkinds, _⟩ | ⟨moves, hkinds, _⟩
      · exact Records.numbering records hn hkinds
      · exact Moves.numbering moves hn hkinds
    exact ⟨Heard.own hown hh, hp', hn', hthroughout hp' hn' hb fun _ _ heq => by cases heq⟩
  · intro s m query answer s' ⟨hw, _⟩ ⟨hh, hp, hn, hb⟩ _ hr
    have hp' := Replies.spending hr hp
    have hn' := Replies.numbering hr hw hp hn
    refine ⟨Replies.heard hr hh, hp', hn', hthroughout hp' hn' hb ?_⟩
    rintro request reply ⟨⟩ hpos
    -- a retry follows an overflow
    have hdue : InTurn s ∧ s.due = true := by
      cases hr with
      | opened turn _ due => exact ⟨turn, due⟩
      | unopened turn _ due => exact ⟨turn, due⟩
      | passive hpassive => exact hpassive.elim
    rw [← hh hdue.1.fault]
    rcases hp.due hdue.2 with hzero | ⟨_, _, hoverflow⟩
    · omega
    · exact hoverflow

/-- The pasts of a run that has ended so, a query left waiting among them. -/
def Happened (o : Outcome Query CoreError Unit) (m : Now) (past : List (Step World Query Reply)) :
    Prop :=
  past <:+ m.past ∨ ∃ query answer, o = .pending query ∧ past = .reply query answer :: m.past

theorem Happened.now {o : Outcome Query CoreError Unit} {m : Now} : Happened o m m.past :=
  .inl List.suffix_rfl

/-- **Budgets.**  At all times of a run, whatever its host does, a turn has made at most
    two requests, the second after the overflow of the first response; the retries and
    the calls of the compactor are within the limits of the policy.  Turns are told
    apart by their starts and by their identifiers, as long as these are not exhausted. -/
theorem requests_budgeted {a : Agent} {contents : List String} {skip : Bool} {w₀ : World}
    {fuel : Nat} {o : Outcome Query CoreError Unit} {m : Now}
    (hstart : startRun a contents skip w₀ = (.ok h, w)) (hheld : w₀.held = true)
    (hrun : Run (Host.of acts answers) (drive h fuel) (Now.start w) o m)
    (hpast : Happened o m past) : Budgeted h past := by
  have hclaimed := startRun_claimed hstart
  have hbegin : ∀ {answers o m},
      Run (Host.of acts answers) (drive h fuel) (Now.start w) o m →
      ∀ past, past <:+ m.past → Budgeted h past := by
    intro answers o m hrun
    have hconsistent := hclaimed.consistent hheld
    have hpolicy : w.policy = {} := by
      rw [hclaimed.world]
      rfl
    have hturn : w.run.turnId = none := by
      rw [hclaimed.world]
      rfl
    have hp : Spending h (Stage.claimed w.run.id) w [] := .claimed hpolicy
    have hn : Numbering (Stage.claimed w.run.id) w [] :=
      ⟨hturn.symm, fun _ => ⟨rfl, fun _ => rfl⟩, fun _ _ => rfl, fun _ _ => rfl,
        fun hlife => (by cases hlife), fun _ _ => Nat.zero_le _⟩
    obtain ⟨s, _, _, _, _, _, hb⟩ := drive_reaches budget_invariant
      ⟨⟨hconsistent, fun _ hmem => by cases hmem⟩, fun _ => rfl, hp, hn, fun past hsuffix => by
        rw [List.suffix_nil.mp hsuffix]
        exact hp.budgeted hn fun _ _ _ heq => by cases heq⟩ hrun
    exact hb
  rcases hpast with hsuffix | ⟨query, answer, rfl, rfl⟩
  · exact hbegin hrun past hsuffix
  · obtain ⟨o, m'', hrun', hsuffix⟩ := hrun.answered answer
    exact hbegin hrun' _ hsuffix

/-- An agent that compacts and retries after an overflow, once in a run. -/
def retrying : Agent where
  capabilities := {
    hasCompactor := true
    automaticCompaction := {
      enabled := true, overflowRecovery := .compactAndRetry
      maxCompactionsPerRun := 1, maxOverflowRetriesPerRun := 1 } }

/-- The first response overflows, and the second is a text. -/
def overflowsOnce : List Item :=
  [.ok (some (.contextOverflow "too long")), .ok none] ++ textReply

/-- The run of a prompt whose first response overflows. -/
def retried : Outcome Query CoreError Unit × Now :=
  accepting.prompt retrying observed overflowsOnce 9

/-- The retry of a request that has overflowed spends the budgets. -/
theorem requests_budgeted_retried :
    requests retried.2.past = 2 ∧ retries retried.2.past = 1 ∧
      retried.2.past.countP isCompactorCall = 1 ∧ Budgeted (promptHandle retrying observed)
        retried.2.past := by
  have hbudget := requests_budgeted (prompted_eq retrying rfl) rfl
    (accepting.prompt_run retrying observed overflowsOnce 9) Happened.now
  rw [retried]
  exact ⟨by decide +kernel, by decide +kernel, by decide +kernel, hbudget⟩

end Tea.Contract
