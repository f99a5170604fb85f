/-
  Tea/Contract/ContextMeter.lean
  ==============================
  **What a context estimate should say.**  The meter reads the steps of a run: the
  transcript of each request, the input tokens that the response to it reported, and the
  commits of compactions, which make them void.  An estimate is right if it is what the
  last confirmed request says with what was appended since (`Expected`).

  The estimator of the loop is `Linked` to the meter: its checkpoint is the confirmed
  request, whose transcript is a prefix of the present one.
-/
import Tea.Lifecycle.LoopRule

namespace Tea.Contract

open Tea.Async Tea.Core Tea.Run Tea.Lifecycle

variable {acts : Now → ClientOp → Prop} {answers : Now → (query : Query) → Reply query → Prop}

/-! ### The meter -/

/-- The event that a critical section has recorded. -/
def noteOf (before after : World) : Option AgentEventKind :=
  (after.run.kinds.drop before.run.kinds.length).head?

theorem noteOf_same {w w' : World} (h : w'.run.kinds = w.run.kinds) : noteOf w w' = none := by
  simp [noteOf, h]

theorem noteOf_append {w w' : World} {kind : AgentEventKind}
    (h : w'.run.kinds = w.run.kinds ++ [kind]) : noteOf w w' = some kind := by
  simp [noteOf, h]

/-- A request: the messages that it was made of, and the transcript at that time. -/
structure Requested where
  messages : List MessageId := []
  transcript : List AgentMessage := []

/-- A request whose input tokens its response has reported. -/
structure Confirmed where
  tokens : Nat
  request : Requested

structure Meter where
  /-- The messages that were converted last. -/
  converted : List MessageId := []
  request : Requested := {}
  reason : Option StopReason := none
  confirmed : Option Confirmed := none

/-- The nonzero input tokens of a response that is no error. -/
def reportedInput (reason : Option StopReason) (usage : Usage) : Option Nat :=
  if reason = some .error ∨ reason = some .aborted then none
  else usage.inputTokens.filter (· ≠ 0)

def replacesHistory : AutomaticCompactionOutcome → Bool
  | .succeeded _ => true
  | .stillAboveThreshold => true
  | _ => false

/-- An event, recorded while the transcript was this. -/
def Meter.read (a : Meter) (transcript : List AgentMessage) : AgentEventKind → Meter
  | .contextEstimate .. => { a with request := ⟨a.converted, transcript⟩ }
  | .messageEnd (.assistant _ _ _ reason _) => { a with reason }
  | .modelTurnUsage accounting =>
      match reportedInput a.reason accounting.usage with
      | some tokens => { a with confirmed := some ⟨tokens, a.request⟩ }
      | none => a
  | .automaticCompactionEnd _ _ outcome =>
      if replacesHistory outcome then { a with confirmed := none } else a
  | _ => a

def Meter.step (a : Meter) : Step World Query Reply → Meter
  | .own before after =>
      match noteOf before after with
      | some kind => a.read before.agent.messages kind
      | none => a
  | .reply (.convertToLlm context) _ => { a with converted := context.messages.map (·.id) }
  | _ => a

/-- The meter after the steps, of which the last is the first of the list. -/
def meterOf : List (Step World Query Reply) → Meter
  | [] => {}
  | step :: past => (meterOf past).step step

/-! ### Right estimates -/

/-- The reported tokens, with the estimate of what was appended since the request. -/
def Expected (confirmed : Option Confirmed) (messages : List AgentMessage)
    (estimated : Option Nat) : Prop :=
  match confirmed with
  | some c => ∃ appended, messages = c.request.transcript ++ appended ∧
      estimated = some (satAdd c.tokens (estimateMessagesTokens appended))
  | none => estimated = some (estimateMessagesTokens messages)

/-- The reported tokens, with the estimate of what the request was not made of. -/
def ExpectedOfRequest (confirmed : Option Confirmed) (messages : List AgentMessage)
    (estimated : Option Nat) : Prop :=
  match confirmed with
  | some c => estimated = some (c.tokens +
      estimateMessagesTokens (messages.filter fun message => message.id ∉ c.request.messages))
  | none => estimated = some (estimateMessagesTokens messages)

/-- Every recorded estimate is as `expected` says. -/
def Estimates (expected : Option Confirmed → List AgentMessage → Option Nat → Prop) :
    List (Step World Query Reply) → Prop
  | [] => True
  | step :: past =>
      (∀ before after estimated inputBytes count bytes resultBytes, step = .own before after →
        noteOf before after =
          some (.contextEstimate estimated inputBytes count bytes resultBytes) →
        expected (meterOf past).confirmed before.agent.messages estimated) ∧
      Estimates expected past

/-! ### Classes of critical sections -/

def isEstimate : AgentEventKind → Bool
  | .contextEstimate .. => true
  | _ => false

/-- The meter does not read the event. -/
def Unread (kind : AgentEventKind) : Prop :=
  isEstimate kind = false ∧ ∀ (a : Meter) transcript, a.read transcript kind = a

/-- At most an event in `K` is recorded, and the transcript changes as `T` says. -/
structure Confines (K : AgentEventKind → Prop) (T : List AgentMessage → List AgentMessage → Prop)
    (w w' : World) : Prop where
  kinds : w'.run.kinds = w.run.kinds ∨ ∃ kind, K kind ∧ w'.run.kinds = w.run.kinds ++ [kind]
  transcript : T w.agent.messages w'.agent.messages

/-- The transcript stays. -/
abbrev Still : World → World → Prop :=
  Confines Unread fun messages messages' => messages' = messages

/-- The transcript is extended. -/
abbrev Extending : World → World → Prop :=
  Confines Unread fun messages messages' => messages <+: messages'

/-- Anything but an estimate. -/
abbrev Unestimating : World → World → Prop :=
  Confines (fun kind => isEstimate kind = false) fun _ _ => True

variable {K : AgentEventKind → Prop} {T : List AgentMessage → List AgentMessage → Prop}

theorem confines_noted {kind : AgentEventKind} (hT : ∀ messages, T messages messages)
    (hkind : K kind) (w : World) : Confines K T w (noted kind w) :=
  ⟨.inr ⟨kind, hkind, noted_kinds kind w⟩, hT _⟩

theorem confines_admits (hT : ∀ messages, T messages messages)
    (hK : ∀ kind, isRoutine kind = true → K kind) : Admits (Confines K T) where
  quiet w w' hw hmessages := ⟨.inl hw.kinds, by rw [hmessages]; exact hT _⟩
  note w kind hroutine := confines_noted hT (hK kind hroutine) w

theorem unread_of_routine (kind : AgentEventKind) (hroutine : isRoutine kind = true) :
    Unread kind := by
  cases kind with
  | messageEnd => cases hroutine
  | modelTurnUsage => cases hroutine
  | contextEstimate => cases hroutine
  | automaticCompactionEnd => cases hroutine
  | toolFailureObserved => cases hroutine
  | _ => exact ⟨rfl, fun _ _ => rfl⟩

theorem still_admits : Admits Still := confines_admits (fun _ => rfl) unread_of_routine

theorem extending_admits : Admits Extending :=
  confines_admits List.prefix_refl unread_of_routine

theorem extending_appends : HasAppends Extending := by
  intro w w' message hw hmessages
  refine ⟨.inl hw.kinds, ?_⟩
  rw [hmessages]
  exact List.prefix_append _ _

theorem unestimating_admits : Admits Unestimating :=
  confines_admits (fun _ => trivial) fun kind hroutine => (unread_of_routine kind hroutine).1

theorem unestimating_noted {kind : AgentEventKind} (hkind : isEstimate kind = false)
    (w : World) : Unestimating w (noted kind w) := confines_noted (fun _ => trivial) hkind w

theorem unestimating_rewrites : HasRewrites Unestimating := fun _ _ hw => ⟨.inl hw.kinds, trivial⟩

theorem unestimating_appends : HasAppends Unestimating := fun _ _ _ hw _ =>
  ⟨.inl hw.kinds, trivial⟩

theorem unestimating_ends : HasEnds Unestimating := fun _ _ _ => unestimating_noted rfl

theorem unestimating_messages : HasMessages Unestimating := fun _ => unestimating_noted rfl

theorem Confines.unestimating {w w' : World} (hK : ∀ kind, K kind → isEstimate kind = false)
    (hw : Confines K T w w') : Unestimating w w' :=
  ⟨hw.kinds.imp_right fun ⟨kind, hkind, hkinds⟩ => ⟨kind, hK kind hkind, hkinds⟩, trivial⟩

/-! ### Assertions -/

/-- Every estimate so far is right. -/
def EstimatesSoFar (m : Now) : Prop := Estimates Expected m.past

theorem EstimatesSoFar.own {m : Now} {update : World → World} (hm : EstimatesSoFar m)
    (hw : Unestimating m.state (update m.state)) : EstimatesSoFar (m.own update) := by
  refine ⟨?_, hm⟩
  intro before after estimated inputBytes count bytes resultBytes hstep hnote
  obtain ⟨rfl, rfl⟩ := Step.own.inj hstep
  rcases hw.kinds with hsame | ⟨kind, hkind, hkinds⟩
  · rw [noteOf_same hsame] at hnote
    cases hnote
  · rw [noteOf_append hkinds] at hnote
    obtain rfl := Option.some.inj hnote
    cases hkind

theorem EstimatesSoFar.interfere {m : Now} (hm : EstimatesSoFar m) (w : World) :
    EstimatesSoFar (m.interfere w) := ⟨fun _ _ _ _ _ _ _ hstep => (nomatch hstep), hm⟩

theorem EstimatesSoFar.reply {m : Now} (hm : EstimatesSoFar m) (query : Query)
    (answer : Reply query) : EstimatesSoFar (m.reply query answer) :=
  ⟨fun _ _ _ _ _ _ _ hstep => (nomatch hstep), hm⟩

theorem estimatesSoFar_invariant :
    Invariant (Host.of acts answers) Unestimating EstimatesSoFar where
  interfere _ w hm _ := hm.interfere w
  own _ _ hm hw := hm.own hw
  reply _ query answer hm _ := hm.reply query answer

/-- What is said of the meter and the transcript. -/
abbrev Gauge : Type := Meter → List AgentMessage → Prop

/-- It does not depend on the messages that were converted last. -/
def Gauge.Lasts (X : Gauge) : Prop :=
  ∀ a converted messages, X a messages → X { a with converted } messages

/-- Every estimate so far is right; where estimates are recorded, `X` holds. -/
structure Metered (enabled : Bool) (X : Gauge) (m : Now) : Prop where
  estimates : EstimatesSoFar m
  gauge : enabled = true → X (meterOf m.past) m.state.agent.messages

variable {enabled : Bool} {X X' : Gauge} {m : Now}

theorem Metered.weaken (hm : Metered enabled X m)
    (himp : ∀ a messages, X a messages → X' a messages) : Metered enabled X' m :=
  ⟨hm.estimates, fun henabled => himp _ _ (hm.gauge henabled)⟩

theorem meterOf_unread {past : List (Step World Query Reply)} {w w' : World}
    (hkinds : w'.run.kinds = w.run.kinds ∨
      ∃ kind, Unread kind ∧ w'.run.kinds = w.run.kinds ++ [kind]) :
    meterOf (.own w w' :: past) = meterOf past := by
  rw [meterOf, Meter.step]
  rcases hkinds with hsame | ⟨kind, hkind, hkinds⟩
  · rw [noteOf_same hsame]
  · rw [noteOf_append hkinds]
    exact hkind.2 _ _

theorem meterOf_noted {past : List (Step World Query Reply)} (kind : AgentEventKind) (w : World) :
    meterOf (.own w (noted kind w) :: past) = (meterOf past).read w.agent.messages kind := by
  rw [meterOf, Meter.step, noteOf_append (noted_kinds kind w)]

/-- A critical section that the meter does not read. -/
theorem Metered.own {update : World → World} (hm : Metered enabled X m)
    (hw : Confines Unread T m.state (update m.state))
    (himp : ∀ a messages messages', T messages messages' → X a messages → X' a messages') :
    Metered enabled X' (m.own update) := by
  refine ⟨hm.estimates.own (hw.unestimating fun _ h => h.1), fun henabled => ?_⟩
  change X' (meterOf (.own m.state (update m.state) :: m.past)) (update m.state).agent.messages
  rw [meterOf_unread hw.kinds]
  exact himp _ _ _ hw.transcript (hm.gauge henabled)

theorem Metered.idle (hm : Metered enabled X m) : Metered enabled X (m.own id) :=
  hm.own (still_admits.refl m.state) fun _ _ _ heq hx => heq ▸ hx

/-- A recorded event that is no estimate. -/
theorem Metered.note {kind : AgentEventKind} (hm : Metered enabled X m)
    (hkind : isEstimate kind = false)
    (himp : ∀ a messages, X a messages → X' (a.read messages kind) messages) :
    Metered enabled X' (m.own (noted kind)) := by
  refine ⟨hm.estimates.own (unestimating_noted hkind _), fun henabled => ?_⟩
  change X' (meterOf (.own m.state (noted kind m.state) :: m.past)) m.state.agent.messages
  rw [meterOf_noted]
  exact himp _ _ (hm.gauge henabled)

theorem metered_invariant (hX : X.Lasts)
    (hT : ∀ a messages messages', T messages messages' → X a messages → X a messages') :
    Invariant (Host.of acts answers) (Confines Unread T) (Metered enabled X) where
  interfere m w hm hi := by
    obtain ⟨op, _, rfl⟩ := hi
    refine ⟨hm.estimates.interfere _, fun henabled => ?_⟩
    rw [Moment.interfere_state, (ClientOp.client op m.state).messages]
    exact hm.gauge henabled
  own m update hm hw := hm.own hw hT
  reply m query answer hm _ := by
    refine ⟨hm.estimates.reply query answer, fun henabled => ?_⟩
    have hgauge := hm.gauge henabled
    cases query with
    | convertToLlm context => exact hX _ _ _ hgauge
    | _ => exact hgauge

theorem metered_still (hX : X.Lasts) :
    Invariant (Host.of acts answers) Still (Metered enabled X) :=
  metered_invariant hX fun _ _ _ heq h => heq ▸ h

/-! ### The estimator -/

/-- The checkpoint of the estimator is the confirmed request. -/
def Linked (estimator : ContextEstimator) : Gauge := fun a messages =>
  match estimator.lastValidInput with
  | none => a.confirmed = none
  | some (tokens, count) => ∃ c, a.confirmed = some c ∧ c.tokens = tokens ∧
      c.request.transcript.length = count ∧ c.request.transcript <+: messages

theorem linked_lasts (estimator : ContextEstimator) : (Linked estimator).Lasts :=
  fun _ _ _ h => h

theorem linked_extend (estimator : ContextEstimator) (a : Meter)
    (messages messages' : List AgentMessage) (hextend : messages <+: messages')
    (h : Linked estimator a messages) : Linked estimator a messages' := by
  unfold Linked at h ⊢
  split at h
  · exact h
  · obtain ⟨c, hconfirmed, htokens, hcount, hprefixed⟩ := h
    exact ⟨c, hconfirmed, htokens, hcount, hprefixed.trans hextend⟩

/-- **A linked estimator estimates right.** -/
theorem estimate_expected {estimator : ContextEstimator} {a : Meter}
    {messages : List AgentMessage} (h : Linked estimator a messages) :
    Expected a.confirmed messages (some (estimator.estimate messages)) := by
  unfold Linked at h
  unfold ContextEstimator.estimate
  split at h
  · next hnone =>
    rw [h, hnone]
    rfl
  · next tokens count hsome =>
    obtain ⟨c, hconfirmed, rfl, rfl, appended, rfl⟩ := h
    rw [hconfirmed, hsome]
    refine ⟨appended, rfl, ?_⟩
    dsimp only
    rw [if_pos (by simp), List.drop_left]

end Tea.Contract
