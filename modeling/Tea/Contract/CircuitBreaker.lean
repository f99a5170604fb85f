/-
  Tea/Contract/CircuitBreaker.lean
  ================================
  **The failure circuit breaker over whole runs.**  The slot of the policy state is
  followed through `drive` beside the account of the recorded events: between two results
  it is the slot of the account (`Synced`), unless the run is cancelled, after which
  nothing is observed.  While the failures stand apart, every reported count is therefore
  the length of a block (`breaker_counts_blocks`); a refused call between two failures
  makes it wrong (`breaker_miscounts`).
-/
import Tea.Contract.FailureStreak
import Tea.Lifecycle.LoopRule
import Tea.Lifecycle.Script

namespace Tea.Contract

open Tea.Async Tea.Core Tea.Run Tea.Lifecycle

variable {acts : Now → ClientOp → Prop} {answers : Now → (query : Query) → Reply query → Prop}
  {h : RunHandle} {limit : Option Nat}

/-! ### Recorded events -/

def isObserved : AgentEventKind → Bool
  | .toolFailureObserved .. => true
  | _ => false

theorem countsBlocks_append {kinds : List AgentEventKind} {kind : AgentEventKind}
    (hcounts : CountsBlocks limit kinds)
    (hlast : ∀ call disposition signature count terminal message,
      kind = .toolFailureObserved call disposition signature count terminal message →
      ∃ v past, (accountOf kinds).verdicts = v :: past ∧ v.call = call ∧
        Counted limit v past disposition signature count terminal) :
    CountsBlocks limit (kinds ++ [kind]) := by
  intro before after call disposition signature count terminal message hsplit
  rcases List.eq_nil_or_concat after with rfl | ⟨init, last, rfl⟩
  · obtain ⟨rfl, hkind⟩ := List.append_inj' hsplit rfl
    exact hlast _ _ _ _ _ _ (List.cons.inj hkind).1
  · rw [List.concat_eq_append, ← List.cons_append, ← List.append_assoc] at hsplit
    exact hcounts _ _ _ _ _ _ _ _ (List.append_inj' hsplit rfl).1

theorem countsBlocks_other {kinds : List AgentEventKind} {kind : AgentEventKind}
    (hkind : isObserved kind = false) (hcounts : CountsBlocks limit kinds) :
    CountsBlocks limit (kinds ++ [kind]) := by
  refine countsBlocks_append hcounts ?_
  rintro call disposition signature count terminal message rfl
  cases hkind

theorem separated_read {a : Account} {kind : AgentEventKind}
    (h : Separated (a.read kind).verdicts) : Separated a.verdicts := by
  cases kind with
  | messageEnd message =>
    cases message with
    | toolResult => exact h.2
    | _ => exact h
  | _ => exact h

/-- The counts are right so far, if the failures stand apart. -/
def CountsSoFar (limit : Option Nat) (m : Now) : Prop :=
  Separated (accountOf m.state.run.kinds).verdicts → CountsBlocks limit m.state.run.kinds

/-! ### Classes of critical sections -/

/-- At most an event is recorded that is no observed failure. -/
def Unobserving (w w' : World) : Prop :=
  w'.run.kinds = w.run.kinds ∨
    ∃ kind, isObserved kind = false ∧ w'.run.kinds = w.run.kinds ++ [kind]

theorem unobserving_noted {kind : AgentEventKind} (hkind : isObserved kind = false) (w : World) :
    Unobserving w (noted kind w) := .inr ⟨kind, hkind, noted_kinds kind w⟩

theorem unobserving_admits : Admits Unobserving where
  quiet w w' hw _ := .inl hw.kinds
  note w kind hroutine := by
    apply unobserving_noted
    cases kind with
    | toolFailureObserved => cases hroutine
    | _ => rfl

theorem unobserving_appends : HasAppends Unobserving := fun _ _ _ hw _ => .inl hw.kinds

theorem unobserving_messages : HasMessages Unobserving := fun _ => unobserving_noted rfl

theorem CountsSoFar.own {m : Now} {update : World → World} (hm : CountsSoFar limit m)
    (hw : Unobserving m.state (update m.state)) : CountsSoFar limit (m.own update) := by
  rw [CountsSoFar, Moment.own_state]
  rcases hw with hsame | ⟨kind, hkind, hkinds⟩
  · rw [hsame]
    exact hm
  · rw [hkinds, accountOf_append]
    intro hseparated
    exact countsBlocks_other hkind (hm (separated_read hseparated))

theorem countsSoFar_invariant :
    Invariant (Host.of acts answers) Unobserving (CountsSoFar limit) where
  interfere m w hm hi := by
    obtain ⟨op, _, rfl⟩ := hi
    rw [CountsSoFar, Moment.interfere_state, (ClientOp.client op m.state).kinds]
    exact hm
  own m update hm hw := hm.own hw
  reply m query answer hm _ := hm

/-- The slot and the token stay, and at most an event is recorded that the account does
    not read. -/
structure Beside (w w' : World) : Prop where
  streak : w'.policy.failureStreak = w.policy.failureStreak
  cancelled : w'.cancelled = w.cancelled
  kinds : w'.run.kinds = w.run.kinds ∨ ∃ kind, isObserved kind = false ∧
    (∀ a : Account, a.read kind = a) ∧ w'.run.kinds = w.run.kinds ++ [kind]

theorem beside_noted {kind : AgentEventKind} (hkind : isObserved kind = false)
    (hread : ∀ a : Account, a.read kind = a) (w : World) : Beside w (noted kind w) :=
  ⟨rfl, rfl, .inr ⟨kind, hkind, hread, noted_kinds kind w⟩⟩

theorem beside_admits : Admits Beside where
  quiet w w' hw _ := ⟨hw.streak, hw.cancelled, .inl hw.kinds⟩
  note w kind hroutine := by
    cases kind with
    | messageEnd => cases hroutine
    | toolFailureObserved => cases hroutine
    | _ => exact beside_noted rfl (fun _ => rfl) w

theorem beside_appends : HasAppends Beside := fun _ _ _ hw _ =>
  ⟨hw.streak, hw.cancelled, .inl hw.kinds⟩

theorem beside_ends : HasEnds Beside := fun _ _ _ => beside_noted rfl fun _ => rfl

theorem beside_users : HasUsers Beside := fun _ _ => beside_noted rfl fun _ => rfl

theorem beside_rewrites : HasRewrites Beside := fun _ _ hw =>
  ⟨hw.streak, hw.cancelled, .inl hw.kinds⟩

theorem Beside.unobserving {w w' : World} (hw : Beside w w') : Unobserving w w' := by
  rcases hw.kinds with hsame | ⟨kind, hkind, _, hkinds⟩
  · exact .inl hsame
  · exact .inr ⟨kind, hkind, hkinds⟩

/-! ### Assertions -/

/-- What is said of the account, the slot and the token. -/
abbrev Tally : Type := Account → Option (FailureSignature × Nat) → Bool → Prop

/-- A cancellation does not falsify it. -/
def Lasting (T : Tally) : Prop := ∀ a slot cancelled, T a slot cancelled → T a slot true

structure Held (limit : Option Nat) (T : Tally) (m : Now) : Prop where
  counts : CountsSoFar limit m
  tally : T (accountOf m.state.run.kinds) m.state.policy.failureStreak m.state.cancelled

theorem ClientOp.cancels (op : ClientOp) {w : World} (hcancelled : w.cancelled = true) :
    (op.apply w).cancelled = true := by
  cases op with
  | cancel => rfl
  | abortRun =>
    change w.abortRun.cancelled = true
    unfold World.abortRun
    dsimp only
    split_ifs
    · rfl
    · unfold World.settleAgent
      split_ifs <;> rfl
    · rfl
    · rfl
  | abortAgent =>
    change w.abortAgent.cancelled = true
    unfold World.abortAgent
    cases w.activeRun with
    | none => exact hcancelled
    | some id => rfl
  | _ => exact hcancelled

theorem Held.own {T : Tally} {m : Now} {update : World → World} (hm : Held limit T m)
    (hw : Beside m.state (update m.state)) : Held limit T (m.own update) := by
  refine ⟨hm.counts.own hw.unobserving, ?_⟩
  rw [Moment.own_state, hw.streak, hw.cancelled]
  rcases hw.kinds with hsame | ⟨kind, _, hread, hkinds⟩
  · rw [hsame]
    exact hm.tally
  · rw [hkinds, accountOf_append, hread]
    exact hm.tally

theorem held_invariant {T : Tally} (hT : Lasting T) :
    Invariant (Host.of acts answers) Beside (Held limit T) where
  interfere m w hm hi := by
    refine ⟨countsSoFar_invariant.interfere m w hm.counts hi, ?_⟩
    obtain ⟨op, _, rfl⟩ := hi
    have hclient := ClientOp.client op m.state
    rw [Moment.interfere_state, hclient.kinds, hclient.policy]
    cases hcancelled : (op.apply m.state).cancelled with
    | true => exact hT _ _ _ hm.tally
    | false =>
      have hbefore : m.state.cancelled = false := by
        rw [← Bool.not_eq_true]
        intro htrue
        rw [ClientOp.cancels op htrue] at hcancelled
        cases hcancelled
      rw [← hbefore]
      exact hm.tally
  own m update hm hw := hm.own hw
  reply m query answer hm _ := ⟨hm.counts, hm.tally⟩

theorem held_stable {T : Tally} (hT : Lasting T) :
    Stable (Host.of acts answers) (Held limit T) := (held_invariant hT).interfere

theorem Held.weaken {T T' : Tally} {m : Now} (hm : Held limit T m)
    (himp : ∀ a slot cancelled, T a slot cancelled → T' a slot cancelled) : Held limit T' m :=
  ⟨hm.counts, himp _ _ _ hm.tally⟩

/-- The slot is that of the account, unless the run is cancelled. -/
def Synced (R : Option StopReason → Prop) : Tally := fun a slot cancelled =>
  Ordinary a.verdicts ∧ R a.reason ∧ (cancelled = true ∨ slot = slotOf a.verdicts)

/-- The last result is not observed yet. -/
def Unseen (R : Option StopReason → Prop) (v : Verdict) : Tally := fun a slot cancelled =>
  Ordinary a.verdicts ∧ R a.reason ∧
    ∃ past, a.verdicts = v :: past ∧ (cancelled = true ∨ slot = slotOf past)

/-- The last result is being observed. -/
def Seeing (R : Option StopReason → Prop) (v : Verdict) : Tally := fun a slot _ =>
  Ordinary a.verdicts ∧ R a.reason ∧ ∃ past, a.verdicts = v :: past ∧ slot = slotOf past

/-- The last result has been observed with this outcome. -/
def SeenAs (R : Option StopReason → Prop) (limit : Option Nat) (v : Verdict)
    (failure : ToolFailure) (observed : Nat × Bool) : Tally := fun a slot _ =>
  Ordinary a.verdicts ∧ R a.reason ∧ ∃ past, a.verdicts = v :: past ∧
    slot = slotOf (v :: past) ∧
    observed = (observeFailureStreak limit failure { failureStreak := slotOf past }).1

variable {R : Option StopReason → Prop} {v : Verdict} {failure : ToolFailure}
  {observed : Nat × Bool}

theorem synced_lasting : Lasting (Synced R) := fun _ _ _ h => ⟨h.1, h.2.1, .inl rfl⟩

theorem unseen_lasting : Lasting (Unseen R v) := by
  rintro a slot cancelled ⟨hordinary, hreason, past, hverdicts, -⟩
  exact ⟨hordinary, hreason, past, hverdicts, .inl rfl⟩

theorem seeing_lasting : Lasting (Seeing R v) := fun _ _ _ h => h

theorem seen_lasting : Lasting (SeenAs R limit v failure observed) := fun _ _ _ h => h

theorem held_within {T : Tally} {α : Type} {p : Drive α} (hp : p.Within Beside)
    (hT : Lasting T) : Triple (Host.of acts answers) (Held limit T) p
      (Ends (CountsSoFar limit) fun _ => Held limit T) :=
  ends_within hp (held_invariant hT) fun _ hm => hm.counts

/-! ### One result -/

/-- The result of a call that was not refused. -/
def verdictOf (call : ToolCall) (result : AgentToolResult) : Verdict :=
  ⟨call.id, false,
    if result.isError then some (result.failure.getD .recoverableFailure) else none⟩

theorem Ordinary.cons {past : List Verdict} (hv : v.refused = true → v.retries = none)
    (hpast : Ordinary past) : Ordinary (v :: past) := by
  intro u hu
  rcases List.mem_cons.mp hu with rfl | hu
  · exact hv
  · exact hpast u hu

/-- A result is appended and announced. -/
theorem appendResult_ends {T T' : Tally} (hT : Lasting T) (hT' : Lasting T') (call : ToolCall)
    (result : AgentToolResult)
    (hread : ∀ id a slot cancelled, T a slot cancelled →
      T' (a.read (.messageEnd (toolResultMessage call result id))) slot cancelled) :
    Triple (Host.of acts answers) (Held limit T) (appendToolResultMessage call result)
      (Ends (CountsSoFar limit) fun _ => Held limit T') := by
  have hstable : Stable (Host.of acts answers) (Held limit T) := held_stable hT
  have hpush : Triple (Host.of acts answers) (Held limit T)
      (pushMessage (toolResultMessage call result))
      (Ends (CountsSoFar limit) fun message m =>
        (∃ id, message = toolResultMessage call result id) ∧ Held limit T m) := by
    refine ends_section hstable (fun message m w hm hi => ⟨hm.1, hstable m w hm.2 hi⟩) ?_
    intro m hm
    refine ⟨⟨_, rfl⟩, hm.own ?_⟩
    exact beside_appends _ _ _ ⟨rfl, rfl, rfl⟩ rfl
  refine ends_bind hpush fun message => Triple.assume ?_
  rintro ⟨id, rfl⟩
  apply ends_bind (held_within (beside_admits.routine_within rfl) hT)
  intro _
  refine ends_emit beside_admits hstable (held_invariant hT') (fun _ hm => hm.counts) ?_
  intro m hm
  refine ⟨hm.counts.own (unobserving_noted rfl _), ?_⟩
  rw [Moment.own_state, noted_kinds, accountOf_append]
  exact hread id _ _ _ hm.tally

theorem appendToolResultMessage_ends (hR : ∀ reason, R reason → reason ≠ some .length)
    (call : ToolCall) (result : AgentToolResult) :
    Triple (Host.of acts answers) (Held limit (Synced R)) (appendToolResultMessage call result)
      (Ends (CountsSoFar limit) fun _ => Held limit (Unseen R (verdictOf call result))) := by
  refine appendResult_ends synced_lasting unseen_lasting call result ?_
  rintro id a slot cancelled ⟨hordinary, hreason, hslot⟩
  have hread : a.read (.messageEnd (toolResultMessage call result id)) =
      { a with verdicts := verdictOf call result :: a.verdicts } := by
    rw [toolResultMessage, Account.read, decide_eq_false (hR _ hreason)]
    rfl
  rw [hread]
  exact ⟨hordinary.cons fun hrefused => (nomatch hrefused), hreason, _, rfl, hslot⟩

theorem observe_congr (limit : Option Nat) (failure : ToolFailure) (policy : RunPolicyState) :
    (observeFailureStreak limit failure policy).1 =
        (observeFailureStreak limit failure { failureStreak := policy.failureStreak }).1 ∧
      (observeFailureStreak limit failure policy).2.failureStreak =
        (observeFailureStreak none failure
          { failureStreak := policy.failureStreak }).2.failureStreak := by
  unfold observeFailureStreak
  split <;> exact ⟨rfl, rfl⟩

/-- What the breaker reports of a failure that stands apart. -/
theorem seen_counted {past : List Verdict} (hfailure : v.failure = some failure)
    (hordinary : Ordinary (v :: past)) (hseparated : Separated (v :: past)) :
    Counted limit v past failure.disposition (failure.signature.map (·.text))
      (observeFailureStreak limit failure { failureStreak := slotOf past }).1.1
      (observeFailureStreak limit failure { failureStreak := slotOf past }).1.2 := by
  have hretryable : ∀ s, v.retries = some s →
      (observeFailureStreak limit failure { failureStreak := slotOf past }).1 =
        (block s (v :: past), limit.any fun limit => decide (limit ≤ block s (v :: past))) := by
    intro s hs
    have hcounts := slot_counts hordinary hseparated hs
    obtain ⟨failure', hfailure', hdisposition, hsignature⟩ := signed_eq_some.mp hs
    rw [hfailure] at hfailure'
    obtain rfl := Option.some.inj hfailure'
    rw [← hcounts]
    simp only [observeFailureStreak, hdisposition, hsignature]
    cases limit with
    | none => rfl
    | some limit => rfl
  refine ⟨⟨failure, hfailure, rfl, rfl⟩, fun s hs => ?_, fun s hs => ?_, fun s hs => ?_⟩
  · rw [hretryable s hs]
  · rw [hretryable s hs]
    cases limit with
    | none =>
      constructor
      · intro h
        cases h
      · rintro ⟨n, h, _⟩
        cases h
    | some limit => simp
  · obtain ⟨failure', hfailure', hdisposition, hsignature⟩ := signed_eq_some.mp hs
    rw [hfailure] at hfailure'
    obtain rfl := Option.some.inj hfailure'
    simp only [observeFailureStreak, hdisposition, hsignature]

/-- A counted failure is reported. -/
theorem report_ends {call : ToolCall} {result : AgentToolResult}
    (hfailure : (verdictOf call result).failure = some failure) (message : String) :
    Triple (Host.of acts answers)
      (Held limit (SeenAs R limit (verdictOf call result) failure observed))
      (emit (.toolFailureObserved call.id failure.disposition
        (failure.signature.map (·.text)) observed.1 observed.2 message))
      (Ends (CountsSoFar limit) fun _ =>
        Held limit (SeenAs R limit (verdictOf call result) failure observed)) := by
  refine ends_emit beside_admits (held_stable seen_lasting) (held_invariant seen_lasting)
    (fun _ hm => hm.counts) ?_
  intro m hm
  have hread : (accountOf m.state.run.kinds).read (.toolFailureObserved call.id
      failure.disposition (failure.signature.map (·.text)) observed.1 observed.2 message) =
        accountOf m.state.run.kinds := rfl
  obtain ⟨hordinary, -, past, hverdicts, -, hobserved⟩ := hm.tally
  refine ⟨?_, ?_⟩
  · rw [CountsSoFar, Moment.own_state, noted_kinds, accountOf_append, hread]
    intro hseparated
    apply countsBlocks_append (hm.counts hseparated)
    rintro _ _ _ _ _ _ ⟨⟩
    rw [hverdicts] at hordinary hseparated
    refine ⟨_, past, hverdicts, rfl, ?_⟩
    rw [hobserved]
    exact seen_counted hfailure hordinary hseparated
  · rw [Moment.own_state, noted_kinds, accountOf_append, hread]
    exact hm.tally

/-- The failure is counted, and reported where it is to be observed. -/
theorem observeFailure_ends
    (hlimit : h.agent.toolFailureCircuitBreaker.maxConsecutiveRetryableFailures = limit)
    (call : ToolCall) (result : AgentToolResult)
    (hfailure : (verdictOf call result).failure =
      some (result.failure.getD .recoverableFailure)) :
    Triple (Host.of acts answers) (Held limit (Seeing R (verdictOf call result)))
      (do
        let failure := result.failure.getD .recoverableFailure
        let limit := h.agent.toolFailureCircuitBreaker.maxConsecutiveRetryableFailures
        let message := truncateMiddle (failure.recoveryGuidance.getD result.content) 1024
        let observed ← lockPolicy (observeFailureStreak limit failure)
        let observe := failure.disposition = .retryable ∨ failure.disposition = .fatal ∨
          limit.isSome
        whenever observe (emit (.toolFailureObserved call.id failure.disposition
          (failure.signature.map (·.text)) observed.1 observed.2 message))
        pure (if observed.2 then some message else none))
      (Ends (CountsSoFar limit) fun _ => Held limit (Synced R)) := by
  subst hlimit
  generalize hlimit :
    h.agent.toolFailureCircuitBreaker.maxConsecutiveRetryableFailures = limit
  generalize result.failure.getD .recoverableFailure = failure at hfailure ⊢
  have hcount : Triple (Host.of acts answers) (Held limit (Seeing R (verdictOf call result)))
      (lockPolicy (observeFailureStreak limit failure))
      (Ends (CountsSoFar limit) fun observed =>
        Held limit (SeenAs R limit (verdictOf call result) failure observed)) := by
    refine ends_section (held_stable seeing_lasting) (fun _ => held_stable seen_lasting) ?_
    rintro m ⟨hcounts, hordinary, hreason, past, hverdicts, hslot⟩
    refine ⟨hcounts.own (.inl rfl), hordinary, hreason, past, hverdicts, ?_, ?_⟩
    · rw [Moment.own_state, slotOf, noteVerdict, hfailure, ← hslot]
      exact (observe_congr limit failure m.state.policy).2
    · rw [← hslot]
      exact (observe_congr limit failure m.state.policy).1
  apply ends_bind hcount
  intro observed
  have hseen : ∀ m : Now, Held limit (SeenAs R limit (verdictOf call result) failure observed) m →
      Held limit (Synced R) m := by
    intro m hm
    refine hm.weaken ?_
    rintro a slot cancelled ⟨hordinary, hreason, past, hverdicts, hslot, -⟩
    exact ⟨hordinary, hreason, .inr (hverdicts ▸ hslot)⟩
  have hreport : ∀ {condition : Bool} {message : String}, Triple (Host.of acts answers)
      (Held limit (SeenAs R limit (verdictOf call result) failure observed))
      (whenever condition (emit (.toolFailureObserved call.id failure.disposition
        (failure.signature.map (·.text)) observed.1 observed.2 message)))
      (Ends (CountsSoFar limit) fun _ =>
        Held limit (SeenAs R limit (verdictOf call result) failure observed)) := by
    intro condition message
    refine ends_whenever (held_stable seen_lasting) (fun _ => ?_) fun m hm _ => hm
    exact report_ends hfailure message
  apply ends_bind hreport
  intro _
  exact ends_pure (held_stable seen_lasting) hseen

/-- **One observation.** -/
theorem observeToolFailure_ends
    (hlimit : h.agent.toolFailureCircuitBreaker.maxConsecutiveRetryableFailures = limit)
    (call : ToolCall) (result : AgentToolResult) :
    Triple (Host.of acts answers) (Held limit (Unseen R (verdictOf call result)))
      (observeToolFailure h call result)
      (Ends (CountsSoFar limit) fun _ => Held limit (Synced R)) := by
  have hread : Triple (Host.of acts answers) (Held limit (Unseen R (verdictOf call result)))
      isCancelled (Ends (CountsSoFar limit) fun cancelled m =>
        Held limit (if cancelled then Synced R else Seeing R (verdictOf call result)) m) := by
    refine ends_read (held_stable unseen_lasting) (fun cancelled => ?_) fun m hm => ?_
    · cases cancelled with
      | true => exact held_stable synced_lasting
      | false => exact held_stable seeing_lasting
    · obtain ⟨hcounts, hordinary, hreason, past, hverdicts, hslot⟩ := hm
      refine ⟨hcounts, ?_⟩
      rw [Moment.own_state]
      cases hcancelled : m.state.cancelled with
      | true => exact ⟨hordinary, hreason, .inl hcancelled⟩
      | false =>
        rw [hcancelled] at hslot
        exact ⟨hordinary, hreason, past, hverdicts, hslot.resolve_left fun h => nomatch h⟩
  refine ends_bind hread ?_
  rintro (_ | _)
  · -- the run goes on: the slot is that of the results before the last one
    by_cases herror : result.isError = true
    · simp only [herror, Bool.not_true, Bool.false_eq_true, if_false]
      exact observeFailure_ends hlimit call result (by rw [verdictOf, if_pos herror])
    · simp only [herror, Bool.not_false, if_true]
      have hnote : Triple (Host.of acts answers) (Held limit (Seeing R (verdictOf call result)))
          (lockPolicy fun policy => ((), { policy with failureStreak := none }))
          (Ends (CountsSoFar limit) fun _ => Held limit (Synced R)) := by
        refine ends_section (held_stable seeing_lasting) (fun _ => held_stable synced_lasting) ?_
        rintro m ⟨hcounts, hordinary, hreason, past, hverdicts, -⟩
        refine ⟨hcounts.own (.inl rfl), hordinary, hreason, .inr ?_⟩
        rw [Moment.own_state, hverdicts, slotOf, verdictOf, if_neg herror]
        rfl
      apply ends_bind hnote
      intro _
      exact ends_pure (held_stable synced_lasting) fun m hm => hm
  · exact ends_pure (held_stable synced_lasting) fun m hm => hm

/-! ### Batches -/

/-- How a batch ends: the slot is in step unless the batch ends the run. -/
def Batched (limit : Option Nat) (R : Option StopReason → Prop) (outcome : ToolBatchOutcome)
    (m : Now) : Prop :=
  CountsSoFar limit m ∧ (outcome.terminalFailure = none → Held limit (Synced R) m)

theorem appendSkipped_within (message : String) (calls : List AgentToolCall) :
    (appendSkippedSequentialCalls message calls).Within Unobserving := by
  induction calls with
  | nil => exact Future.Within.pure
  | cons call rest ih =>
    apply Future.Within.bind
    · apply Admits.pushMessage_bind unobserving_appends
      intro id
      exact unobserving_admits.announce_within (unobserving_messages _)
    · intro _
      exact ih

theorem executeToolCallsSequential_ends
    (hlimit : h.agent.toolFailureCircuitBreaker.maxConsecutiveRetryableFailures = limit)
    (hR : ∀ reason, R reason → reason ≠ some .length) (fuel : Nat) (calls : List AgentToolCall)
    (allTerminate : Bool) :
    Triple (Host.of acts answers) (Held limit (Synced R))
      (executeToolCallsSequential h fuel calls allTerminate)
      (Ends (CountsSoFar limit) (Batched limit R)) := by
  induction calls generalizing allTerminate with
  | nil => exact ends_pure (held_stable synced_lasting) fun m hm => ⟨hm.counts, fun _ => hm⟩
  | cons call rest ih =>
    apply ends_bind (held_within (beside_admits.emitToolExecutionStart_within call) synced_lasting)
    intro _
    apply ends_bind (held_within (beside_admits.executeOneToolCall_within fuel call) synced_lasting)
    intro executed
    apply ends_bind (held_within (beside_admits.emitToolExecutionEnd_within call _) synced_lasting)
    intro _
    apply ends_bind (appendToolResultMessage_ends hR call _)
    intro _
    apply ends_bind (observeToolFailure_ends hlimit call _)
    rintro (_ | message)
    · exact ih _
    · -- the batch ends here; the skipped results are not observed
      have hskip : Triple (Host.of acts answers) (CountsSoFar limit)
          (appendSkippedSequentialCalls message rest)
          (Ends (CountsSoFar limit) fun _ => CountsSoFar limit) :=
        ends_within (appendSkipped_within message rest) countsSoFar_invariant fun _ hm => hm
      apply ends_bind (hskip.pre fun m (hm : Held limit (Synced R) m) => hm.counts)
      intro _
      exact ends_pure countsSoFar_invariant.interfere fun m hm => ⟨hm, fun h => nomatch h⟩

theorem recordBatch_ends
    (hlimit : h.agent.toolFailureCircuitBreaker.maxConsecutiveRetryableFailures = limit)
    (hR : ∀ reason, R reason → reason ≠ some .length) (prepared : List PreparedToolExecution)
    (completions : Completions) (allTerminate : Bool) (terminalFailure : Option String) :
    Triple (Host.of acts answers) (Held limit (Synced R))
      (recordBatch h prepared completions allTerminate terminalFailure)
      (Ends (CountsSoFar limit) fun _ => Held limit (Synced R)) := by
  induction prepared generalizing completions allTerminate terminalFailure with
  | nil => exact ends_pure (held_stable synced_lasting) fun m hm => hm
  | cons execution rest ih =>
    unfold recordBatch
    rcases completions[execution.sourceIndex]? with _ | _ | ⟨result, terminate⟩
    · exact held_within Admits.panicked_within synced_lasting
    · exact held_within Admits.panicked_within synced_lasting
    · apply ends_bind (appendToolResultMessage_ends hR execution.call _)
      intro _
      apply ends_bind (observeToolFailure_ends hlimit execution.call _)
      intro observed
      exact ih _ _ _

theorem executeToolCalls_ends
    (hlimit : h.agent.toolFailureCircuitBreaker.maxConsecutiveRetryableFailures = limit)
    (hR : ∀ reason, R reason → reason ≠ some .length) (fuel : Nat) (calls : List AgentToolCall) :
    Triple (Host.of acts answers) (Held limit (Synced R)) (executeToolCalls h fuel calls)
      (Ends (CountsSoFar limit) (Batched limit R)) := by
  unfold executeToolCalls
  split_ifs
  · exact executeToolCallsSequential_ends hlimit hR fuel calls true
  · apply ends_bind (held_within beside_admits.resetUpdates_within synced_lasting)
    intro _
    apply ends_bind (held_within (beside_admits.prepareBatch_within calls 0 _) synced_lasting)
    intro prepared
    apply ends_bind (held_within (beside_admits.startBatch_within prepared.1) synced_lasting)
    intro pending
    apply ends_bind (held_within (beside_admits.runBatch_within fuel fuel pending [] _)
      synced_lasting)
    intro completions
    refine (recordBatch_ends hlimit hR prepared.1 completions true none).post ?_
    rintro (outcome | error | query) m hm
    · exact ⟨hm.counts, fun _ => hm⟩
    · exact hm
    · exact hm

/-- The results of a response that was cut off do not reach the slot. -/
theorem failTruncatedToolCalls_ends (calls : List AgentToolCall) :
    Triple (Host.of acts answers) (Held limit (Synced (· = some .length)))
      (failTruncatedToolCalls calls)
      (Ends (CountsSoFar limit) fun _ => Held limit (Synced (· = some .length))) := by
  induction calls with
  | nil => exact ends_pure (held_stable synced_lasting) fun m hm => hm
  | cons call rest ih =>
    apply ends_bind (held_within (beside_admits.emitToolExecutionStart_within call) synced_lasting)
    intro _
    apply ends_bind (held_within (beside_admits.emitToolExecutionEnd_within call _) synced_lasting)
    intro _
    refine ends_bind (appendResult_ends synced_lasting synced_lasting call _ ?_) fun _ => ih
    rintro id a slot cancelled ⟨hordinary, hreason, hslot⟩
    refine ⟨hordinary.cons fun _ => rfl, hreason, ?_⟩
    rw [toolResultMessage, Account.read, decide_eq_true hreason]
    exact hslot

theorem executeBatch_ends
    (hlimit : h.agent.toolFailureCircuitBreaker.maxConsecutiveRetryableFailures = limit)
    (fuel : Nat) (reason : StopReason) (calls : List AgentToolCall) :
    Triple (Host.of acts answers) (Held limit (Synced (· = some reason)))
      (executeBatch h fuel reason calls)
      (Ends (CountsSoFar limit) (Batched limit (· = some reason))) := by
  have hbatched : ∀ m : Now, Held limit (Synced (· = some reason)) m →
      Batched limit (· = some reason) {} m := fun m hm => ⟨hm.counts, fun _ => hm⟩
  unfold executeBatch
  split_ifs with hnone hlength huse
  · exact ends_pure (held_stable synced_lasting) hbatched
  · subst hlength
    apply ends_bind (failTruncatedToolCalls_ends calls)
    intro _
    exact ends_pure (held_stable synced_lasting) hbatched
  · exact ends_fail (held_stable synced_lasting) fun m hm => hm.counts
  · refine executeToolCalls_ends hlimit ?_ fuel calls
    rintro _ rfl heq
    exact hlength (Option.some.inj heq)

/-! ### The response -/

/-- The account knows how the response ended that a turn goes on with. -/
theorem consumeAssistantStream_ends (fuel : Nat) (turnId : TurnId)
    (model : Option ModelDescriptor) :
    Triple (Host.of acts answers) (Held limit (Synced R)) (consumeAssistantStream fuel turnId model)
      (Ends (CountsSoFar limit) fun response =>
        Held limit (Synced (· = some response.reason))) := by
  apply ends_bind (held_within (beside_admits.readResponse_within beside_rewrites fuel {})
    synced_lasting)
  intro r
  cases hreason : r.reason with
  | none => exact ends_fail (held_stable synced_lasting) fun m hm => hm.counts
  | some reason =>
    have hclose : Triple (Host.of acts answers) (Held limit (Synced R))
        (lockAgent (closeResponse r reason)) (Ends (CountsSoFar limit) fun assistant m =>
          (∃ id, assistant = .assistant id r.assistantText r.toolCalls (some reason)
            r.errorMessage) ∧ Held limit (Synced R) m) := by
      refine ends_section (held_stable synced_lasting)
        (fun assistant m w hm hi => ⟨hm.1, held_stable synced_lasting m w hm.2 hi⟩) ?_
      intro m hm
      refine ⟨?_, hm.own ⟨rfl, rfl, .inl rfl⟩⟩
      unfold closeResponse
      cases r.assistantId with
      | none => exact ⟨_, rfl⟩
      | some id => exact ⟨id, rfl⟩
    refine ends_bind hclose fun assistant => Triple.assume ?_
    rintro ⟨id, rfl⟩
    apply ends_bind (held_within
      (Admits.whenever_within (beside_admits.routine_within rfl)) synced_lasting)
    intro _
    have hend : Triple (Host.of acts answers) (Held limit (Synced R))
        (emit (.messageEnd (.assistant id r.assistantText r.toolCalls (some reason)
          r.errorMessage)))
        (Ends (CountsSoFar limit) fun _ => Held limit (Synced (· = some reason))) := by
      refine ends_emit beside_admits (held_stable synced_lasting)
        (held_invariant synced_lasting) (fun _ hm => hm.counts) ?_
      rintro m ⟨hcounts, hordinary, -, hslot⟩
      refine ⟨hcounts.own (unobserving_noted rfl _), ?_⟩
      rw [Moment.own_state, noted_kinds, accountOf_append]
      exact ⟨hordinary, rfl, hslot⟩
    apply ends_bind hend
    intro _
    apply ends_bind (held_within (beside_admits.recordUsage_within
      (fun _ => beside_noted rfl fun _ => rfl) turnId model r.usage) synced_lasting)
    intro _
    exact ends_pure (held_stable synced_lasting) fun m hm => hm

/-! ### Turns -/

/-- Before each turn the slot is in step. -/
def InStep (limit : Option Nat) (_ : LoopState) : Now → Prop := Held limit (Synced fun _ => True)

theorem Held.inStep {m : Now} (hm : Held limit (Synced R) m) (st : LoopState) :
    InStep limit st m := hm.weaken fun _ _ _ h => ⟨h.1, trivial, h.2.2⟩

/-- A part that may end the turn. -/
theorem again_within {p : Drive (Option LoopState)} (hp : p.Within Beside) :
    Triple (Host.of acts answers) (Held limit (Synced R)) p
      (Ends (CountsSoFar limit) fun next m =>
        CountsSoFar limit m ∧ Again (InStep limit) next m) := by
  refine (held_within hp synced_lasting).post ?_
  rintro (next | error | query) m hm
  · exact ⟨hm.counts, fun st _ => hm.inStep st⟩
  · exact hm
  · exact hm

theorem completeTurn_ends
    (hlimit : h.agent.toolFailureCircuitBreaker.maxConsecutiveRetryableFailures = limit)
    (fuel : Nat) (st : LoopState) (reason : StopReason) (calls : List AgentToolCall) :
    Triple (Host.of acts answers) (Held limit (Synced (· = some reason)))
      (completeTurn h fuel st reason calls)
      (Ends (CountsSoFar limit) fun next m =>
        CountsSoFar limit m ∧ Again (InStep limit) next m) := by
  apply ends_bind (executeBatch_ends hlimit fuel reason calls)
  intro outcome
  cases hterminal : outcome.terminalFailure with
  | some message =>
    exact (tripCircuitBreaker_ends unobserving_admits countsSoFar_invariant _ _).pre
      fun m hm => hm.1
  | none =>
    refine Triple.pre ?_ fun m hm => hm.2 hterminal
    apply ends_bind (held_within (beside_admits.routine_within rfl) synced_lasting)
    intro _
    exact again_within (beside_admits.finishTurn_within beside_appends beside_users st reason _)

theorem afterResponse_ends
    (hlimit : h.agent.toolFailureCircuitBreaker.maxConsecutiveRetryableFailures = limit)
    (fuel : Nat) (st : LoopState) (response : ConsumedResponse) :
    Triple (Host.of acts answers) (Held limit (Synced (· = some response.reason)))
      (afterResponse h fuel st response)
      (Ends (CountsSoFar limit) fun next m =>
        CountsSoFar limit m ∧ Again (InStep limit) next m) := by
  have hcounts : ∀ m : Now, Held limit (Synced (· = some response.reason)) m →
      CountsSoFar limit m := fun _ hm => hm.counts
  unfold afterResponse
  split_ifs
  · exact (failModelResponse_ends unobserving_admits countsSoFar_invariant _ _ _).pre hcounts
  · apply ends_bind (held_within beside_admits.isCancelled_within synced_lasting)
    rintro (_ | _)
    · exact completeTurn_ends hlimit fuel st _ _
    · exact (cancelModelResponse_ends unobserving_admits countsSoFar_invariant _).pre hcounts
  · exact completeTurn_ends hlimit fuel st _ _

/-- **One turn** keeps the slot in step. -/
theorem turn_ends
    (hlimit : h.agent.toolFailureCircuitBreaker.maxConsecutiveRetryableFailures = limit)
    (fuel : Nat) (runId : RunId) (st : LoopState) :
    Triple (Host.of acts answers) (InStep limit st) (turn h fuel runId st)
      (Ends (CountsSoFar limit) fun next m =>
        CountsSoFar limit m ∧ Again (InStep limit) next m) := by
  apply ends_bind (held_within
    (beside_admits.thresholdCompaction_within beside_ends beside_rewrites st) synced_lasting)
  intro st
  apply ends_bind (held_within (beside_admits.read_within _) synced_lasting)
  intro requestMessageCount
  apply ends_bind (held_within (beside_admits.modelRequest_within runId st _) synced_lasting)
  intro request
  have hestimate : (whenever h.agent.automaticCompaction.enabled
      (emitContextEstimate request st.estimator)).Within Beside := by
    apply Admits.whenever_within
    apply Future.Within.bind (beside_admits.read_within _)
    intro estimated
    apply Future.Within.bind (beside_admits.read_within _)
    intro messages
    exact beside_admits.emit_within (beside_noted rfl fun _ => rfl)
  apply ends_bind (held_within hestimate synced_lasting)
  intro _
  apply ends_bind (held_within (Admits.openStream_within request) synced_lasting)
  intro _
  apply ends_bind (consumeAssistantStream_ends fuel st.turnId request.model)
  intro response
  apply ends_bind (held_within (beside_admits.noteContinuation_within _) synced_lasting)
  intro _
  apply ends_bind (held_within
    (beside_admits.recoverOverflow_within beside_ends beside_rewrites _ _ _) synced_lasting)
  rintro (_ | estimator)
  · exact afterResponse_ends hlimit fuel _ response
  · exact ends_pure (held_stable synced_lasting) fun m hm =>
      ⟨hm.counts, again_of_some (hm.inStep _)⟩

/-! ### Runs -/

/-- **The circuit breaker counts blocks.**  In every run of a claimed agent whose
    retryable failures stand apart, every reported count is the length of the block that
    the failure ends, the breaker trips exactly at its limit, and on every fatal
    failure. -/
theorem breaker_counts_blocks {a : Agent} {contents : List String} {skip : Bool}
    {w₀ w : World} {fuel : Nat} {m : Now} {o : Outcome Query CoreError Unit}
    (hstart : startRun a contents skip w₀ = (.ok h, w))
    (hrun : Run (Host.of acts answers) (drive h fuel) (Now.start w) o m)
    (hseparated : Separated (accountOf m.state.run.kinds).verdicts) :
    CountsBlocks h.agent.toolFailureCircuitBreaker.maxConsecutiveRetryableFailures
      m.state.run.kinds := by
  have hclaimed := startRun_claimed hstart
  have hinitial : ∀ message ∈ h.initialMessages, ∀ w,
      Beside w (noted (.messageEnd message) w) := by
    intro message hmem
    obtain ⟨id, content, rfl⟩ := hclaimed.initial_user message hmem
    exact beside_users id content
  have hdrive := drive_ends (E := Host.of acts answers) (h := h) beside_admits
    (held_invariant synced_lasting) unobserving_admits countsSoFar_invariant beside_appends
    beside_users unobserving_appends unobserving_messages hinitial
    (fun _ => held_stable synced_lasting)
    (fun nextContext m (hm : Held _ (Synced fun _ => True) m) => hm.inStep { nextContext })
    (fun _ m hm => hm.counts) (turn_ends rfl fuel)
  have hbegin : Held h.agent.toolFailureCircuitBreaker.maxConsecutiveRetryableFailures
      (Synced fun _ => True) (Now.start w) := by
    have hsynced : Synced (fun _ => True) {} none false :=
      ⟨fun _ hmem => (nomatch hmem), trivial, .inr rfl⟩
    rw [hclaimed.world]
    refine ⟨fun _ => ?_, hsynced⟩
    intro before after _ _ _ _ _ _ hsplit
    cases before <;> cases hsplit
  have hend := hdrive _ _ _ hbegin hrun
  cases o with
  | done value => exact hend hseparated
  | failed error => exact hend hseparated
  | pending query => exact hend hseparated

/-- A retryable failure. -/
def bridgeFailure : ToolFailure where
  disposition := .retryable
  signature := some ⟨"bridge"⟩

/-- A host whose tool always fails so. -/
def bridging : Script where
  execute call := some (.ok {
    toolCallId := call.id, content := "no", isError := true, failure := some bridgeFailure })

/-- An agent with a parallel tool and a limit of retryable failures. -/
def lookupAgent (limit : Nat) : Agent where
  configuration := (lookupHandle .parallel).configuration
  capabilities := {
    toolFailureCircuitBreaker := { maxConsecutiveRetryableFailures := some limit } }

/-- A response that calls the tool. -/
def callItems (call : ToolCall) (reason : StopReason) : List Item :=
  [.ok (some (.toolCall call)), .ok (some (.end_ reason)), .ok none]

/-- One retryable failure trips the breaker. -/
theorem breaker_counts_one :
    CountsBlocks (some 1)
      (bridging.prompt (lookupAgent 1) {} (callItems firstCall .toolUse) 6).2.state.run.kinds := by
  refine breaker_counts_blocks (prompted_eq (lookupAgent 1) rfl)
    (bridging.prompt_run (lookupAgent 1) {} (callItems firstCall .toolUse) 6) ?_
  have hverdicts : (accountOf (bridging.prompt (lookupAgent 1) {}
      (callItems firstCall .toolUse) 6).2.state.run.kinds).verdicts =
        [⟨firstCall.id, false, some bridgeFailure⟩] := by decide +kernel
  rw [hverdicts]
  refine ⟨fun s hs => ⟨rfl, ?_⟩, trivial⟩
  rw [block_of_eq hs]
  exact Nat.le_of_ble_eq_true rfl

def thirdCall : ToolCall := lookupCall ⟨"again", by decide⟩

/-- Three calls, of which the second is in a response that was cut off. -/
def cutOffItems : List Item :=
  callItems firstCall .toolUse ++ callItems secondCall .length ++ callItems thirdCall .toolUse

/-- The refused call ends the block of the first failure, and yet the third one is
    counted as the second of a block and trips the breaker. -/
theorem breaker_miscounts :
    ∃ o m, Run (Host.of bridging.acts bridging.answers)
      (drive (promptHandle (lookupAgent 2) {}) 6) (Now.start (prompted (lookupAgent 2) {})) o m ∧
      ¬ CountsBlocks (some 2) m.state.run.kinds := by
  refine ⟨_, _, bridging.prompt_run (lookupAgent 2) {} cutOffItems 6, fun hcounts => ?_⟩
  obtain ⟨v, past, hverdicts, -, hcounted⟩ := hcounts
    ((bridging.prompt (lookupAgent 2) {} cutOffItems 6).2.state.run.kinds.take 27)
    ((bridging.prompt (lookupAgent 2) {} cutOffItems 6).2.state.run.kinds.drop 28)
    thirdCall.id .retryable (some "bridge") 2 true "no" (by decide +kernel)
  have hlist : (accountOf ((bridging.prompt (lookupAgent 2) {}
      cutOffItems 6).2.state.run.kinds.take 27)).verdicts =
        [⟨thirdCall.id, false, some bridgeFailure⟩,
          ⟨secondCall.id, true, some .recoverableFailure⟩,
          ⟨firstCall.id, false, some bridgeFailure⟩] := by decide +kernel
  obtain ⟨rfl, rfl⟩ := List.cons.inj (hverdicts.symm.trans hlist)
  exact absurd (hcounted.counts ⟨"bridge"⟩ rfl) (by decide)

end Tea.Contract
