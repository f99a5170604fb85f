/-
  Tea/Contract/RetryBound.lean
  ============================
  **Retries are bounded**: the operation is called so often at most, never again once it is
  settled or cancelled, and the delays between the calls grow up to the greatest one.
-/
import Tea.Provider.Retry
import Mathlib.Order.Monotone.Basic

namespace Tea.Contract

open Tea.Async Tea.Provider

/-! ### Delays -/

/-- The delay before a retry, by the number of retries before it. -/
def delayAt (policy : RetryPolicy) (index : Nat) : Duration :=
  RetryPolicy.backoff policy.maxDelay index policy.initialDelay

theorem backoff_le (maxDelay : Duration) (left : Nat) (delay : Duration) :
    RetryPolicy.backoff maxDelay left delay ≤ maxDelay := by
  induction left generalizing delay with
  | zero => exact min_le_right _ _
  | succ left ih =>
    rw [RetryPolicy.backoff]
    split_ifs
    · exact le_rfl
    · exact ih _

/-- One more doubling does not make a delay shorter. -/
theorem backoff_le_succ (maxDelay : Duration) (left : Nat) (delay : Duration) :
    RetryPolicy.backoff maxDelay left delay ≤ RetryPolicy.backoff maxDelay (left + 1) delay := by
  induction left generalizing delay with
  | zero =>
    rw [RetryPolicy.backoff, RetryPolicy.backoff, RetryPolicy.backoff]
    split_ifs with h
    · exact min_le_right _ _
    · refine le_min (le_trans (min_le_left _ _) ?_) (min_le_right _ _)
      unfold Duration.checkedMul at h ⊢
      split_ifs at h ⊢ with hfits
      · have hle : delay.1 ≤ delay.1 * 2 := Nat.le_mul_of_pos_right _ (by decide)
        exact hle
      · exact absurd le_rfl h
  | succ left ih =>
    rw [RetryPolicy.backoff, RetryPolicy.backoff]
    split_ifs
    · exact le_rfl
    · exact ih _

theorem delayAt_le (policy : RetryPolicy) (index : Nat) : delayAt policy index ≤ policy.maxDelay :=
  backoff_le _ _ _

theorem delayAt_mono (policy : RetryPolicy) : Monotone (delayAt policy) :=
  monotone_nat_of_le_succ fun index => backoff_le_succ _ index _

/-! ### Retries as a transition system -/

/-- Where the retries are: so many have been made, one is due, or there is a result. -/
inductive RetryPlace (T : Type) where
  | ready (index : Nat)
  | due (index : Nat)
  | over (result : Except String T)

section

variable {T : Type}

/-- What may happen next. -/
inductive RetryStep (policy : RetryPolicy) :
    RetryPlace T → RetryEvent T → RetryPlace T → Prop
  | success {index : Nat} {value : T} (h : index ≤ policy.maxRetries.toNat) :
      RetryStep policy (.ready index) (.called (.ok value)) (.over (.ok value))
  | refusal {index : Nat} {error : RetryableError} (h : index ≤ policy.maxRetries.toNat)
      (hlast : error.retryable = false ∨ index = policy.maxRetries.toNat) :
      RetryStep policy (.ready index) (.called (.error error)) (.over (.error error.message))
  | failure {index : Nat} {error : RetryableError} (h : index < policy.maxRetries.toNat)
      (hretryable : error.retryable = true) :
      RetryStep policy (.ready index) (.called (.error error)) (.due index)
  | wait {index : Nat} :
      RetryStep policy (.due index) (.waits (delayAt policy index)) (.ready (index + 1))
  | sleep {index : Nat} {nap : Duration} (h : nap ≤ policy.maxDelay) :
      RetryStep policy (.ready index) (.sleeps nap) (.ready index)
  | cancel {index : Nat} :
      RetryStep policy (.ready index) .cancelled (.over (.error cancelledMessage))

/-- The outcome of a call. -/
def outcomeOf : RetryEvent T → Option (Except RetryableError T)
  | .called outcome => some outcome
  | _ => none

def delayOf : RetryEvent T → Option Duration
  | .waits delay => some delay
  | _ => none

def napOf : RetryEvent T → Option Duration
  | .sleeps nap => some nap
  | _ => none

/-- The calls that may still be made. -/
def RetryPlace.left (policy : RetryPolicy) : RetryPlace T → Nat
  | .ready index => policy.maxRetries.toNat + 1 - index
  | .due index => policy.maxRetries.toNat - index
  | .over _ => 0

def RetryPlace.index : RetryPlace T → Nat
  | .ready index => index
  | .due index => index
  | .over _ => 0

variable {policy : RetryPolicy} {p q : RetryPlace T} {events : List (RetryEvent T)}

theorem path_over {result : Except String T} (h : Path (RetryStep policy) (.over result) events q) :
    events = [] ∧ q = .over result := by
  cases h with
  | nil => exact ⟨rfl, rfl⟩
  | cons first rest => cases first

theorem calls_of_path (h : Path (RetryStep policy) p events q) :
    (events.filterMap outcomeOf).length ≤ p.left policy := by
  induction h with
  | nil => exact Nat.zero_le _
  | cons first rest ih =>
    cases first with
    | success hle | refusal hle =>
      rw [(path_over rest).1]
      simp only [List.filterMap_cons, outcomeOf, List.filterMap_nil, List.length_cons,
        List.length_nil, RetryPlace.left]
      omega
    | failure hlt hretryable =>
      simp only [List.filterMap_cons, outcomeOf, List.length_cons, RetryPlace.left] at ih ⊢
      omega
    | wait | sleep | cancel =>
      simp only [List.filterMap_cons, outcomeOf, RetryPlace.left] at ih ⊢
      omega

/-- The delays are those of the retries in their order. -/
theorem delays_of_path (h : Path (RetryStep policy) p events q) :
    ∃ count, events.filterMap delayOf =
      (List.range' p.index count).map (delayAt policy) := by
  induction h with
  | nil => exact ⟨0, rfl⟩
  | cons first rest ih =>
    cases first with
    | success | refusal | cancel =>
      rw [(path_over rest).1]
      exact ⟨0, rfl⟩
    | failure | sleep => exact ih
    | wait =>
      obtain ⟨count, hcount⟩ := ih
      refine ⟨count + 1, ?_⟩
      rw [List.filterMap_cons_some (f := delayOf) rfl, hcount, List.range'_succ, List.map_cons]
      rfl

theorem naps_of_path (h : Path (RetryStep policy) p events q) :
    ∀ nap ∈ events.filterMap napOf, nap ≤ policy.maxDelay := by
  intro nap hnap
  obtain ⟨event, hevent, hsome⟩ := List.mem_filterMap.mp hnap
  refine h.forall_mem (Q := fun event => ∀ nap, napOf event = some nap → nap ≤ policy.maxDelay) ?_
    event hevent nap hsome
  intro p event q hstep nap hsome
  cases hstep with
  | sleep hle =>
    cases hsome
    exact hle
  | success | refusal | failure | wait | cancel => cases hsome

/-- An event that ends the retries is the last one. -/
theorem last_of_path {before after : List (RetryEvent T)} {event : RetryEvent T}
    {result : Except String T} (h : Path (RetryStep policy) p (before ++ event :: after) q)
    (hends : ∀ p q, RetryStep policy p event q → q = .over result) :
    after = [] ∧ q = .over result := by
  obtain ⟨r, -, hrest⟩ := path_append_iff.mp h
  obtain ⟨s, hstep, hafter⟩ := path_cons_iff.mp hrest
  rw [hends _ _ hstep] at hafter
  exact path_over hafter

/-- A value is the result of the last call. -/
theorem success_of_path {index : Nat} {value : T}
    (h : Path (RetryStep policy) (.ready index) events (.over (.ok value))) :
    ∃ before, events = before ++ [.called (.ok value)] := by
  rcases List.eq_nil_or_concat events with rfl | ⟨before, event, rfl⟩
  · cases h
  · rw [List.concat_eq_append] at h ⊢
    obtain ⟨r, -, hrest⟩ := path_append_iff.mp h
    obtain ⟨s, hstep, hend⟩ := path_cons_iff.mp hrest
    cases hend with
    | nil =>
      cases hstep with
      | success => exact ⟨before, rfl⟩

/-! ### The loop makes such steps -/

def placeOf : RetryState → RetryPlace T
  | .attempting retryIndex => .ready retryIndex.toNat
  | .waiting retryIndex _ => .ready retryIndex.toNat

/-- The counter does not pass the bound, and no wait is longer than the greatest delay. -/
def Running (policy : RetryPolicy) : RetryState → Prop
  | .attempting retryIndex => retryIndex.toNat ≤ policy.maxRetries.toNat
  | .waiting retryIndex delay =>
    retryIndex.toNat ≤ policy.maxRetries.toNat ∧ delay ≤ policy.maxDelay

/-- The place where the loop has led to. -/
def Arrives (policy : RetryPolicy) : Flow RetryState (Except String T) → RetryPlace T → Prop
  | .again state, p => Running policy state ∧ p = placeOf state
  | .pending _, _ => False
  | .ready _ result, p => p = .over result

theorem toNat_succ_of_lt {index most : UInt32} (h : index < most) :
    (index + 1).toNat = index.toNat + 1 := by
  have hlt : index.toNat < most.toNat := h
  have hmost := most.toNat_lt
  have hone : (1 : UInt32).toNat = 1 := rfl
  rw [UInt32.toNat_add, hone]
  exact Nat.mod_eq_of_lt (by omega)

theorem attempt_arrives {retryIndex : UInt32} (h : Running policy (.attempting retryIndex))
    (turn : Turn T) : ∃ p, Path (RetryStep policy) (.ready retryIndex.toNat)
      (attempt policy retryIndex turn).1 p ∧
      Arrives policy (attempt policy retryIndex turn).2 p := by
  have hle : retryIndex.toNat ≤ policy.maxRetries.toNat := h
  unfold attempt
  by_cases hcancelled : turn.cancelled = true
  · rw [if_pos hcancelled]
    exact ⟨_, .single .cancel, rfl⟩
  · rw [if_neg hcancelled]
    cases turn.outcome with
    | ok value => exact ⟨_, .single (.success hle), rfl⟩
    | error error =>
      dsimp only
      by_cases hlast : (!error.retryable || decide (policy.maxRetries ≤ retryIndex)) = true
      · rw [if_pos hlast]
        refine ⟨_, .single (.refusal hle ?_), rfl⟩
        rcases Bool.or_eq_true _ _ ▸ hlast with hfinal | hmost
        · exact .inl (by simpa using hfinal)
        · have hmost' : policy.maxRetries.toNat ≤ retryIndex.toNat := of_decide_eq_true hmost
          exact .inr (by omega)
      · rw [if_neg hlast]
        rw [Bool.or_eq_true, not_or, Bool.not_eq_true', Bool.not_eq_false, decide_eq_true_eq,
          UInt32.not_le] at hlast
        obtain ⟨hretryable, hless⟩ := hlast
        have hlt : retryIndex.toNat < policy.maxRetries.toNat := hless
        refine ⟨.ready (retryIndex.toNat + 1),
          .cons (.failure hlt hretryable) (.single .wait), ⟨?_, delayAt_le _ _⟩, ?_⟩
        · rw [toNat_succ_of_lt hless]
          exact hlt
        · rw [placeOf, toNat_succ_of_lt hless]

theorem wait_arrives {retryIndex : UInt32} {delay : Duration}
    (h : Running policy (.waiting retryIndex delay)) (turn : Turn T) :
    ∃ p, Path (RetryStep policy) (.ready retryIndex.toNat)
      (waitWithCancellation retryIndex delay turn).1 p ∧
      Arrives policy (waitWithCancellation retryIndex delay turn).2 p := by
  obtain ⟨hle, hdelay⟩ := h
  have hnap : min tenMillis (delay.saturatingSub turn.elapsedAgain) ≤ policy.maxDelay := by
    refine le_trans (min_le_right _ _) (le_trans ?_ hdelay)
    exact Nat.sub_le _ _
  unfold waitWithCancellation
  split_ifs
  · exact ⟨_, .single .cancel, rfl⟩
  · exact ⟨_, .single (.sleep hnap), ⟨hle, hdelay⟩, rfl⟩
  · exact ⟨_, .single .cancel, rfl⟩
  · exact ⟨_, .nil, hle, rfl⟩

/-- Whatever the surroundings answer, the events are a path to where the loop has led. -/
theorem loop_arrives {state : RetryState} (h : Running policy state) (turns : List (Turn T)) :
    ∃ p, Path (RetryStep policy) (placeOf state) (loop (retryIterate policy) state turns).1 p ∧
      Arrives policy (loop (retryIterate policy) state turns).2 p := by
  induction turns generalizing state with
  | nil => exact ⟨_, .nil, h, rfl⟩
  | cons turn turns ih =>
    have hstep : ∃ p, Path (RetryStep policy) (placeOf state) (retryIterate policy state turn).1 p ∧
        Arrives policy (retryIterate policy state turn).2 p := by
      cases state with
      | attempting retryIndex => exact attempt_arrives h turn
      | waiting retryIndex delay => exact wait_arrives h turn
    obtain ⟨p, hpath, harrives⟩ := hstep
    rw [loop]
    generalize retryIterate policy state turn = out at hpath harrives
    obtain ⟨events, flow⟩ := out
    cases flow with
    | again state' =>
      obtain ⟨hgoes, rfl⟩ := harrives
      obtain ⟨q, hrest, hend⟩ := ih hgoes
      exact ⟨q, hpath.append hrest, hend⟩
    | pending state' => exact harrives.elim
    | ready state' result => exact ⟨p, hpath, harrives⟩

/-! ### Termination -/

/-- The clock of a wait is seen behind the greatest delay again and again. -/
def ClockAdvances (policy : RetryPolicy) (turns : Nat → Turn T) : Prop :=
  ∀ n, ∃ m, n ≤ m ∧ policy.maxDelay ≤ (turns m).elapsed

/-- After some of the answers there is a result. -/
def Finishes (policy : RetryPolicy) (state : RetryState) (turns : Nat → Turn T) : Prop :=
  ∃ n state' result,
    (loop (retryIterate policy) state ((List.range n).map turns)).2 = .ready state' result

theorem ClockAdvances.shift {turns : Nat → Turn T} (h : ClockAdvances policy turns) :
    ClockAdvances policy fun n => turns (n + 1) := by
  intro n
  obtain ⟨m, hle, hclock⟩ := h (n + 1)
  refine ⟨m - 1, by omega, ?_⟩
  dsimp only
  rwa [Nat.sub_add_cancel (by omega)]

theorem finishes_of_ready {state state' : RetryState} {turns : Nat → Turn T}
    {result : Except String T}
    (h : (retryIterate policy state (turns 0)).2 = .ready state' result) :
    Finishes policy state turns := by
  refine ⟨1, state', result, ?_⟩
  rw [List.range_one, List.map_singleton, loop]
  generalize retryIterate policy state (turns 0) = out at h
  obtain ⟨events, flow⟩ := out
  cases h
  rfl

theorem finishes_of_again {state state' : RetryState} {turns : Nat → Turn T}
    (h : (retryIterate policy state (turns 0)).2 = .again state')
    (hrest : Finishes policy state' fun n => turns (n + 1)) : Finishes policy state turns := by
  obtain ⟨n, state'', result, hready⟩ := hrest
  refine ⟨n + 1, state'', result, ?_⟩
  rw [List.range_succ_eq_map, List.map_cons, List.map_map, loop]
  generalize retryIterate policy state (turns 0) = out at h
  obtain ⟨events, flow⟩ := out
  cases h
  exact hready

/-- A wait ends if what follows it does. -/
theorem waiting_finishes {retryIndex : UInt32} {delay : Duration} (hdelay : delay ≤ policy.maxDelay)
    (hnext : ∀ turns : Nat → Turn T, ClockAdvances policy turns →
      Finishes policy (.attempting retryIndex) turns)
    {turns : Nat → Turn T} (h : ClockAdvances policy turns) :
    Finishes policy (.waiting retryIndex delay) turns := by
  obtain ⟨m, -, hclock⟩ := h 0
  induction m generalizing turns with
  | zero =>
    have hover : ¬ (turns 0).elapsed < delay := not_lt.mpr (le_trans hdelay hclock)
    by_cases hcancelled : (turns 0).cancelled = true
    · exact finishes_of_ready (by
        rw [retryIterate, waitWithCancellation, if_neg hover, if_pos hcancelled])
    · refine finishes_of_again ?_ (hnext _ h.shift)
      rw [retryIterate, waitWithCancellation, if_neg hover, if_neg hcancelled]
  | succ m ih =>
    by_cases hcancelled : (turns 0).cancelled = true
    · by_cases hless : (turns 0).elapsed < delay
      · exact finishes_of_ready (by
          rw [retryIterate, waitWithCancellation, if_pos hless, if_pos hcancelled])
      · exact finishes_of_ready (by
          rw [retryIterate, waitWithCancellation, if_neg hless, if_pos hcancelled])
    · by_cases hless : (turns 0).elapsed < delay
      · refine finishes_of_again ?_ (ih h.shift hclock)
        rw [retryIterate, waitWithCancellation, if_pos hless, if_neg hcancelled]
      · refine finishes_of_again ?_ (hnext _ h.shift)
        rw [retryIterate, waitWithCancellation, if_neg hless, if_neg hcancelled]

/-- The attempts that are left are made after finitely many answers. -/
theorem attempting_finishes (left : Nat) {retryIndex : UInt32}
    (hleft : policy.maxRetries.toNat - retryIndex.toNat = left) {turns : Nat → Turn T}
    (h : ClockAdvances policy turns) : Finishes policy (.attempting retryIndex) turns := by
  induction left generalizing retryIndex turns with
  | zero =>
    have hmost : policy.maxRetries ≤ retryIndex := by
      rw [UInt32.le_iff_toNat_le]
      omega
    have hready : ∃ state result,
        (attempt policy retryIndex (turns 0)).2 = .ready state result := by
      unfold attempt
      by_cases hcancelled : (turns 0).cancelled = true
      · rw [if_pos hcancelled]
        exact ⟨_, _, rfl⟩
      · rw [if_neg hcancelled]
        cases (turns 0).outcome with
        | ok value => exact ⟨_, _, rfl⟩
        | error error =>
          dsimp only
          rw [if_pos (by rw [decide_eq_true hmost, Bool.or_true])]
          exact ⟨_, _, rfl⟩
    obtain ⟨state, result, hresult⟩ := hready
    exact finishes_of_ready hresult
  | succ left ih =>
    have hflow : (∃ state result, (attempt policy retryIndex (turns 0)).2 = .ready state result) ∨
        (attempt policy retryIndex (turns 0)).2 =
          .again (.waiting (retryIndex + 1) (policy.delayBeforeRetry retryIndex)) := by
      unfold attempt
      by_cases hcancelled : (turns 0).cancelled = true
      · rw [if_pos hcancelled]
        exact .inl ⟨_, _, rfl⟩
      · rw [if_neg hcancelled]
        cases (turns 0).outcome with
        | ok value => exact .inl ⟨_, _, rfl⟩
        | error error =>
          dsimp only
          split_ifs
          · exact .inl ⟨_, _, rfl⟩
          · exact .inr rfl
    rcases hflow with ⟨state, result, hresult⟩ | hagain
    · exact finishes_of_ready hresult
    · have hless : retryIndex < policy.maxRetries := by
        rw [UInt32.lt_iff_toNat_lt]
        omega
      refine finishes_of_again hagain (waiting_finishes (delayAt_le _ _) ?_ h.shift)
      intro turns' hturns'
      refine ih ?_ hturns'
      rw [toNat_succ_of_lt hless]
      omega

/-! ### Retries are bounded -/

/-- The calls, waits and sleeps, and the result once there is one. -/
structure RetryBounded (policy : RetryPolicy)
    (out : List (RetryEvent T) × Flow RetryState (Except String T)) : Prop where
  calls_le : (out.1.filterMap outcomeOf).length ≤ policy.maxRetries.toNat + 1
  /-- Nothing follows a success, and it is returned. -/
  success_last : ∀ before value after, out.1 = before ++ .called (.ok value) :: after →
    after = [] ∧ ∃ state, out.2 = .ready state (.ok value)
  /-- A value is only returned that the last call has made. -/
  success_only : ∀ state value, out.2 = .ready state (.ok value) →
    ∃ before, out.1 = before ++ [.called (.ok value)]
  /-- Nothing follows a failure that is not retryable. -/
  refusal_last : ∀ before (error : RetryableError) after, error.retryable = false →
    out.1 = before ++ .called (.error error) :: after →
    after = [] ∧ ∃ state, out.2 = .ready state (.error error.message)
  /-- Nothing follows once the token is seen cancelled. -/
  cancelled_last : ∀ before after, out.1 = before ++ .cancelled :: after →
    after = [] ∧ ∃ state, out.2 = .ready state (.error cancelledMessage)
  delays_le : ∀ delay ∈ out.1.filterMap delayOf, delay ≤ policy.maxDelay
  delays_grow : (out.1.filterMap delayOf).Pairwise (· ≤ ·)
  naps_le : ∀ nap ∈ out.1.filterMap napOf, nap ≤ policy.maxDelay

theorem ready_of_arrives {flow : Flow RetryState (Except String T)} {result : Except String T}
    (h : Arrives policy flow (.over result)) : ∃ state, flow = .ready state result := by
  cases flow with
  | again state =>
    cases state with
    | attempting retryIndex => cases h.2
    | waiting retryIndex delay => cases h.2
  | pending state => exact h.elim
  | ready state result' =>
    cases h
    exact ⟨state, rfl⟩

theorem retryWithBackoff_bounded (policy : RetryPolicy) (turns : List (Turn T)) :
    RetryBounded policy (retryWithBackoff policy turns) := by
  obtain ⟨q, hpath, harrives⟩ := @loop_arrives T policy (.attempting 0) (Nat.zero_le _) turns
  have hlast : ∀ before event after (result : Except String T),
      (∀ p q, RetryStep policy p event q → q = .over result) →
      (retryWithBackoff policy turns).1 = before ++ event :: after →
      after = [] ∧ ∃ state, (retryWithBackoff policy turns).2 = .ready state result := by
    intro before event after result hends hevents
    have hrun : Path (RetryStep policy) (placeOf (.attempting 0))
        (retryWithBackoff policy turns).1 q := hpath
    rw [hevents] at hrun
    obtain ⟨hafter, rfl⟩ := last_of_path hrun hends
    exact ⟨hafter, ready_of_arrives harrives⟩
  obtain ⟨count, hdelays⟩ := delays_of_path hpath
  have hdelays : (retryWithBackoff policy turns).1.filterMap delayOf =
      (List.range' 0 count).map (delayAt policy) := hdelays
  constructor
  · exact calls_of_path hpath
  · intro before value after hevents
    refine hlast before _ after _ ?_ hevents
    intro p q hstep
    cases hstep
    rfl
  · intro state value hready
    have hover : q = .over (.ok value) := by
      have harrives : Arrives policy (retryWithBackoff policy turns).2 q := harrives
      rw [hready] at harrives
      exact harrives
    subst hover
    exact success_of_path hpath
  · intro before error after hfinal hevents
    refine hlast before _ after _ ?_ hevents
    intro p q hstep
    cases hstep with
    | refusal => rfl
    | failure hlt hretryable => cases hfinal.symm.trans hretryable
  · intro before after hevents
    refine hlast before _ after _ ?_ hevents
    intro p q hstep
    cases hstep
    rfl
  · intro delay hdelay
    rw [hdelays] at hdelay
    obtain ⟨index, -, rfl⟩ := List.mem_map.mp hdelay
    exact delayAt_le policy index
  · rw [hdelays, List.pairwise_map]
    have hindices := List.pairwise_lt_range' (s := 0) (n := count)
    exact hindices.imp fun hlt => delayAt_mono policy (Nat.le_of_lt hlt)
  · exact naps_of_path hpath

end

end Tea.Contract
