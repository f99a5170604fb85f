/-
  Tea/Provider/Retry.lean
  =======================
  **Bounded retries** of a provider request, with delays that double and a token that is
  looked at before each attempt and while waiting.
-/
import Tea.Async.PollLoop
import Mathlib.Order.Lattice

namespace Tea.Provider

open Tea.Async

/-! ### Durations -/

/-- The nanoseconds of `Duration::MAX`. -/
def mostNanos : Nat := 18446744073709551615999999999

/-- A span of time that a `Duration` holds, in nanoseconds. -/
abbrev Duration := { nanos : Nat // nanos ≤ mostNanos }

namespace Duration

def checkedMul (d : Duration) (factor : Nat) : Option Duration :=
  if h : d.1 * factor ≤ mostNanos then some ⟨d.1 * factor, h⟩ else none

def saturatingSub (d d' : Duration) : Duration :=
  ⟨d.1 - d'.1, Nat.le_trans (Nat.sub_le _ _) d.2⟩

end Duration

/-! ### Policies -/

/-- A policy, the greatest delay of which is not below the first one. -/
structure RetryPolicy where
  maxRetries : UInt32
  initialDelay : Duration
  maxDelay : Duration
  ordered : initialDelay ≤ maxDelay

namespace RetryPolicy

def new (maxRetries : UInt32) (initialDelay maxDelay : Duration) : RetryPolicy where
  maxRetries := maxRetries
  initialDelay := initialDelay
  maxDelay := if maxDelay < initialDelay then initialDelay else maxDelay
  ordered := by
    split_ifs with h
    · exact le_rfl
    · exact not_lt.mp h

/-- Three retries, 250 ms before the first, and 8 s before any at most. -/
def standard : RetryPolicy where
  maxRetries := 3
  initialDelay := ⟨250000000, by decide⟩
  maxDelay := ⟨8000000000, by decide⟩
  ordered := by decide

/-- The doublings that are left to be made of a delay. -/
def backoff (maxDelay : Duration) : Nat → Duration → Duration
  | 0, delay => min delay maxDelay
  | left + 1, delay =>
    let doubled := (delay.checkedMul 2).getD maxDelay
    if maxDelay ≤ doubled then maxDelay else backoff maxDelay left doubled

def delayBeforeRetry (policy : RetryPolicy) (retryIndex : UInt32) : Duration :=
  backoff policy.maxDelay retryIndex.toNat policy.initialDelay

end RetryPolicy

/-! ### The loop -/

structure RetryableError where
  message : String
  retryable : Bool

/-- What the surroundings answer in an iteration: the token as it is read, the operation if it
    is called, and the clock as it is read twice while waiting. -/
structure Turn (T : Type) where
  cancelled : Bool
  outcome : Except RetryableError T
  elapsed : Duration
  elapsedAgain : Duration

inductive RetryEvent (T : Type) where
  /-- The token was found cancelled. -/
  | cancelled
  /-- The operation was called. -/
  | called (outcome : Except RetryableError T)
  /-- A wait of the whole delay begins. -/
  | waits (delay : Duration)
  | sleeps (nap : Duration)

/-- An iteration of the outer loop begins, or one of `wait_with_cancellation`. -/
inductive RetryState where
  | attempting (retryIndex : UInt32)
  | waiting (retryIndex : UInt32) (delay : Duration)

def cancelledMessage : String := "provider request cancelled"

/-- The longest sleep between two looks at the token. -/
def tenMillis : Duration := ⟨10000000, by decide⟩

variable {T : Type}

def attempt (policy : RetryPolicy) (retryIndex : UInt32) (turn : Turn T) :
    List (RetryEvent T) × Flow RetryState (Except String T) :=
  if turn.cancelled then
    ([.cancelled], .ready (.attempting retryIndex) (.error cancelledMessage))
  else
    match turn.outcome with
    | .ok value => ([.called (.ok value)], .ready (.attempting retryIndex) (.ok value))
    | .error error =>
      if !error.retryable || policy.maxRetries ≤ retryIndex then
        ([.called (.error error)], .ready (.attempting retryIndex) (.error error.message))
      else
        let delay := policy.delayBeforeRetry retryIndex
        ([.called (.error error), .waits delay], .again (.waiting (retryIndex + 1) delay))

def waitWithCancellation (retryIndex : UInt32) (delay : Duration) (turn : Turn T) :
    List (RetryEvent T) × Flow RetryState (Except String T) :=
  if turn.elapsed < delay then
    if turn.cancelled then
      ([.cancelled], .ready (.waiting retryIndex delay) (.error cancelledMessage))
    else
      ([.sleeps (min tenMillis (delay.saturatingSub turn.elapsedAgain))],
        .again (.waiting retryIndex delay))
  else if turn.cancelled then
    ([.cancelled], .ready (.waiting retryIndex delay) (.error cancelledMessage))
  else ([], .again (.attempting retryIndex))

def retryIterate (policy : RetryPolicy) : RetryState → Turn T →
    List (RetryEvent T) × Flow RetryState (Except String T)
  | .attempting retryIndex, turn => attempt policy retryIndex turn
  | .waiting retryIndex delay, turn => waitWithCancellation retryIndex delay turn

/-- The calls, waits and sleeps while the surroundings answer so, and how it ends then. -/
def retryWithBackoff (policy : RetryPolicy) (turns : List (Turn T)) :
    List (RetryEvent T) × Flow RetryState (Except String T) :=
  loop (retryIterate policy) (.attempting 0) turns

end Tea.Provider
