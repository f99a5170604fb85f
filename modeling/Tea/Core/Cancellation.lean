/-
  Tea/Core/Cancellation.lean
  ==========================
  **The cancellation token** (`scheduler.rs`): a flag and one list of wakers, shared by the
  waits, each with an entry of its own, and by wakers that are registered directly.  A step
  is a read or a swap of the flag, a section under the lock of the list, or one wake-up; a
  waker is compared as a whole (`will_wake`).
-/

import Mathlib.Algebra.Group.Nat.Defs
import Mathlib.Data.List.Basic

namespace Tea.Core

/-- What the last poll of a wait returned, and with which waker. -/
inductive Polled (W : Type) where
  | never
  | pending (waker : W)
  | ready
deriving DecidableEq

/-- Where a wait is: in no call, in a call that has read the flag as unset and goes for the
    lock, or gone. -/
inductive WaitPhase (W : Type) where
  | idle
  | polling (waker : W)
  | dropping
  | dropped
deriving DecidableEq

/-- A `CancellationWait`. -/
structure Wait (W : Type) where
  waiterId : Nat
  polled : Polled W := .never
  phase : WaitPhase W := .idle
deriving DecidableEq

/-- The call of `cancel` that has set the flag. -/
inductive Cancelling (W : Type) where
  | taking
  | waking (waiters : List (Nat × W))
deriving DecidableEq

/-- A token with its waits and the calls under way, and the history of the calls that have
    returned: whether one was a `cancel`, what was registered and what was woken. -/
structure Token (W : Type) where
  cancelled : Bool := false
  nextWaiterId : Nat := 0
  waiters : List (Nat × W) := []
  waits : List (Wait W) := []
  registering : List W := []
  cancelling : Option (Cancelling W) := none
  completed : Bool := false
  registered : List W := []
  woken : List W := []
deriving DecidableEq

/-- A step of a call: its beginning, where the flag is read, or its section under the lock. -/
inductive TokenStep (W : Type) where
  | cancel
  | take
  | wake
  | cancelReturns
  | registerWaker (waker : W)
  | registerLocked (call : Nat)
  | makeWait
  | poll (wait : Nat) (waker : W)
  | pollLocked (wait : Nat)
  | drop (wait : Nat)
  | dropLocked (wait : Nat)
deriving DecidableEq

namespace Token

variable {W : Type}

/-! ### `cancel` -/

/-- The flag is swapped; only the first call goes on. -/
def cancel (s : Token W) : Token W :=
  if s.cancelled then { s with completed := true }
  else { s with cancelled := true, cancelling := some .taking }

def take (s : Token W) : Option (Token W) :=
  match s.cancelling with
  | some .taking => some { s with waiters := [], cancelling := some (.waking s.waiters) }
  | _ => none

def wake (s : Token W) : Option (Token W) :=
  match s.cancelling with
  | some (.waking ((_, waker) :: rest)) =>
      some { s with cancelling := some (.waking rest), woken := waker :: s.woken }
  | _ => none

def cancelReturns (s : Token W) : Option (Token W) :=
  match s.cancelling with
  | some (.waking []) => some { s with cancelling := none, completed := true }
  | _ => none

/-! ### `register_waker` -/

/-- A call that finds the flag set wakes its waker. -/
def wakeByRef (s : Token W) (waker : W) : Token W :=
  { s with registered := waker :: s.registered, woken := waker :: s.woken }

def registerWaker (s : Token W) (waker : W) : Token W :=
  if s.cancelled then s.wakeByRef waker
  else { s with registering := waker :: s.registering }

/-- `fetch_add` on a 64-bit counter. -/
def following (id : Nat) : Nat := (id + 1) % 2 ^ 64

/-- A waker that is not stored yet is stored under an id of its own. -/
def register [DecidableEq W] (s : Token W) (waker : W) : Token W :=
  if s.waiters.any fun entry => entry.2 = waker then
    { s with registered := waker :: s.registered }
  else
    { s with
      nextWaiterId := following s.nextWaiterId
      waiters := s.waiters ++ [(s.nextWaiterId, waker)]
      registered := waker :: s.registered }

def registerLocked [DecidableEq W] (s : Token W) (call : Nat) : Option (Token W) :=
  match s.registering[call]? with
  | some waker =>
      let s := { s with registering := s.registering.eraseIdx call }
      some (if s.cancelled then s.wakeByRef waker else s.register waker)
  | none => none

/-! ### `CancellationWait` -/

/-- `cancelled` -/
def makeWait (s : Token W) : Token W :=
  { s with
    nextWaiterId := following s.nextWaiterId
    waits := s.waits ++ [{ waiterId := s.nextWaiterId }] }

def setWait (s : Token W) (i : Nat) (wait : Wait W) : Token W :=
  { s with waits := s.waits.set i wait }

def poll (s : Token W) (i : Nat) (waker : W) : Option (Token W) :=
  match s.waits[i]? with
  | some wait =>
      match wait.phase with
      | .idle =>
          some (s.setWait i
            (if s.cancelled then { wait with polled := .ready }
            else { wait with phase := .polling waker }))
      | _ => none
  | none => none

/-- The entry of a wait gets the waker of the poll; a wait without one gets an entry. -/
def storeWaker (id : Nat) (waker : W) : List (Nat × W) → List (Nat × W)
  | [] => [(id, waker)]
  | entry :: rest =>
      if entry.1 = id then (id, waker) :: rest else entry :: storeWaker id waker rest

def pollLocked (s : Token W) (i : Nat) : Option (Token W) :=
  match s.waits[i]? with
  | some wait =>
      match wait.phase with
      | .polling waker =>
          some (if s.cancelled then s.setWait i { wait with polled := .ready, phase := .idle }
            else
              { s with
                waiters := storeWaker wait.waiterId waker s.waiters
                waits := s.waits.set i { wait with polled := .pending waker, phase := .idle } })
      | _ => none
  | none => none

/-- A wait that is dropped behind the flag leaves its entry to `cancel`. -/
def drop (s : Token W) (i : Nat) : Option (Token W) :=
  match s.waits[i]? with
  | some wait =>
      match wait.phase with
      | .idle =>
          some (s.setWait i { wait with phase := if s.cancelled then .dropped else .dropping })
      | _ => none
  | none => none

def dropLocked (s : Token W) (i : Nat) : Option (Token W) :=
  match s.waits[i]? with
  | some wait =>
      match wait.phase with
      | .dropping =>
          some { s with
            waiters := s.waiters.filter fun entry => entry.1 ≠ wait.waiterId
            waits := s.waits.set i { wait with phase := .dropped } }
      | _ => none
  | none => none

/-! ### Steps -/

def step [DecidableEq W] (s : Token W) : TokenStep W → Option (Token W)
  | .cancel => some s.cancel
  | .take => s.take
  | .wake => s.wake
  | .cancelReturns => s.cancelReturns
  | .registerWaker waker => some (s.registerWaker waker)
  | .registerLocked call => s.registerLocked call
  | .makeWait => some s.makeWait
  | .poll wait waker => s.poll wait waker
  | .pollLocked wait => s.pollLocked wait
  | .drop wait => s.drop wait
  | .dropLocked wait => s.dropLocked wait

end Token

end Tea.Core
