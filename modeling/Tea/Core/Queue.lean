/-
  Tea/Core/Queue.lean
  ===================
  **Explicit steering and follow-up queues** (`queue.rs`).
-/
import Tea.Core.Text

namespace Tea.Core

/-- Input waiting to be consumed by a run. -/
structure QueuedMessage where
  sequence : UInt64
  content : String
deriving DecidableEq, Repr

/-- How a queue is drained at its eligible wait point. -/
inductive QueueMode where
  | oneAtATime | all
deriving DecidableEq, Repr

structure MessageQueue where
  nextSequence : UInt64 := 0
  entries : List QueuedMessage := []
deriving DecidableEq, Repr

namespace MessageQueue

def push (queue : MessageQueue) (content : String) : UInt64 × MessageQueue :=
  let sequence := satSucc queue.nextSequence
  (sequence, { nextSequence := sequence, entries := queue.entries ++ [{ sequence, content }] })

def pop (queue : MessageQueue) : Option QueuedMessage × MessageQueue :=
  (queue.entries.head?, { queue with entries := queue.entries.tail })

def drain (queue : MessageQueue) : QueueMode → List QueuedMessage × MessageQueue
  | .oneAtATime => (queue.pop.1.toList, queue.pop.2)
  | .all => (queue.entries, { queue with entries := [] })

def clear (queue : MessageQueue) : MessageQueue := { queue with entries := [] }

/-- A drain takes a prefix of the queue and leaves the rest, whatever the mode. -/
theorem drain_append (queue : MessageQueue) (mode : QueueMode) :
    (queue.drain mode).1 ++ (queue.drain mode).2.entries = queue.entries := by
  cases mode with
  | oneAtATime =>
    rcases h : queue.entries with _ | ⟨e, rest⟩ <;> simp [drain, pop, h]
  | all => simp [drain]

/-- A drain that takes nothing changes nothing. -/
theorem drain_empty {queue : MessageQueue} {mode : QueueMode} (hempty : (queue.drain mode).1 = []) :
    (queue.drain mode).2 = queue := by
  have hsplit := queue.drain_append mode
  rw [hempty, List.nil_append] at hsplit
  cases mode with
  | oneAtATime =>
    simp only [drain, pop] at hsplit ⊢
    rw [hsplit]
  | all =>
    simp only [drain] at hsplit ⊢
    rw [hsplit]

end MessageQueue

/-- The two queues owned by an agent. -/
structure AgentQueues where
  steering : MessageQueue := {}
  followUp : MessageQueue := {}
deriving DecidableEq, Repr

/-- Clear both queues as part of cancellation settlement. -/
def AgentQueues.clear (queues : AgentQueues) : AgentQueues where
  steering := queues.steering.clear
  followUp := queues.followUp.clear

end Tea.Core
