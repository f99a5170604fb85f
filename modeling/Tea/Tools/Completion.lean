/-
  Tea/Tools/Completion.lean
  =========================
  **The completions of a batch of tool calls** (`scheduler.rs`): a map from the calls to their
  results, and the results in the order of the calls.
-/
import Tea.Core.Capability
import Tea.Core.Event
import Tea.Encoding.OrderedKeys
import Mathlib.Data.String.Basic

namespace Tea.Tools

open Tea.Core Tea.Encoding

/-! ### Batches -/

/-- `PlannedToolCall` -/
structure PlannedToolCall where
  sourceIndex : Nat
  call : ToolCall
  executionMode : ToolExecutionMode
deriving DecidableEq

/-- `ToolBatch`: the calls in the order of the assistant message. -/
structure ToolBatch where
  calls : List PlannedToolCall
deriving DecidableEq

/-- `ToolBatch::prepare` -/
def ToolBatch.prepare (calls : List (ToolCall × ToolExecutionMode)) : ToolBatch where
  calls := calls.mapIdx fun sourceIndex planned =>
    { sourceIndex, call := planned.1, executionMode := planned.2 }

/-- Whether a call of the batch has the identifier. -/
def ToolBatch.knows (batch : ToolBatch) (id : ToolCallId) : Bool :=
  batch.calls.any fun call => call.call.id = id

/-! ### Completions -/

/-- The key of a result. -/
def resultKey (result : AgentToolResult) : String := result.toolCallId.text

theorem resultKey_inj {result other : AgentToolResult} (h : resultKey result = resultKey other) :
    result.toolCallId = other.toolCallId := by
  cases hresult : result.toolCallId
  cases hother : other.toolCallId
  simpa only [resultKey, hresult, hother, ToolCallId.mk.injEq] using h

/-- `CompletionSet`: each result is stored under its own call. -/
structure CompletionSet where
  results : List AgentToolResult
  ordered : KeysIncrease resultKey results
deriving DecidableEq

namespace CompletionSet

/-- `CompletionSet::default` -/
def empty : CompletionSet := ⟨[], List.Pairwise.nil⟩

/-- `BTreeMap::get` -/
def get (set : CompletionSet) (id : ToolCallId) : Option AgentToolResult :=
  set.results.find? fun result => result.toolCallId = id

/-- What is left when a call is taken out. -/
def without (set : CompletionSet) (id : ToolCallId) : CompletionSet where
  results := set.results.filter fun result => result.toolCallId ≠ id
  ordered := List.Pairwise.filter _ set.ordered

theorem ne_of_mem_without {set : CompletionSet} {id : ToolCallId} {result : AgentToolResult}
    (h : result ∈ (set.without id).results) : result.toolCallId ≠ id := by
  simpa using (List.mem_filter.mp h).2

/-- `BTreeMap::insert`: a result that is stored for the call is replaced. -/
def put (set : CompletionSet) (result : AgentToolResult) : CompletionSet where
  results := insertByKey resultKey result (set.without result.toolCallId).results
  ordered := (set.without result.toolCallId).ordered.insert fun _ hother hkey =>
    ne_of_mem_without hother (resultKey_inj hkey)

/-- `CompletionSet::insert` -/
def insert (set : CompletionSet) (result : AgentToolResult) :
    Except SchedulerError Unit × CompletionSet :=
  if (set.get result.toolCallId).isSome then
    (.error (.duplicateCompletion result.toolCallId), set.put result)
  else (.ok (), set.put result)

/-- `CompletionSet::in_source_order` -/
def inSourceOrder (set : CompletionSet) (batch : ToolBatch) : List AgentToolResult :=
  batch.calls.filterMap fun call => set.get call.call.id

theorem get_eq_some_iff {set : CompletionSet} {id : ToolCallId} {result : AgentToolResult} :
    set.get id = some result ↔ result ∈ set.results ∧ result.toolCallId = id := by
  have hsame : ∀ item other : AgentToolResult, decide (item.toolCallId = id) = true →
      decide (other.toolCallId = id) = true → resultKey item = resultKey other := by
    intro item other hitem hother
    rw [resultKey, resultKey, of_decide_eq_true hitem, of_decide_eq_true hother]
  rw [get, set.ordered.find_eq_some_iff hsame, decide_eq_true_eq]

@[simp] theorem get_empty (id : ToolCallId) : empty.get id = none := rfl

theorem get_put (set : CompletionSet) (result : AgentToolResult) (id : ToolCallId) :
    (set.put result).get id = if result.toolCallId = id then some result else set.get id := by
  ext other
  rw [get_eq_some_iff, put, mem_insertByKey, without, List.mem_filter, decide_eq_true_eq]
  by_cases hid : result.toolCallId = id
  · rw [if_pos hid, Option.some.injEq, hid]
    constructor
    · rintro ⟨rfl | ⟨-, hne⟩, hother⟩
      · rfl
      · exact absurd hother hne
    · rintro rfl
      exact ⟨.inl rfl, hid⟩
  · rw [if_neg hid, get_eq_some_iff]
    constructor
    · rintro ⟨rfl | ⟨hmem, -⟩, hother⟩
      · exact absurd hother hid
      · exact ⟨hmem, hother⟩
    · rintro ⟨hmem, rfl⟩
      exact ⟨.inr ⟨hmem, fun heq => hid heq.symm⟩, rfl⟩

/-- Sets with the same results are the same. -/
theorem ext_get {set other : CompletionSet} (h : ∀ id, set.get id = other.get id) :
    set = other := by
  have hmem : ∀ result, result ∈ set.results ↔ result ∈ other.results := by
    intro result
    have hget := @get_eq_some_iff set result.toolCallId result
    rw [h, get_eq_some_iff] at hget
    simpa using hget.symm
  have hresults := set.ordered.ext other.ordered hmem
  cases set
  cases other
  congr

/-- Storing a result leaves the set as it is, just when it is the result stored there. -/
theorem put_eq_self_iff {set : CompletionSet} {result : AgentToolResult} :
    set.put result = set ↔ set.get result.toolCallId = some result := by
  constructor
  · intro h
    rw [← h, get_put, if_pos rfl]
  · intro h
    refine ext_get ?_
    intro id
    rw [get_put]
    split_ifs with hid
    · rw [← hid, h]
    · rfl

end CompletionSet

/-- `ToolBatch::record_completion` -/
def ToolBatch.recordCompletion (batch : ToolBatch) (results : CompletionSet)
    (result : AgentToolResult) : Except SchedulerError Unit × CompletionSet :=
  if batch.knows result.toolCallId then results.insert result
  else (.error (.unknownToolCall result.toolCallId), results)

end Tea.Tools
