/-
  Tea/Protocol/ModelStream.lean
  =============================
  **The validator of a response stream** (`model_stream.rs`): the items of a response, and
  the phase and the open tool calls by which `accept` takes or refuses the next of them.
-/
import Mathlib.Data.Finset.Card

namespace Tea.Protocol

/-! ### Items -/

/-- `identifier!`: a text that is not empty, of one kind. -/
structure Identifier (kind : String) where
  text : String
  nonempty : text ≠ ""

@[ext] theorem Identifier.ext {kind : String} {a b : Identifier kind} (h : a.text = b.text) :
    a = b := by
  cases a
  cases b
  cases h
  rfl

instance {kind : String} : DecidableEq (Identifier kind) := fun a b =>
  decidable_of_iff (a.text = b.text) ⟨Identifier.ext, congrArg Identifier.text⟩

abbrev ModelId := Identifier "ModelId"

abbrev ModelResponseId := Identifier "ModelResponseId"

abbrev ToolCallId := Identifier "ToolCallId"

structure TokenUsage where
  inputTokens : UInt64
  outputTokens : UInt64
  cachedInputTokens : Option UInt64
deriving DecidableEq

inductive FinishReason where
  | stop | length | toolCall | cancelled | error
  | other (reason : String)
deriving DecidableEq

inductive ModelStreamItem where
  | started (responseId : ModelResponseId) (model : ModelId)
  | textDelta (text : String)
  | reasoningDelta (text : String)
  | toolCallStarted (callId : ToolCallId) (name : String)
  | toolCallArgumentsDelta (callId : ToolCallId) (delta : String)
  | toolCallFinished (callId : ToolCallId)
  | finished (reason : FinishReason) (usage : Option TokenUsage)
  | error (message : String)
deriving DecidableEq

/-- `kind`: the name of an item in an error. -/
def ModelStreamItem.kind : ModelStreamItem → String
  | .started .. => "started"
  | .textDelta _ => "text_delta"
  | .reasoningDelta _ => "reasoning_delta"
  | .toolCallStarted .. => "tool_call_started"
  | .toolCallArgumentsDelta .. => "tool_call_arguments_delta"
  | .toolCallFinished _ => "tool_call_finished"
  | .finished .. => "finished"
  | .error _ => "error"

/-- `is_terminal`: whether an item settles the stream. -/
def ModelStreamItem.isTerminal : ModelStreamItem → Bool
  | .finished .. | .error _ => true
  | _ => false

/-! ### The validator -/

inductive ModelStreamPhase where
  | idle | active | finished | failed
deriving DecidableEq

inductive ModelStreamError where
  | expectedStart (item : String)
  | duplicateStart
  | afterTerminal (phase : ModelStreamPhase) (item : String)
  | emptyToolName
  | duplicateToolCall (callId : ToolCallId)
  | unknownToolCall (callId : ToolCallId)
  | openToolCallsAtFinish (count : Nat)
deriving DecidableEq

/-- The validator.  All of it can be observed: the accessors return the four fields, the open
    calls in the order of their texts. -/
structure ModelStream where
  phase : ModelStreamPhase := .idle
  responseId : Option ModelResponseId := none
  model : Option ModelId := none
  openToolCalls : Finset ToolCallId := ∅
deriving DecidableEq

namespace ModelStream

/-- `accept_idle` -/
def acceptIdle (stream : ModelStream) :
    ModelStreamItem → ModelStream × Except ModelStreamError Unit
  | .started responseId model =>
      ({ stream with responseId := some responseId, model := some model, phase := .active },
        .ok ())
  | .error _ => ({ stream with phase := .failed }, .ok ())
  | item => (stream, .error (.expectedStart item.kind))

/-- `accept_active` -/
def acceptActive (stream : ModelStream) :
    ModelStreamItem → ModelStream × Except ModelStreamError Unit
  | .started .. => (stream, .error .duplicateStart)
  | .textDelta _ | .reasoningDelta _ => (stream, .ok ())
  | .toolCallStarted callId name =>
      if name = "" then (stream, .error .emptyToolName)
      else
        -- the set takes the call before its answer is looked at
        let inserted := callId ∉ stream.openToolCalls
        let stream' := { stream with openToolCalls := insert callId stream.openToolCalls }
        if ¬ inserted then (stream', .error (.duplicateToolCall callId)) else (stream', .ok ())
  | .toolCallArgumentsDelta callId _ =>
      if callId ∈ stream.openToolCalls then (stream, .ok ())
      else (stream, .error (.unknownToolCall callId))
  | .toolCallFinished callId =>
      let removed := callId ∈ stream.openToolCalls
      let stream' := { stream with openToolCalls := stream.openToolCalls.erase callId }
      if removed then (stream', .ok ()) else (stream', .error (.unknownToolCall callId))
  | .finished .. =>
      if stream.openToolCalls ≠ ∅ then
        (stream, .error (.openToolCallsAtFinish stream.openToolCalls.card))
      else ({ stream with phase := .finished }, .ok ())
  | .error _ => ({ stream with openToolCalls := ∅, phase := .failed }, .ok ())

/-- `accept` -/
def accept (stream : ModelStream) (item : ModelStreamItem) :
    ModelStream × Except ModelStreamError Unit :=
  match stream.phase with
  | .idle => stream.acceptIdle item
  | .active => stream.acceptActive item
  | .finished | .failed => (stream, .error (.afterTerminal stream.phase item.kind))

/-- The validator behind a sequence of items. -/
def feed (stream : ModelStream) (items : List ModelStreamItem) : ModelStream :=
  items.foldl (fun stream item => (stream.accept item).1) stream

/-- What the validator answers to each item of a sequence. -/
def verdicts (stream : ModelStream) : List ModelStreamItem → List (Except ModelStreamError Unit)
  | [] => []
  | item :: items => (stream.accept item).2 :: (stream.accept item).1.verdicts items

@[simp] theorem feed_append (stream : ModelStream) (items more : List ModelStreamItem) :
    stream.feed (items ++ more) = (stream.feed items).feed more := List.foldl_append

@[simp] theorem verdicts_append (stream : ModelStream) (items more : List ModelStreamItem) :
    stream.verdicts (items ++ more) =
      stream.verdicts items ++ (stream.feed items).verdicts more := by
  induction items generalizing stream with
  | nil => rfl
  | cons item items ih =>
    simp only [List.cons_append, verdicts, ih]
    rfl

/-- **A refused item leaves the validator as it was.**  A call that is inserted again, or
    removed although it is not open, leaves the set as it is. -/
theorem accept_refused {stream : ModelStream} {item : ModelStreamItem} {e : ModelStreamError}
    (h : (stream.accept item).2 = .error e) : (stream.accept item).1 = stream := by
  unfold accept at h ⊢
  cases hphase : stream.phase with
  | idle => cases item <;> simp_all [acceptIdle]
  | active =>
    simp only [hphase] at h ⊢
    cases item with
    | toolCallStarted callId name =>
      simp only [acceptActive] at h ⊢
      split_ifs at h ⊢ with hname hopen
      · rfl
      · simp [Finset.insert_eq_of_mem (not_not.mp hopen)]
    | toolCallFinished callId =>
      simp only [acceptActive] at h ⊢
      split_ifs at h ⊢ with hopen
      simp [Finset.erase_eq_of_notMem hopen]
    | toolCallArgumentsDelta callId delta =>
      simp only [acceptActive] at h ⊢
      split_ifs at h ⊢
      rfl
    | finished reason usage =>
      simp only [acceptActive] at h ⊢
      split_ifs at h ⊢
      rfl
    | started | textDelta | reasoningDelta | error => simp_all [acceptActive]
  | finished => rfl
  | failed => rfl

end ModelStream

end Tea.Protocol
