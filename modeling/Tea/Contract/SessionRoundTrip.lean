/-
  Tea/Contract/SessionRoundTrip.lean
  ==================================
  **Session files keep the session.**  The decoder accepts every file that the encoder
  writes and restores the header, the model, the thinking level and the messages
  (`session_restored`).  Arguments and details are stored as JSON values, so their texts
  come back as the codec writes them (`arguments_rewritten`).
-/

import Tea.Session.RoundTrip
import Tea.Encoding.JsonText
import Tea.Core.Transcript

namespace Tea.Contract

open Tea.Core Tea.Encoding Tea.Session

/-! ### What is kept -/

section

variable {F : Type} (codec : JsonCodec F)

/-- The counts are `u64` values. -/
def UsageFits (usage : Usage) : Prop :=
  ∀ count ∈ [usage.inputTokens, usage.outputTokens, usage.cacheReadTokens,
    usage.cacheWriteTokens], ∀ n, count = some n → n < 18446744073709551616

/-- The counts in the message are `u64` values. -/
def MessageFits : AgentMessage → Prop
  | .toolResult _ _ _ _ _ usage _ _ _ _ => ∀ u, usage = some u → UsageFits u
  | _ => True

/-- The counts and a recorded cost are kept; the reasoning count is not in the file. -/
def UsageRestored (usage restored : Option Usage) : Prop :=
  match usage, restored with
  | none, none => True
  | some usage, some restored =>
      restored.inputTokens = usage.inputTokens ∧ restored.outputTokens = usage.outputTokens ∧
        restored.cacheReadTokens = usage.cacheReadTokens ∧
        restored.cacheWriteTokens = usage.cacheWriteTokens ∧ restored.reasoningTokens = none ∧
        ∀ cost, usage.cost = some cost → restored.cost = some cost
  | _, _ => False

/-- A message is restored: texts as they were, arguments and details as the codec writes
    the values they stand for, and a stop reason that was absent as `stop`. -/
def MessageRestored : AgentMessage → AgentMessage → Prop
  | .user _ content, .user _ content' => content' = content
  | .assistant _ content toolCalls stopReason errorMessage,
      .assistant _ content' toolCalls' stopReason' errorMessage' =>
      content' = content ∧
        toolCalls' = (toolCalls.map fun call =>
          { call with arguments := rereadArguments codec call.arguments }) ∧
        stopReason' = some (stopReason.getD .stop) ∧ errorMessage' = errorMessage
  | .toolResult _ toolCallId toolName content details usage addedToolNames _ isError _,
      .toolResult _ toolCallId' toolName' content' details' usage' addedToolNames' _ isError' _ =>
      toolCallId' = toolCallId ∧ toolName' = toolName ∧ content' = content ∧
        details' = rereadDetails codec details ∧ UsageRestored usage usage' ∧
        addedToolNames' = addedToolNames ∧ isError' = isError
  | _, _ => False

/-- A recording is restored. -/
structure SessionRestored (record restored : SessionRecord) : Prop where
  id : restored.id = record.id
  timestamp : restored.timestamp = record.timestamp
  cwd : restored.cwd = record.cwd
  model : (restored.model.map fun model => (model.provider, model.model)) =
    record.model.map fun model => (model.provider, model.model)
  thinkingLevel : restored.thinkingLevel = record.thinkingLevel
  messages : List.Forall₂ (MessageRestored codec) record.messages restored.messages

theorem rereadCount_fits {count : Option Nat}
    (h : ∀ n, count = some n → n < 18446744073709551616) : rereadCount count = count := by
  cases count with
  | none => rfl
  | some n => exact congrArg some (UInt64.toNat_ofNat_of_lt' (h n rfl))

theorem usage_restored {usage : Option Usage} (h : ∀ u, usage = some u → UsageFits u) :
    UsageRestored usage (usage.map (rereadUsage codec)) := by
  cases usage with
  | none => trivial
  | some usage =>
    have hfits := h usage rfl
    refine ⟨?_, ?_, ?_, ?_, rfl, ?_⟩
    · exact rereadCount_fits (hfits usage.inputTokens (by simp))
    · exact rereadCount_fits (hfits usage.outputTokens (by simp))
    · exact rereadCount_fits (hfits usage.cacheReadTokens (by simp))
    · exact rereadCount_fits (hfits usage.cacheWriteTokens (by simp))
    · intro cost hcost
      simp [rereadUsage, hcost]

theorem message_restored (id : MessageId) {message : AgentMessage} (h : MessageFits message) :
    MessageRestored codec message (rereadMessage codec id message) := by
  cases message with
  | user old content => rfl
  | assistant old content toolCalls stopReason errorMessage => exact ⟨rfl, rfl, rfl, rfl⟩
  | toolResult old toolCallId toolName content details usage addedToolNames terminate isError
      failure =>
    exact ⟨rfl, rfl, rfl, rfl, usage_restored codec h, rfl, rfl⟩

theorem messages_restored (n : Nat) {messages : List AgentMessage}
    (h : ∀ message ∈ messages, MessageFits message) :
    List.Forall₂ (MessageRestored codec) messages (rereadMessages codec n messages) := by
  induction messages generalizing n with
  | nil => exact .nil
  | cons message messages ih =>
    apply List.Forall₂.cons
    · exact message_restored codec _ (h message List.mem_cons_self)
    · exact ih (n + 1) fun other hother => h other (List.mem_cons_of_mem _ hother)

/-- **A session file restores its session**, and the decoder accepts every file that the
    encoder writes. -/
theorem session_restored (path : String) {record : SessionRecord}
    (hid : validateSessionId record.id = .ok ())
    (hfits : ∀ message ∈ record.messages, MessageFits message) (stamps : Nat → Stamp)
    (hsize : (encodeUtf8 (encodeSource codec record stamps).toList).length ≤ MAX_SESSION_BYTES) :
    ∃ restored,
      decodeFile codec path (encodeUtf8 (encodeSource codec record stamps).toList) = .ok restored ∧
        SessionRestored codec record restored := by
  refine ⟨_, decodeFile_encode hid stamps hsize, ?_⟩
  refine ⟨rfl, rfl, rfl, ?_, rfl, messages_restored codec 0 hfits⟩
  cases hmodel : record.model with
  | none => simp [rereadRecord, hmodel]
  | some model => simp [rereadRecord, hmodel]

end

/-! ### A session with rewritten arguments -/

/-- A session with one tool call; its arguments hold a blank, its details are null, and
    the usage has no cost. -/
def blankArguments : SessionRecord where
  id := "s1"
  timestamp := "2024-01-01T00:00:00.000Z"
  cwd := "/w"
  model := none
  thinkingLevel := .off
  messages := [
    .user ⟨1⟩ "go",
    .assistant ⟨2⟩ "" [⟨⟨"call", by decide⟩, "read", ⟨"\x7b \"a\":1\x7d"⟩⟩] none none,
    .toolResult ⟨3⟩ ⟨"call", by decide⟩ "read" "text" (some ⟨"null"⟩) (some {}) [] false false none]

def blankStamps : Nat → Stamp := fun _ => ⟨1, 0, 0⟩

theorem blankArguments_fits : ∀ message ∈ blankArguments.messages, MessageFits message := by
  intro message hmessage
  simp only [blankArguments, List.mem_cons, List.not_mem_nil, or_false] at hmessage
  rcases hmessage with rfl | rfl | rfl
  · trivial
  · trivial
  · intro usage husage
    cases husage
    intro count hcount n hn
    simp only [List.mem_cons, List.not_mem_nil, or_false] at hcount
    rcases hcount with rfl | rfl | rfl | rfl
    all_goals cases hn

theorem encodeSource_letters (record : SessionRecord) (stamps : Nat → Stamp) :
    (encodeSource textCodec record stamps).toList =
      (encodeFile textCodec record stamps).flatMap fun value => printValue value ++ ['\n'] := by
  have hline : ∀ value, (textCodec.print value ++ "\n").toList = printValue value ++ ['\n'] := by
    intro value
    rw [String.toList_append]
    exact congrArg (· ++ ['\n']) String.toList_ofList
  rw [encodeSource, String.toList_join, List.flatMap_map]
  simp only [hline]

theorem length_encode_flatMap {α : Type} {letters : α → List Char} {most : Nat} {values : List α}
    (h : ∀ value ∈ values, (encodeUtf8 (letters value)).length ≤ most) :
    (encodeUtf8 (values.flatMap letters)).length ≤ values.length * most := by
  induction values with
  | nil => exact Nat.zero_le _
  | cons value values ih =>
    have hfirst := h value List.mem_cons_self
    have hrest := ih fun other hother => h other (List.mem_cons_of_mem _ hother)
    rw [List.flatMap_cons, encodeUtf8_append, List.length_append, List.length_cons, Nat.succ_mul]
    omega

/-- No line of the example is long. -/
theorem blankArguments_line (index : Nat) (h : index < 5) :
    ((encodeFile textCodec blankArguments blankStamps)[index]?.all fun value =>
      (encodeUtf8 (printValue value ++ ['\n'])).length ≤ 1000) = true := by
  interval_cases index
  · decide +kernel
  · decide +kernel
  · decide +kernel
  · decide +kernel
  · decide +kernel

theorem blankArguments_size :
    (encodeUtf8 (encodeSource textCodec blankArguments blankStamps).toList).length ≤
      MAX_SESSION_BYTES := by
  have hcount : (encodeFile textCodec blankArguments blankStamps).length = 5 := by
    decide +kernel
  have hlines : ∀ value ∈ encodeFile textCodec blankArguments blankStamps,
      (encodeUtf8 (printValue value ++ ['\n'])).length ≤ 1000 := by
    intro value hvalue
    obtain ⟨index, hindex⟩ := List.mem_iff_getElem?.mp hvalue
    have hlt := (List.getElem?_eq_some_iff.mp hindex).1
    have hline := blankArguments_line index (by rwa [← hcount])
    rw [hindex, Option.all_some, decide_eq_true_eq] at hline
    exact hline
  have hall := length_encode_flatMap hlines
  rw [encodeSource_letters]
  rw [hcount] at hall
  exact Nat.le_trans hall (by decide)

/-- **Arguments come back rewritten**: the blank in them is gone. -/
theorem arguments_rewritten : ∃ restored,
    validateMessages blankArguments.messages = .ok () ∧
      decodeFile textCodec "s"
        (encodeUtf8 (encodeSource textCodec blankArguments blankStamps).toList) = .ok restored ∧
      (restored.messages.flatMap (·.calls)).map (·.arguments.text) = ["\x7b\"a\":1\x7d"] ∧
      (blankArguments.messages.flatMap (·.calls)).map (·.arguments.text) =
        ["\x7b \"a\":1\x7d"] := by
  refine ⟨_, ?_, decodeFile_encode ?_ blankStamps blankArguments_size, ?_, ?_⟩
  · decide +kernel
  · decide +kernel
  · decide +kernel
  · decide +kernel

/-- The session of the example is restored all the same. -/
theorem session_restored_blank : ∃ restored,
    decodeFile textCodec "s"
        (encodeUtf8 (encodeSource textCodec blankArguments blankStamps).toList) = .ok restored ∧
      SessionRestored textCodec blankArguments restored :=
  session_restored textCodec "s" (by decide +kernel) blankArguments_fits blankStamps
    blankArguments_size

end Tea.Contract
