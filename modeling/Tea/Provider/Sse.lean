/-
  Tea/Provider/Sse.lean
  =====================
  **The records of a streamed response** (`local/response.rs` and
  `openrouter/response.rs`): what a line is, how the fragments of tool calls are put
  together, and the events of the calls when the body ends.  The two adapters share these
  parts; their decoders are in `LocalSse` and `OpenRouterSse`.
-/

import Tea.Core.Capability
import Tea.Encoding.Json
import Tea.Encoding.LineStream
import Tea.Encoding.Utf8
import Tea.Tui.Commands

namespace Tea.Provider

open Tea.Core Tea.Encoding

/-! ### Lines -/

/-- A line of the stream: nothing to be read, the end mark, or the text of a record. -/
inductive SseLine where
  | skipped
  | done
  | data (text : String)
deriving DecidableEq

/-- The line, once it is known to be UTF-8. -/
def sseLine (letters : List Char) : SseLine :=
  let line := Tui.trim (String.ofList letters)
  if line = "" ∨ line.toList.head? = some ':' then .skipped
  else if "data:".toList.isPrefixOf line.toList then
    let data := Tui.trim (String.ofList (line.toList.drop 5))
    if data = "[DONE]" then .done else .data data
  else .skipped

/-- `str::trim` of a list of characters. -/
def trimLetters (letters : List Char) : List Char :=
  ((letters.dropWhile Tui.isWhitespace).reverse.dropWhile Tui.isWhitespace).reverse

/-- The line as a list of characters. -/
def sseLetters (letters : List Char) : SseLine :=
  let line := trimLetters letters
  if line = [] ∨ line.head? = some ':' then .skipped
  else if "data:".toList.isPrefixOf line then
    let data := trimLetters (line.drop 5)
    if data = "[DONE]".toList then .done else .data (String.ofList data)
  else .skipped

theorem trim_ofList (letters : List Char) :
    Tui.trim (String.ofList letters) = String.ofList (trimLetters letters) := by
  rw [Tui.trim, String.toList_ofList]
  rfl

theorem ofList_eq_iff {letters : List Char} {text : String} :
    String.ofList letters = text ↔ letters = text.toList := by
  constructor
  · rintro rfl
    rw [String.toList_ofList]
  · rintro rfl
    rw [String.ofList_toList]

/-- No text is built to see what a line is. -/
theorem sseLine_letters (letters : List Char) : sseLine letters = sseLetters letters := by
  unfold sseLine sseLetters
  simp only [trim_ofList, String.toList_ofList, ofList_eq_iff]
  rfl

/-! ### Tool calls -/

structure StreamingToolCall where
  id : Option String := none
  name : Option String := none
  arguments : String := ""
deriving DecidableEq

section

variable {F : Type}

/-- The slot of a fragment, at `position` in its record. -/
def callIndex (position : Nat) (call : JsonValue F) : Nat :=
  match (call.get "index").bind (·.asU64) with
  | some index => index.toNat
  | none => position

/-- `tool_calls` with at least `index + 1` slots. -/
def growTo (toolCalls : List (Option StreamingToolCall)) (index : Nat) :
    List (Option StreamingToolCall) :=
  toolCalls ++ List.replicate (index + 1 - toolCalls.length) none

def fragmentId (call : JsonValue F) : Option String := (call.get "id").bind (·.asStr)

def fragmentFunction (call : JsonValue F) : Option (List (String × JsonValue F)) :=
  (call.get "function").bind (·.asObject)

def fragmentName (call : JsonValue F) : Option String :=
  (fragmentFunction call).bind fun function =>
    (JsonValue.lookupField "name" function).bind (·.asStr)

def fragmentArguments (call : JsonValue F) : Option String :=
  (fragmentFunction call).bind fun function =>
    (JsonValue.lookupField "arguments" function).bind (·.asStr)

/-- What a fragment adds to its call. -/
def StreamingToolCall.add (entry : StreamingToolCall) (call : JsonValue F) :
    StreamingToolCall where
  id := (fragmentId call).or entry.id
  name := (fragmentName call).or entry.name
  arguments := entry.arguments ++ (fragmentArguments call).getD ""

/-- One pass of the loop over the fragments of a record. -/
def addFragment (toolCalls : List (Option StreamingToolCall)) (fragment : JsonValue F × Nat) :
    List (Option StreamingToolCall) :=
  let index := callIndex fragment.2 fragment.1
  let toolCalls := growTo toolCalls index
  toolCalls.set index (some ((((toolCalls[index]?).join).getD {}).add fragment.1))

/-! ### Records -/

/-- What the two decoders collect from the records. -/
structure Assembly (F : Type) where
  toolCalls : List (Option StreamingToolCall) := []
  finishReason : Option String := none
  usage : JsonValue F := .null
  sawData : Bool := false
  sawDone : Bool := false

def firstChoice (chunk : JsonValue F) : Option (JsonValue F) :=
  ((chunk.get "choices").bind (·.asArray)).bind (·.head?)

def choiceReason (choice : JsonValue F) : Option String :=
  (choice.get "finish_reason").bind (·.asStr)

/-- The text of a delta, unless it is empty. -/
def deltaContent (delta : List (String × JsonValue F)) : Option String :=
  ((JsonValue.lookupField "content" delta).bind (·.asStr)).filter (· ≠ "")

/-- The fragments of a delta, with their positions. -/
def deltaCalls (delta : List (String × JsonValue F)) : List (JsonValue F × Nat) :=
  (((JsonValue.lookupField "tool_calls" delta).bind (·.asArray)).getD []).zipIdx

def Assembly.addReason (d : Assembly F) (choice : JsonValue F) : Assembly F :=
  { d with finishReason := (choiceReason choice).or d.finishReason }

def Assembly.addCalls (d : Assembly F) (delta : List (String × JsonValue F)) : Assembly F :=
  { d with toolCalls := (deltaCalls delta).foldl addFragment d.toolCalls }

/-- The events of a delta. -/
def deltaEvents (delta : List (String × JsonValue F)) : List ModelStreamEvent :=
  (deltaContent delta).toList.map .textDelta

/-! ### The end of the body -/

/-- `format!("{vendor}-call-{index}")` -/
def inventedId (vendor : String) (index : Nat) : ToolCallId where
  text := vendor ++ "-call-" ++ toString index
  nonempty := by
    intro hempty
    have hletters := congrArg String.toList hempty
    simp at hletters

/-- The identifier of a call: the one that was given, unless it is empty. -/
def callId (vendor : String) (index : Nat) (call : StreamingToolCall) : ToolCallId :=
  match call.id with
  | some id => if h : id = "" then inventedId vendor index else ⟨id, h⟩
  | none => inventedId vendor index

/-- One call of the response; it needs a name. -/
def toolCallEvent (vendor nameless : String) (entry : StreamingToolCall × Nat) :
    Except String ModelStreamEvent :=
  match entry.1.name.filter (· ≠ "") with
  | some name =>
      .ok (.toolCall
        { id := callId vendor entry.2 entry.1, name, arguments := ⟨entry.1.arguments⟩ })
  | none => .error nameless

/-- The calls in the order of their slots. -/
def toolCallEvents (vendor nameless : String) (toolCalls : List (Option StreamingToolCall)) :
    Except String (List ModelStreamEvent) :=
  (toolCalls.reduceOption.zipIdx).mapM (toolCallEvent vendor nameless)

def Assembly.hasToolCalls (d : Assembly F) : Bool := d.toolCalls.any (·.isSome)

def Assembly.stopReason (d : Assembly F) : StopReason :=
  if d.finishReason = some "length" then .length
  else if d.hasToolCalls then .toolUse
  else .stop

/-- A body is complete with a finish reason or the end mark. -/
def Assembly.isComplete (d : Assembly F) : Bool := d.sawDone || d.finishReason.isSome

end

end Tea.Provider
