/-
  Tea/Run/Stream.lean
  ===================
  **Consuming a model response** (`consume_assistant_stream`).

  The assistant message is created by the first text delta, rewritten in place by
  the later ones and finalised after the terminal event; a response without text
  is appended when it is complete.
-/
import Tea.Run.Context

namespace Tea.Run

open Tea.Async Tea.Core

/-- The local variables of `consume_assistant_stream`. -/
structure Response where
  assistantId : Option MessageId := none
  assistantText : String := ""
  toolCalls : List AgentToolCall := []
  reason : Option StopReason := none
  errorMessage : Option String := none
  usage : Option Usage := none
  contextOverflow : Bool := false

/-- The events that only change the local variables. -/
def Response.receive (r : Response) : ModelStreamEvent → Response
  | .textDelta _ => r
  | .toolCall call => { r with toolCalls := r.toolCalls ++ [call] }
  | .usage update =>
      { r with usage := some (match r.usage with
        | some current => current.merge update
        | none => update) }
  | .error message => { r with reason := some .error, errorMessage := some message }
  | .contextOverflow message =>
      { r with reason := some .error, errorMessage := some message, contextOverflow := true }
  | .aborted message => { r with reason := some .aborted, errorMessage := some message }
  | .end_ reason => { r with reason := some reason }

/-- `*state.messages.last_mut() = message` -/
def setLast (messages : List AgentMessage) (message : AgentMessage) : List AgentMessage :=
  messages.dropLast ++ [message]

/-- An assistant message while its text streams. -/
def partialMessage (id : MessageId) (text : String) : AgentMessage := .assistant id text [] none none

/-- Insert or rewrite the streamed assistant message. -/
def streamText (r : Response) (text : String) (agent : AgentState) : MessageId × AgentState :=
  match r.assistantId with
  | none =>
      let (message, agent) := agent.pushMessage fun id => partialMessage id text
      (message.id, { agent with partialResponse := some text })
  | some id =>
      (id, { agent with
        messages := setLast agent.messages (partialMessage id text)
        partialResponse := some text })

def textDelta (r : Response) (delta : String) : Drive Response := do
  let text := r.assistantText ++ delta
  let id ← lockAgent (streamText r text)
  whenever r.assistantId.isNone (emit (.messageStart (partialMessage id "")))
  emit (.messageUpdate (partialMessage id text) (some delta))
  pure { r with assistantId := some id, assistantText := text }

def nextEvent : Drive (Except SchedulerError (Option ModelStreamEvent)) :=
  Future.ask Query.nextEvent

def readResponse : Nat → Response → Drive Response
  | 0, _ => exhausted
  | fuel + 1, r => do
      let item ← nextEvent
      match item with
      | .error error => .fail (.modelProvider error.display)
      | .ok none => pure r
      | .ok (some event) =>
          if r.reason.isSome then
            .fail (.unsupportedModelStream
              "model stream contained events after its terminal event")
          else
            match event with
            | .textDelta delta => do
                let r ← textDelta r delta
                readResponse fuel r
            | event => readResponse fuel (r.receive event)

/-- Write the complete assistant message into the transcript. -/
def closeResponse (r : Response) (reason : StopReason) (agent : AgentState) :
    AgentMessage × AgentState :=
  let build := fun id => AgentMessage.assistant id r.assistantText r.toolCalls (some reason)
    r.errorMessage
  let agent := { agent with partialResponse := none, isStreaming := false }
  match r.assistantId with
  | some id => (build id, { agent with messages := setLast agent.messages (build id) })
  | none => agent.pushMessage build

/-- What `consume_assistant_stream` returns. -/
structure ConsumedResponse where
  reason : StopReason
  toolCalls : List AgentToolCall
  errorMessage : Option String
  validInputTokens : Option Nat
  contextOverflow : Bool

def validInputTokens (r : Response) (reason : StopReason) : Option Nat :=
  if reason = .error ∨ reason = .aborted then none
  else (r.usage.bind (·.inputTokens)).filter (· ≠ 0)

def recordUsage (turnId : TurnId) (model : Option ModelDescriptor) : Option Usage → Drive Unit
  | none => pure ()
  | some usage => do
      let runId ← Future.read (·.run.id)
      let accounting : ModelTurnAccounting := { runId, turnId, model, usage }
      modifyAgent fun agent => { agent with accounting := agent.accounting ++ [accounting] }
      emit (.modelTurnUsage accounting)

def consumeAssistantStream (fuel : Nat) (turnId : TurnId) (model : Option ModelDescriptor) :
    Drive ConsumedResponse := do
  let r ← readResponse fuel {}
  match r.reason with
  | none => .fail (.unsupportedModelStream "model stream ended without a terminal event")
  | some reason => do
      let assistant ← lockAgent (closeResponse r reason)
      whenever r.assistantId.isNone (emit (.messageStart assistant))
      emit (.messageEnd assistant)
      recordUsage turnId model r.usage
      pure {
        reason, toolCalls := r.toolCalls, errorMessage := r.errorMessage
        validInputTokens := validInputTokens r reason, contextOverflow := r.contextOverflow }

end Tea.Run
