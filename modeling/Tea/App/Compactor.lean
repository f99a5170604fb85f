/-
  Tea/App/Compactor.lean
  ======================
  **The compactor of the terminal host** (`app/compaction.rs` of the agent): a summary by
  the selected provider in the place of the older messages.  The transport of the provider
  is the environment; a cancellation may be requested at any time.
-/

import Tea.Async.Logic
import Tea.Provider.OpenAi
import Tea.Tui.Commands

namespace Tea.App

open Tea.Async Tea.Core Tea.Run Tea.Encoding Tea.Provider

/-- `SUMMARY_SYSTEM_PROMPT` -/
def summarySystemPrompt : String :=
  "You compact coding-agent conversation history.\n" ++
  "Produce a concise structured summary that preserves everything needed to continue the work.\n" ++
  "Use exactly these Markdown sections:\n\n## Goal\n[The user's active goal]\n\n" ++
  "## Constraints & Preferences\n- [Requirements and preferences]\n\n## Progress\n### Done\n" ++
  "- [Completed work]\n\n### In Progress\n- [Current work]\n\n### Blocked\n" ++
  "- [Current blockers, or \"None\"]\n\n## Key Decisions\n" ++
  "- [Important decisions and rationale]\n\n## Next Steps\n1. [The next concrete actions]\n\n" ++
  "## Critical Context\n" ++
  "- [Exact paths, symbols, errors, and other details needed to continue]\n\n" ++
  "Be concise, preserve exact file paths and identifiers, and do not omit unresolved work."

/-- `UPDATE_SUMMARIZATION_INSTRUCTIONS` -/
def updateSummarizationInstructions : String :=
  "Update the existing compacted summary using the conversation above.\n" ++
  "Preserve all durable facts needed to continue the work, including exact paths, symbols, " ++
  "errors,\nconstraints, unresolved work, and the next concrete actions. " ++
  "Return only the updated summary using\n" ++
  "the same Markdown sections as the system instructions; do not call tools."

/-- `SUMMARY_PREFIX` -/
def summaryPrefix : String :=
  "The conversation history before this point was compacted into the following summary:" ++
  "\n\n<summary>\n"

/-- `SUMMARY_SUFFIX` -/
def summarySuffix : String := "\n</summary>"

/-- `CACHE_FRIENDLY_CONTEXT_SAFETY_MARGIN` -/
def cacheFriendlyContextSafetyMargin : Nat := 4096

/-! ### The replacement -/

/-- The loop of `next_message_id`, for at most so many steps. -/
def firstUnused (used : List MessageId) : Nat → UInt64 → UInt64
  | 0, candidate => candidate
  | steps + 1, candidate =>
      if ⟨candidate⟩ ∈ used then firstUnused used steps (satSucc candidate) else candidate

/-- `next_message_id`: one step more than there are messages ends the loop. -/
def nextMessageId (messages : List AgentMessage) : MessageId :=
  ⟨firstUnused (idsOf messages) (messages.length + 1) 1⟩

/-- `summary_message` -/
def summaryMessage (messages : List AgentMessage) (summary : String) : AgentMessage :=
  .user (nextMessageId messages) (summaryPrefix ++ summary ++ summarySuffix)

/-! ### Source contexts -/

section

variable {F : Type} (codec : JsonCodec F) (same : F → F → Bool)

/-- `is_exact_message_prefix` -/
def isExactMessagePrefix (source active : String) : Bool :=
  match codec.parse source, codec.parse active with
  | some (.array source), some (.array active) =>
      decide (source.length ≤ active.length) &&
        JsonValue.sameItems same source (active.take source.length)
  | _, _ => false

def definitionBytes (tool : ToolDefinition) : Nat :=
  satAdd (satAdd tool.schema.text.utf8ByteSize tool.name.utf8ByteSize)
    tool.description.utf8ByteSize

/-- `source_context_fits` -/
def sourceContextFits (source : ProviderContext) (request : AutomaticCompactionRequest) : Bool :=
  let exact := match source.activeContext with
    | some active => isExactMessagePrefix codec same source.context active
    | none => true
  let toolBytes := sum (source.tools.map definitionBytes)
  let sourceBytes := satAdd (satAdd source.systemPrompt.utf8ByteSize
    source.context.utf8ByteSize) toolBytes
  let sourceTokens := satAdd sourceBytes 3 / 4
  exact && decide (satAdd (satAdd sourceTokens request.reservedTokens)
    cacheFriendlyContextSafetyMargin ≤ request.contextBudgetTokens)

/-- `append_update_instruction` -/
def appendUpdateInstruction (context : String) : Except CompactionError String :=
  match codec.parse context with
  | none => .error (.failed "active provider context is not JSON: invalid JSON")
  | some (.array messages) =>
      .ok (codec.print (.array (messages ++ [.object [
        ("role", .string "user"), ("content", .string updateSummarizationInstructions)]])))
  | some _ => .error (.failed "active provider context is not a message array")

/-! ### Summaries -/

/-- What the compactor awaits; `exhausted` is never answered, it stands for the iterations
    beyond the fuel. -/
inductive CompactorQuery where
  | stream (request : ModelRequest)
  | nextEvent
  | exhausted

abbrev CompactorReply : CompactorQuery → Type
  | .stream _ => Except SchedulerError Unit
  | .nextEvent => Except SchedulerError (Option ModelStreamEvent)
  | .exhausted => Empty

/-- A part of the compactor; the shared state is whether a cancellation was requested. -/
abbrev Compacting (α : Type) : Type :=
  Future Bool CompactorQuery CompactorReply CompactionError α

/-- The surroundings of the compactor: the provider, and the owner of the cancellation. -/
abbrev Surroundings : Type := Environment Bool CompactorQuery CompactorReply

/-- The loop of `summarize`. -/
def readSummary : Nat → String → Option Usage → Compacting (String × Option Usage)
  | 0, _, _ => do
      let nothing ← Future.ask CompactorQuery.exhausted
      nomatch nothing
  | fuel + 1, summary, usage => do
      let cancelled ← Future.read id
      if cancelled then .fail (.failed "compaction cancelled")
      else
        let item ← Future.ask CompactorQuery.nextEvent
        match item with
        | .error error => .fail (.failed error.display)
        | .ok none => .fail (.failed "compaction provider closed without a terminal event")
        | .ok (some event) =>
            match event with
            | .textDelta delta => readSummary fuel (summary ++ delta) usage
            | .usage reported => readSummary fuel summary (some reported)
            | .end_ reason =>
                if reason = .error then .fail (.failed "compaction provider ended with an error")
                else pure (summary, usage)
            | .error message => .fail (.failed message)
            | .contextOverflow message => .fail (.failed message)
            | .aborted message => .fail (.failed message)
            | .toolCall _ =>
                .fail (.failed "compaction provider returned a tool call instead of a summary")

/-- The request of `summarize`. -/
def summaryRequest (model : ModelDescriptor) (messages : List AgentMessage)
    (sourceContext : Option ProviderContext) : Except CompactionError ModelRequest :=
  match sourceContext with
  | some source => do
      let context ← appendUpdateInstruction codec source.context
      .ok {
        systemPrompt := source.systemPrompt, context, tools := source.tools, model := some model
        thinkingLevel := .off }
  | none =>
      match openaiConvert codec { messages, hostMessages := [] } with
      | .error error => .error (.failed error.display)
      | .ok context =>
          .ok {
            systemPrompt := summarySystemPrompt, context, tools := [], model := some model
            thinkingLevel := .off }

/-- `summarize` -/
def summarize (fuel : Nat) (model : ModelDescriptor) (messages : List AgentMessage)
    (sourceContext : Option ProviderContext) : Compacting (String × Option Usage) := do
  let request ← Future.ofExcept (summaryRequest codec model messages sourceContext)
  let stream ← Future.ask (CompactorQuery.stream request)
  match stream with
  | .error error => .fail (.failed error.display)
  | .ok () => do
      let (summary, usage) ← readSummary fuel "" none
      if Tui.isBlank summary then .fail (.failed "compaction provider returned an empty summary")
      else pure (summary, usage)

/-! ### Compaction -/

/-- A compactor whose provider and model follow the selection. -/
structure ProviderCompactor where
  provider : Bool := false
  model : Option ModelDescriptor := none

/-- `configured`: the model of a request, if a provider is selected. -/
def ProviderCompactor.configured (compactor : ProviderCompactor) (context : CompactionContext) :
    Except CompactionError ModelDescriptor :=
  if !compactor.provider then .error (.failed "no selected provider for compaction")
  else
    match context.model.or compactor.model with
    | some model => .ok model
    | none => .error (.failed "no selected model for compaction")

/-- `compact` -/
def compact (fuel : Nat) (compactor : ProviderCompactor) (context : CompactionContext) :
    Compacting CompactionResult := do
  let model ← Future.ofExcept (compactor.configured context)
  if context.messages = [] then pure { messages := [] }
  else do
    let (summary, usage) ← summarize codec fuel model context.messages none
    pure { messages := [summaryMessage context.messages summary], usage }

/-- `compact_automatic` -/
def compactAutomatic (fuel : Nat) (compactor : ProviderCompactor) (context : CompactionContext)
    (request : AutomaticCompactionRequest) : Compacting CompactionResult := do
  let model ← Future.ofExcept (compactor.configured context)
  let sourceContext := context.providerContext.filter fun source =>
    sourceContextFits codec same source request
  let messagesToSummarize := request.prefixMessages ++ request.splitTurnPrefix
  if messagesToSummarize = [] then pure { messages := request.retainedMessages }
  else do
    let (summary, usage) ← summarize codec fuel model messagesToSummarize sourceContext
    let allMessages := messagesToSummarize ++ request.retainedMessages
    pure { messages := summaryMessage allMessages summary :: request.retainedMessages, usage }

end

end Tea.App
