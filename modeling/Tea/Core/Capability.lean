/-
  Tea/Core/Capability.lean
  ========================
  **What a run asks of its host** (`hooks.rs`, `scheduler.rs`, `tool.rs`, and the
  requests of `compaction.rs`): the data that crosses the boundary in either
  direction, and the queries a driven run awaits with the reply each may get.
-/
import Tea.Core.Transcript

namespace Tea.Core

/-! ### Hooks -/

structure ContextEnvelope where
  version : Nat := 1
  messages : List AgentMessage
  hostMessages : List SerializedJson
deriving DecidableEq

inductive BeforeToolCall where
  | allow
  | block (reason : String)
  | terminate (reason : String)
deriving DecidableEq, Repr

inductive Replacement (α : Type) where
  | keep
  | replace (value : α)
deriving DecidableEq

structure AfterToolCall where
  content : Replacement String := .keep
  details : Replacement (Option SerializedJson) := .keep
  isError : Replacement Bool := .keep
  failure : Replacement (Option ToolFailure) := .keep
  usage : Replacement Usage := .keep
  addedToolNames : Replacement (List String) := .keep
  terminate : Option Bool := none
deriving DecidableEq

structure AgentLoopTurnUpdate where
  context : Option ContextEnvelope := none
  model : Option ModelDescriptor := none
  thinkingLevel : Option ThinkingLevel := none
deriving DecidableEq

/-! ### Tools -/

inductive ToolExecutionMode where
  | sequential | parallel
deriving DecidableEq, Repr

structure ToolDefinition where
  name : String
  description : String
  schema : SerializedJson
  executionMode : ToolExecutionMode
deriving DecidableEq, Repr

/-- A registered tool.  `validate` is `validate_tool_arguments` on the tool's
    schema, a pure function of the arguments (`schema_validation.rs`). -/
structure AgentTool where
  definition : ToolDefinition
  validate : SerializedJson → Except ToolError Unit

/-- The prompt, tools and hooks captured when a run claims its agent; the hooks
    are queries. -/
structure AgentConfiguration where
  systemPrompt : String := ""
  tools : List AgentTool := []

/-- `ToolRegistry::get`: names are unique in a registry. -/
def AgentConfiguration.tool (configuration : AgentConfiguration) (name : String) :
    Option AgentTool :=
  configuration.tools.find? fun tool => tool.definition.name = name

def AgentConfiguration.definitions (configuration : AgentConfiguration) : List ToolDefinition :=
  configuration.tools.map (·.definition)

structure ToolResultProjectionPolicy where
  maxContentBytes : Nat := 64 * 1024
  maxDetailsBytes : Nat := 64 * 1024
  maxTotalBytes : Nat := 128 * 1024
  deduplicateRepeatedErrors : Bool := true
deriving DecidableEq, Repr

structure ToolFailureCircuitBreaker where
  maxConsecutiveRetryableFailures : Option Nat := none
deriving DecidableEq, Repr

/-! ### The model provider -/

structure ModelRequest where
  systemPrompt : String
  context : String
  tools : List ToolDefinition
  model : Option ModelDescriptor
  thinkingLevel : ThinkingLevel
deriving DecidableEq

inductive ModelStreamEvent where
  | textDelta (delta : String)
  | toolCall (call : AgentToolCall)
  | usage (update : Usage)
  | error (message : String)
  | contextOverflow (message : String)
  | aborted (message : String)
  | end_ (reason : StopReason)
deriving DecidableEq

/-- The events after which `consume_assistant_stream` accepts no other. -/
def ModelStreamEvent.reason : ModelStreamEvent → Option StopReason
  | .error _ => some .error
  | .contextOverflow _ => some .error
  | .aborted _ => some .aborted
  | .end_ reason => some reason
  | _ => none

/-! ### Compaction -/

inductive OverflowRecovery where
  | disabled | compactAndRetry
deriving DecidableEq, Repr

/-- Opt-in automatic compaction configuration; the capacity source is kept as the
    number of tokens it stands for. -/
structure AutomaticCompactionPolicy where
  enabled : Bool := false
  contextBudget : Nat := 1
  reservedTokens : Nat := 0
  recentTokens : Nat := 0
  overflowRecovery : OverflowRecovery := .disabled
  maxCompactionsPerRun : UInt32 := 0
  maxOverflowRetriesPerRun : UInt32 := 0
deriving DecidableEq, Repr

/-- The threshold for a normal next model request. -/
def AutomaticCompactionPolicy.thresholdTokens (policy : AutomaticCompactionPolicy) : Nat :=
  policy.contextBudget - policy.reservedTokens

structure AutomaticCompactionRequest where
  reason : AutomaticCompactionReason
  estimatedTokensBefore : Option Nat
  contextBudgetTokens : Nat
  reservedTokens : Nat
  recentTokens : Nat
  prefixMessages : List AgentMessage
  retainedMessages : List AgentMessage
  splitTurnPrefix : List AgentMessage
  retryProviderRequest : Bool
deriving DecidableEq

structure ProviderContext where
  systemPrompt : String
  context : String
  activeContext : Option String
  tools : List ToolDefinition
deriving DecidableEq

structure CompactionContext where
  version : Nat := 1
  systemPrompt : String
  model : Option ModelDescriptor
  messages : List AgentMessage
  hostMessages : List SerializedJson
  providerContext : Option ProviderContext := none
deriving DecidableEq

structure CompactionResult where
  messages : List AgentMessage
  usage : Option Usage := none
deriving DecidableEq

/-! ### Queries -/

/-- Registration number of an awaited observer. -/
abbrev ObserverId := Nat

/-- What a run awaits.  `wake` is a poll that returned `Pending`: the caller polls
    again once it is woken.  `exhausted` and `panicked` are never answered: the
    first stands for the iterations beyond the fuel of the model, the second for
    an `expect` that failed. -/
inductive Query where
  | observe (observer : ObserverId) (event : AgentEvent)
  | transformContext (context : ContextEnvelope)
  | convertToLlm (context : ContextEnvelope)
  | prepareNextTurn (context : ContextEnvelope)
  | shouldStopAfterTurn (context : ContextEnvelope)
  | beforeToolCall (call : ToolCall) (context : ContextEnvelope)
  | afterToolCall (call : ToolCall) (result : AgentToolResult) (context : ContextEnvelope)
  | stream (request : ModelRequest)
  | nextEvent
  | compactAutomatic (context : CompactionContext) (request : AutomaticCompactionRequest)
  | compact (context : CompactionContext)
  | executeTool (call : ToolCall)
  | pollTool (call : ToolCall)
  | wake
  | exhausted
  | panicked
deriving DecidableEq

abbrev Reply : Query → Type
  | .observe .. => Except CoreError Unit
  | .transformContext _ => Except HookError ContextEnvelope
  | .convertToLlm _ => Except HookError String
  | .prepareNextTurn _ => Except HookError AgentLoopTurnUpdate
  | .shouldStopAfterTurn _ => Except HookError Bool
  | .beforeToolCall .. => Except HookError BeforeToolCall
  | .afterToolCall .. => Except HookError AfterToolCall
  | .stream _ => Except SchedulerError Unit
  | .nextEvent => Except SchedulerError (Option ModelStreamEvent)
  | .compactAutomatic .. => Except CompactionError CompactionResult
  | .compact _ => Except CompactionError CompactionResult
  | .executeTool _ => Unit
  | .pollTool _ => Option (Except ToolError AgentToolResult)
  | .wake => Unit
  | .exhausted => Empty
  | .panicked => Empty

end Tea.Core
