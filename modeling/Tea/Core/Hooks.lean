/-
  Tea/Core/Hooks.lean
  ===================
  **Sets of hooks** (`HookSet`): what the embedding policy layer decides about tool calls,
  contexts and turns.  A hook may change the world; the asynchronous forms return futures.
-/
import Tea.Core.Capability
import Tea.Core.Event

namespace Tea.Core

/-- A computation that may change the world. -/
abbrev Effect (W A : Type) := W → A × W

/-- `W` is the world of the hooks, `Future` stands for boxed futures. -/
structure HookSet (W Token : Type) (Future : Type → Type) where
  beforeToolCall : ToolCall → Effect W (Except HookError BeforeToolCall)
  afterToolCall : ToolCall → AgentToolResult → Effect W (Except HookError AfterToolCall)
  transformContext : ContextEnvelope → Effect W (Except HookError ContextEnvelope)
  convertToLlm : ContextEnvelope → Effect W (Except HookError String)
  shouldStopAfterTurn : ContextEnvelope → Effect W (Except HookError Bool)
  prepareNextTurn : ContextEnvelope → Effect W (Except HookError AgentLoopTurnUpdate)
  beforeToolCallAsync : ToolCall → ContextEnvelope → Token →
    Effect W (Future (Except HookError BeforeToolCall))
  afterToolCallAsync : ToolCall → AgentToolResult → ContextEnvelope → Token →
    Effect W (Future (Except HookError AfterToolCall))
  transformContextAsync : ContextEnvelope → Token →
    Effect W (Future (Except HookError ContextEnvelope))
  convertToLlmAsync : ContextEnvelope → Token → Effect W (Future (Except HookError String))
  shouldStopAfterTurnAsync : ContextEnvelope → Token → Effect W (Future (Except HookError Bool))
  prepareNextTurnAsync : ContextEnvelope → Token →
    Effect W (Future (Except HookError AgentLoopTurnUpdate))

end Tea.Core
