/-
  Tea/Luau/Policy.lean
  ====================
  **Policies of extensions** (`policy/`): the decision that a loaded policy makes about a tool
  call, and the hooks that ask it before those of the host.
-/
import Tea.Core.Hooks
import Tea.Core.Text
import Tea.Luau.Mlua
import Tea.Tui.Commands

namespace Tea.Luau

open Tea.Core
open Tea.Tui (isBlank)

/-! ### Loaded policies -/

inductive PolicyError where
  | sourceTooLarge (actual limit : Nat)
  | invalidLimit (field : String)
  | contract (message : String)
  | runtime (message : String)
deriving DecidableEq

def PolicyError.display : PolicyError → String
  | .sourceTooLarge actual limit =>
    "policy source is " ++ toString actual ++ " bytes, exceeding " ++ toString limit ++ " bytes"
  | .invalidLimit field => "policy limit " ++ field ++ " must be non-zero"
  | .contract message => "invalid policy contract: " ++ message
  | .runtime message => "Luau policy failed: " ++ message

/-- A tool that a policy declares, which grants nothing. -/
structure PolicyTool (Json : Type) where
  name : String
  description : String
  schema : Json
  capability : String
  executionMode : ToolExecutionMode
  handlerSource : Option String

/-- The table that describes a call to a policy. -/
structure CallTable where
  id : String
  name : String
  argumentsJson : String
deriving DecidableEq

/-- A loaded policy.  Its machine is a part of the world. -/
structure LuaPolicy (W Value Json : Type) where
  /-- A thread has panicked while it held the lock of the machine. -/
  poisoned : W → Bool
  /-- The declared function, with the checks that it may use up. -/
  beforeToolCall : Option (Nat → CallTable → Effect W (Except String Value))
  maxInterruptChecks : Nat
  systemPromptAppend : String
  tools : List (PolicyTool Json)

/-! ### Decisions -/

variable {W Value Json Token : Type} {Future : Type → Type}

def parseDecision (mlua : Mlua Value Json) (value : Value) : Except PolicyError BeforeToolCall :=
  match mlua.string value with
  | some (.error error) => .error (.runtime error)
  | some (.ok text) =>
    if text = "allow" then .ok .allow
    else .error (.contract "before_tool_call must return \"allow\" or \x7b action, reason \x7d")
  | none =>
    if mlua.isTable value then do
      let action ← (mlua.getString value "action").mapError .contract
      let reason ← (mlua.getString value "reason").mapError .contract
      if isBlank reason then
        .error (.contract "before_tool_call denial reason must not be empty")
      else if action = "block" then .ok (.block reason)
      else if action = "terminate" then .ok (.terminate reason)
      else
        .error (.contract
          ("before_tool_call action " ++ debugStr action ++ " must be block or terminate"))
    else .error (.contract "before_tool_call must return \"allow\" or \x7b action, reason \x7d")

namespace LuaPolicy

/-- `LuaPolicy::before_tool_call` -/
def decide (policy : LuaPolicy W Value Json) (mlua : Mlua Value Json) (call : ToolCall) :
    Effect W (Except PolicyError BeforeToolCall) := fun w =>
  if policy.poisoned w then (.error (.runtime "policy VM lock was poisoned"), w)
  else
    match policy.beforeToolCall with
    | none => (.ok .allow, w)
    | some function =>
      match function policy.maxInterruptChecks ⟨call.id.text, call.name, call.arguments.text⟩ w with
      | (.error error, w') => (.error (.runtime error), w')
      | (.ok value, w') => (parseDecision mlua value, w')

end LuaPolicy

/-! ### Hooks that ask a policy -/

def beforeHookError (error : PolicyError) : HookError := ⟨"before_tool_call", error.display⟩

/-- What a policy decides, as its hook passes it on. -/
def LuaPolicy.decision (policy : LuaPolicy W Value Json) (mlua : Mlua Value Json)
    (call : ToolCall) : Effect W (Except HookError BeforeToolCall) := fun w =>
  let (result, w') := policy.decide mlua call w
  (result.mapError beforeHookError, w')

/-- `LuaPolicyHookSet`: the policy first, and the other hooks if it allows the call. -/
def luaPolicyHookSet (ready : {A : Type} → A → Future A) (mlua : Mlua Value Json)
    (policy : LuaPolicy W Value Json) (inner : HookSet W Token Future) :
    HookSet W Token Future where
  beforeToolCall call w :=
    match policy.decision mlua call w with
    | (.error error, w') => (.error error, w')
    | (.ok .allow, w') => inner.beforeToolCall call w'
    | (.ok decision, w') => (.ok decision, w')
  afterToolCall := inner.afterToolCall
  transformContext := inner.transformContext
  convertToLlm := inner.convertToLlm
  shouldStopAfterTurn := inner.shouldStopAfterTurn
  prepareNextTurn := inner.prepareNextTurn
  beforeToolCallAsync call context cancellation w :=
    match policy.decision mlua call w with
    | (.ok .allow, w') => inner.beforeToolCallAsync call context cancellation w'
    | (.ok decision, w') => (ready (.ok decision), w')
    | (.error error, w') => (ready (.error error), w')
  afterToolCallAsync := inner.afterToolCallAsync
  transformContextAsync := inner.transformContextAsync
  convertToLlmAsync := inner.convertToLlmAsync
  shouldStopAfterTurnAsync := inner.shouldStopAfterTurnAsync
  prepareNextTurnAsync := inner.prepareNextTurnAsync

end Tea.Luau
