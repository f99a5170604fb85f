/-
  Tea/Luau/ToolExecution.lean
  ===========================
  **Tools written in Luau** (`tool_handler/runtime.rs`): the loop of `LuaToolExecution::poll`.

  What the surroundings do in one iteration of the loop is an argument of it (`Answers`):
  the token of the cancellation, the pending future, the VM and its coroutine.  A list of
  them is one behaviour of all of these.
-/
import Tea.Async.HostCalls
import Tea.Core.Event
import Tea.Luau.Mlua

namespace Tea.Luau.ToolHandler

open Tea.Core
open Tea.Async

/-! ### Requests -/

/-- A failure of a host capability (`tool_handler/bindings.rs`). -/
inductive CapabilityError where
  | cancelled
  | notBound (capability : String)
  | methodDenied (capability method : String)
  | invalidArguments (message : String)
  | execution (message : String)
deriving DecidableEq

structure CapabilityRequest (Json : Type) where
  callId : ToolCallId
  toolName : String
  capability : String
  method : String
  arguments : Json

/-- `map_capability_error` -/
def mapCapabilityError (tool : String) : CapabilityError → ToolError
  | .cancelled => .cancelled tool
  | .notBound capability =>
    .blocked tool ("capability " ++ debugStr capability ++ " is not explicitly bound")
  | .methodDenied capability method =>
    .blocked tool ("capability " ++ debugStr capability ++ " denied method " ++ debugStr method)
  | .invalidArguments message => .invalidArguments tool message
  | .execution message => .execution tool message

/-! ### Values from Luau -/

variable {Value Json : Type}

def requiredString (mlua : Mlua Value Json) (table : Value) (field : String) :
    Except String String :=
  (mlua.getString table field).mapError fun error =>
    "handler field " ++ debugStr field ++ " is required and must be a string: " ++ error

/-- `parse_capability_request` -/
def parseCapabilityRequest (mlua : Mlua Value Json) (value : Value) (callId : ToolCallId)
    (toolName : String) : Except String (CapabilityRequest Json) :=
  if mlua.isTable value then do
    let kind ← requiredString mlua value "kind"
    if kind ≠ "capability" then
      .error ("handler yielded unsupported request kind " ++ debugStr kind)
    else
      let capability ← requiredString mlua value "capability"
      let method ← requiredString mlua value "method"
      let argumentsJson ← requiredString mlua value "arguments_json"
      let arguments ← (mlua.parseJson argumentsJson).mapError fun error =>
        "capability arguments_json is invalid: " ++ error
      return { callId, toolName, capability, method, arguments }
  else
    .error ("handler yielded " ++ mlua.typeName value ++ ", expected a capability table")

structure LuaToolResult where
  content : String
  details : Option SerializedJson
  usage : Option Usage
  terminate : Bool
  isError : Bool

/-- `details_json` has to be JSON and is kept as it is written. -/
def parseDetails (mlua : Mlua Value Json) (table : Value) :
    Except String (Option SerializedJson) := do
  let details ← (mlua.getStringOption table "details_json").mapError fun error =>
    "result details_json must be a string: " ++ error
  match details with
  | none => return none
  | some text =>
    let _ ← (mlua.parseJson text).mapError fun error =>
      "result details_json is invalid: " ++ error
    return some ⟨text⟩

/-- `terminate` and `is_error` -/
def parseFlag (mlua : Mlua Value Json) (table : Value) (field : String) : Except String Bool :=
  ((mlua.getBoolOption table field).mapError fun error =>
    "result " ++ field ++ " must be boolean: " ++ error).map (·.getD false)

/-- `parse_tool_result` -/
def parseToolResult (mlua : Mlua Value Json) (value : Value) : Except String LuaToolResult :=
  match mlua.string value with
  | some text => do
    let content ← text.mapError fun error => "handler result is not UTF-8: " ++ error
    return { content, details := none, usage := none, terminate := false, isError := false }
  | none =>
    if mlua.isTable value then do
      let content ← requiredString mlua value "content"
      let details ← parseDetails mlua value
      let terminate ← parseFlag mlua value "terminate"
      let isError ← parseFlag mlua value "is_error"
      return { content, details, usage := none, terminate, isError }
    else
      .error ("handler returned " ++ mlua.typeName value ++ ", expected string or result table")

/-! ### The execution of a call -/

/-- What the execution uses of a `LuaToolHandler`. -/
structure LuaToolHandler where
  name : String
  /-- `spec.capability` -/
  capability : String
  maxCapabilityCalls : Nat
  /-- `capabilities.get` finds a binding. -/
  bound : String → Bool

structure LuaToolExecution (Json : Type) where
  handler : LuaToolHandler
  call : ToolCall
  /-- The VM has been built. -/
  runtime : Bool
  /-- The pending future: the number of the call that it is of. -/
  capabilityFuture : Option Nat
  resumeValue : Option Json
  capabilityCalls : Nat

/-- What the surroundings answer in one iteration.  Not all of it is asked for. -/
structure Answers (Value Json : Type) where
  /-- `cancellation.is_cancelled()` -/
  isCancelled : Bool
  /-- The poll of `cancellation_wait` is ready. -/
  cancellationWon : Bool
  /-- The poll of the future; `none` is pending. -/
  future : Option (Except CapabilityError Json)
  buildRuntime : Except String Unit
  jsonToLua : Except String Unit
  callToLua : Except ToolError Unit
  /-- `thread.resume` and then `thread.status()` -/
  resume : Except String (Value × ThreadStatus)

abbrev ToolEvent (Json : Type) :=
  HostEvent (CapabilityRequest Json) Json CapabilityError (Except ToolError AgentToolResult)

abbrev ToolFlow (Json : Type) := Flow (LuaToolExecution Json) (Except ToolError AgentToolResult)

/-- `execute` -/
def LuaToolHandler.execute (handler : LuaToolHandler) (call : ToolCall) : LuaToolExecution Json :=
  { handler, call, runtime := false, capabilityFuture := none, resumeValue := none,
    capabilityCalls := 0 }

namespace LuaToolExecution

variable (mlua : Mlua Value Json)

/-- `Poll::Ready` of the result -/
def settle (this : LuaToolExecution Json) (result : Except ToolError AgentToolResult) :
    List (ToolEvent Json) × ToolFlow Json := ([.settled result], .ready this result)

/-- `ToolError::Execution` -/
def failExecution (this : LuaToolExecution Json) (message : String) :
    List (ToolEvent Json) × ToolFlow Json :=
  this.settle (.error (.execution this.handler.name message))

/-- A coroutine that has yielded asks for its capability. -/
def onYield (this : LuaToolExecution Json) (yielded : Value) :
    List (ToolEvent Json) × ToolFlow Json :=
  match parseCapabilityRequest mlua yielded this.call.id this.call.name with
  | .error message => this.failExecution message
  | .ok request =>
    if request.capability ≠ this.handler.capability then
      this.settle (.error (.blocked this.handler.name ("Luau requested capability " ++
        debugStr request.capability ++ ", but only " ++ debugStr this.handler.capability ++
        " is bound for this tool")))
    else if this.handler.bound request.capability = false then
      this.settle (.error (.blocked this.handler.name
        ("capability " ++ debugStr request.capability ++ " is not explicitly bound")))
    else if this.capabilityCalls = this.handler.maxCapabilityCalls then
      this.failExecution ("Luau handler exceeded its " ++
        toString this.handler.maxCapabilityCalls ++ " capability-call limit")
    else ([.invoked this.capabilityCalls request], .again { this with
      capabilityCalls := this.capabilityCalls + 1
      capabilityFuture := some this.capabilityCalls })

/-- A coroutine that has returned has a result. -/
def onReturn (this : LuaToolExecution Json) (returned : Value) :
    List (ToolEvent Json) × ToolFlow Json :=
  match parseToolResult mlua returned with
  | .error message => this.failExecution message
  | .ok result => this.settle (.ok
    { toolCallId := this.call.id
      content := result.content
      details := result.details
      usage := result.usage
      addedToolNames := []
      terminate := result.terminate
      isError := result.isError
      failure := none })

/-- `thread.resume` with the value of a future, or with the call. -/
def resumeThread (this : LuaToolExecution Json) (argument : Option Json)
    (resumed : Except String (Value × ThreadStatus)) : List (ToolEvent Json) × ToolFlow Json :=
  emit [.resumed argument] <|
    match resumed with
    | .error message => this.failExecution message
    | .ok (value, .resumable) => this.onYield mlua value
    | .ok (value, .finished) => this.onReturn mlua value
    | .ok (_, .other status) =>
      this.failExecution ("handler coroutine reached unexpected status " ++ status)

/-- What the coroutine is resumed with enters its VM. -/
def advance (this : LuaToolExecution Json) (answers : Answers Value Json) :
    List (ToolEvent Json) × ToolFlow Json :=
  match this.resumeValue with
  | some value =>
    match answers.jsonToLua with
    | .error error =>
      { this with resumeValue := none }.failExecution
        ("capability response could not enter Luau: " ++ error)
    | .ok _ => { this with resumeValue := none }.resumeThread mlua (some value) answers.resume
  | none =>
    match answers.callToLua with
    | .error error => this.settle (.error error)
    | .ok _ => this.resumeThread mlua none answers.resume

/-- The VM is built when it is needed for the first time. -/
def ensureRuntime (this : LuaToolExecution Json) (answers : Answers Value Json) :
    List (ToolEvent Json) × ToolFlow Json :=
  if this.runtime then this.advance mlua answers
  else
    match answers.buildRuntime with
    | .error error => this.failExecution error
    | .ok _ => { this with runtime := true }.advance mlua answers

/-- The poll of the pending future. -/
def pollFuture (this : LuaToolExecution Json) (future : Nat) (answers : Answers Value Json) :
    List (ToolEvent Json) × ToolFlow Json :=
  match answers.future with
  | none => ([], .pending this)
  | some (.ok value) =>
    ([.completed future (.ok value)],
      .again { this with capabilityFuture := none, resumeValue := some value })
  | some (.error error) =>
    emit [.completed future (.error error)]
      ({ this with capabilityFuture := none }.settle
        (.error (mapCapabilityError this.handler.name error)))

/-- One iteration of the loop of `poll`. -/
def iterate (this : LuaToolExecution Json) (answers : Answers Value Json) :
    List (ToolEvent Json) × ToolFlow Json :=
  if answers.isCancelled || answers.cancellationWon then
    -- a pending future is dropped before the cancellation is published
    emit (.began true :: (this.capabilityFuture.map .dropped).toList)
      ({ this with capabilityFuture := none }.settle (.error (.cancelled this.handler.name)))
  else
    emit [.began false] <|
      match this.capabilityFuture with
      | some future => this.pollFuture future answers
      | none => this.ensureRuntime mlua answers

/-- `poll` -/
def poll : LuaToolExecution Json → List (Answers Value Json) →
    List (ToolEvent Json) × ToolFlow Json := loop (iterate mlua)

/-- The events of a call: its future is polled until it is ready. -/
def events (this : LuaToolExecution Json) (polls : List (List (Answers Value Json))) :
    List (ToolEvent Json) := drive (poll mlua) Flow.paused this polls

end LuaToolExecution

end Tea.Luau.ToolHandler
