/-
  Tea/Luau/AsyncRuntime.lean
  ==========================
  **Luau tasks** (`async_runtime.rs`): the loop of `LuauTask::poll`, with the answers of its
  surroundings as an argument of every iteration.
-/
import Tea.Async.HostCalls
import Tea.Core.Text
import Tea.Luau.Mlua
import Tea.Tui.Commands

namespace Tea.Luau.AsyncRuntime

open Tea.Async
open Tea.Core (debugStr)
open Tea.Tui (isBlank)

/-! ### Requests -/

structure HostRequest where
  capability : String
  argumentsJson : String
deriving DecidableEq

inductive AsyncRuntimeError where
  | cancelled
  | host (capability message : String)
  | lua (message : String)
  | protocol (message : String)
deriving DecidableEq

/-- `validate` -/
def HostRequest.validate (request : HostRequest) : Except AsyncRuntimeError HostRequest :=
  if isBlank request.capability then
    .error (.protocol "await request capability must not be empty")
  else if isBlank request.argumentsJson then
    .error (.protocol ("await request for capability " ++ debugStr request.capability ++
      " has empty arguments_json"))
  else .ok request

variable {Value Json : Type}

/-- `parse_request` of the one value that has to be there -/
def parseRequestTable (mlua : Mlua Value Json) (value : Value) :
    Except AsyncRuntimeError HostRequest :=
  if mlua.isTable value then do
    let marker ← (mlua.getBoolOption value "__pi_await_request").mapError .lua
    if marker ≠ some true then
      .error (.protocol "yielded table is not an await request")
    else
      let capability ← (mlua.getString value "capability").mapError .lua
      let argumentsJson ← (mlua.getString value "arguments_json").mapError .lua
      HostRequest.validate { capability, argumentsJson }
  else
    .error (.protocol ("await yielded " ++ mlua.typeName value ++ ", expected a request table"))

/-- `parse_request` -/
def parseRequest (mlua : Mlua Value Json) :
    List Value → Except AsyncRuntimeError HostRequest
  | [value] => parseRequestTable mlua value
  | values => .error (.protocol ("await must yield exactly one request table, got " ++
      toString values.length ++ " values"))

/-! ### Tasks -/

structure LuauTask (Value : Type) where
  initialArguments : Option (List Value)
  /-- The pending call: its number among those that were started, and its request. -/
  pending : Option (Nat × HostRequest)
  terminal : Bool
  /-- How many futures the host has started, which is the name of the next one. -/
  started : Nat

/-- What the surroundings answer in one iteration.  Not all of it is asked for. -/
structure Answers (Value : Type) where
  /-- `cancellation.is_cancelled()` at the top of the loop -/
  isCancelled : Bool
  /-- The poll of the cancellation of the pending call is ready. -/
  cancellationWon : Bool
  /-- The poll of the future, with the message of its error; `none` is pending. -/
  future : Option (Except String String)
  /-- `is_cancelled()` when there is a value to resume with -/
  cancelledBefore : Bool
  /-- `thread.resume` -/
  resume : Except String (List Value)
  /-- `is_cancelled()` when the coroutine has come back -/
  cancelledAfter : Bool
  /-- `thread.status()` -/
  status : ThreadStatus

abbrev TaskEvent (Value : Type) :=
  HostEvent HostRequest String String (Except AsyncRuntimeError (List Value))

abbrev TaskFlow (Value : Type) := Flow (LuauTask Value) (Except AsyncRuntimeError (List Value))

/-- `start_with_cancellation` -/
def LuauTask.start (arguments : List Value) : LuauTask Value :=
  { initialArguments := some arguments, pending := none, terminal := false, started := 0 }

namespace LuauTask

variable (mlua : Mlua Value Json)

/-- `Poll::Ready` of the result -/
def settle (task : LuauTask Value) (result : Except AsyncRuntimeError (List Value)) :
    List (TaskEvent Value) × TaskFlow Value :=
  ([.settled result], .ready { task with terminal := true } result)

/-- A coroutine that has yielded asks its host. -/
def onYield (task : LuauTask Value) (values : List Value) :
    List (TaskEvent Value) × TaskFlow Value :=
  match parseRequest mlua values with
  | .error error => task.settle (.error error)
  | .ok request => ([.invoked task.started request],
      .again { task with pending := some (task.started, request), started := task.started + 1 })

/-- `thread.resume` with the value of a future, or with the arguments. -/
def resumeThread (task : LuauTask Value) (argument : Option String) (answers : Answers Value) :
    List (TaskEvent Value) × TaskFlow Value :=
  emit [.resumed argument] <|
    match answers.resume with
    | .error message => task.settle (.error (.lua message))
    | .ok values =>
      if answers.cancelledAfter then task.settle (.error .cancelled)
      else if answers.status ≠ .resumable then task.settle (.ok values)
      else task.onYield mlua values

/-- The pending call, taken out of the task. -/
def pollPending (task : LuauTask Value) (future : Nat) (request : HostRequest)
    (answers : Answers Value) : List (TaskEvent Value) × TaskFlow Value :=
  if answers.cancellationWon then
    -- the call is a local of the poll, which drops it before it returns
    emit [.dropped future] (task.settle (.error .cancelled))
  else
    match answers.future with
    | none => ([], .pending { task with pending := some (future, request) })
    | some (.ok value) =>
      emit [.completed future (.ok value)] <|
        if answers.cancelledBefore then task.settle (.error .cancelled)
        else task.resumeThread mlua (some value) answers
    | some (.error message) =>
      emit [.completed future (.error message)]
        (task.settle (.error (.host request.capability message)))

/-- One iteration of the loop of `poll`. -/
def iterate (task : LuauTask Value) (answers : Answers Value) :
    List (TaskEvent Value) × TaskFlow Value :=
  if answers.isCancelled then
    emit (.began true :: (task.pending.map fun call => .dropped call.1).toList)
      ({ task with pending := none }.settle (.error .cancelled))
  else
    emit [.began false] <|
      match task.pending with
      | some (future, request) =>
        { task with pending := none }.pollPending mlua future request answers
      | none => { task with initialArguments := none }.resumeThread mlua none answers

/-- `poll` -/
def poll (task : LuauTask Value) (answers : List (Answers Value)) :
    List (TaskEvent Value) × TaskFlow Value :=
  if task.terminal then
    ([.refused], .ready task (.error (.protocol "Luau task was polled after completion")))
  else loop (iterate mlua) task answers

/-- The events of a task, which may be polled after it is ready. -/
def events (task : LuauTask Value) (polls : List (List (Answers Value))) :
    List (TaskEvent Value) := drive (poll mlua) Flow.returned task polls

end LuauTask

end Tea.Luau.AsyncRuntime
