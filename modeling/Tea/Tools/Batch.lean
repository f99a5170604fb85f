/-
  Tea/Tools/Batch.lean
  ====================
  **A batch of tool calls as an abstract machine.**

  Each call of a batch is a *job* that makes its way from its announcement to its
  recorded result; the jobs stand in source order.  Beside the jobs, a control state
  says what the scheduler knows of the cancellation and what it holds of the queue
  of updates.  The two schedulers differ in the order of the steps only: every step
  of either is one of `Own` and `Replies`.

  The machine is used for one batch (`runs = false`) and for a whole run, in which
  batches follow each other and other code runs between them (`runs = true`).
-/
import Tea.Lifecycle.Consistency

namespace Tea.Tools

open Tea.Async Tea.Core Tea.Run

/-! ### Jobs -/

/-- Where the result of a call comes from. -/
inductive Source where
  /-- The call was refused before its execution. -/
  | refused
  | finished (execution : Except ToolError AgentToolResult)
  | cancelled

/-- What the scheduler makes of the end of the call's future. -/
def Source.execution : Source → Except ToolError AgentToolResult
  | .finished execution => execution
  | _ => cancelledOperation

/-- How far a call has come. -/
inductive Progress where
  | announced
  /-- The hook has decided. -/
  | decided (decision : Except HookError BeforeToolCall)
  /-- Its future exists; whether it was polled since the cancellation was seen. -/
  | running (polled : Bool)
  /-- Polled for the last time, and still pending. -/
  | dropped
  | settled (source : Source)
  | finalized (source : Source) (result : AgentToolResult) (terminate : Bool)
  /-- Its end is announced, with this result. -/
  | ended (source : Source) (result : AgentToolResult) (terminate : Bool)
  /-- Its result is in the transcript. -/
  | recorded (source : Source) (result : AgentToolResult) (terminate : Bool)
  /-- Recorded without having been announced. -/
  | skipped

def Progress.isRecorded : Progress → Bool
  | .recorded .. => true
  | .skipped => true
  | _ => false

def Progress.isSkipped : Progress → Bool
  | .skipped => true
  | _ => false

/-- Announced, and its end is not. -/
def Progress.isOpen : Progress → Bool
  | .ended .. => false
  | .recorded .. => false
  | .skipped => false
  | _ => true

/-- A further poll after the cancellation is granted. -/
def Progress.rearm : Progress → Progress
  | .running _ => .running false
  | progress => progress

structure Job where
  call : ToolCall
  progress : Progress

def Job.rearm (job : Job) : Job := { job with progress := job.progress.rearm }

/-! ### Control states -/

structure Batch where
  /-- The calls of the response. -/
  calls : List ToolCall := []
  parallel : Bool := false
  jobs : List Job := []
  /-- The calls whose callbacks are open. -/
  live : List ToolCallId := []
  closed : List ToolCallId := []
  /-- Closed before the queue was last emptied. -/
  drained : List ToolCallId := []
  /-- Updates taken from the queue and not delivered. -/
  hand : List PendingToolUpdate := []
  /-- The cancellation has been seen. -/
  seen : Bool := false
  /-- The token was silent at the last look, and nothing has been awaited since. -/
  checked : Bool := false
  /-- The queue has been emptied since the cancellation was seen. -/
  emptied : Bool := false
  /-- The pending calls are being aborted. -/
  aborting : Bool := false
  /-- An observer has failed, or the agent was found idle. -/
  broken : Bool := false

namespace Batch

/-- The job of `call`, which has the index, has come so far. -/
def put (s : Batch) (index : Nat) (call : ToolCall) (progress : Progress) : Batch :=
  { s with jobs := s.jobs.set index ⟨call, progress⟩ }

/-- Look at the cancellation token. -/
def look (s : Batch) (cancelled : Bool) : Batch :=
  { s with
    seen := s.seen || cancelled
    checked := !cancelled
    emptied := s.emptied && (s.seen || !cancelled) }

/-- Take the updates from the queue. -/
def draw (s : Batch) (updates : List PendingToolUpdate) : Batch :=
  { s with
    hand := updates
    drained := s.closed
    emptied := true
    jobs := if updates = [] then s.jobs else s.jobs.map Job.rearm }

def shut (s : Batch) (id : ToolCallId) : Batch :=
  { s with closed := id :: s.closed, live := s.live.filter (· ≠ id) }

def break_ (s : Batch) : Batch := { s with broken := true }

/-- Nothing of a batch is left to be done. -/
structure Rest (s : Batch) : Prop where
  recorded : ∀ job ∈ s.jobs, job.progress.isRecorded = true
  hand : s.hand = []
  live : s.live = []

end Batch

/-! ### What a job may do -/

section
variable (h : RunHandle) (runs : Bool)

/-- The reasons for which a call is refused, with the result and the termination hint. -/
inductive Refuses (s : Batch) (call : ToolCall) :
    Progress → AgentToolResult → Bool → Prop where
  | unknown (missing : h.configuration.tool call.name = none) :
      Refuses s call .announced (errorToolResult call ("Tool " ++ call.name ++ " not found")) false
  | invalid {tool : AgentTool} {error : ToolError}
      (found : h.configuration.tool call.name = some tool)
      (invalid : tool.validate call.arguments = .error error) :
      Refuses s call .announced (errorToolResultFromError call error) false
  | blocked {reason : String} :
      Refuses s call (.decided (.ok (.block reason))) (errorToolResult call reason) false
  | terminated {reason : String} :
      Refuses s call (.decided (.ok (.terminate reason))) (errorToolResult call reason) true
  | failed {error : HookError} :
      Refuses s call (.decided (.error error)) (errorToolResult call error.message) false
  | cancelled (seen : s.seen = true) :
      Refuses s call (.decided (.ok .allow)) (abortedToolResult call) false
  /-- The call of a response that was cut off. -/
  | truncated {text : String} (run : runs = true) :
      Refuses s call .announced (errorToolResult call text) false

/-- What the end of a call may announce.  The parallel scheduler announces the
    result of an executed call as the hook left it. -/
inductive Ends (s : Batch) (call : ToolCall) :
    Progress → Source → AgentToolResult → Bool → Prop where
  | refused {progress : Progress} {result : AgentToolResult} {terminate : Bool}
      (refuses : Refuses h runs s call progress result terminate) (live : s.live = []) :
      Ends s call progress .refused (normalizeResultFailure result) terminate
  | executed {source : Source} {result : AgentToolResult} {terminate : Bool}
      (closed : call.id ∉ s.live) (drained : call.id ∈ s.drained ∨ s.aborting = true) :
      Ends s call (.finalized source result terminate) source
        (if s.parallel then result else normalizeResultFailure result) terminate

/-- What becomes of a job when its callback is closed. -/
inductive Closes (s : Batch) (call : ToolCall) : Progress → Progress → Prop where
  | finished {source : Source} : Closes s call (.settled source) (.settled source)
  | cancelled {polled : Bool} (seen : s.seen = true) :
      Closes s call (.running polled) (.settled .cancelled)
  | dropped : Closes s call .dropped (.finalized .cancelled (abortedToolResult call) false)

/-- The result of an executed call once the hook has replied. -/
def finalResult (call : ToolCall) (result : AgentToolResult) :
    Except HookError AfterToolCall → AgentToolResult × Bool
  | .ok after => (applyAfterToolCall result after, (applyAfterToolCall result after).terminate)
  | .error error => (errorToolResult call error.message, false)

end

/-! ### Steps -/

/-- Nothing changes that the machine speaks of. -/
structure Aside (w w' : World) : Prop where
  messages : w'.agent.messages = w.agent.messages
  next : w'.agent.nextMessageId = w.agent.nextMessageId
  run : w'.run = w.run
  updates : w'.updates = w.updates
  cancelled : w'.cancelled = w.cancelled

/-- The events of tool executions. -/
def isExecution : AgentEventKind → Bool
  | .toolExecutionStart .. => true
  | .toolExecutionUpdate .. => true
  | .toolExecutionEnd .. => true
  | _ => false

def isTurnEnd : AgentEventKind → Bool
  | .turnEnd .. => true
  | _ => false

/-- A step of a run outside its batches. -/
structure Outside (w w' : World) : Prop where
  updates : w'.updates = w.updates
  cancelled : w'.cancelled = w.cancelled
  kinds : w'.run.kinds = w.run.kinds ∨
    ∃ kind, isExecution kind = false ∧ w'.run.kinds = w.run.kinds ++ [kind]

def recorded (kind : AgentEventKind) (w : World) : World :=
  { w with run := (w.run.recordEvent kind).2 }

/-- The state after the section `takeUpdates`. -/
def taken (w : World) : World := { w with updates := w.updates.take.2 }

def takenUpdates (w : World) : List PendingToolUpdate := w.updates.take.1.getD []

inductive Own (h : RunHandle) (runs : Bool) : Batch → World → World → Batch → Prop where
  | aside {s : Batch} {w w' : World} (aside : Aside w w') : Own h runs s w w' s
  /-- A batch begins; the parallel one with a queue of its own. -/
  | begin {s : Batch} {w w' : World} {calls : List ToolCall} {parallel : Bool} (rest : s.Rest)
      (fresh : runs = true ∨ (s.jobs = [] ∧ s.calls = calls ∧ s.parallel = parallel))
      (opens : Aside w w' ∨ w' = { w with updates := {} }) (whole : s.broken = false) :
      Own h runs s w w' { calls, parallel }
  | look {s : Batch} {w : World} : Own h runs s w w (s.look w.cancelled)
  | lapse {s : Batch} {w : World} (idle : w.agent.phase = .idle) : Own h runs s w w s.break_
  | announce {s : Batch} {w : World} {call : ToolCall}
      (order : s.jobs.map (·.call) ++ [call] <+: s.calls) (hand : s.hand = [])
      (unskipped : ∀ job ∈ s.jobs, job.progress.isSkipped = false) :
      Own h runs s w (recorded (.toolExecutionStart call.id call.name call.arguments) w)
        { s with jobs := s.jobs ++ [⟨call, .announced⟩] }
  | reset {s : Batch} {w : World} (live : s.live = []) (hand : s.hand = []) :
      Own h runs s w { w with updates := {} } { s with closed := [], drained := [] }
  | sink {s : Batch} {w : World} {index : Nat} {call : ToolCall}
      (job : s.jobs[index]? = some ⟨call, .decided (.ok .allow)⟩) :
      Own h runs s w
        { w with updates := { w.updates with sinks := w.updates.sinks ++ [(call.id, call.name)] } }
        ({ s with live := call.id :: s.live }.put index call (.running false))
  | draw {s : Batch} {w : World} (hand : s.hand = []) (aborting : s.aborting = false) :
      Own h runs s w (taken w) (s.draw (takenUpdates w))
  | close {s : Batch} {w : World} {index : Nat} {call : ToolCall}
      {progress progress' : Progress} (job : s.jobs[index]? = some ⟨call, progress⟩)
      (closes : Closes s call progress progress') :
      Own h runs s w { w with updates := w.updates.close call.id }
        ((s.shut call.id).put index call progress')
  /-- A pending call of a cancelled batch is given up. -/
  | abort {s : Batch} {w : World} {index : Nat} {call : ToolCall} {polled : Bool}
      (job : s.jobs[index]? = some ⟨call, .running polled⟩) (seen : s.seen = true) :
      Own h runs s w { w with updates := w.updates.close call.id }
        ({ s.shut call.id with aborting := true }.put index call
          (.finalized .cancelled (abortedToolResult call) false))
  | deliver {s : Batch} {w : World} {update : PendingToolUpdate}
      {rest : List PendingToolUpdate} (hand : s.hand = update :: rest) :
      Own h runs s w
        (recorded (.toolExecutionUpdate update.toolCallId update.toolName update.update) w)
        { s with hand := rest }
  | finish {s : Batch} {w : World} {index : Nat} {call : ToolCall} {progress : Progress}
      {source : Source} {result : AgentToolResult} {terminate : Bool}
      (job : s.jobs[index]? = some ⟨call, progress⟩) (hand : s.hand = [])
      (ends : Ends h runs s call progress source result terminate) :
      Own h runs s w (recorded (.toolExecutionEnd call.id call.name result) w)
        (s.put index call (.ended source result terminate))
  | append {s : Batch} {w w' : World} {index : Nat} {call : ToolCall} {source : Source}
      {result : AgentToolResult} {terminate : Bool}
      (job : s.jobs[index]? = some ⟨call, .ended source result terminate⟩)
      (order : ∀ j job, s.jobs[j]? = some job → (job.progress.isRecorded = true ↔ j < index))
      (pushes : w'.agent.messages = w.agent.messages ++
          [toolResultMessage call (normalizeResultFailure result) ⟨w.agent.nextMessageId⟩] ∧
        w'.agent.nextMessageId = satSucc w.agent.nextMessageId ∧ w'.run = w.run ∧
        w'.updates = w.updates ∧ w'.cancelled = w.cancelled) :
      Own h runs s w w' (s.put index call (.recorded source result terminate))
  /-- A call that was never announced is given a result. -/
  | skip {s : Batch} {w w' : World} {call : ToolCall} {message : AgentMessage} (rest : s.Rest)
      (order : s.jobs.map (·.call) ++ [call] <+: s.calls)
      (pushes : w'.agent.messages = w.agent.messages ++ [message] ∧
        w'.run = w.run ∧ w'.updates = w.updates ∧ w'.cancelled = w.cancelled) :
      Own h runs s w w' { s with jobs := s.jobs ++ [⟨call, .skipped⟩] }
  | note {s : Batch} {w : World} {kind : AgentEventKind}
      (other : isExecution kind = false) (inside : isTurnEnd kind = false) :
      Own h runs s w (recorded kind w) s
  | outside {s : Batch} {w w' : World} (run : runs = true) (rest : s.Rest ∨ s.broken = true)
      (outside : Outside w w') : Own h runs s w w' s

/-! ### Replies -/

/-- A call may be polled: the token was silent just now, or it is granted one more
    poll after the cancellation. -/
def Batch.MayPoll (s : Batch) (polled : Bool) : Prop :=
  s.checked = true ∨ (s.seen = true ∧ polled = false)

inductive Replies (h : RunHandle) (runs : Bool) :
    Batch → (query : Query) → Reply query → Batch → Prop where
  | accepted {s : Batch} {observer : ObserverId} {event : AgentEvent} :
      Replies h runs s (.observe observer event) (.ok ()) s
  | refused {s : Batch} {observer : ObserverId} {event : AgentEvent} {error : CoreError} :
      Replies h runs s (.observe observer event) (.error error) s.break_
  | decide {s : Batch} {index : Nat} {call : ToolCall} {context : ContextEnvelope}
      {decision : Except HookError BeforeToolCall} {tool : AgentTool}
      (job : s.jobs[index]? = some ⟨call, .announced⟩)
      (found : h.configuration.tool call.name = some tool)
      (valid : tool.validate call.arguments = .ok ()) :
      Replies h runs s (.beforeToolCall call context) decision
        (s.put index call (.decided decision))
  | execute {s : Batch} {call : ToolCall} : Replies h runs s (.executeTool call) () s
  | ready {s : Batch} {index : Nat} {call : ToolCall} {polled : Bool}
      {execution : Except ToolError AgentToolResult}
      (job : s.jobs[index]? = some ⟨call, .running polled⟩)
      (may : s.MayPoll polled) :
      Replies h runs s (.pollTool call) (some execution)
        ({ s with checked := false }.put index call (.settled (.finished execution)))
  | pending {s : Batch} {index : Nat} {call : ToolCall} {polled : Bool}
      (job : s.jobs[index]? = some ⟨call, .running polled⟩)
      (checked : s.checked = true) :
      Replies h runs s (.pollTool call) none { s with checked := false }
  /-- The poll that is granted after the cancellation. -/
  | again {s : Batch} {index : Nat} {call : ToolCall}
      (job : s.jobs[index]? = some ⟨call, .running false⟩)
      (seen : s.seen = true) (emptied : s.emptied = true) :
      Replies h runs s (.pollTool call) none
        ({ s with checked := false }.put index call (.running true))
  | last {s : Batch} {index : Nat} {call : ToolCall}
      (job : s.jobs[index]? = some ⟨call, .running false⟩)
      (seen : s.seen = true) :
      Replies h runs s (.pollTool call) none
        ({ s with checked := false }.put index call .dropped)
  | finalize {s : Batch} {index : Nat} {call : ToolCall} {source : Source}
      {context : ContextEnvelope} {after : Except HookError AfterToolCall}
      (job : s.jobs[index]? = some ⟨call, .settled source⟩) :
      Replies h runs s (.afterToolCall call (executionResult call source.execution) context) after
        (s.put index call (.finalized source
          (finalResult call (executionResult call source.execution) after).1
          (finalResult call (executionResult call source.execution) after).2))
  | wake {s : Batch} (checked : s.checked = true) :
      Replies h runs s .wake () { s with checked := false }
  | outside {s : Batch} {query : Query} {reply : Reply query} (run : runs = true)
      (rest : s.Rest ∨ s.broken = true) : Replies h runs s query reply s

/-- The scheduler has not forgotten a cancellation that it saw. -/
def Consistent (s : Batch) (w : World) : Prop := s.seen = true → w.cancelled = true

/-- The machine of the batches of handle `h`. -/
def machine (h : RunHandle) (runs : Bool) : Machine Batch World Query Reply where
  consistent := Consistent
  own := Own h runs
  awaits _ := True
  reply := Replies h runs

end Tea.Tools
