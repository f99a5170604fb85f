/-
  Tea/Contract/HostCallProtocol.lean
  ==================================
  **Calls of Luau code to its host** keep to the protocol, whatever the coroutine, the
  futures and the cancellation do: the tools written in Luau, and the tasks.
-/
import Tea.Luau.AsyncRuntime
import Tea.Luau.ToolExecution

namespace Tea.Contract

open Tea.Async
open Tea.Core
open Tea.Luau

variable {Value Json : Type}

/-! ### Tools -/

namespace ToolProtocol

open ToolHandler

variable {handler : LuaToolHandler} {call : ToolCall} {mlua : Mlua Value Json}

/-- The events that the handler may let happen for the call: it invokes its own capability,
    within its budget, and its results have the id of the call. -/
def Allowed (handler : LuaToolHandler) (call : ToolCall) : ToolEvent Json → Prop
  | .invoked future request =>
    request.capability = handler.capability ∧ future < handler.maxCapabilityCalls
  | .settled (.ok result) => result.toolCallId = call.id
  | _ => True

/-- The phase that an execution is in before an iteration. -/
def phaseOf (this : LuaToolExecution Json) : Phase Json :=
  match this.capabilityFuture, this.resumeValue with
  | some future, _ => .waiting future
  | none, some value => .holding value
  | none, none => .fresh

/-- The executions of the call, as places of the protocol. -/
def seen (Json : Type) (handler : LuaToolHandler) (call : ToolCall) :
    Seen (LuaToolExecution Json) (CallProgress Json) (ToolEvent Json) where
  step := fun p event q => Turn (· = .error (.cancelled handler.name)) p event q ∧
    Allowed handler call event
  goes := fun this => this.handler = handler ∧ this.call = call ∧
    this.capabilityCalls ≤ handler.maxCapabilityCalls
  ends := fun _ => True
  view := fun this => ⟨this.capabilityCalls, phaseOf this⟩
  settled := fun this => ⟨this.capabilityCalls, .settled⟩

theorem settle_reaches (this : LuaToolExecution Json) {phase : Phase Json}
    {result : Except ToolError AgentToolResult} (hmay : phase.MaySettle)
    (hallowed : Allowed handler call (.settled result : ToolEvent Json)) :
    (seen Json handler call).Reaches ⟨this.capabilityCalls, phase⟩ (this.settle result) :=
  ⟨_, .single ⟨.settle hmay, hallowed⟩, trivial, rfl⟩

theorem failExecution_reaches (this : LuaToolExecution Json) {phase : Phase Json}
    {message : String} (hmay : phase.MaySettle) :
    (seen Json handler call).Reaches ⟨this.capabilityCalls, phase⟩ (this.failExecution message) :=
  settle_reaches this hmay trivial

theorem onYield_reaches {this : LuaToolExecution Json} (hgoes : (seen Json handler call).goes this)
    (yielded : Value) : (seen Json handler call).Reaches ⟨this.capabilityCalls, .running⟩
      (this.onYield mlua yielded) := by
  obtain ⟨rfl, rfl, hle⟩ := hgoes
  rw [LuaToolExecution.onYield]
  split
  · exact failExecution_reaches this .running
  · split_ifs with hcapability hbound hcalls
    · exact settle_reaches this .running trivial
    · exact settle_reaches this .running trivial
    · exact failExecution_reaches this .running
    · have hlt : this.capabilityCalls < this.handler.maxCapabilityCalls := by omega
      exact ⟨_, .single ⟨.invoke, not_not.mp hcapability, hlt⟩, ⟨rfl, rfl, hlt⟩, rfl⟩

theorem onReturn_reaches {this : LuaToolExecution Json}
    (hgoes : (seen Json handler call).goes this) (returned : Value) :
    (seen Json handler call).Reaches ⟨this.capabilityCalls, .running⟩
      (this.onReturn mlua returned) := by
  rw [LuaToolExecution.onReturn]
  split
  · exact failExecution_reaches this .running
  · exact settle_reaches this .running (congrArg ToolCall.id hgoes.2.1)

/-- A resumption leads through the running phase. -/
theorem resumeThread_reaches (this : LuaToolExecution Json) {phase : Phase Json}
    {argument : Option Json} (hgoes : (seen Json handler call).goes this)
    (hresume : (seen Json handler call).step ⟨this.capabilityCalls, phase⟩ (.resumed argument)
      ⟨this.capabilityCalls, .running⟩)
    (resumed : Except String (Value × ThreadStatus)) :
    (seen Json handler call).Reaches ⟨this.capabilityCalls, phase⟩
      (this.resumeThread mlua argument resumed) := by
  unfold LuaToolExecution.resumeThread
  refine Seen.Reaches.emit (.single hresume) ?_
  split
  · exact failExecution_reaches this .running
  · exact onYield_reaches hgoes _
  · exact onReturn_reaches hgoes _
  · exact failExecution_reaches this .running

theorem advance_reaches (this : LuaToolExecution Json)
    (hgoes : (seen Json handler call).goes this) (hidle : this.capabilityFuture = none)
    (answers : Answers Value Json) :
    (seen Json handler call).Reaches ⟨this.capabilityCalls, phaseOf this⟩
      (this.advance mlua answers) := by
  rw [phaseOf, hidle, LuaToolExecution.advance]
  cases this.resumeValue with
  | some value =>
    -- the value leaves the execution, whether or not it enters the VM
    simp only
    split
    · exact failExecution_reaches { this with resumeValue := none } (.holding value)
    · exact resumeThread_reaches { this with resumeValue := none } hgoes ⟨.resume, trivial⟩
        answers.resume
  | none =>
    simp only
    split
    · exact settle_reaches this .fresh trivial
    · exact resumeThread_reaches this hgoes ⟨.start, trivial⟩ answers.resume

theorem rests_of_idle {this : LuaToolExecution Json} (hidle : this.capabilityFuture = none) :
    (phaseOf this).Rests ∧ (phaseOf this).pending = [] ∧ (phaseOf this).MaySettle := by
  rw [phaseOf, hidle]
  cases this.resumeValue with
  | some value => exact ⟨.holding value, rfl, .holding value⟩
  | none => exact ⟨.fresh, rfl, .fresh⟩

theorem ensureRuntime_reaches {this : LuaToolExecution Json}
    (hgoes : (seen Json handler call).goes this) (hidle : this.capabilityFuture = none)
    (answers : Answers Value Json) :
    (seen Json handler call).Reaches ⟨this.capabilityCalls, phaseOf this⟩
      (this.ensureRuntime mlua answers) := by
  rw [LuaToolExecution.ensureRuntime]
  split
  · exact advance_reaches this hgoes hidle answers
  · split
    · exact failExecution_reaches this (rests_of_idle hidle).2.2
    · exact advance_reaches { this with runtime := true } hgoes hidle answers

theorem pollFuture_reaches {this : LuaToolExecution Json}
    (hgoes : (seen Json handler call).goes this) {future : Nat}
    (hpending : this.capabilityFuture = some future) (answers : Answers Value Json) :
    (seen Json handler call).Reaches ⟨this.capabilityCalls, .waiting future⟩
      (this.pollFuture future answers) := by
  rw [LuaToolExecution.pollFuture]
  split
  · refine ⟨_, .nil, hgoes, ?_⟩
    simp [seen, phaseOf, hpending]
  · exact ⟨_, .single ⟨.complete, trivial⟩, hgoes, rfl⟩
  · refine Seen.Reaches.emit (.single ⟨.fail, trivial⟩) ?_
    exact settle_reaches { this with capabilityFuture := none } .failing trivial

/-- An iteration that begins cancelled drops the pending future and settles. -/
theorem cancel_reaches (this : LuaToolExecution Json) (hname : this.handler = handler) :
    (seen Json handler call).Reaches ⟨this.capabilityCalls, phaseOf this⟩
      (emit (.began true :: (this.capabilityFuture.map .dropped).toList)
        ({ this with capabilityFuture := none }.settle
          (.error (.cancelled this.handler.name)))) := by
  refine ⟨⟨this.capabilityCalls, .settled⟩, ?_, trivial, rfl⟩
  have hsettle : (seen Json handler call).step ⟨this.capabilityCalls, .cancelling⟩
      (.settled (.error (.cancelled this.handler.name))) ⟨this.capabilityCalls, .settled⟩ :=
    ⟨.settleCancelled (by rw [hname]), trivial⟩
  cases hfuture : this.capabilityFuture with
  | some future =>
    rw [phaseOf, hfuture]
    exact .cons ⟨.cancelWaiting, trivial⟩ (.cons ⟨.drop, trivial⟩ (.single hsettle))
  | none =>
    obtain ⟨hrests, hpending, -⟩ := rests_of_idle hfuture
    exact .cons ⟨.cancelIdle hrests hpending, trivial⟩ (.single hsettle)

/-- **An iteration** of the loop keeps to the protocol. -/
theorem iterate_simulates :
    (seen Json handler call).Simulates (LuaToolExecution.iterate mlua) := by
  intro this answers hgoes
  rw [LuaToolExecution.iterate]
  split
  · exact cancel_reaches this hgoes.1
  · cases hfuture : this.capabilityFuture with
    | some future =>
      have hphase : phaseOf this = .waiting future := by rw [phaseOf, hfuture]
      refine Seen.Reaches.emit (.single ⟨.begin ?_, trivial⟩) (hphase ▸ ?_)
      · rw [hphase]
        exact .waiting future
      · exact pollFuture_reaches hgoes hfuture answers
    | none =>
      refine Seen.Reaches.emit (.single ⟨.begin (rests_of_idle hfuture).1, trivial⟩) ?_
      exact ensureRuntime_reaches hgoes hfuture answers

/-- The events of a call are a path of the protocol. -/
theorem events_path (polls : List (List (Answers Value Json))) :
    ∃ p, Path (seen Json handler call).step ⟨0, .fresh⟩
      ((handler.execute call).events mlua polls) p ∧ p.phase.Between := by
  have hnext : ∀ flow p this', (seen Json handler call).Lands flow p →
      Flow.paused (R := Except ToolError AgentToolResult) flow = some this' →
        (seen Json handler call).goes this' ∧ p = (seen Json handler call).view this' := by
    intro flow p this' hlands hpaused
    cases flow with
    | pending state =>
      cases hpaused
      exact hlands
    | _ => cases hpaused
  have hgoes : (seen Json handler call).goes (handler.execute call) :=
    ⟨rfl, rfl, Nat.zero_le _⟩
  have hpoll : (seen Json handler call).Simulates (LuaToolExecution.poll mlua) :=
    Seen.loop_simulates iterate_simulates
  obtain ⟨p, hpath, hend⟩ := Seen.drive_path hpoll hnext hgoes polls
  refine ⟨p, hpath, ?_⟩
  rcases hend with ⟨this, -, rfl⟩ | ⟨this, -, rfl⟩
  · left
    cases hfuture : this.capabilityFuture with
    | some future => simpa [seen, phaseOf, hfuture] using Phase.Rests.waiting future
    | none => exact (rests_of_idle hfuture).1
  · exact .inr rfl

/-- Futures that are numbered in order, each below a bound, are within the bound. -/
theorem invocations_le {events : List (ToolEvent Json)}
    (hnumbered : (invocations events).map (·.1) = List.range (invocations events).length)
    (hallowed : ∀ event ∈ events, Allowed handler call event) :
    (invocations events).length ≤ handler.maxCapabilityCalls := by
  by_contra hgt
  have hmem : handler.maxCapabilityCalls ∈ (invocations events).map (·.1) := by
    rw [hnumbered, List.mem_range]
    omega
  obtain ⟨⟨future, request⟩, hinvocation, rfl⟩ := List.mem_map.mp hmem
  obtain ⟨event, hevent, hsome⟩ := List.mem_filterMap.mp hinvocation
  have hbelow := hallowed event hevent
  cases event with
  | invoked future' request' =>
    cases hsome
    exact absurd hbelow.2 (lt_irrefl _)
  | _ => cases hsome

end ToolProtocol

/-! ### Tasks -/

namespace TaskProtocol

open AsyncRuntime

variable {mlua : Mlua Value Json}

/-- The phase that a task is in before an iteration. -/
def phaseOf (task : LuauTask Value) : Phase String :=
  match task.pending with
  | some (future, _) => .waiting future
  | none => .fresh

/-- A task that is in its loop, as a place of the protocol. -/
def inLoop (Value : Type) : Seen (LuauTask Value) (CallProgress String) (TaskEvent Value) where
  step := Turn (· = .error .cancelled)
  goes := fun task => task.terminal = false
  ends := fun task => task.terminal = true
  view := fun task => ⟨task.started, phaseOf task⟩
  settled := fun task => ⟨task.started, .settled⟩

/-- A task between its polls; one that is over is polled, too. -/
def polled (Value : Type) : Seen (LuauTask Value) (CallProgress String) (TaskEvent Value) where
  step := Turn (· = .error .cancelled)
  goes := fun _ => True
  ends := fun task => task.terminal = true
  view := fun task => ⟨task.started, if task.terminal then .settled else phaseOf task⟩
  settled := fun task => ⟨task.started, .settled⟩

theorem settle_reaches (task : LuauTask Value) {phase : Phase String}
    {result : Except AsyncRuntimeError (List Value)} (hmay : phase.MaySettle) :
    (inLoop Value).Reaches ⟨task.started, phase⟩ (task.settle result) :=
  ⟨_, .single (.settle hmay), rfl, rfl⟩

theorem settle_cancelled_reaches (task : LuauTask Value) :
    (inLoop Value).Reaches ⟨task.started, .cancelling⟩ (task.settle (.error .cancelled)) :=
  ⟨_, .single (.settleCancelled rfl), rfl, rfl⟩

theorem onYield_reaches {task : LuauTask Value} (hgoes : task.terminal = false)
    (values : List Value) :
    (inLoop Value).Reaches ⟨task.started, .running⟩ (task.onYield mlua values) := by
  rw [LuauTask.onYield]
  split
  · exact settle_reaches task .running
  · exact ⟨_, .single .invoke, hgoes, rfl⟩

/-- A resumption leads through the running phase. -/
theorem resumeThread_reaches (task : LuauTask Value) {phase : Phase String}
    {argument : Option String} (hgoes : task.terminal = false)
    (hresume : (inLoop Value).step ⟨task.started, phase⟩ (.resumed argument)
      ⟨task.started, .running⟩) (answers : Answers Value) :
    (inLoop Value).Reaches ⟨task.started, phase⟩ (task.resumeThread mlua argument answers) := by
  rw [LuauTask.resumeThread]
  refine Seen.Reaches.emit (.single hresume) ?_
  split
  · exact settle_reaches task .running
  · split_ifs
    · exact settle_reaches task .running
    · exact settle_reaches task .running
    · exact onYield_reaches hgoes _

theorem pollPending_reaches (task : LuauTask Value) (hgoes : task.terminal = false)
    (future : Nat) (request : HostRequest) (answers : Answers Value) :
    (inLoop Value).Reaches ⟨task.started, .waiting future⟩
      (task.pollPending mlua future request answers) := by
  rw [LuauTask.pollPending]
  split
  · exact Seen.Reaches.emit (.single .abandon) (settle_cancelled_reaches task)
  · split
    · exact ⟨_, .nil, hgoes, rfl⟩
    · refine Seen.Reaches.emit (.single .complete) ?_
      split
      · exact settle_reaches task (.holding _)
      · exact resumeThread_reaches task hgoes .resume answers
    · exact Seen.Reaches.emit (.single .fail) (settle_reaches task .failing)

/-- An iteration that begins cancelled drops the pending call and settles. -/
theorem cancel_reaches (task : LuauTask Value) :
    (inLoop Value).Reaches ⟨task.started, phaseOf task⟩
      (emit (.began true :: (task.pending.map fun call => .dropped call.1).toList)
        ({ task with pending := none }.settle (.error .cancelled))) := by
  refine Seen.Reaches.emit ?_ (settle_cancelled_reaches { task with pending := none })
  rw [phaseOf]
  cases task.pending with
  | some call => exact .cons .cancelWaiting (.single .drop)
  | none => exact .single (.cancelIdle .fresh rfl)

/-- **An iteration** of the loop keeps to the protocol. -/
theorem iterate_simulates : (inLoop Value).Simulates (LuauTask.iterate mlua) := by
  intro task answers hgoes
  rw [LuauTask.iterate]
  split
  · exact cancel_reaches task
  · obtain ⟨initial, pending, terminal, started⟩ := task
    cases pending with
    | some call =>
      refine Seen.Reaches.emit (.single (.begin (.waiting call.1))) ?_
      exact pollPending_reaches ⟨initial, none, terminal, started⟩ hgoes call.1 call.2 answers
    | none =>
      refine Seen.Reaches.emit (.single (.begin .fresh)) ?_
      exact resumeThread_reaches ⟨none, none, terminal, started⟩ hgoes .start answers

theorem view_inLoop {task : LuauTask Value} (hgoes : task.terminal = false) :
    (polled Value).view task = (inLoop Value).view task := by
  simp [polled, inLoop, hgoes]

theorem view_terminal {task : LuauTask Value} (hterminal : task.terminal = true) :
    (polled Value).view task = ⟨task.started, .settled⟩ := by
  simp [polled, hterminal]

theorem lands_polled {flow : TaskFlow Value} {p : CallProgress String}
    (h : (inLoop Value).Lands flow p) : (polled Value).Lands flow p := by
  cases flow with
  | again task => exact ⟨trivial, h.2.trans (view_inLoop h.1).symm⟩
  | pending task => exact ⟨trivial, h.2.trans (view_inLoop h.1).symm⟩
  | ready task result => exact h

/-- **A poll** keeps to the protocol, also after the end. -/
theorem poll_simulates : (polled Value).Simulates (LuauTask.poll mlua) := by
  intro task answers _
  rw [LuauTask.poll]
  split
  next hterminal =>
    rw [view_terminal hterminal]
    exact ⟨⟨task.started, .settled⟩, .single .refuse, hterminal, rfl⟩
  next hterminal =>
    have hgoes : task.terminal = false := by simpa using hterminal
    have hloop : (inLoop Value).Simulates (loop (LuauTask.iterate mlua)) :=
      Seen.loop_simulates iterate_simulates
    obtain ⟨p, hpath, hlands⟩ := hloop task answers hgoes
    rw [view_inLoop hgoes]
    exact ⟨p, hpath, lands_polled hlands⟩

/-- The events of a task are a path of the protocol. -/
theorem events_path (arguments : List Value) (polls : List (List (Answers Value))) :
    ∃ p, Path (polled Value).step ⟨0, .fresh⟩
      ((LuauTask.start arguments).events mlua polls) p ∧ p.phase.Between := by
  have hnext : ∀ flow p task, (polled Value).Lands flow p →
      Flow.returned (R := Except AsyncRuntimeError (List Value)) flow = some task →
        (polled Value).goes task ∧ p = (polled Value).view task := by
    intro flow p task hlands hreturned
    cases flow with
    | again state => cases hreturned
    | pending state =>
      cases hreturned
      exact hlands
    | ready state result =>
      cases hreturned
      exact ⟨trivial, hlands.2.trans (view_terminal hlands.1).symm⟩
  have hpoll : (polled Value).Simulates (LuauTask.poll mlua) := poll_simulates
  have hgoes : (polled Value).goes (LuauTask.start arguments) := trivial
  obtain ⟨p, hpath, hend⟩ := Seen.drive_path hpoll hnext hgoes polls
  refine ⟨p, hpath, ?_⟩
  rcases hend with ⟨task, -, rfl⟩ | ⟨task, -, rfl⟩
  · cases hterminal : task.terminal with
    | true => exact .inr (by simp [polled, hterminal])
    | false =>
      rw [view_inLoop hterminal]
      left
      change (phaseOf task).Rests
      rw [phaseOf]
      split
      · exact .waiting _
      · exact .fresh
  · exact .inr rfl

end TaskProtocol

/-! ### The protocol -/

end Tea.Contract
