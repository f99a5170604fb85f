/-
  Contract/SchedulerAgreement.lean
  ================================
  **Sequential and parallel scheduling agree.**

  With tools and hooks that do not depend on the context, each call of a batch has a
  verdict that is a function of the call (`verdict`).  Whatever the scheduler and
  whatever the order of completion, a batch that is neither cancelled nor stopped by
  a terminal failure appends the verdicts of its calls in source order.
-/
import Tea.Tools.Ledger
import Tea.Lifecycle.Script

namespace Tea.Contract

open Tea.Async Tea.Core Tea.Run Tea.Lifecycle Tea.Tools

variable {h : RunHandle} {w w' : World} {m : Now} {s s' : Batch}
  {acts : Now → ClientOp → Prop} {answers : Now → (query : Query) → Reply query → Prop}

/-! ### Verdicts -/

/-- Tools and hooks whose replies depend on their arguments alone. -/
structure Independent where
  before : ToolCall → Except HookError BeforeToolCall
  execute : ToolCall → Except ToolError AgentToolResult
  after : ToolCall → AgentToolResult → Except HookError AfterToolCall

/-- The replies of the host are these, whenever they come; a tool may stay pending as
    long as it likes. -/
structure Independent.Answers (F : Independent)
    (answers : Now → (query : Query) → Reply query → Prop) : Prop where
  before : ∀ m call context reply,
    answers m (.beforeToolCall call context) reply → reply = F.before call
  execute : ∀ m call reply, answers m (.pollTool call) (some reply) → reply = F.execute call
  after : ∀ m call result context reply,
    answers m (.afterToolCall call result context) reply → reply = F.after call result

variable {F : Independent}

/-- The result of a call that is executed, and whether it asks for the end of the run. -/
def executedVerdict (F : Independent) (call : ToolCall) : AgentToolResult × Bool :=
  let result := executionResult call (F.execute call)
  finalResult call result (F.after call result)

def decidedVerdict (F : Independent) (call : ToolCall) :
    Except HookError BeforeToolCall → AgentToolResult × Bool
  | .ok .allow => executedVerdict F call
  | .ok (.block reason) => (errorToolResult call reason, false)
  | .ok (.terminate reason) => (errorToolResult call reason, true)
  | .error error => (errorToolResult call error.message, false)

/-- The verdict on a call. -/
def verdict (h : RunHandle) (F : Independent) (call : ToolCall) : AgentToolResult × Bool :=
  match h.configuration.tool call.name with
  | none => (errorToolResult call ("Tool " ++ call.name ++ " not found"), false)
  | some tool =>
      match tool.validate call.arguments with
      | .error error => (errorToolResultFromError call error, false)
      | .ok () => decidedVerdict F call (F.before call)

/-- What the verdict adds to the transcript. -/
def recordedVerdict (h : RunHandle) (F : Independent) (call : ToolCall) :
    ToolCall × AgentToolResult :=
  (call, normalizeResultFailure (verdict h F call).1)

/-! ### The jobs follow the verdicts -/

/-- What the progress of a call says of its verdict. -/
def Bound (h : RunHandle) (F : Independent) (call : ToolCall) : Progress → Prop
  | .announced => True
  | .decided decision => verdict h F call = decidedVerdict F call decision
  | .running _ => verdict h F call = executedVerdict F call
  | .dropped => False
  | .settled source => source = .finished (F.execute call) ∧
      verdict h F call = executedVerdict F call
  | .finalized _ result terminate => verdict h F call = (result, terminate)
  | .ended _ result terminate => terminate = (verdict h F call).2 ∧
      normalizeResultFailure result = normalizeResultFailure (verdict h F call).1
  | .recorded _ result terminate => terminate = (verdict h F call).2 ∧
      normalizeResultFailure result = normalizeResultFailure (verdict h F call).1
  | .skipped => True

/-- The scheduler has not seen a cancellation, and every job is bound to its verdict. -/
structure Decided (h : RunHandle) (F : Independent) (s : Batch) : Prop where
  unseen : s.seen = false
  bound : ∀ job ∈ s.jobs, Bound h F job.call job.progress

variable {index : Nat} {call : ToolCall} {progress progress' : Progress}

theorem Decided.get (hd : Decided h F s) (hjob : s.jobs[index]? = some ⟨call, progress⟩) :
    Bound h F call progress := hd.bound _ (List.mem_of_getElem? hjob)

theorem Decided.set (hd : Decided h F s) (hseen : s'.seen = s.seen)
    (hjobs : s'.jobs = s.jobs.set index ⟨call, progress'⟩) (hbound : Bound h F call progress') :
    Decided h F s' where
  unseen := hseen.trans hd.unseen
  bound job hmem := by
    rw [hjobs] at hmem
    rcases List.mem_or_eq_of_mem_set hmem with hmem | rfl
    · exact hd.bound job hmem
    · exact hbound

theorem Decided.snoc (hd : Decided h F s) (hseen : s'.seen = s.seen)
    (hjobs : s'.jobs = s.jobs ++ [⟨call, progress⟩]) (hbound : Bound h F call progress) :
    Decided h F s' where
  unseen := hseen.trans hd.unseen
  bound job hmem := by
    rw [hjobs] at hmem
    rcases List.mem_append.mp hmem with hmem | hmem
    · exact hd.bound job hmem
    · rw [List.mem_singleton.mp hmem]
      exact hbound

theorem Decided.keep (hd : Decided h F s) (hseen : s'.seen = s.seen)
    (hjobs : Rearmed s.jobs s'.jobs) : Decided h F s' where
  unseen := hseen.trans hd.unseen
  bound job hmem := by
    rcases hjobs with hjobs | hjobs
    · rw [hjobs] at hmem
      exact hd.bound job hmem
    · rw [hjobs] at hmem
      obtain ⟨⟨call, progress⟩, hjob, rfl⟩ := List.mem_map.mp hmem
      have hbound := hd.bound _ hjob
      cases progress <;> exact hbound

/-- A refused call is refused with its verdict. -/
theorem Refuses.verdict {result : AgentToolResult} {terminate : Bool}
    (hr : Refuses h false s call progress result terminate) (hseen : s.seen = false)
    (hbound : Bound h F call progress) : verdict h F call = (result, terminate) := by
  cases hr with
  | unknown missing => simp only [Contract.verdict, missing]
  | invalid found invalid => simp only [Contract.verdict, found, invalid]
  | blocked => exact hbound
  | terminated => exact hbound
  | failed => exact hbound
  | cancelled seen =>
    rw [hseen] at seen
    cases seen
  | truncated run => cases run

/-- The end of a call is announced with its verdict. -/
theorem Decided.ends {source : Source} {result : AgentToolResult} {terminate : Bool}
    (hd : Decided h F s) (hjob : s.jobs[index]? = some ⟨call, progress⟩)
    (hends : Ends h false s call progress source result terminate) :
    Bound h F call (.ended source result terminate) := by
  have hbound := hd.get hjob
  cases hends with
  | refused refuses =>
    have hverdict := Refuses.verdict refuses hd.unseen hbound
    refine ⟨by rw [hverdict], ?_⟩
    rw [hverdict, normalizeResultFailure_idem]
  | @executed _ executed =>
    have hverdict : verdict h F call = (executed, terminate) := hbound
    refine ⟨by rw [hverdict], ?_⟩
    rw [hverdict]
    split
    · rfl
    · exact normalizeResultFailure_idem executed

theorem Decided.own (hd : Decided h F s) (hown : Own h false s w w' s')
    (hsilent : w.cancelled = false) : Decided h F s' := by
  cases hown with
  | aside => exact hd
  | begin => exact ⟨rfl, fun _ hmem => by cases hmem⟩
  | look => exact hd.keep (by simp [Batch.look, hsilent]) (.inl rfl)
  | lapse => exact hd.keep rfl (.inl rfl)
  | announce => exact hd.snoc rfl rfl trivial
  | reset => exact hd.keep rfl (.inl rfl)
  | sink job =>
    have hbound := hd.get job
    exact hd.set rfl rfl hbound
  | draw => exact hd.keep rfl (.draw _)
  | close job closes =>
    have hbound := hd.get job
    cases closes with
    | finished => exact hd.set rfl rfl hbound
    | cancelled seen =>
      rw [hd.unseen] at seen
      cases seen
    | dropped => exact hbound.elim
  | abort job seen =>
    rw [hd.unseen] at seen
    cases seen
  | deliver => exact hd.keep rfl (.inl rfl)
  | finish job hand ends => exact hd.set rfl rfl (hd.ends job ends)
  | append job =>
    have hbound := hd.get job
    exact hd.set rfl rfl hbound
  | skip => exact hd.snoc rfl rfl trivial
  | note => exact hd
  | outside run => cases run

theorem Decided.reply {query : Query} {reply : Reply query} (hd : Decided h F s)
    (hF : F.Answers answers) (ha : answers m query reply)
    (hreply : Replies h false s query reply s') : Decided h F s' := by
  cases hreply with
  | accepted => exact hd
  | refused => exact hd.keep rfl (.inl rfl)
  | decide job found valid =>
    refine hd.set rfl rfl ?_
    rw [hF.before _ _ _ _ ha]
    simp only [Bound, verdict, found, valid]
  | execute => exact hd
  | ready job =>
    refine hd.set rfl rfl ⟨?_, hd.get job⟩
    rw [hF.execute _ _ _ ha]
  | pending => exact hd.keep rfl (.inl rfl)
  | again job =>
    have hbound := hd.get job
    exact hd.set rfl rfl hbound
  | last job seen =>
    rw [hd.unseen] at seen
    cases seen
  | finalize job =>
    obtain ⟨rfl, hverdict⟩ := hd.get job
    refine hd.set rfl rfl ?_
    rw [hF.after _ _ _ _ _ ha]
    exact hverdict
  | wake => exact hd.keep rfl (.inl rfl)
  | outside run => cases run

theorem Own.cancelled_eq (hown : Own h false s w w' s') : w'.cancelled = w.cancelled := by
  cases hown with
  | aside aside => exact aside.cancelled
  | begin rest fresh opens =>
    rcases opens with aside | rfl
    · exact aside.cancelled
    · rfl
  | append job order pushes => exact pushes.2.2.2.2
  | skip rest order pushes => exact pushes.2.2.2
  | outside run => cases run
  | _ => rfl

/-- As long as nobody cancels, the jobs follow the verdicts. -/
theorem decided_invariant (hF : F.Answers answers) (w₀ : World) :
    (machine h false).Invariant (Host.of acts answers) fun s m =>
      (Tools.Consistent s m.state ∧ Tools.Written w₀ s m.state) ∧
        (m.state.cancelled = true ∨ Decided h F s) := by
  refine (written_invariant h w₀).and ?_ ?_ ?_
  · rintro s m w _ hd ⟨op, -, rfl⟩
    exact hd.imp_left fun hcancelled => apply_cancelled op hcancelled
  · intro s m update s' _ hd hown
    rcases hd with hcancelled | hd
    · exact .inl ((Own.cancelled_eq hown).trans hcancelled)
    · cases hsilent : m.state.cancelled with
      | true => exact .inl ((Own.cancelled_eq hown).trans hsilent)
      | false => exact .inr (hd.own hown hsilent)
  · intro s m query reply s' _ hd ha hreply
    exact hd.imp_right fun hd => hd.reply hF ha hreply

/-! ### Agreement -/

/-- The batch has appended the verdicts of its calls, and asks for the end of the run
    if all of them do. -/
structure Concluded (h : RunHandle) (F : Independent) (w : World) (calls : List ToolCall)
    (outcome : ToolBatchOutcome) (m : Now) : Prop where
  messages : m.state.agent.messages = w.agent.messages ++
    resultMessages (calls.map (recordedVerdict h F)) w.agent.nextMessageId
  allTerminate : outcome.allTerminate = calls.all fun call => (verdict h F call).2

theorem Decided.concluded {calls : List ToolCall} {parallel : Bool} {outcome : ToolBatchOutcome}
    (hd : Decided h F s) (hw : Tools.Written w s m.state) (hc : Completed calls parallel outcome s)
    (hterminal : outcome.terminalFailure = none ∨ parallel = true) :
    Concluded h F w calls outcome m where
  messages := by
    have hrecorded : s.jobs.filterMap Job.recorded = calls.map (recordedVerdict h F) := by
      rw [← hc.jobs, List.map_map, ← List.filterMap_eq_map]
      refine List.filterMap_congr fun job hmem => ?_
      obtain ⟨source, result, terminate, hprogress⟩ := hc.executed hterminal job hmem
      have hbound := hd.bound job hmem
      obtain ⟨call, progress⟩ := job
      subst hprogress
      simp only [Job.recorded, Function.comp_apply, recordedVerdict, hbound.2]
    obtain ⟨skips, hmessages, hskips⟩ := hw.results
    rw [hrecorded] at hmessages
    rcases hskips with ⟨⟨job, hmem, hskipped⟩, -⟩ | ⟨rfl, -⟩
    · obtain ⟨source, result, terminate, hprogress⟩ := hc.executed hterminal job hmem
      rw [hprogress] at hskipped
      cases hskipped
    · rw [hmessages, List.append_nil]
  allTerminate := by
    have hjob : ∀ job ∈ s.jobs, job.progress.terminates = (verdict h F job.call).2 := by
      intro job hmem
      obtain ⟨source, result, terminate, hprogress⟩ := hc.executed hterminal job hmem
      have hbound := hd.bound job hmem
      obtain ⟨call, progress⟩ := job
      subst hprogress
      exact hbound.1
    rw [hc.terminate hterminal, ← hc.jobs, List.all_map, Bool.eq_iff_iff, List.all_eq_true,
      List.all_eq_true]
    constructor
    · intro hall job hmem
      exact (hjob job hmem).symm.trans (hall job hmem)
    · intro hall job hmem
      exact (hjob job hmem).trans (hall job hmem)

/-- A completed run of either executor that was not cancelled has concluded. -/
theorem concluded_of_run {calls : List ToolCall} {parallel : Bool} {outcome : ToolBatchOutcome}
    {p : Drive ToolBatchOutcome} (hF : F.Answers answers)
    (hfollows : p.Follows (machine h false) (Completed calls parallel) Broken { calls, parallel })
    (hrun : Run (Host.of acts answers) p (Now.start w) (.done outcome) m)
    (hsilent : m.state.cancelled = false)
    (hterminal : outcome.terminalFailure = none ∨ parallel = true) :
    Concluded h F w calls outcome m := by
  have hstart : (Tools.Consistent { calls, parallel } w ∧ Tools.Written w { calls, parallel } w) ∧
      (w.cancelled = true ∨ Decided h F { calls, parallel }) :=
    ⟨⟨fun hseen => (by cases hseen), written_start rfl⟩, .inr ⟨rfl, fun _ hmem => by cases hmem⟩⟩
  obtain ⟨s, hcompleted, ⟨-, hwritten⟩, hdecided⟩ :=
    hfollows.run (decided_invariant hF w) hstart hrun
  rcases hdecided with hcancelled | hdecided
  · rw [hsilent] at hcancelled
    cases hcancelled
  · exact hdecided.concluded hwritten hcompleted hterminal

/-- **Agreement of the schedulers.**  Two completed runs of a batch, one sequential and
    one parallel, that were not cancelled and met no terminal failure, append the same
    messages: the verdicts of the calls in source order.  Their hosts need agree in the
    tools and hooks only, not in when a tool is ready nor in what other clients do. -/
theorem schedulers_agree {acts₁ acts₂ : Now → ClientOp → Prop}
    {answers₁ answers₂ : Now → (query : Query) → Reply query → Prop} {fuel₁ fuel₂ : Nat}
    {calls : List ToolCall} {sequential parallel : ToolBatchOutcome} {m₁ m₂ : Now}
    (hF₁ : F.Answers answers₁) (hF₂ : F.Answers answers₂)
    (hsequential : Run (Host.of acts₁ answers₁) (executeToolCallsSequential h fuel₁ calls true)
      (Now.start w) (.done sequential) m₁)
    (hparallel : Run (Host.of acts₂ answers₂) (executeToolCallsParallel h fuel₂ calls)
      (Now.start w) (.done parallel) m₂)
    (hsilent₁ : m₁.state.cancelled = false) (hsilent₂ : m₂.state.cancelled = false)
    (hterminal : sequential.terminalFailure = none) :
    m₁.state.agent.messages = m₂.state.agent.messages ∧
      sequential.allTerminate = parallel.allTerminate ∧
      m₁.state.agent.messages = w.agent.messages ++
        resultMessages (calls.map (recordedVerdict h F)) w.agent.nextMessageId := by
  have hready : ∀ {parallel : Bool}, Ready false calls parallel { calls, parallel } := fun {_} =>
    ⟨⟨fun _ hmem => (by cases hmem), rfl, rfl⟩, rfl, .inr ⟨rfl, rfl, rfl⟩⟩
  have hfirst := concluded_of_run hF₁
    (executeToolCallsSequential_follows fuel₁ hready fun hruns => by cases hruns) hsequential
    hsilent₁ (.inl hterminal)
  have hsecond := concluded_of_run hF₂ (executeToolCallsParallel_follows fuel₂ hready) hparallel
    hsilent₂ (.inr rfl)
  refine ⟨?_, ?_, hfirst.messages⟩
  · rw [hfirst.messages, hsecond.messages]
  · rw [hfirst.allTerminate, hsecond.allTerminate]

/-- Tools that answer with their call's name, under hooks that change nothing. -/
def echoing : Independent where
  before _ := .ok .allow
  execute call := .ok { toolCallId := call.id, content := call.name }
  after _ _ := .ok {}

def echoes : Script where
  execute call := some (echoing.execute call)

theorem echoes_answers : echoing.Answers echoes.answers where
  before m call context reply ha := by
    obtain ⟨items, rest, hreply⟩ := ha
    simp only [Script.reply, Option.some.injEq, Prod.mk.injEq] at hreply
    exact hreply.1.symm
  execute m call reply ha := by
    obtain ⟨items, rest, hreply⟩ := ha
    simp only [Script.reply, echoes, Option.some.injEq, Prod.mk.injEq] at hreply
    exact hreply.1.symm
  after m call result context reply ha := by
    obtain ⟨items, rest, hreply⟩ := ha
    simp only [Script.reply, Option.some.injEq, Prod.mk.injEq] at hreply
    exact hreply.1.symm

def echoed (p : Drive ToolBatchOutcome) : Outcome Query CoreError ToolBatchOutcome × Now :=
  echoes.play [] p (Now.start ongoing)

/-- Both executors answer two calls alike. -/
theorem schedulers_agree_echoed :
    ∃ sequential parallel,
      (echoed (executeToolCallsSequential (lookupHandle .parallel) 3 [firstCall, secondCall]
        true)).1 = .done sequential ∧
      (echoed (executeToolCallsParallel (lookupHandle .parallel) 3 [firstCall, secondCall])).1 =
        .done parallel ∧
      sequential.allTerminate = parallel.allTerminate := by
  have hsequential := echoes.run [] (executeToolCallsSequential (lookupHandle .parallel) 3
    [firstCall, secondCall] true) (Now.start ongoing)
  have hparallel := echoes.run [] (executeToolCallsParallel (lookupHandle .parallel) 3
    [firstCall, secondCall]) (Now.start ongoing)
  have hfirst : (echoed (executeToolCallsSequential (lookupHandle .parallel) 3
      [firstCall, secondCall] true)).1 = .done {} := by
    decide +kernel
  have hsecond : (echoed (executeToolCallsParallel (lookupHandle .parallel) 3
      [firstCall, secondCall])).1 = .done {} := by
    decide +kernel
  unfold echoed at hfirst hsecond
  rw [hfirst] at hsequential
  rw [hsecond] at hparallel
  refine ⟨_, _, hfirst, hsecond, ?_⟩
  exact (schedulers_agree echoes_answers echoes_answers hsequential hparallel (by decide +kernel)
    (by decide +kernel) rfl).2.1

end Tea.Contract
