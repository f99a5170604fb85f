/-
  Contract/ToolResults.lean
  =========================
  **The events and the transcript agree on a tool result** exactly if the batch is
  sequential, or the hooks leave a failure in the errors and only there.

  The sequential scheduler normalizes the failure of a result before it announces
  the end of the call, the parallel one only before it appends the message.
-/
import Tea.Tools.Ledger
import Tea.Lifecycle.Script

namespace Tea.Contract

open Tea.Async Tea.Core Tea.Run Tea.Lifecycle Tea.Tools

variable {h : RunHandle} {w w₀ : World} {m : Now} {s s' : Batch} {past : List (Step World Query Reply)}
  {acts : Now → ClientOp → Prop} {answers : Now → (query : Query) → Reply query → Prop}

/-! ### Reports -/

/-- What is said of the result of a call. -/
structure Report where
  toolCallId : ToolCallId
  toolName : String
  content : String
  details : Option SerializedJson
  usage : Option Usage
  addedToolNames : List String
  terminate : Bool
  isError : Bool
  failure : Option ToolFailure
deriving DecidableEq

/-- The report of a result with the id and the name of its call. -/
def reportOf (id : ToolCallId) (name : String) (result : AgentToolResult) : Report where
  toolCallId := id
  toolName := name
  content := result.content
  details := result.details
  usage := result.usage
  addedToolNames := result.addedToolNames
  terminate := result.terminate
  isError := result.isError
  failure := result.failure

def endReport : AgentEventKind → Option Report
  | .toolExecutionEnd id name result => some (reportOf id name result)
  | _ => none

def messageReport : AgentMessage → Option Report
  | .toolResult _ toolCallId toolName content details usage addedToolNames terminate isError
      failure =>
      some { toolCallId, toolName, content, details, usage, addedToolNames, terminate, isError,
             failure }
  | _ => none

/-- The ends that were announced since `w`. -/
def eventReports (w : World) (m : Now) : List Report :=
  (m.state.run.kinds.drop w.run.kinds.length).filterMap endReport

/-- The results that were appended since `w`. -/
def transcriptReports (w : World) (m : Now) : List Report :=
  (m.state.agent.messages.drop w.agent.messages.length).filterMap messageReport

/-- The result of every call whose end was announced says what the event says.  The
    calls that a terminal failure skipped were never announced; their results come last. -/
def Agree (w : World) (m : Now) : Prop :=
  ((transcriptReports w m).take (eventReports w m).length).Perm (eventReports w m)

/-- The same of the results that are in the transcript so far. -/
def AgreeSoFar (w : World) (m : Now) : Prop :=
  ((transcriptReports w m).take (eventReports w m).length).Subperm (eventReports w m)

/-- A result has a failure exactly if it is an error. -/
def Coherent (result : AgentToolResult) : Prop := result.isError = result.failure.isSome

/-- The hooks have left every result coherent. -/
def CoherentReplies (past : List (Step World Query Reply)) : Prop :=
  ∀ call result context after,
    Step.reply (.afterToolCall call result context) (.ok after) ∈ past →
      Coherent (applyAfterToolCall result after)

theorem coherent_normalize (result : AgentToolResult) :
    Coherent (normalizeResultFailure result) := by
  unfold Coherent normalizeResultFailure
  cases result.isError with
  | false => rfl
  | true => cases result.failure <;> rfl

theorem normalize_coherent {result : AgentToolResult} (hcoherent : Coherent result) :
    normalizeResultFailure result = result := by
  obtain ⟨id, content, details, usage, names, terminate, isError, failure⟩ := result
  unfold Coherent at hcoherent
  cases failure with
  | none =>
    have herror : isError = false := hcoherent
    subst herror
    rfl
  | some failure =>
    have herror : isError = true := hcoherent
    subst herror
    rfl

/-! ### The reports of the jobs -/

def reportEnded (ended : ToolCall × AgentToolResult) : Report :=
  reportOf ended.1.id ended.1.name ended.2

theorem filterMap_endReport (kinds : List AgentEventKind) :
    kinds.filterMap endReport =
      (kinds.filterMap endOf).map fun ended => reportOf ended.1 ended.2.1 ended.2.2 := by
  rw [List.map_filterMap]
  refine List.filterMap_congr fun kind _ => ?_
  cases kind <;> rfl

theorem filterMap_messageReport (results : List (ToolCall × AgentToolResult)) (next : UInt64) :
    (resultMessages results next).filterMap messageReport = results.map reportEnded := by
  induction results generalizing next with
  | nil => rfl
  | cons result rest ih =>
    simp only [resultMessages, toolResultMessage, List.filterMap_cons, messageReport, ih,
      List.map_cons]
    rfl

/-- The reports of the ended jobs, and those of the recorded ones. -/
theorem Tools.Written.reports {jobs : List Job} (hw : Tools.Written w s m.state)
    (hjobs : s.jobs = jobs) :
    (eventReports w m).Perm ((jobs.filterMap Job.ended).map reportEnded) ∧
      ∃ skips, transcriptReports w m = (jobs.filterMap Job.recorded).map reportEnded ++ skips ∧
        (skips = [] ∨ ∀ job ∈ jobs, job.progress.isRecorded = true) := by
  subst hjobs
  constructor
  · obtain ⟨kinds, hkinds, hperm⟩ := hw.ends
    rw [eventReports, hkinds, List.drop_left, filterMap_endReport]
    have hreports := hperm.map fun ended : ToolCallId × String × AgentToolResult =>
      reportOf ended.1 ended.2.1 ended.2.2
    rwa [List.map_map] at hreports
  · obtain ⟨skips, hmessages, hskips⟩ := hw.results
    rw [transcriptReports, hmessages, List.append_assoc, List.drop_left, List.filterMap_append,
      filterMap_messageReport]
    refine ⟨_, rfl, ?_⟩
    rcases hskips with hskip | ⟨rfl, -⟩
    · exact .inr hskip.2
    · exact .inl rfl

/-! ### The results of executed calls -/

/-- The result that a call has got so far. -/
def Job.outcome (job : Job) : Option AgentToolResult :=
  match job.progress with
  | .finalized _ result _ => some result
  | .ended _ result _ => some result
  | .recorded _ result _ => some result
  | _ => none

/-- Where the results of the jobs come from: an incoherent one is the work of a hook,
    and in a parallel batch every reply of a hook is the result of some call. -/
structure Traced (parallel : Bool) (s : Batch) (past : List (Step World Query Reply)) :
    Prop where
  scheduler : s.parallel = parallel
  coherent : CoherentReplies past →
    ∀ job ∈ s.jobs, ∀ result, Job.outcome job = some result → Coherent result
  normalized : parallel = false →
    ∀ job ∈ s.jobs, ∀ ended, job.ended = some ended → Coherent ended.2
  present : parallel = true → ∀ call result context after,
    Step.reply (.afterToolCall call result context) (.ok after) ∈ past →
      ∃ job ∈ s.jobs, Job.outcome job = some (applyAfterToolCall result after)

variable {parallel : Bool} {index : Nat} {call : ToolCall} {progress progress' : Progress}

theorem CoherentReplies.tail {step : Step World Query Reply}
    (hc : CoherentReplies (step :: past)) : CoherentReplies past :=
  fun call result context after hmem =>
    hc call result context after (List.mem_cons_of_mem _ hmem)

theorem rearm_outcome (job : Job) :
    Job.outcome job.rearm = Job.outcome job ∧ Job.ended job.rearm = Job.ended job := by
  obtain ⟨call, progress⟩ := job
  cases progress <;> exact ⟨rfl, rfl⟩

/-- A step that is no reply of the hook after a call, and leaves the results alone. -/
theorem Traced.keep {step : Step World Query Reply} (ht : Traced parallel s past)
    (hparallel : s'.parallel = s.parallel) (hjobs : Rearmed s.jobs s'.jobs)
    (hstep : ∀ call result context after,
      step ≠ .reply (.afterToolCall call result context) (.ok after)) :
    Traced parallel s' (step :: past) := by
  have hback : ∀ job' ∈ s'.jobs, ∃ job ∈ s.jobs,
      Job.outcome job' = Job.outcome job ∧ job'.ended = job.ended := by
    intro job' hmem
    rcases hjobs with hjobs | hjobs
    · exact ⟨job', by rwa [← hjobs], rfl, rfl⟩
    · rw [hjobs] at hmem
      obtain ⟨job, hjob, rfl⟩ := List.mem_map.mp hmem
      exact ⟨job, hjob, rearm_outcome job⟩
  have hforth : ∀ job ∈ s.jobs, ∃ job' ∈ s'.jobs, Job.outcome job' = Job.outcome job := by
    intro job hmem
    rcases hjobs with hjobs | hjobs
    · exact ⟨job, by rwa [hjobs], rfl⟩
    · exact ⟨job.rearm, by rw [hjobs]; exact List.mem_map_of_mem hmem, (rearm_outcome job).1⟩
  refine ⟨hparallel.trans ht.scheduler, ?_, ?_, ?_⟩
  · intro hc job' hmem result hresult
    obtain ⟨job, hjob, houtcome, -⟩ := hback job' hmem
    exact ht.coherent hc.tail job hjob result (houtcome.symm.trans hresult)
  · intro hp job' hmem ended hend
    obtain ⟨job, hjob, -, hended⟩ := hback job' hmem
    exact ht.normalized hp job hjob ended (hended.symm.trans hend)
  · intro hp call result context after hmem
    rcases List.mem_cons.mp hmem with heq | hmem
    · exact absurd heq.symm (hstep call result context after)
    · obtain ⟨job, hjob, houtcome⟩ := ht.present hp call result context after hmem
      obtain ⟨job', hjob', hsame⟩ := hforth job hjob
      exact ⟨job', hjob', hsame.trans houtcome⟩

/-- A job has come further. -/
theorem Traced.set {step : Step World Query Reply} (ht : Traced parallel s past)
    (hparallel : s'.parallel = s.parallel) (hjob : s.jobs[index]? = some ⟨call, progress⟩)
    (hjobs : s'.jobs = s.jobs.set index ⟨call, progress'⟩)
    (hkeep : parallel = true → ∀ result, Job.outcome ⟨call, progress⟩ = some result →
      Job.outcome ⟨call, progress'⟩ = some result)
    (hnew : CoherentReplies (step :: past) → ∀ result,
      Job.outcome ⟨call, progress'⟩ = some result → Coherent result ∨
        Job.outcome ⟨call, progress⟩ = some result)
    (hended : parallel = false → ∀ ended, Job.ended ⟨call, progress'⟩ = some ended →
      Coherent ended.2 ∨ Job.ended ⟨call, progress⟩ = some ended)
    (hstep : parallel = true → ∀ call' result context after,
      step = .reply (.afterToolCall call' result context) (.ok after) →
        Job.outcome ⟨call, progress'⟩ = some (applyAfterToolCall result after)) :
    Traced parallel s' (step :: past) := by
  have hold := List.mem_of_getElem? hjob
  have hself : (⟨call, progress'⟩ : Job) ∈ s'.jobs := by
    rw [hjobs]
    exact List.mem_set (List.getElem?_eq_some_iff.mp hjob).1 _
  have hcases : ∀ job ∈ s'.jobs, job = ⟨call, progress'⟩ ∨ job ∈ s.jobs := by
    intro job hmem
    rw [hjobs] at hmem
    exact (List.mem_or_eq_of_mem_set hmem).symm
  refine ⟨hparallel.trans ht.scheduler, ?_, ?_, ?_⟩
  · intro hc job hmem result hresult
    rcases hcases job hmem with rfl | hmem
    · rcases hnew hc result hresult with hcoherent | hbefore
      · exact hcoherent
      · exact ht.coherent hc.tail _ hold result hbefore
    · exact ht.coherent hc.tail job hmem result hresult
  · intro hp job hmem ended hend
    rcases hcases job hmem with rfl | hmem
    · rcases hended hp ended hend with hcoherent | hbefore
      · exact hcoherent
      · exact ht.normalized hp _ hold ended hbefore
    · exact ht.normalized hp job hmem ended hend
  · intro hp call' result context after hmem
    rcases List.mem_cons.mp hmem with heq | hmem
    · exact ⟨_, hself, hstep hp call' result context after heq.symm⟩
    · obtain ⟨job, hmem, houtcome⟩ := ht.present hp call' result context after hmem
      obtain ⟨i, hi⟩ := List.mem_iff_getElem?.mp hmem
      by_cases heq : i = index
      · subst heq
        rw [hjob, Option.some.injEq] at hi
        subst hi
        exact ⟨_, hself, hkeep hp _ houtcome⟩
      · refine ⟨job, ?_, houtcome⟩
        rw [hjobs]
        refine List.mem_of_getElem? (i := i) ?_
        rw [List.getElem?_set_ne (Ne.symm heq), hi]

/-- A call joins the batch. -/
theorem Traced.snoc {step : Step World Query Reply} (ht : Traced parallel s past)
    (hparallel : s'.parallel = s.parallel) (hjobs : s'.jobs = s.jobs ++ [⟨call, progress⟩])
    (hnone : Job.outcome ⟨call, progress⟩ = none) (hended : Job.ended ⟨call, progress⟩ = none)
    (hstep : ∀ call result context after,
      step ≠ .reply (.afterToolCall call result context) (.ok after)) :
    Traced parallel s' (step :: past) := by
  have hcases : ∀ job ∈ s'.jobs, job ∈ s.jobs ∨ job = ⟨call, progress⟩ := by
    intro job hmem
    rw [hjobs] at hmem
    simpa using hmem
  refine ⟨hparallel.trans ht.scheduler, ?_, ?_, ?_⟩
  · intro hc job hmem result hresult
    rcases hcases job hmem with hmem | rfl
    · exact ht.coherent hc.tail job hmem result hresult
    · rw [hnone] at hresult
      cases hresult
  · intro hp job hmem ended hend
    rcases hcases job hmem with hmem | rfl
    · exact ht.normalized hp job hmem ended hend
    · rw [hended] at hend
      cases hend
  · intro hp call' result context after hmem
    rcases List.mem_cons.mp hmem with heq | hmem
    · exact absurd heq.symm (hstep call' result context after)
    · obtain ⟨job, hmem, houtcome⟩ := ht.present hp call' result context after hmem
      exact ⟨job, by rw [hjobs]; exact List.mem_append_left _ hmem, houtcome⟩

/-- A job that has no result yet has come further, to a coherent one if to any. -/
theorem Traced.advance {step : Step World Query Reply} (ht : Traced parallel s past)
    (hparallel : s'.parallel = s.parallel) (hjob : s.jobs[index]? = some ⟨call, progress⟩)
    (hjobs : s'.jobs = s.jobs.set index ⟨call, progress'⟩)
    (hnone : Job.outcome ⟨call, progress⟩ = none)
    (hnew : ∀ result, Job.outcome ⟨call, progress'⟩ = some result → Coherent result)
    (hended : Job.ended ⟨call, progress'⟩ = none)
    (hstep : ∀ call result context after,
      step ≠ .reply (.afterToolCall call result context) (.ok after)) :
    Traced parallel s' (step :: past) := by
  refine ht.set hparallel hjob hjobs ?_ ?_ ?_ ?_
  · intro _ result hresult
    rw [hnone] at hresult
    cases hresult
  · intro _ result hresult
    exact .inl (hnew result hresult)
  · intro _ ended hend
    rw [hended] at hend
    cases hend
  · intro _ call' result context after heq
    exact absurd heq (hstep call' result context after)

theorem coherent_error (call : ToolCall) (content : String) :
    Coherent (errorToolResult call content) := rfl

theorem coherent_aborted (call : ToolCall) : Coherent (abortedToolResult call) := rfl

/-- The end of a call is announced; the parallel scheduler keeps its result. -/
theorem Traced.finish {step : Step World Query Reply} {source : Source}
    {result : AgentToolResult} {terminate : Bool} (ht : Traced parallel s past)
    (hjob : s.jobs[index]? = some ⟨call, progress⟩)
    (hends : Ends h false s call progress source result terminate)
    (hstep : ∀ call result context after,
      step ≠ .reply (.afterToolCall call result context) (.ok after)) :
    Traced parallel (s.put index call (.ended source result terminate)) (step :: past) := by
  cases hends with
  | @refused _ refused _ refuses =>
    refine ht.set rfl hjob rfl ?_ ?_ ?_ fun _ call' result context after heq =>
      absurd heq (hstep call' result context after)
    · intro _ result hresult
      cases refuses <;> cases hresult
    · intro _ result hresult
      cases hresult
      exact .inl (coherent_normalize _)
    · intro _ ended hend
      cases hend
      exact .inl (coherent_normalize _)
  | @executed _ executed =>
    refine ht.set rfl hjob rfl ?_ ?_ ?_ fun _ call' result context after heq =>
      absurd heq (hstep call' result context after)
    · intro hp result hresult
      rw [ht.scheduler, hp, if_pos rfl]
      exact hresult
    · intro _ result hresult
      by_cases hp : s.parallel = true
      · rw [if_pos hp] at hresult
        exact .inr hresult
      · rw [if_neg hp] at hresult
        cases hresult
        exact .inl (coherent_normalize _)
    · intro hp ended hend
      rw [ht.scheduler, hp] at hend
      cases hend
      exact .inl (coherent_normalize _)

theorem Traced.own {w' : World} (hown : Own h false s w w' s') (ht : Traced parallel s past) :
    Traced parallel s' (.own w w' :: past) := by
  have hother : ∀ call result context after, (Step.own w w' : Step World Query Reply) ≠
      .reply (.afterToolCall call result context) (.ok after) := fun _ _ _ _ heq => by cases heq
  cases hown with
  | aside => exact ht.keep rfl (.inl rfl) hother
  | begin rest fresh =>
    obtain ⟨hjobs, -, hparallel⟩ := fresh.resolve_left (by simp)
    exact ht.keep hparallel.symm (.inl hjobs.symm) hother
  | look => exact ht.keep rfl (.inl rfl) hother
  | lapse => exact ht.keep rfl (.inl rfl) hother
  | announce => exact ht.snoc rfl rfl rfl rfl hother
  | reset => exact ht.keep rfl (.inl rfl) hother
  | sink job => exact ht.advance rfl job rfl rfl (fun _ h => by cases h) rfl hother
  | draw => exact ht.keep rfl (.draw _) hother
  | close job closes =>
    cases closes with
    | dropped =>
      refine ht.advance rfl job rfl rfl (fun result hresult => ?_) rfl hother
      cases hresult
      exact coherent_aborted _
    | _ => exact ht.advance rfl job rfl rfl (fun _ h => by cases h) rfl hother
  | abort job =>
    refine ht.advance rfl job rfl rfl (fun result hresult => ?_) rfl hother
    cases hresult
    exact coherent_aborted _
  | deliver => exact ht.keep rfl (.inl rfl) hother
  | finish job hand ends => exact ht.finish job ends hother
  | append job =>
    exact ht.set rfl job rfl (fun _ _ h => h) (fun _ _ h => .inr h) (fun _ _ h => .inr h)
      fun _ call' result context after heq => absurd heq (hother call' result context after)
  | skip => exact ht.snoc rfl rfl rfl rfl hother
  | note => exact ht.keep rfl (.inl rfl) hother
  | outside run => cases run

theorem Traced.reply {query : Query} {reply : Reply query}
    (hreply : Replies h false s query reply s') (ht : Traced parallel s past) :
    Traced parallel s' (.reply query reply :: past) := by
  cases hreply with
  | accepted => exact ht.keep rfl (.inl rfl) fun _ _ _ _ heq => by cases heq
  | refused => exact ht.keep rfl (.inl rfl) fun _ _ _ _ heq => by cases heq
  | decide job =>
    exact ht.advance rfl job rfl rfl (fun _ h => by cases h) rfl fun _ _ _ _ heq => by cases heq
  | execute => exact ht.keep rfl (.inl rfl) fun _ _ _ _ heq => by cases heq
  | ready job =>
    exact ht.advance rfl job rfl rfl (fun _ h => by cases h) rfl fun _ _ _ _ heq => by cases heq
  | pending => exact ht.keep rfl (.inl rfl) fun _ _ _ _ heq => by cases heq
  | again job =>
    exact ht.advance rfl job rfl rfl (fun _ h => by cases h) rfl fun _ _ _ _ heq => by cases heq
  | last job =>
    exact ht.advance rfl job rfl rfl (fun _ h => by cases h) rfl fun _ _ _ _ heq => by cases heq
  | @finalize _ call source context after job =>
    refine ht.set rfl job rfl (fun _ _ h => by cases h) ?_ (fun _ _ h => by cases h) ?_
    · intro hc result hresult
      cases after with
      | error error =>
        cases hresult
        exact .inl (coherent_error _ _)
      | ok after =>
        cases hresult
        exact .inl (hc _ _ _ after List.mem_cons_self)
    · intro _ call' result context' after' heq
      cases heq
      rfl
  | wake => exact ht.keep rfl (.inl rfl) fun _ _ _ _ heq => by cases heq
  | outside run => cases run

theorem traced_start (hjobs : s.jobs = []) : Traced s.parallel s [] where
  scheduler := rfl
  coherent _ job hmem := by
    rw [hjobs] at hmem
    cases hmem
  normalized _ job hmem := by
    rw [hjobs] at hmem
    cases hmem
  present _ _ _ _ _ hmem := by cases hmem

theorem Traced.interference {w' : World} (ht : Traced parallel s past) :
    Traced parallel s (.interference w w' :: past) :=
  ht.keep rfl (.inl rfl) fun _ _ _ _ heq => by cases heq

/-! ### Agreement -/

/-- All that were ended have a coherent result. -/
def CoherentEnds (jobs : List Job) : Prop :=
  ∀ job ∈ jobs, ∀ ended, job.ended = some ended → Coherent ended.2

theorem Traced.ends (ht : Traced parallel s past)
    (hcondition : parallel = false ∨ CoherentReplies past) : CoherentEnds s.jobs := by
  intro job hmem ended hend
  rcases hcondition with hp | hc
  · exact ht.normalized hp job hmem ended hend
  · refine ht.coherent hc job hmem ended.2 ?_
    obtain ⟨call, progress⟩ := job
    cases progress with
    | ended => cases hend; rfl
    | recorded => cases hend; rfl
    | _ => cases hend

def normalizedEnd (ended : ToolCall × AgentToolResult) : ToolCall × AgentToolResult :=
  (ended.1, normalizeResultFailure ended.2)

/-- Once all calls are recorded, their results are those that ended them, normalized. -/
theorem recorded_eq {jobs : List Job} (hall : ∀ job ∈ jobs, job.progress.isRecorded = true) :
    jobs.filterMap Job.recorded = (jobs.filterMap Job.ended).map normalizedEnd := by
  rw [List.map_filterMap]
  refine List.filterMap_congr fun job hmem => ?_
  have hrecorded := hall job hmem
  obtain ⟨call, progress⟩ := job
  cases progress with
  | recorded => rfl
  | skipped => rfl
  | _ => cases hrecorded

theorem recorded_sublist {jobs : List Job} (hends : CoherentEnds jobs) :
    (jobs.filterMap Job.recorded).Sublist (jobs.filterMap Job.ended) := by
  induction jobs with
  | nil => exact .slnil
  | cons job rest ih =>
    replace ih := ih fun other hother => hends other (List.mem_cons_of_mem _ hother)
    have hjob := hends job List.mem_cons_self
    obtain ⟨call, progress⟩ := job
    cases progress with
    | ended source result terminate => exact ih.cons _
    | recorded source result terminate =>
      have hsame : normalizeResultFailure result = result := normalize_coherent (hjob _ rfl)
      simp only [List.filterMap_cons, Job.recorded, Job.ended, hsame]
      exact ih.cons_cons _
    | _ => exact ih

/-- The messages of the calls that were announced are among the recorded results. -/
theorem reports_take (hw : Tools.Written w s m.state) :
    ((transcriptReports w m).take (eventReports w m).length).Sublist
      ((s.jobs.filterMap Job.recorded).map reportEnded) := by
  obtain ⟨hevents, skips, htranscript, hskips⟩ := Tools.Written.reports hw rfl
  rw [htranscript]
  rcases hskips with rfl | hall
  · rw [List.append_nil]
    exact List.take_sublist _ _
  · have hlength : (eventReports w m).length =
        ((s.jobs.filterMap Job.recorded).map reportEnded).length := by
      rw [hevents.length_eq, recorded_eq hall]
      simp
    rw [hlength, List.take_left]

theorem agree_so_far (hw : Tools.Written w s m.state) (hends : CoherentEnds s.jobs) :
    AgreeSoFar w m := by
  have hevents := (Tools.Written.reports hw rfl).1
  have hsublist := (reports_take hw).trans ((recorded_sublist hends).map reportEnded)
  exact hsublist.subperm.trans hevents.symm.subperm

/-- In a completed batch the two agree exactly if all ends were coherent. -/
theorem agree_iff (hw : Tools.Written w s m.state)
    (hall : ∀ job ∈ s.jobs, job.progress.isRecorded = true) :
    Agree w m ↔ CoherentEnds s.jobs := by
  obtain ⟨hevents, skips, htranscript, -⟩ := Tools.Written.reports hw rfl
  have hlength : (eventReports w m).length =
      ((s.jobs.filterMap Job.recorded).map reportEnded).length := by
    rw [hevents.length_eq, recorded_eq hall]
    simp
  have htake : (transcriptReports w m).take (eventReports w m).length =
      ((s.jobs.filterMap Job.ended).map normalizedEnd).map reportEnded := by
    rw [htranscript, hlength, List.take_left, recorded_eq hall]
  rw [Agree, htake]
  constructor
  · intro hperm job hmem ended hend
    have hreported : reportEnded ended ∈ (s.jobs.filterMap Job.ended).map reportEnded :=
      List.mem_map_of_mem (List.mem_filterMap.mpr ⟨job, hmem, hend⟩)
    have hnormalized := (hperm.trans hevents).mem_iff.mpr hreported
    obtain ⟨_, hnormal, heq⟩ := List.mem_map.mp hnormalized
    obtain ⟨other, -, rfl⟩ := List.mem_map.mp hnormal
    have herror : (reportEnded (normalizedEnd other)).isError = (reportEnded ended).isError := by
      rw [heq]
    have hfailure : (reportEnded (normalizedEnd other)).failure =
        (reportEnded ended).failure := by rw [heq]
    have hcoherent := coherent_normalize other.2
    unfold Coherent at hcoherent ⊢
    exact herror.symm.trans (hcoherent.trans (congrArg Option.isSome hfailure))
  · intro hends
    refine List.Perm.trans (.of_eq ?_) hevents.symm
    rw [List.map_map]
    refine List.map_congr_left fun ended hmem => ?_
    obtain ⟨job, hjob, hend⟩ := List.mem_filterMap.mp hmem
    have hsame := normalize_coherent (hends job hjob ended hend)
    rw [Function.comp_apply, normalizedEnd, hsame]

/-- In a completed parallel batch every reply of a hook was announced. -/
theorem Traced.replies (ht : Traced true s past)
    (hall : ∀ job ∈ s.jobs, job.progress.isRecorded = true) (hends : CoherentEnds s.jobs) :
    CoherentReplies past := by
  intro call result context after hmem
  obtain ⟨job, hjob, houtcome⟩ := ht.present rfl call result context after hmem
  have hrecorded := hall job hjob
  have hcoherent := hends job hjob
  obtain ⟨call, progress⟩ := job
  cases progress with
  | recorded =>
    cases houtcome
    exact hcoherent _ rfl
  | skipped => cases houtcome
  | _ => cases hrecorded

theorem traced_invariant (h : RunHandle) (w : World) (parallel : Bool) :
    (machine h false).Invariant (Host.of acts answers) fun s m =>
      (Tools.Consistent s m.state ∧ Tools.Written w s m.state) ∧ Traced parallel s m.past := by
  refine (written_invariant h w).and ?_ ?_ ?_
  · exact fun s m w' _ ht _ => ht.interference
  · exact fun s m update s' _ ht hown => ht.own hown
  · exact fun s m query answer s' _ ht _ hreply => ht.reply hreply

/-- **Agreement of events and transcript.**  In every run of a batch the two agree if
    the batch is sequential or the hooks leave all results coherent, and in a
    completed batch only then. -/
theorem results_agree {fuel : Nat} {calls : List ToolCall}
    {o : Outcome Query CoreError ToolBatchOutcome}
    (hrun : Run (Host.of acts answers) (executeToolCalls h fuel calls) (Now.start w) o m) :
    (hasSequentialTool h calls = true ∨ CoherentReplies m.past → AgreeSoFar w m) ∧
      ∀ outcome, o = .done outcome →
        (Agree w m ↔ hasSequentialTool h calls = true ∨ CoherentReplies m.past) := by
  let start : Batch := { calls, parallel := !hasSequentialTool h calls }
  have hready : Ready false calls (!hasSequentialTool h calls) start :=
    ⟨⟨fun _ hmem => (by cases hmem), rfl, rfl⟩, rfl, .inr ⟨rfl, rfl, rfl⟩⟩
  have hfollows := executeToolCalls_follows fuel hready fun hruns => by cases hruns
  have hstart : (Tools.Consistent start w ∧ Tools.Written w start w) ∧
      Traced start.parallel start [] :=
    ⟨⟨fun hseen => (by cases hseen), written_start rfl⟩, traced_start rfl⟩
  have hreached := hfollows.run (traced_invariant h w start.parallel) hstart hrun
  have hsoFar : ∀ {s}, (Tools.Consistent s m.state ∧ Tools.Written w s m.state) ∧
      Traced start.parallel s m.past → hasSequentialTool h calls = true ∨ CoherentReplies m.past →
        AgreeSoFar w m := by
    intro s hs hcondition
    refine agree_so_far hs.1.2 (hs.2.ends (hcondition.imp_left fun hsequential => ?_))
    simp [start, hsequential]
  refine ⟨fun hcondition => ?_, ?_⟩
  · cases o with
    | done outcome =>
      obtain ⟨s, -, hs⟩ := hreached
      exact hsoFar hs hcondition
    | failed error =>
      obtain ⟨s, -, hs⟩ := hreached
      exact hsoFar hs hcondition
    | pending query =>
      obtain ⟨s, -, hs⟩ := hreached
      exact hsoFar hs hcondition
  · rintro outcome rfl
    obtain ⟨s, hcompleted, hs⟩ := hreached
    rw [agree_iff hs.1.2 hcompleted.rest.recorded]
    constructor
    · intro hends
      cases hsequential : hasSequentialTool h calls with
      | true => exact .inl rfl
      | false =>
        have ht := hs.2
        simp only [start, hsequential, Bool.not_false] at ht
        exact .inr (ht.replies hcompleted.rest.recorded hends)
    · intro hcondition
      refine hs.2.ends (hcondition.imp_left fun hsequential => ?_)
      simp [start, hsequential]

/-- A tool that returns an error without a failure. -/
def unclassified : Script where
  execute call := some (.ok { toolCallId := call.id, content := "no", isError := true })

/-- The sequential scheduler announces what it appends. -/
theorem results_agree_sequential :
    ((unclassified.batch (lookupHandle .sequential) [firstCall] 3).1 matches .done _) = true ∧
      Agree ongoing (unclassified.batch (lookupHandle .sequential) [firstCall] 3).2 := by
  have hagree := results_agree
    (unclassified.batch_run (lookupHandle .sequential) [firstCall] 3)
  have hdone :
      ((unclassified.batch (lookupHandle .sequential) [firstCall] 3).1 matches .done _) = true := by
    decide +kernel
  refine ⟨hdone, ?_⟩
  cases houtcome : (unclassified.batch (lookupHandle .sequential) [firstCall] 3).1 with
  | done outcome => exact (hagree.2 outcome houtcome).mpr (.inl (by decide))
  | failed error =>
    rw [houtcome] at hdone
    cases hdone
  | pending query =>
    rw [houtcome] at hdone
    cases hdone

/-- The parallel scheduler announces an error without a failure, and appends one with it. -/
theorem results_disagree :
    ∃ o m, Run (Host.of unclassified.acts unclassified.answers)
      (executeToolCalls (lookupHandle .parallel) 3 [firstCall]) (Now.start ongoing) o m ∧
      o.completed = true ∧ ¬ Agree ongoing m := by
  refine ⟨_, _, unclassified.batch_run (lookupHandle .parallel) [firstCall] 3, ?_, ?_⟩
  · decide +kernel
  · unfold Agree
    decide +kernel

end Tea.Contract
