/-
  Tea/Tools/Sequential.lean
  =========================
  **The sequential executor follows the batch machine.**

  The executor works on the last job of the batch; those before it are recorded
  (`Single`).  A batch ends with one recorded job for each call, or, after a terminal
  failure, with its remaining calls skipped (`Completed`).
-/
import Tea.Tools.Follow

namespace Tea.Tools

open Tea.Async Tea.Core Tea.Run

variable {h : RunHandle} {runs : Bool} {s s' : Batch} {calls : List ToolCall} {done : List Job}
  {call : ToolCall} {progress : Progress}

/-! ### The last job -/

/-- The last job is that of `call`, and those before it are recorded. -/
structure Single (calls : List ToolCall) (done : List Job) (call : ToolCall) (progress : Progress)
    (s : Batch) : Prop where
  calls : s.calls = calls
  parallel : s.parallel = false
  aborting : s.aborting = false
  jobs : s.jobs = done ++ [⟨call, progress⟩]
  recorded : ∀ job ∈ done, job.progress.isRecorded = true
  live : ∀ id ∈ s.live, id = call.id

theorem Single.job (hs : Single calls done call progress s) :
    s.jobs[done.length]? = some ⟨call, progress⟩ := by simp [hs.jobs]

theorem Single.put (hs : Single calls done call progress s) (progress' : Progress) :
    Single calls done call progress' (s.put done.length call progress') where
  calls := hs.calls
  parallel := hs.parallel
  aborting := hs.aborting
  jobs := by simp [hs.jobs]
  recorded := hs.recorded
  live := hs.live

theorem Single.steady (hs : Single calls done call progress s) (hsteady : Steady s s')
    (hjobs : s'.jobs = s.jobs) : Single calls done call progress s' where
  calls := hsteady.calls.trans hs.calls
  parallel := hsteady.parallel.trans hs.parallel
  aborting := hsteady.aborting.trans hs.aborting
  jobs := hjobs.trans hs.jobs
  recorded := hs.recorded
  live := by rw [hsteady.live]; exact hs.live

theorem Single.look (hs : Single calls done call progress s) (cancelled : Bool) :
    Single calls done call progress (s.look cancelled) := hs.steady (steady_look cancelled) rfl

theorem rearm_of_recorded {progress : Progress} (hrecorded : progress.isRecorded = true) :
    progress.rearm = progress := by
  cases progress with
  | running => cases hrecorded
  | _ => rfl

theorem rearm_recorded (hdone : ∀ job ∈ done, job.progress.isRecorded = true) :
    done.map Job.rearm = done := by
  refine (List.map_congr_left fun job hjob => ?_).trans (List.map_id done)
  obtain ⟨call, progress⟩ := job
  exact congrArg (Job.mk call) (rearm_of_recorded (hdone _ hjob))

theorem Single.rearm (hs : Single calls done call progress s) :
    s.jobs.map Job.rearm = done ++ [⟨call, progress.rearm⟩] := by
  rw [hs.jobs, List.map_append, rearm_recorded hs.recorded]
  rfl

/-- Taking updates grants the call a further poll, where there are any. -/
theorem Single.draw (hs : Single calls done call progress s) (updates : List PendingToolUpdate) :
    Single calls done call (if updates = [] then progress else progress.rearm)
      (s.draw updates) where
  calls := hs.calls
  parallel := hs.parallel
  aborting := hs.aborting
  jobs := by
    by_cases hnil : updates = []
    · simp [Batch.draw, hnil, hs.jobs]
    · simp only [Batch.draw, hnil, if_false, hs.rearm]
  recorded := hs.recorded
  live := hs.live

theorem Single.unawait (hs : Single calls done call progress s) :
    Single calls done call progress { s with checked := false } :=
  ⟨hs.calls, hs.parallel, hs.aborting, hs.jobs, hs.recorded, hs.live⟩

theorem Single.deliver (hs : Single calls done call progress s) :
    Single calls done call progress { s with hand := [] } :=
  ⟨hs.calls, hs.parallel, hs.aborting, hs.jobs, hs.recorded, hs.live⟩

theorem Single.shut_live (hs : Single calls done call progress s) : (s.shut call.id).live = [] := by
  refine List.filter_eq_nil_iff.mpr fun id hid => ?_
  simp [hs.live id hid]

theorem Single.shut (hs : Single calls done call progress s) :
    Single calls done call progress (s.shut call.id) where
  calls := hs.calls
  parallel := hs.parallel
  aborting := hs.aborting
  jobs := hs.jobs
  recorded := hs.recorded
  live id hid := by rw [hs.shut_live] at hid; cases hid

/-! ### The wait for the tool -/

/-- What a step of the wait has made of the last job. -/
def Stepped (calls : List ToolCall) (done : List Job) (call : ToolCall) : ToolStep → Batch → Prop
  | .updates updates, s => Single calls done call (.running false) s ∧ s.hand = updates
  | .completed result updates, s => ∃ source : Source, source.execution = result ∧
      Single calls done call (.settled source) s ∧ s.live = [] ∧ call.id ∈ s.closed ∧
      s.hand = updates

/-- The callback of the last call is closed. -/
theorem Single.close (hs : Single calls done call progress s) (progress' : Progress) :
    Single calls done call progress' ((s.shut call.id).put done.length call progress') ∧
      ((s.shut call.id).put done.length call progress').live = [] ∧
      call.id ∈ ((s.shut call.id).put done.length call progress').closed :=
  ⟨hs.shut.put progress', hs.shut_live, List.mem_cons_self⟩

theorem completeStep_follows (hs : Single calls done call progress s) (hhand : s.hand = [])
    (source : Source) (hcloses : Closes s call progress (.settled source)) :
    (completeStep call source.execution).Follows (machine h runs) (Stepped calls done call)
      Broken s := by
  refine .bind _ (closeUpdates_follows hs.job hcloses) ?_
  rintro _ _ rfl
  obtain ⟨hclosed, hlive, hmem⟩ := hs.close (.settled source)
  refine .bind _ (takeUpdates_follows hhand hclosed.aborting) ?_
  rintro updates _ ⟨rfl, -⟩
  refine ⟨source, rfl, ?_, hlive, hmem, rfl⟩
  have hdraw := hclosed.draw (updates.getD [])
  by_cases hnil : updates.getD [] = []
  · rwa [if_pos hnil] at hdraw
  · rwa [if_neg hnil] at hdraw

/-- Updates were taken while the tool is pending. -/
theorem Single.updated {polled : Bool} {updates : List PendingToolUpdate}
    (hs : Single calls done call (.running polled) s) (hnil : updates ≠ []) :
    Stepped calls done call (.updates updates) (s.draw updates) := by
  have hdraw := hs.draw updates
  rw [if_neg hnil] at hdraw
  exact ⟨hdraw, rfl⟩

theorem Single.draw_nil (hs : Single calls done call progress s) :
    Single calls done call progress (s.draw []) := by
  have hdraw := hs.draw []
  rwa [if_pos rfl] at hdraw

/-- What a poll has made of the last job. -/
def Polled (calls : List ToolCall) (done : List Job) (call : ToolCall) (s : Batch) :
    Option (Except ToolError AgentToolResult) → Batch → Prop
  | some execution, s' => Single calls done call (.settled (.finished execution)) s' ∧ s'.hand = []
  | none, s' => ∃ polled, Single calls done call (.running polled) s' ∧ s'.hand = [] ∧
      (polled = true → s'.seen = true) ∧ s'.seen = s.seen

theorem pollTool_follows (hs : Single calls done call (.running false) s) (hhand : s.hand = [])
    (hmay : s.checked = true ∨ s.seen = true ∧ s.emptied = true) :
    (pollTool call).Follows (machine h runs) (Polled calls done call s) Broken s := by
  have hgranted : s.MayPoll false := hmay.imp_right fun hseen => ⟨hseen.1, rfl⟩
  refine ask_follows ?_
  rintro (_ | execution)
  · rcases hmay with hchecked | ⟨hseen, hemptied⟩
    · exact ⟨_, .pending hs.job hchecked, false, hs.unawait, hhand,
        (by intro hfalse; cases hfalse), rfl⟩
    · exact ⟨_, .again hs.job hseen hemptied, true, hs.unawait.put _, hhand, fun _ => hseen, rfl⟩
  · exact ⟨_, .ready hs.job hgranted, hs.unawait.put _, hhand⟩

theorem nextToolStep_follows (fuel : Nat) {allowOnePoll : Bool}
    (hs : Single calls done call (.running false) s) (hhand : s.hand = [])
    (hallow : allowOnePoll = true → s.seen = true) :
    (nextToolStep fuel call allowOnePoll).Follows (machine h runs) (Stepped calls done call)
      Broken s := by
  have hseen : ∀ {cancelled : Bool} {s : Batch}, (cancelled && !allowOnePoll) = true →
      (s.look cancelled).seen = true := by
    intro cancelled s hstop
    simp [Batch.look, (Bool.and_eq_true_iff.mp hstop).1]
  induction fuel generalizing s with
  | zero => exact exhausted_follows
  | succ fuel ih =>
    unfold nextToolStep
    refine .bind _ isCancelled_follows ?_
    rintro cancelled _ ⟨rfl, -⟩
    replace hallow : allowOnePoll = true → (s.look cancelled).seen = true :=
      fun h => (steady_look cancelled).seen (hallow h)
    replace hs := hs.look cancelled
    by_cases hstop : (cancelled && !allowOnePoll) = true
    · simp only [hstop, if_true]
      exact completeStep_follows hs hhand .cancelled (.cancelled (hseen hstop))
    simp only [hstop]
    refine .bind _ (takeUpdates_follows hhand hs.aborting) ?_
    rintro (_ | updates) _ ⟨rfl, hsome⟩
    · replace hs := hs.draw_nil
      refine .bind _ (takeUpdates_follows rfl hs.aborting) ?_
      rintro (_ | updates) _ ⟨rfl, hsome⟩
      · replace hs := hs.draw_nil
        refine .bind _ isCancelled_follows ?_
        rintro cancelled _ ⟨rfl, -⟩
        replace hs := hs.look cancelled
        by_cases hstop : (cancelled && !allowOnePoll) = true
        · simp only [hstop, if_true]
          exact completeStep_follows hs rfl .cancelled (.cancelled (hseen hstop))
        simp only [hstop]
        refine .bind _ (pollTool_follows hs rfl ?_) ?_
        · -- either the token is silent, or the caller has allowed one more poll
          cases cancelled with
          | false => exact .inl rfl
          | true =>
            have hallowed : allowOnePoll = true := by simpa using hstop
            have hlooked := hallow hallowed
            exact .inr ⟨by simp [Batch.look], by simpa [Batch.look, Batch.draw] using hlooked⟩
        rintro (_ | execution) s hpolled
        · obtain ⟨polled, hs, hhand, hpolled, hseen⟩ := hpolled
          refine .bind _ (takeUpdates_follows hhand hs.aborting) ?_
          rintro (_ | updates) _ ⟨rfl, hsome⟩
          · replace hs := hs.draw_nil
            refine .bind _ isCancelled_follows ?_
            rintro (_ | _) _ ⟨rfl, hcancelled⟩
            · have hpending : polled = false := by
                by_contra hpolled'
                cases hcancelled (hpolled (by simpa using hpolled'))
              subst hpending
              refine .bind _ (ask_follows fun _ => ⟨_, .wake rfl, rfl⟩) ?_
              rintro _ _ rfl
              refine ih (hs.look false).unawait rfl fun hallowed => ?_
              have hlooked := hallow hallowed
              simp only [Batch.look, Batch.draw, hseen, Bool.or_eq_true] at hlooked ⊢
              exact .inl (.inl hlooked)
            · refine .bind _ (closeUpdates_follows (hs.look true).job (.cancelled ?_)) ?_
              · simp [Batch.look]
              rintro _ _ rfl
              obtain ⟨hclosed, hlive, hmem⟩ := (hs.look true).close (.settled .cancelled)
              exact ⟨.cancelled, rfl, hclosed, hlive, hmem, rfl⟩
          · exact hs.updated fun hnil => hsome (congrArg some hnil)
        · exact completeStep_follows hpolled.1 hpolled.2 (.finished execution) .finished
      · exact hs.updated fun hnil => hsome (congrArg some hnil)
    · exact hs.updated fun hnil => hsome (congrArg some hnil)

/-! ### One call -/

theorem runTool_follows (fuel n : Nat) {allowOnePoll : Bool}
    (hs : Single calls done call (.running false) s) (hhand : s.hand = [])
    (hallow : allowOnePoll = true → s.seen = true) :
    (runTool fuel n call allowOnePoll).Follows (machine h runs)
      (fun result x => Stepped calls done call (.completed result []) x) Broken s := by
  induction n generalizing s allowOnePoll with
  | zero => exact exhausted_follows
  | succ n ih =>
    refine .bind _ (nextToolStep_follows fuel hs hhand hallow) ?_
    rintro (updates | ⟨result, updates⟩) s hstep
    · obtain ⟨hs, hupdates⟩ := hstep
      refine .bind _ (emitToolUpdates_follows hupdates) ?_
      rintro _ _ rfl
      refine .bind _ isCancelled_follows ?_
      rintro cancelled _ ⟨rfl, -⟩
      refine ih (hs.deliver.look cancelled) rfl fun hcancelled => ?_
      simp [Batch.look, hcancelled]
    · obtain ⟨source, hresult, hs, hlive, hclosed, hupdates⟩ := hstep
      refine .bind _ (emitToolUpdates_follows hupdates) ?_
      rintro _ _ rfl
      exact ⟨source, hresult, hs.deliver, hlive, hclosed, rfl⟩

/-- The sequential scheduler normalizes the result before it is announced. -/
theorem Ends.sequential {source : Source} {result : AgentToolResult} {terminate : Bool}
    (hparallel : s.parallel = false) (closed : call.id ∉ s.live)
    (drained : call.id ∈ s.drained ∨ s.aborting = true) :
    Ends h runs s call (.finalized source result terminate) source
      (normalizeResultFailure result) terminate := by
  have hends : Ends h runs s call (.finalized source result terminate) source
      (if s.parallel then result else normalizeResultFailure result) terminate :=
    .executed closed drained
  rwa [hparallel] at hends

/-- The last call has a result, which may be announced. -/
def Executed (h : RunHandle) (runs : Bool) (calls : List ToolCall) (done : List Job)
    (call : ToolCall) (value : AgentToolResult × Bool) (s : Batch) : Prop :=
  ∃ progress source, Single calls done call progress s ∧ s.hand = [] ∧ s.live = [] ∧
    Ends h runs s call progress source (normalizeResultFailure value.1) value.2

theorem Single.steady_set {progress' : Progress} (hs : Single calls done call progress s)
    (hsteady : Steady s s') (hjobs : s'.jobs = s.jobs.set done.length ⟨call, progress'⟩) :
    Single calls done call progress' s' :=
  (hs.put progress').steady ⟨hsteady.calls, hsteady.parallel, hsteady.live, hsteady.closed,
    hsteady.hand, hsteady.aborting, hsteady.seen⟩ hjobs

theorem Single.flushed (hs : Single calls done call progress s) (hflush : Flushed s s')
    (hsame : progress.rearm = progress) : Single calls done call progress s' := by
  have hjobs : s'.jobs = s.jobs := by
    rcases hflush.jobs with hjobs | hjobs
    · exact hjobs
    · rw [hjobs, hs.rearm, hsame, hs.jobs]
  exact hs.steady hflush.toSteady hjobs

/-- The future of the last call is created. -/
theorem Single.start (hs : Single calls done call progress s) :
    Single calls done call (.running false)
      ({ s with live := call.id :: s.live }.put done.length call (.running false)) where
  calls := hs.calls
  parallel := hs.parallel
  aborting := hs.aborting
  jobs := by simp [hs.jobs]
  recorded := hs.recorded
  live id hid := by
    rcases List.mem_cons.mp hid with rfl | hmem
    · rfl
    · exact hs.live id hmem

theorem executeOneToolCall_follows (fuel : Nat) (hs : Single calls done call .announced s)
    (hhand : s.hand = []) (hlive : s.live = []) :
    (executeOneToolCall h fuel call).Follows (machine h runs) (Executed h runs calls done call)
      Broken s := by
  refine .bind _ (prepareToolCall_follows hs.job) ?_
  rintro (⟨result, terminate⟩ | _) s' hprepared
  · obtain ⟨progress, hjobs, hrefuses⟩ := hprepared.job
    have hs' := hs.steady_set hprepared.toSteady hjobs
    have hlive' : s'.live = [] := hprepared.live.trans hlive
    exact ⟨progress, .refused, hs', hprepared.hand.trans hhand, hlive', .refused hrefuses hlive'⟩
  · have hs' := hs.steady_set hprepared.toSteady hprepared.job
    have hhand' : s'.hand = [] := hprepared.hand.trans hhand
    have hlive' : s'.live = [] := hprepared.live.trans hlive
    have hreset : resetUpdates.Follows (machine h runs)
        (fun _ x => x = { s' with closed := [], drained := [] }) Broken s' :=
      fun _ _ => ⟨_, .reset hlive' hhand', rfl⟩
    refine .bind _ hreset ?_
    rintro _ _ rfl
    have hfresh : Single calls done call (.decided (.ok .allow))
        { s' with closed := [], drained := [] } :=
      ⟨hs'.calls, hs'.parallel, hs'.aborting, hs'.jobs, hs'.recorded, hs'.live⟩
    refine .bind _ (startToolFuture_follows hfresh.job) ?_
    rintro _ _ rfl
    have hrunning := hfresh.start
    refine .bind _ isCancelled_follows ?_
    rintro cancelled _ ⟨rfl, -⟩
    refine .bind _ read_aside ?_
    rintro hasUpdates _ rfl
    refine .bind _ (runTool_follows fuel fuel (hrunning.look cancelled) hhand' ?_) ?_
    · intro hallow
      simp [Batch.look, (Bool.and_eq_true_iff.mp hallow).1]
    rintro execution s ⟨source, rfl, hs, hlive, hclosed, hhand⟩
    refine .bind _ (flushToolUpdates_follows fuel hhand hs.aborting) ?_
    rintro _ s hflush
    have hs := hs.flushed hflush rfl
    refine (finalizeExecutedTool_follows hs.job).weaken ?_ fun _ _ hbroken => hbroken
    rintro value _ rfl
    have hlive' : s.live = [] := hflush.live.trans hlive
    refine ⟨_, source, hs.put _, hflush.hand.trans hhand, hlive', ?_⟩
    refine .sequential hs.parallel ?_ (.inl ?_)
    · simp [Batch.put, hlive']
    · simpa only [Batch.put, hflush.drained] using hclosed

/-! ### The executor -/

/-- The last call is done with: its result is in the transcript. -/
theorem Single.append {source : Source} {result : AgentToolResult} {terminate : Bool}
    (hs : Single calls done call (.ended source result terminate) s) (h : RunHandle)
    (runs : Bool) :
    (appendToolResultMessage call (normalizeResultFailure result)).Follows (machine h runs)
      (fun _ x => x = s.put done.length call (.recorded source result terminate)) Broken s := by
  refine appendToolResultMessage_follows hs.job fun j job hjob => ?_
  rw [hs.jobs] at hjob
  rcases Nat.lt_trichotomy j done.length with hlt | rfl | hgt
  · rw [List.getElem?_append_left hlt] at hjob
    exact ⟨fun _ => hlt, fun _ => hs.recorded job (List.mem_of_getElem? hjob)⟩
  · rw [List.getElem?_concat_length, Option.some.injEq] at hjob
    subst hjob
    simp [Progress.isRecorded]
  · rw [List.getElem?_eq_none (by simp; omega)] at hjob
    cases hjob

/-- The jobs of a batch between two of its calls. -/
structure Between (calls : List ToolCall) (done : List Job) (s : Batch) : Prop where
  calls : s.calls = calls
  parallel : s.parallel = false
  aborting : s.aborting = false
  jobs : s.jobs = done
  rest : s.Rest

def Progress.terminates : Progress → Bool
  | .recorded _ _ terminate => terminate
  | _ => false

/-- The batch is over.  Without a terminal failure every call was executed or
    refused, and the batch asks for the end of the run if each of its calls does. -/
structure Completed (calls : List ToolCall) (parallel : Bool) (outcome : ToolBatchOutcome)
    (s : Batch) : Prop where
  rest : s.Rest
  scheduler : s.parallel = parallel
  jobs : s.jobs.map (·.call) = calls
  executed : outcome.terminalFailure = none ∨ parallel = true →
    ∀ job ∈ s.jobs, ∃ source result terminate, job.progress = .recorded source result terminate
  terminate : outcome.terminalFailure = none ∨ parallel = true →
    outcome.allTerminate = s.jobs.all fun job => job.progress.terminates

/-- What the executor does with a call once it is announced. -/
def executeAnnounced (h : RunHandle) (fuel : Nat) (call : ToolCall) (rest : List AgentToolCall)
    (allTerminate : Bool) : Drive ToolBatchOutcome := do
  let executed ← executeOneToolCall h fuel call
  let result := normalizeResultFailure executed.1
  emitToolExecutionEnd call result
  appendToolResultMessage call result
  let terminalFailure ← observeToolFailure h call result
  match terminalFailure with
  | some message => do
      appendSkippedSequentialCalls message rest
      pure { allTerminate := false, terminalFailure := some message }
  | none => executeToolCallsSequential h fuel rest (allTerminate && executed.2)

theorem executeToolCallsSequential_cons (fuel : Nat) (rest : List ToolCall) (allTerminate : Bool) :
    executeToolCallsSequential h fuel (call :: rest) allTerminate =
      (do emitToolExecutionStart call; executeAnnounced h fuel call rest allTerminate) := rfl

theorem Between.order (hs : Between calls done s) {rest : List ToolCall}
    (hcalls : done.map (·.call) ++ call :: rest = calls) :
    s.jobs.map (·.call) ++ [call] <+: s.calls := by
  refine ⟨rest, ?_⟩
  rw [hs.jobs, hs.calls, ← hcalls]
  simp

/-- A further job is recorded. -/
theorem Between.snoc (hs : Between calls done s) {job : Job}
    (hjob : job.progress.isRecorded = true) :
    Between calls (done ++ [job]) { s with jobs := s.jobs ++ [job] } where
  calls := hs.calls
  parallel := hs.parallel
  aborting := hs.aborting
  jobs := by rw [hs.jobs]
  rest := by
    refine ⟨fun other hother => ?_, hs.rest.hand, hs.rest.live⟩
    rcases List.mem_append.mp hother with hmem | hmem
    · exact hs.rest.recorded other hmem
    · rw [List.mem_singleton.mp hmem]
      exact hjob

theorem appendSkippedSequentialCalls_follows (message : String) {rest : List ToolCall}
    (hs : Between calls done s) (hcalls : done.map (·.call) ++ rest = calls) :
    (appendSkippedSequentialCalls message rest).Follows (machine h runs)
      (fun _ x => x.Rest ∧ x.parallel = false ∧ x.jobs.map (·.call) = calls) Broken s := by
  induction rest generalizing s done with
  | nil =>
    refine ⟨hs.rest, hs.parallel, ?_⟩
    rw [hs.jobs, ← hcalls, List.append_nil]
  | cons call rest ih =>
    have hskip : ∀ result, (appendToolResultMessage call result).Follows (machine h runs)
        (fun _ x => x = { s with jobs := s.jobs ++ [⟨call, .skipped⟩] }) Broken s := fun _ _ _ =>
      ⟨_, .skip hs.rest (hs.order hcalls) ⟨rfl, rfl, rfl, rfl⟩, announce_follows _⟩
    refine .bind _ (hskip _) ?_
    rintro _ _ rfl
    exact ih (hs.snoc rfl) (by simpa using hcalls)

/-- Announcing a call makes it the last job. -/
theorem Between.announced (hs : Between calls done s) :
    Single calls done call .announced { s with jobs := s.jobs ++ [⟨call, .announced⟩] } where
  calls := hs.calls
  parallel := hs.parallel
  aborting := hs.aborting
  jobs := by rw [hs.jobs]
  recorded job hjob := hs.rest.recorded job (by rwa [hs.jobs])
  live id hid := by
    rw [show s.live = [] from hs.rest.live] at hid
    cases hid

/-- The last job is recorded: the next call may be announced. -/
theorem Single.between (hs : Single calls done call progress s)
    (hrecorded : progress.isRecorded = true) (hhand : s.hand = []) (hlive : s.live = []) :
    Between calls (done ++ [⟨call, progress⟩]) s where
  calls := hs.calls
  parallel := hs.parallel
  aborting := hs.aborting
  jobs := hs.jobs
  rest := by
    refine ⟨fun job hjob => ?_, hhand, hlive⟩
    rw [hs.jobs] at hjob
    rcases List.mem_append.mp hjob with hmem | hmem
    · exact hs.recorded job hmem
    · rw [List.mem_singleton.mp hmem]
      exact hrecorded

/-- Every job so far has a result, and the hints are counted. -/
structure Counted (done : List Job) (allTerminate : Bool) : Prop where
  executed : ∀ job ∈ done, ∃ source result terminate,
    job.progress = .recorded source result terminate
  terminate : allTerminate = done.all fun job => job.progress.terminates

theorem Counted.snoc {allTerminate terminate : Bool} {source : Source} {result : AgentToolResult}
    (hd : Counted done allTerminate) :
    Counted (done ++ [⟨call, .recorded source result terminate⟩]) (allTerminate && terminate) where
  executed job hjob := by
    rcases List.mem_append.mp hjob with hmem | hmem
    · exact hd.executed job hmem
    · rw [List.mem_singleton.mp hmem]
      exact ⟨_, _, _, rfl⟩
  terminate := by
    rw [List.all_append, ← hd.terminate]
    simp [Progress.terminates]

/-- No call of the batch has been skipped. -/
def Unskipped (jobs : List Job) : Prop := ∀ job ∈ jobs, job.progress.isSkipped = false

theorem Unskipped.snoc (hdone : Unskipped done) (hprogress : progress.isSkipped = false) :
    Unskipped (done ++ [⟨call, progress⟩]) := by
  intro job hjob
  rcases List.mem_append.mp hjob with hmem | hmem
  · exact hdone job hmem
  · rw [List.mem_singleton.mp hmem]
    exact hprogress

theorem Counted.unskipped {allTerminate : Bool} (hd : Counted done allTerminate) :
    Unskipped done := by
  intro job hjob
  obtain ⟨source, result, terminate, hprogress⟩ := hd.executed job hjob
  rw [hprogress]
  rfl

theorem executeAnnounced_follows (fuel : Nat) {rest : List ToolCall} {allTerminate : Bool}
    (hnext : ∀ {s done allTerminate}, Between calls done s → done.map (·.call) ++ rest = calls →
      Counted done allTerminate →
      (executeToolCallsSequential h fuel rest allTerminate).Follows (machine h runs)
        (Completed calls false) Broken s)
    (hs : Single calls done call .announced s) (hhand : s.hand = []) (hlive : s.live = [])
    (hcalls : done.map (·.call) ++ call :: rest = calls) (hcounted : Counted done allTerminate) :
    (executeAnnounced h fuel call rest allTerminate).Follows (machine h runs)
      (Completed calls false) Broken s := by
  refine .bind _ (executeOneToolCall_follows fuel hs hhand hlive) ?_
  rintro ⟨result, terminate⟩ s ⟨progress, source, hs, hhand, hlive, hends⟩
  refine .bind _ (emitToolExecutionEnd_follows hs.job hhand hends) ?_
  rintro _ _ rfl
  have hended := hs.put (.ended source (normalizeResultFailure result) terminate)
  have happend := hended.append h runs
  rw [normalizeResultFailure_idem] at happend
  refine .bind _ happend ?_
  rintro _ _ rfl
  have hrecorded := hended.put (.recorded source (normalizeResultFailure result) terminate)
  refine .bind _ (observeToolFailure_follows call _) ?_
  rintro (_ | message) s ⟨hsteady, hjobs⟩
  · have hs := hrecorded.steady hsteady hjobs
    have hbetween := hs.between rfl (hsteady.hand.trans hhand) (hsteady.live.trans hlive)
    exact hnext hbetween (by simpa using hcalls) hcounted.snoc
  · have hs := hrecorded.steady hsteady hjobs
    have hbetween := hs.between rfl (hsteady.hand.trans hhand) (hsteady.live.trans hlive)
    refine .bind _ (appendSkippedSequentialCalls_follows message hbetween
      (by simpa using hcalls)) ?_
    rintro _ s ⟨hrest, hparallel, hcalls⟩
    exact ⟨hrest, hparallel, hcalls, fun hor => by simp at hor, fun hor => by simp at hor⟩

theorem executeToolCallsSequential_between (fuel : Nat) {rest : List ToolCall}
    {allTerminate : Bool} (hs : Between calls done s)
    (hcalls : done.map (·.call) ++ rest = calls) (hcounted : Counted done allTerminate) :
    (executeToolCallsSequential h fuel rest allTerminate).Follows (machine h runs)
      (Completed calls false) Broken s := by
  induction rest generalizing s done allTerminate with
  | nil =>
    refine ⟨hs.rest, hs.parallel, ?_, fun _ => ?_, fun _ => ?_⟩
    · rw [hs.jobs, ← hcalls, List.append_nil]
    · rw [hs.jobs]
      exact hcounted.executed
    · rw [hs.jobs]
      exact hcounted.terminate
  | cons call rest ih =>
    rw [executeToolCallsSequential_cons]
    have hunskipped : Unskipped s.jobs := by
      rw [hs.jobs]
      exact hcounted.unskipped
    refine .bind _ (emitToolExecutionStart_follows (hs.order hcalls) hs.rest.hand hunskipped) ?_
    rintro _ _ rfl
    exact executeAnnounced_follows fuel ih hs.announced hs.rest.hand hs.rest.live hcalls hcounted

/-! ### The beginning of a batch -/

/-- A batch of the calls may begin. -/
structure Ready (runs : Bool) (calls : List ToolCall) (parallel : Bool) (s : Batch) : Prop where
  rest : s.Rest
  whole : s.broken = false
  fresh : runs = true ∨ (s.jobs = [] ∧ s.calls = calls ∧ s.parallel = parallel)

theorem Ready.begin {parallel : Bool} {w w' : World} (hs : Ready runs calls parallel s)
    (hopens : Aside w w' ∨ w' = { w with updates := {} }) :
    Own h runs s w w' { calls, parallel } := .begin hs.rest hs.fresh hopens hs.whole

/-- No job of the batch is announced yet. -/
theorem between_nil (calls : List ToolCall) : Between calls [] { calls } where
  calls := rfl
  parallel := rfl
  aborting := rfl
  jobs := rfl
  rest := ⟨fun _ hjob => (by cases hjob), rfl, rfl⟩

theorem insertPendingToolCall_begins {parallel : Bool} (hs : Ready runs calls parallel s)
    (id : ToolCallId) :
    (insertPendingToolCall id).Follows (machine h runs) (fun _ x => x = { calls, parallel })
      Broken s :=
  fun w _ => ⟨_, hs.begin (.inl (insertPendingToolCall_aside id w)), rfl⟩

/-- The first call of a batch is announced. -/
theorem emitToolExecutionStart_begins {rest : List ToolCall}
    (hs : Ready runs (call :: rest) false s) :
    (emitToolExecutionStart call).Follows (machine h runs)
      (fun _ x => x = { calls := call :: rest, jobs := [⟨call, .announced⟩] }) Broken s := by
  refine .bind _ (insertPendingToolCall_begins hs call.id) ?_
  rintro _ _ rfl
  exact emit_follows fun _ => .announce ⟨rest, rfl⟩ rfl fun _ hjob => by cases hjob

theorem executeToolCallsSequential_follows (fuel : Nat)
    (hs : Ready runs calls false s) (hcalls : runs = true → calls ≠ []) :
    (executeToolCallsSequential h fuel calls true).Follows (machine h runs)
      (Completed calls false) Broken s := by
  have hcounted : Counted [] true := ⟨fun _ hjob => (by cases hjob), rfl⟩
  cases calls with
  | nil =>
    obtain ⟨hjobs, hcalls, hparallel⟩ : s.jobs = [] ∧ s.calls = [] ∧ s.parallel = false :=
      hs.fresh.resolve_left fun hruns => hcalls hruns rfl
    refine ⟨hs.rest, hparallel, by rw [hjobs]; rfl, fun _ job hjob => ?_, fun _ => ?_⟩
    rotate_left
    · rw [hjobs]
      rfl
    rw [hjobs] at hjob
    cases hjob
  | cons call rest =>
    rw [executeToolCallsSequential_cons]
    refine .bind _ (emitToolExecutionStart_begins hs) ?_
    rintro _ _ rfl
    refine executeAnnounced_follows fuel (fun hs hcalls hcounted => ?_)
      (between_nil (call :: rest)).announced rfl rfl rfl hcounted
    exact executeToolCallsSequential_between fuel hs hcalls hcounted

/-! ### A response that was cut off -/

/-- What becomes of a call of a response that was cut off, once it is announced. -/
def failAnnounced (call : ToolCall) (rest : List AgentToolCall) : Drive Unit := do
  let result := errorToolResult call ("Tool call \"" ++ call.name ++
    "\" was not executed: the response hit the output token limit, so its arguments may be " ++
    "truncated. Re-issue the tool call with complete arguments.")
  emitToolExecutionEnd call result
  appendToolResultMessage call result
  failTruncatedToolCalls rest

theorem failTruncatedToolCalls_cons (rest : List ToolCall) :
    failTruncatedToolCalls (call :: rest) =
      (do emitToolExecutionStart call; failAnnounced call rest) := rfl

theorem failAnnounced_follows {rest : List ToolCall}
    (hnext : ∀ {s done}, Between calls done s → done.map (·.call) ++ rest = calls →
      Unskipped done →
      (failTruncatedToolCalls rest).Follows (machine h true) (fun _ x => x.Rest) Broken s)
    (hs : Single calls done call .announced s) (hhand : s.hand = []) (hlive : s.live = [])
    (hcalls : done.map (·.call) ++ call :: rest = calls) (hdone : Unskipped done) :
    (failAnnounced call rest).Follows (machine h true) (fun _ x => x.Rest) Broken s := by
  refine .bind _ (emitToolExecutionEnd_follows hs.job hhand (.refused (.truncated rfl) hlive)) ?_
  rintro _ _ rfl
  have hended := hs.put (.ended .refused (errorToolResult call ("Tool call \"" ++ call.name ++
    "\" was not executed: the response hit the output token limit, so its arguments may be " ++
    "truncated. Re-issue the tool call with complete arguments.")) false)
  refine .bind _ (hended.append h true) ?_
  rintro _ _ rfl
  exact hnext ((hended.put _).between rfl hhand hlive) (by simpa using hcalls) (hdone.snoc rfl)

theorem failTruncatedToolCalls_between {rest : List ToolCall} (hs : Between calls done s)
    (hcalls : done.map (·.call) ++ rest = calls) (hdone : Unskipped done) :
    (failTruncatedToolCalls rest).Follows (machine h true) (fun _ x => x.Rest) Broken s := by
  induction rest generalizing s done with
  | nil => exact hs.rest
  | cons call rest ih =>
    rw [failTruncatedToolCalls_cons]
    have hunskipped : Unskipped s.jobs := by rwa [hs.jobs]
    refine .bind _ (emitToolExecutionStart_follows (hs.order hcalls) hs.rest.hand hunskipped) ?_
    rintro _ _ rfl
    exact failAnnounced_follows ih hs.announced hs.rest.hand hs.rest.live hcalls hdone

theorem failTruncatedToolCalls_follows (hs : Ready true calls false s) :
    (failTruncatedToolCalls calls).Follows (machine h true) (fun _ x => x.Rest) Broken s := by
  cases calls with
  | nil => exact hs.rest
  | cons call rest =>
    rw [failTruncatedToolCalls_cons]
    refine .bind _ (emitToolExecutionStart_begins hs) ?_
    rintro _ _ rfl
    refine failAnnounced_follows (fun hs hcalls hdone => ?_)
      (between_nil (call :: rest)).announced rfl rfl rfl fun _ hjob => by cases hjob
    exact failTruncatedToolCalls_between hs hcalls hdone

end Tea.Tools
