/-
  Tea/Tools/Parallel.lean
  =======================
  **The parallel executor follows the batch machine.**

  The executor announces and prepares the calls in source order, runs those that
  were allowed until none is pending (`Running`), and records the results in source
  order again.  The pending calls are found at their source indices, in any order.
-/
import Tea.Tools.Sequential

namespace Tea.Tools

open Tea.Async Tea.Core Tea.Run

variable {h : RunHandle} {runs : Bool} {s s' : Batch} {calls : List ToolCall}
  {done jobs : List Job} {call : ToolCall} {completions : Completions}
  {pending : List PendingToolExecution}

/-! ### Announcing and preparing -/

/-- The jobs of the calls that are prepared, from an index on. -/
inductive Listed : Nat → List PreparedToolExecution → List Job → Prop where
  | nil {index : Nat} : Listed index [] []
  | immediate {index : Nat} {call : ToolCall} {result result' : AgentToolResult}
      {terminate terminate' : Bool} {source : Source} {prepared : List PreparedToolExecution}
      {jobs : List Job} (rest : Listed (index + 1) prepared jobs) :
      Listed index (⟨index, call, .immediate result terminate⟩ :: prepared)
        (⟨call, .ended source result' terminate'⟩ :: jobs)
  | execute {index : Nat} {call : ToolCall} {prepared : List PreparedToolExecution}
      {jobs : List Job} (rest : Listed (index + 1) prepared jobs) :
      Listed index (⟨index, call, .execute⟩ :: prepared)
        (⟨call, .decided (.ok .allow)⟩ :: jobs)

/-- A job whose end is announced has its completion. -/
def Slotted (completions : Completions) (jobs : List Job) : Prop :=
  ∀ (index : Nat) call source result terminate,
    jobs[index]? = some ⟨call, .ended source result terminate⟩ →
      completions[index]? = some (some (result, terminate))

/-- The parallel batch while nothing of it runs. -/
structure Preparing (calls : List ToolCall) (done : List Job) (completions : Completions)
    (s : Batch) : Prop where
  length : completions.length = calls.length
  slotted : Slotted completions done
  unskipped : Unskipped done
  calls : s.calls = calls
  parallel : s.parallel = true
  aborting : s.aborting = false
  jobs : s.jobs = done
  hand : s.hand = []
  live : s.live = []

theorem Preparing.steady {jobs : List Job} (hs : Preparing calls done completions s)
    (hsteady : Steady s s') (hjobs : s'.jobs = jobs) (hslotted : Slotted completions jobs)
    (hunskipped : Unskipped jobs) : Preparing calls jobs completions s' where
  calls := hsteady.calls.trans hs.calls
  parallel := hsteady.parallel.trans hs.parallel
  aborting := hsteady.aborting.trans hs.aborting
  jobs := hjobs
  hand := hsteady.hand.trans hs.hand
  live := hsteady.live.trans hs.live
  slotted := hslotted
  unskipped := hunskipped
  length := hs.length

/-- A job that has no completion yet does not matter to the completions. -/
theorem Slotted.snoc {job : Job} (hc : Slotted completions done)
    (hjob : ∀ source result terminate, job.progress ≠ .ended source result terminate) :
    Slotted completions (done ++ [job]) := by
  intro index call source result terminate hget
  rcases Nat.lt_trichotomy index done.length with hlt | rfl | hgt
  · rw [List.getElem?_append_left hlt] at hget
    exact hc index call source result terminate hget
  · rw [List.getElem?_concat_length, Option.some.injEq] at hget
    subst hget
    exact absurd rfl (hjob source result terminate)
  · rw [List.getElem?_eq_none (by simp; omega)] at hget
    cases hget

/-- A job that comes so far without its end does not matter to the completions. -/
theorem Slotted.set {progress : Progress} (hc : Slotted completions jobs) (index : Nat)
    (hprogress : ∀ source result terminate, progress ≠ .ended source result terminate) :
    Slotted completions (jobs.set index ⟨call, progress⟩) := by
  intro index' call' source result terminate hget
  rw [List.getElem?_set] at hget
  split at hget
  · split at hget
    · rw [Option.some.injEq, Job.mk.injEq] at hget
      exact absurd hget.2 (hprogress source result terminate)
    · cases hget
  · exact hc index' call' source result terminate hget

/-- The end of the last job is announced, and its completion is kept. -/
theorem Slotted.snoc_ended {source : Source} {result : AgentToolResult} {terminate : Bool}
    (hc : Slotted completions done) (hlength : done.length < completions.length) :
    Slotted (completions.set done.length (some (result, terminate)))
      (done ++ [⟨call, .ended source result terminate⟩]) := by
  intro index call' source' result' terminate' hget
  rcases Nat.lt_trichotomy index done.length with hlt | rfl | hgt
  · rw [List.getElem?_append_left hlt] at hget
    rw [List.getElem?_set_ne (by omega)]
    exact hc index call' source' result' terminate' hget
  · rw [List.getElem?_concat_length, Option.some.injEq] at hget
    cases hget
    rw [List.getElem?_set_self hlength]
  · rw [List.getElem?_eq_none (by simp; omega)] at hget
    cases hget

theorem Preparing.announced (hs : Preparing calls done completions s) (call : ToolCall) :
    Preparing calls (done ++ [⟨call, .announced⟩]) completions
      { s with jobs := s.jobs ++ [⟨call, .announced⟩] } where
  length := hs.length
  slotted := hs.slotted.snoc fun _ _ _ hends => by cases hends
  unskipped := hs.unskipped.snoc rfl
  calls := hs.calls
  parallel := hs.parallel
  aborting := hs.aborting
  jobs := by rw [hs.jobs]
  hand := hs.hand
  live := hs.live

/-- The last job has come so far, and its end is not announced. -/
theorem Preparing.set {progress progress' : Progress}
    (hs : Preparing calls (done ++ [⟨call, progress⟩]) completions s) (hsteady : Steady s s')
    (hjobs : s'.jobs = s.jobs.set done.length ⟨call, progress'⟩)
    (hprogress : ∀ source result terminate, progress' ≠ .ended source result terminate)
    (hunskipped : progress'.isSkipped = false) :
    Preparing calls (done ++ [⟨call, progress'⟩]) completions s' := by
  have hdone : Unskipped done := fun job hjob =>
    hs.unskipped job (List.mem_append_left _ hjob)
  refine hs.steady hsteady ?_ ?_ (hdone.snoc hunskipped)
  · rw [hjobs, hs.jobs]
    simp
  · refine Slotted.snoc (fun index call source result terminate hget => ?_) hprogress
    refine hs.slotted index call source result terminate ?_
    rw [List.getElem?_append_left (List.getElem?_eq_some_iff.mp hget).1]
    exact hget

theorem Refuses.unskipped {progress : Progress} {result : AgentToolResult} {terminate : Bool}
    (hr : Refuses h runs s call progress result terminate) : progress.isSkipped = false := by
  cases hr <;> rfl

theorem Refuses.not_ended {progress : Progress} {result : AgentToolResult} {terminate : Bool}
    (hr : Refuses h runs s call progress result terminate) :
    ∀ source result terminate, progress ≠ .ended source result terminate := by
  intro source result terminate hended
  subst hended
  cases hr

/-- A refused call is announced as ended at once. -/
theorem recordImmediate_follows {progress : Progress} {result : AgentToolResult}
    {terminate : Bool} (hs : Preparing calls (done ++ [⟨call, progress⟩]) completions s)
    (hrefuses : Refuses h runs s call progress result terminate)
    (hlength : done.length < completions.length) :
    (recordImmediate call done.length completions (.immediate result terminate)).Follows
      (machine h runs)
      (fun value x => Preparing calls
        (done ++ [⟨call, .ended .refused (normalizeResultFailure result) terminate⟩]) value x)
      Broken s := by
  have hjob : s.jobs[done.length]? = some ⟨call, progress⟩ := by
    rw [hs.jobs, List.getElem?_concat_length]
  refine .bind _ (emitToolExecutionEnd_follows hjob hs.hand (.refused hrefuses hs.live)) ?_
  rintro _ _ rfl
  have hdone : Unskipped done := fun job hjob => hs.unskipped job (List.mem_append_left _ hjob)
  refine ⟨?_, ?_, hdone.snoc rfl, hs.calls, hs.parallel, hs.aborting, ?_, hs.hand, hs.live⟩
  · rw [List.length_set, hs.length]
  · refine Slotted.snoc_ended (fun index call source result terminate hget => ?_) hlength
    refine hs.slotted index call source result terminate ?_
    rw [List.getElem?_append_left (List.getElem?_eq_some_iff.mp hget).1]
    exact hget
  · rw [Batch.put_jobs, hs.jobs]
    simp

theorem prepareBatch_follows {rest : List ToolCall} (hs : Preparing calls done completions s)
    (hcalls : done.map (·.call) ++ rest = calls) :
    (prepareBatch h rest done.length completions).Follows (machine h runs)
      (fun value x => ∃ jobs, Listed done.length value.1 jobs ∧ jobs.map (·.call) = rest ∧
        Preparing calls (done ++ jobs) value.2 x) Broken s := by
  induction rest generalizing s done completions with
  | nil =>
    refine ⟨[], .nil, rfl, ?_⟩
    rwa [List.append_nil]
  | cons call rest ih =>
    have horder : s.jobs.map (·.call) ++ [call] <+: s.calls := by
      refine ⟨rest, ?_⟩
      rw [hs.jobs, hs.calls, ← hcalls]
      simp
    have hlength : done.length < completions.length := by
      rw [hs.length, ← hcalls]
      simp
    -- the rest of the batch, once the job of the call is there
    have hrest : ∀ {progress completions s},
        Preparing calls (done ++ [⟨call, progress⟩]) completions s →
        (prepareBatch h rest (done.length + 1) completions).Follows (machine h runs)
          (fun value x => ∃ jobs, Listed (done.length + 1) value.1 jobs ∧
            jobs.map (·.call) = rest ∧
            Preparing calls (done ++ ⟨call, progress⟩ :: jobs) value.2 x) Broken s := by
      intro progress completions s hs
      have hrest := ih hs (by simpa using hcalls)
      rw [List.length_append, List.length_singleton] at hrest
      simpa only [List.append_assoc, List.singleton_append] using hrest
    have hunskipped : Unskipped s.jobs := by
      rw [hs.jobs]
      exact hs.unskipped
    refine .bind _ (emitToolExecutionStart_follows horder hs.hand hunskipped) ?_
    rintro _ _ rfl
    replace hs := hs.announced call
    have hjob : ({ s with jobs := s.jobs ++ [⟨call, .announced⟩] } : Batch).jobs[done.length]? =
        some ⟨call, .announced⟩ := by
      rw [hs.jobs, List.getElem?_concat_length]
    refine .bind _ (prepareToolCall_follows hjob) ?_
    rintro (⟨result, terminate⟩ | _) s' hprepared
    · obtain ⟨progress, hjobs, hrefuses⟩ := hprepared.job
      have hs' := hs.set hprepared.toSteady hjobs hrefuses.not_ended hrefuses.unskipped
      refine .bind _ (recordImmediate_follows hs' hrefuses hlength) ?_
      rintro completions s hs
      refine .bind _ (hrest hs) ?_
      rintro ⟨prepared, completions⟩ s ⟨jobs, hlisted, hmap, hs⟩
      exact ⟨_ :: jobs, .immediate hlisted, by simp [hmap], hs⟩
    · have hs' := hs.set hprepared.toSteady hprepared.job (fun _ _ _ hends => by cases hends) rfl
      refine .bind (fun value x => value = completions ∧ x = s') ⟨rfl, rfl⟩ ?_
      rintro _ _ ⟨rfl, rfl⟩
      refine .bind _ (hrest hs') ?_
      rintro ⟨prepared, completions⟩ s ⟨jobs, hlisted, hmap, hs⟩
      exact ⟨_ :: jobs, .execute hlisted, by simp [hmap], hs⟩

/-! ### Starting -/

/-- The futures that were created for the jobs, from an index on. -/
inductive Started : Nat → List PendingToolExecution → List Job → Prop where
  | nil {index : Nat} : Started index [] []
  | ended {index : Nat} {call : ToolCall} {source : Source} {result : AgentToolResult}
      {terminate : Bool} {pending : List PendingToolExecution} {jobs : List Job}
      (rest : Started (index + 1) pending jobs) :
      Started index pending (⟨call, .ended source result terminate⟩ :: jobs)
  | running {index : Nat} {call : ToolCall} {pending : List PendingToolExecution}
      {jobs : List Job} (rest : Started (index + 1) pending jobs) :
      Started index (⟨index, call⟩ :: pending) (⟨call, .running false⟩ :: jobs)

/-- The futures of the jobs after `done` are created; the rest of the batch is as it was. -/
structure Creates (completions : Completions) (done jobs : List Job) (s : Batch)
    (pending : List PendingToolExecution) (s' : Batch) : Prop where
  calls : s'.calls = s.calls
  parallel : s'.parallel = s.parallel
  aborting : s'.aborting = s.aborting
  hand : s'.hand = s.hand
  live : ∀ id ∈ s'.live, id ∈ s.live ∨ ∃ execution ∈ pending, execution.call.id = id
  jobs : ∃ jobs', Started done.length pending jobs' ∧ s'.jobs = done ++ jobs' ∧
    jobs'.map (·.call) = jobs.map (·.call) ∧ Slotted completions (done ++ jobs')

theorem startBatch_follows {prepared : List PreparedToolExecution}
    (hlisted : Listed done.length prepared jobs) (hjobs : s.jobs = done ++ jobs)
    (hslotted : Slotted completions (done ++ jobs)) :
    (startBatch prepared).Follows (machine h runs) (Creates completions done jobs s) Broken s := by
  generalize hindex : done.length = index at hlisted
  induction hlisted generalizing s done with
  | nil =>
    subst hindex
    exact ⟨rfl, rfl, rfl, rfl, fun _ hid => .inl hid, [], .nil, hjobs, rfl, hslotted⟩
  | @immediate index call result result' terminate terminate' source prepared jobs rest ih =>
    subst hindex
    have hmore : (startBatch prepared).Follows (machine h runs) (Creates completions
        (done ++ [⟨call, .ended source result' terminate'⟩]) jobs s) Broken s :=
      ih (by simpa using hjobs) (by simpa using hslotted) (by simp)
    refine hmore.weaken ?_ fun _ _ hbroken => hbroken
    rintro pending x ⟨hcalls, hparallel, haborting, hhand, hlive, jobs', hstarted, hj, hmap, hslot⟩
    refine ⟨hcalls, hparallel, haborting, hhand, hlive, _ :: jobs', ?_, by simpa using hj,
      by simpa using hmap, by simpa using hslot⟩
    rw [List.length_append] at hstarted
    exact .ended hstarted
  | @execute index call prepared jobs rest ih =>
    subst hindex
    have hjob : s.jobs[done.length]? = some ⟨call, .decided (.ok .allow)⟩ := by
      rw [hjobs, List.getElem?_append_right (Nat.le_refl _)]
      simp
    refine .bind _ (startToolFuture_follows hjob) ?_
    rintro _ _ rfl
    have hset : Slotted completions
        ((done ++ ⟨call, .decided (.ok .allow)⟩ :: jobs).set done.length ⟨call, .running false⟩) :=
      hslotted.set done.length fun _ _ _ hends => by cases hends
    have hmore : (startBatch prepared).Follows (machine h runs)
        (Creates completions (done ++ [⟨call, .running false⟩]) jobs
          ({ s with live := call.id :: s.live }.put done.length call (.running false))) Broken
        ({ s with live := call.id :: s.live }.put done.length call (.running false)) :=
      ih (by simp [hjobs]) (by simpa using hset) (by simp)
    refine .bind _ hmore ?_
    rintro pending x ⟨hcalls, hparallel, haborting, hhand, hlive, jobs', hstarted, hj, hmap, hslot⟩
    rw [List.length_append] at hstarted
    refine ⟨hcalls, hparallel, haborting, hhand, fun id hid => ?_, _ :: jobs',
      .running hstarted, by simpa using hj, by simpa using hmap, by simpa using hslot⟩
    rcases hlive id hid with hmem | ⟨execution, hmem, rfl⟩
    · rcases List.mem_cons.mp hmem with rfl | hmem
      · exact .inr ⟨_, List.mem_cons_self, rfl⟩
      · exact .inl hmem
    · exact .inr ⟨execution, List.mem_cons_of_mem _ hmem, rfl⟩

/-! ### Running -/

def Progress.isEnded : Progress → Bool
  | .ended .. => true
  | _ => false

/-- The jobs of the batch while some of them run.  Those at the indices `busy` are
    being finished; the others that are not ended have a pending future. -/
structure Running (calls : List ToolCall) (completions : Completions) (busy : List Nat)
    (pending : List PendingToolExecution) (s : Batch) : Prop where
  length : completions.length = calls.length
  batch : s.calls = calls
  parallel : s.parallel = true
  jobCalls : s.jobs.map (·.call) = calls
  slotted : ∀ (index : Nat), index ∉ busy → ∀ call source result terminate,
    s.jobs[index]? = some ⟨call, .ended source result terminate⟩ →
      completions[index]? = some (some (result, terminate))
  job : ∀ execution ∈ pending, ∃ polled,
    s.jobs[execution.sourceIndex]? = some ⟨execution.call, .running polled⟩
  nodup : (busy ++ pending.map (·.sourceIndex)).Nodup
  cover : ∀ (index : Nat) job, s.jobs[index]? = some job → job.progress.isEnded = true ∨
    index ∈ busy ∨ ∃ execution ∈ pending, execution.sourceIndex = index
  live : ∀ id ∈ s.live, ∃ execution ∈ pending, execution.call.id = id

variable {busy : List Nat} {execution : PendingToolExecution} {allowed : List ToolCallId}
  {err : CoreError → Batch → Prop}

theorem Running.perm {pending' : List PendingToolExecution}
    (hs : Running calls completions busy pending s) (hperm : pending.Perm pending') :
    Running calls completions busy pending' s where
  length := hs.length
  batch := hs.batch
  parallel := hs.parallel
  jobCalls := hs.jobCalls
  slotted := hs.slotted
  job execution hmem := hs.job execution (hperm.mem_iff.mpr hmem)
  nodup := ((hperm.map _).append_left busy).nodup_iff.mp hs.nodup
  cover index job hjob := by
    rcases hs.cover index job hjob with hended | hbusy | ⟨execution, hmem, hindex⟩
    · exact .inl hended
    · exact .inr (.inl hbusy)
    · exact .inr (.inr ⟨execution, hperm.mem_iff.mp hmem, hindex⟩)
  live id hid := by
    obtain ⟨execution, hmem, hcall⟩ := hs.live id hid
    exact ⟨execution, hperm.mem_iff.mp hmem, hcall⟩

theorem Running.steady (hs : Running calls completions busy pending s) (hsteady : Steady s s')
    (hjobs : s'.jobs = s.jobs) : Running calls completions busy pending s' where
  length := hs.length
  batch := hsteady.calls.trans hs.batch
  parallel := hsteady.parallel.trans hs.parallel
  jobCalls := by rw [hjobs, hs.jobCalls]
  slotted := by rw [hjobs]; exact hs.slotted
  job := by rw [hjobs]; exact hs.job
  nodup := hs.nodup
  cover := by rw [hjobs]; exact hs.cover
  live := by rw [hsteady.live]; exact hs.live

theorem rearm_ended {progress : Progress} {source : Source} {result : AgentToolResult}
    {terminate : Bool} (hrearm : progress.rearm = .ended source result terminate) :
    progress = .ended source result terminate := by
  cases progress with
  | running => cases hrearm
  | _ => exact hrearm

theorem isEnded_rearm (progress : Progress) : progress.rearm.isEnded = progress.isEnded := by
  cases progress <;> rfl

/-- Further polls are granted. -/
theorem Running.rearm (hs : Running calls completions busy pending s)
    (hbatch : s'.calls = s.calls) (hparallel : s'.parallel = s.parallel) (hlive : s'.live = s.live)
    (hjobs : Rearmed s.jobs s'.jobs) : Running calls completions busy pending s' := by
  rcases hjobs with hjobs | hjobs
  · exact ⟨hs.length, hbatch.trans hs.batch, hparallel.trans hs.parallel,
      by rw [hjobs, hs.jobCalls], by rw [hjobs]; exact hs.slotted,
      by rw [hjobs]; exact hs.job, hs.nodup,
      by rw [hjobs]; exact hs.cover, by rw [hlive]; exact hs.live⟩
  have hget : ∀ {index : Nat} {job : Job}, s'.jobs[index]? = some job →
      ∃ job', s.jobs[index]? = some job' ∧ job'.rearm = job := by
    intro index job hjob
    rw [hjobs, List.getElem?_map] at hjob
    exact Option.map_eq_some_iff.mp hjob
  refine ⟨hs.length, hbatch.trans hs.batch, hparallel.trans hs.parallel, ?_, ?_, ?_, hs.nodup, ?_,
    by rw [hlive]; exact hs.live⟩
  · rw [hjobs, List.map_map, ← hs.jobCalls]
    rfl
  · intro index hbusy call source result terminate hjob
    obtain ⟨⟨call', progress⟩, hjob', hrearm⟩ := hget hjob
    rw [Job.rearm, Job.mk.injEq] at hrearm
    obtain ⟨rfl, hprogress⟩ := hrearm
    have hended : progress = .ended source result terminate := rearm_ended hprogress
    subst hended
    exact hs.slotted index hbusy _ _ _ _ hjob'
  · intro execution hmem
    obtain ⟨polled, hjob⟩ := hs.job execution hmem
    refine ⟨false, ?_⟩
    rw [hjobs, List.getElem?_map, hjob]
    rfl
  · intro index job hjob
    obtain ⟨job', hjob', rfl⟩ := hget hjob
    rcases hs.cover index job' hjob' with hended | hrest
    · exact .inl ((isEnded_rearm _).trans hended)
    · exact .inr hrest

theorem map_call_set {index : Nat} {progress progress' : Progress}
    (hjob : jobs[index]? = some ⟨call, progress⟩) :
    (jobs.set index ⟨call, progress'⟩).map (·.call) = jobs.map (·.call) := by
  rw [List.map_set]
  refine set_self ?_
  rw [List.getElem?_map, hjob]
  rfl

/-- A pending call is looked after: its job has come so far. -/
theorem Running.focus {progress : Progress}
    (hs : Running calls completions [] (execution :: pending) s) (s' : Batch)
    (hbatch : s'.calls = s.calls) (hparallel : s'.parallel = s.parallel)
    (hlive : ∀ id ∈ s'.live, id ∈ s.live ∧ id ≠ execution.call.id)
    (hjobs : s'.jobs = s.jobs.set execution.sourceIndex ⟨execution.call, progress⟩) :
    Running calls completions [execution.sourceIndex] pending s' := by
  obtain ⟨polled, hjob⟩ := hs.job execution List.mem_cons_self
  have hnodup : ((execution :: pending).map (·.sourceIndex)).Nodup := hs.nodup
  have hother : ∀ other ∈ pending, other.sourceIndex ≠ execution.sourceIndex := by
    intro other hmem hindex
    exact (List.nodup_cons.mp hnodup).1 (List.mem_map.mpr ⟨other, hmem, hindex⟩)
  have hget : ∀ {index : Nat}, index ≠ execution.sourceIndex → s'.jobs[index]? = s.jobs[index]? :=
    fun hne => by rw [hjobs, List.getElem?_set_ne (Ne.symm hne)]
  refine ⟨hs.length, hbatch.trans hs.batch, hparallel.trans hs.parallel, ?_, ?_, ?_, hnodup, ?_, ?_⟩
  · rw [hjobs]
    exact (map_call_set hjob).trans hs.jobCalls
  · intro index hbusy call source result terminate hended
    rw [hget fun heq => hbusy (List.mem_singleton.mpr heq)] at hended
    refine hs.slotted index (fun hmem => ?_) call source result terminate hended
    cases hmem
  · intro other hmem
    rw [hget (hother other hmem)]
    exact hs.job other (List.mem_cons_of_mem _ hmem)
  · intro index job hindex
    by_cases heq : index = execution.sourceIndex
    · exact .inr (.inl (List.mem_singleton.mpr heq))
    rw [hget heq] at hindex
    rcases hs.cover index job hindex with hended | hbusy | ⟨other, hmem, rfl⟩
    · exact .inl hended
    · cases hbusy
    · rcases List.mem_cons.mp hmem with rfl | hmem
      · exact absurd rfl heq
      · exact .inr (.inr ⟨other, hmem, rfl⟩)
  · intro id hid
    obtain ⟨hmem, hne⟩ := hlive id hid
    obtain ⟨other, hother, rfl⟩ := hs.live id hmem
    rcases List.mem_cons.mp hother with rfl | hother
    · exact absurd rfl hne
    · exact ⟨other, hother, rfl⟩

/-- The job that is looked after has come further. -/
theorem Running.step {index : Nat} {progress progress' : Progress}
    (hs : Running calls completions [index] pending s) (hbatch : s'.calls = s.calls)
    (hparallel : s'.parallel = s.parallel) (hlive : s'.live = s.live)
    (hjob : s.jobs[index]? = some ⟨call, progress⟩)
    (hjobs : s'.jobs = s.jobs.set index ⟨call, progress'⟩) :
    Running calls completions [index] pending s' := by
  have hget : ∀ {other : Nat}, other ∉ [index] → s'.jobs[other]? = s.jobs[other]? := by
    intro other hne
    rw [hjobs, List.getElem?_set_ne fun heq => hne (List.mem_singleton.mpr heq.symm)]
  refine ⟨hs.length, hbatch.trans hs.batch, hparallel.trans hs.parallel, ?_, ?_, ?_, hs.nodup, ?_,
    by rw [hlive]; exact hs.live⟩
  · rw [hjobs]
    exact (map_call_set hjob).trans hs.jobCalls
  · intro other hne call source result terminate hended
    rw [hget hne] at hended
    exact hs.slotted other hne call source result terminate hended
  · intro execution hmem
    have hne : execution.sourceIndex ∉ [index] := by
      intro heq
      exact (List.nodup_cons.mp hs.nodup).1
        (List.mem_map.mpr ⟨execution, hmem, List.mem_singleton.mp heq⟩)
    rw [hget hne]
    exact hs.job execution hmem
  · intro other job hother
    by_cases heq : other ∈ [index]
    · exact .inr (.inl heq)
    · rw [hget heq] at hother
      exact hs.cover other job hother

/-- The completion of the job that is looked after is kept. -/
theorem Running.complete {index : Nat} {source : Source} {result : AgentToolResult}
    {terminate : Bool} (hs : Running calls completions [index] pending s)
    (hjob : s.jobs[index]? = some ⟨call, .ended source result terminate⟩) :
    Running calls (completions.set index (some (result, terminate))) [] pending s := by
  have hlt : index < completions.length := by
    rw [hs.length, ← hs.jobCalls, List.length_map]
    exact (List.getElem?_eq_some_iff.mp hjob).1
  refine ⟨by rw [List.length_set, hs.length], hs.batch, hs.parallel, hs.jobCalls, ?_, hs.job,
    (List.nodup_cons.mp hs.nodup).2, ?_, hs.live⟩
  · intro other _ call' source' result' terminate' hother
    by_cases heq : other = index
    · subst heq
      rw [hjob] at hother
      cases hother
      exact List.getElem?_set_self hlt
    · rw [List.getElem?_set_ne (Ne.symm heq)]
      exact hs.slotted other (by simpa using heq) _ _ _ _ hother
  · intro other job hother
    rcases hs.cover other job hother with hended | hbusy | hpending
    · exact .inl hended
    · rw [List.mem_singleton.mp hbusy, hjob, Option.some.injEq] at hother
      subst hother
      exact .inl rfl
    · exact .inr (.inr hpending)

/-! ### The futures that were created -/

theorem Started.le {index : Nat} (hstarted : Started index pending jobs) :
    ∀ execution ∈ pending, index ≤ execution.sourceIndex := by
  induction hstarted with
  | nil => exact fun _ hmem => by cases hmem
  | ended rest ih =>
    intro execution hmem
    have := ih execution hmem
    omega
  | running rest ih =>
    intro execution hmem
    rcases List.mem_cons.mp hmem with rfl | hmem
    · exact Nat.le_refl _
    · have := ih execution hmem
      omega

theorem Started.nodup {index : Nat} (hstarted : Started index pending jobs) :
    (pending.map (·.sourceIndex)).Nodup := by
  induction hstarted with
  | nil => exact List.nodup_nil
  | ended rest ih => exact ih
  | running rest ih =>
    refine List.nodup_cons.mpr ⟨fun hmem => ?_, ih⟩
    obtain ⟨execution, hmem, hindex⟩ := List.mem_map.mp hmem
    have hle := rest.le execution hmem
    simp only at hindex
    omega

theorem Started.job {index : Nat} (hstarted : Started index pending jobs) :
    ∀ execution ∈ pending,
      jobs[execution.sourceIndex - index]? = some ⟨execution.call, .running false⟩ := by
  induction hstarted with
  | nil => exact fun _ hmem => by cases hmem
  | @ended index _ _ _ _ _ _ rest ih =>
    intro execution hmem
    have hle := rest.le execution hmem
    rw [show execution.sourceIndex - index = execution.sourceIndex - (index + 1) + 1 by omega,
      List.getElem?_cons_succ]
    exact ih execution hmem
  | @running index _ _ _ rest ih =>
    intro execution hmem
    rcases List.mem_cons.mp hmem with rfl | hmem
    · simp
    · have hle := rest.le execution hmem
      rw [show execution.sourceIndex - index = execution.sourceIndex - (index + 1) + 1 by omega,
        List.getElem?_cons_succ]
      exact ih execution hmem

theorem Started.cover {index : Nat} (hstarted : Started index pending jobs) :
    ∀ (k : Nat) job, jobs[k]? = some job → job.progress.isEnded = true ∨
      ∃ execution ∈ pending, execution.sourceIndex = index + k := by
  induction hstarted with
  | nil => exact fun k job hjob => by simp at hjob
  | ended rest ih =>
    intro k job hjob
    cases k with
    | zero =>
      rw [List.getElem?_cons_zero, Option.some.injEq] at hjob
      subst hjob
      exact .inl rfl
    | succ k =>
      rcases ih k job hjob with hended | ⟨execution, hmem, hindex⟩
      · exact .inl hended
      · exact .inr ⟨execution, hmem, by omega⟩
  | running rest ih =>
    intro k job hjob
    cases k with
    | zero => exact .inr ⟨_, List.mem_cons_self, rfl⟩
    | succ k =>
      rcases ih k job hjob with hended | ⟨execution, hmem, hindex⟩
      · exact .inl hended
      · exact .inr ⟨execution, List.mem_cons_of_mem _ hmem, by omega⟩

/-! ### Polling -/

/-- The calls that are allowed a poll after the cancellation have it still. -/
structure Allows (pending : List PendingToolExecution) (allowed : List ToolCallId) (s : Batch) :
    Prop where
  seen : allowed ≠ [] → s.seen = true
  granted : ∀ execution ∈ pending, execution.call.id ∈ allowed →
    s.jobs[execution.sourceIndex]? = some ⟨execution.call, .running false⟩

/-- A pending call has settled, and is to be finished. -/
structure Finishing (calls : List ToolCall) (completions : Completions)
    (pending : List PendingToolExecution) (execution : PendingToolExecution)
    (result : Except ToolError AgentToolResult) (s : Batch) : Prop where
  running : Running calls completions [execution.sourceIndex] pending s
  aborting : s.aborting = false
  closed : execution.call.id ∈ s.closed
  shut : execution.call.id ∉ s.live
  settled : ∃ source : Source, source.execution = result ∧
    s.jobs[execution.sourceIndex]? = some ⟨execution.call, .settled source⟩

/-- What polling the pending calls leads to. -/
def PolledAll (calls : List ToolCall) (completions : Completions)
    (pending : List PendingToolExecution) :
    Option (Nat × ParallelToolStep) × List ToolCallId → Batch → Prop
  | (none, allowed), s => Running calls completions [] pending s ∧ s.aborting = false ∧
      s.hand = [] ∧ Allows pending allowed s
  | (some (_, .cancelled _), _), _ => False
  | (some (_, .updates updates), allowed), s => Running calls completions [] pending s ∧
      s.aborting = false ∧ s.hand = updates ∧ (allowed ≠ [] → s.seen = true) ∧
      ∀ execution ∈ pending,
        s.jobs[execution.sourceIndex]? = some ⟨execution.call, .running false⟩
  | (some (index, .completed execution result updates), allowed), s =>
      pending[index]? = some execution ∧ s.hand = updates ∧
      ∀ others, pending.Perm (execution :: others) →
        Finishing calls completions others execution result s ∧ Allows others allowed s

theorem Running.look (hs : Running calls completions busy pending s) (cancelled : Bool) :
    Running calls completions busy pending (s.look cancelled) := hs.steady (steady_look _) rfl

theorem Running.draw (hs : Running calls completions busy pending s)
    (updates : List PendingToolUpdate) :
    Running calls completions busy pending (s.draw updates) :=
  hs.rearm rfl rfl rfl (.draw updates)

/-- Taking updates grants a further poll to every pending call. -/
theorem Running.granted (hs : Running calls completions [] pending s)
    {updates : List PendingToolUpdate} (hnil : updates ≠ []) :
    ∀ execution ∈ pending,
      (s.draw updates).jobs[execution.sourceIndex]? = some ⟨execution.call, .running false⟩ := by
  intro execution hmem
  obtain ⟨polled, hjob⟩ := hs.job execution hmem
  simp only [Batch.draw, hnil, if_false, List.getElem?_map, hjob]
  rfl

theorem Running.call_eq (hs : Running calls completions busy pending s)
    {other : PendingToolExecution} (hmem : execution ∈ pending) (hother : other ∈ pending)
    (hindex : other.sourceIndex = execution.sourceIndex) : other.call = execution.call := by
  obtain ⟨polled, hjob⟩ := hs.job execution hmem
  obtain ⟨polled', hjob'⟩ := hs.job other hother
  rw [hindex, hjob, Option.some.injEq, Job.mk.injEq] at hjob'
  exact hjob'.1.symm

/-- A pending call was polled once more, and is still pending. -/
theorem Running.polled (hs : Running calls completions [] pending s) (hmem : execution ∈ pending)
    (polled : Bool) :
    Running calls completions [] pending
      (s.put execution.sourceIndex execution.call (.running polled)) := by
  obtain ⟨polled', hjob⟩ := hs.job execution hmem
  have hself : (s.jobs.set execution.sourceIndex
      ⟨execution.call, .running polled⟩)[execution.sourceIndex]? =
        some ⟨execution.call, .running polled⟩ :=
    List.getElem?_set_self (List.getElem?_eq_some_iff.mp hjob).1
  have hother : ∀ {index : Nat}, index ≠ execution.sourceIndex →
      (s.jobs.set execution.sourceIndex ⟨execution.call, .running polled⟩)[index]? =
        s.jobs[index]? := fun hne => List.getElem?_set_ne (Ne.symm hne)
  refine ⟨hs.length, hs.batch, hs.parallel, (map_call_set hjob).trans hs.jobCalls, ?_, ?_,
    hs.nodup, ?_, hs.live⟩
  · intro index hbusy call source result terminate hended
    rw [Batch.put_jobs] at hended
    by_cases heq : index = execution.sourceIndex
    · rw [heq, hself] at hended
      cases hended
    · rw [hother heq] at hended
      exact hs.slotted index hbusy _ _ _ _ hended
  · intro other hmem'
    rw [Batch.put_jobs]
    by_cases heq : other.sourceIndex = execution.sourceIndex
    · rw [heq, hself, hs.call_eq hmem hmem' heq]
      exact ⟨polled, rfl⟩
    · rw [hother heq]
      exact hs.job other hmem'
  · intro index job hindex
    by_cases heq : index = execution.sourceIndex
    · exact .inr (.inr ⟨execution, hmem, heq.symm⟩)
    · rw [Batch.put_jobs, hother heq] at hindex
      exact hs.cover index job hindex

/-- What a poll of one pending call has made of the batch. -/
def PolledOne (calls : List ToolCall) (completions : Completions)
    (pending : List PendingToolExecution) (execution : PendingToolExecution)
    (allowed : List ToolCallId) (s : Batch) :
    Option (Except ToolError AgentToolResult) → Batch → Prop
  | none, s' => Running calls completions [] pending s' ∧ s'.aborting = false ∧ s'.hand = [] ∧
      Allows pending allowed s'
  | some result, s' => Steady s s' ∧ s'.jobs = s.jobs.set execution.sourceIndex
      ⟨execution.call, .settled (.finished result)⟩

theorem Allows.other (hallows : Allows pending allowed s)
    (hs : Running calls completions busy pending s) (hmem : execution ∈ pending)
    (hused : execution.call.id ∉ allowed) (progress : Progress) :
    Allows pending allowed (s.put execution.sourceIndex execution.call progress) where
  seen := hallows.seen
  granted other hother hallowed := by
    have hne : execution.sourceIndex ≠ other.sourceIndex := by
      intro heq
      rw [hs.call_eq hmem hother heq.symm] at hallowed
      exact hused hallowed
    rw [Batch.put_jobs, List.getElem?_set_ne hne]
    exact hallows.granted other hother hallowed

theorem pollOne_follows (hs : Running calls completions [] pending s)
    (haborting : s.aborting = false) (hhand : s.hand = []) (hmem : execution ∈ pending)
    (hallows : Allows pending allowed s)
    (hmay : s.checked = true ∨ (s.seen = true ∧ s.emptied = true ∧
      s.jobs[execution.sourceIndex]? = some ⟨execution.call, .running false⟩ ∧
      execution.call.id ∉ allowed)) :
    (pollTool execution.call).Follows (machine h runs)
      (PolledOne calls completions pending execution allowed s) Broken s := by
  obtain ⟨polled, hjob⟩ := hs.job execution hmem
  refine ask_follows ?_
  rintro (_ | result)
  · rcases hmay with hchecked | ⟨hseen, hemptied, hfalse, hused⟩
    · exact ⟨_, .pending hjob hchecked, hs.steady ⟨rfl, rfl, rfl, rfl, rfl, rfl, id⟩ rfl, haborting,
        hhand, hallows.seen, hallows.granted⟩
    · have hpolled : Running calls completions [] pending ({ s with checked := false }.put
          execution.sourceIndex execution.call (.running true)) :=
        (hs.polled hmem true).steady ⟨rfl, rfl, rfl, rfl, rfl, rfl, id⟩ rfl
      have hother := hallows.other hs hmem hused (.running true)
      exact ⟨_, .again hfalse hseen hemptied, hpolled, haborting, hhand, hother.seen,
        hother.granted⟩
  · have hready : s.MayPoll polled := by
      refine hmay.imp_right fun ⟨hseen, _, hfalse, _⟩ => ⟨hseen, ?_⟩
      rw [hjob, Option.some.injEq, Job.mk.injEq, Progress.running.injEq] at hfalse
      exact hfalse.2
    exact ⟨_, .ready hjob hready, ⟨rfl, rfl, rfl, rfl, rfl, rfl, id⟩, rfl⟩

/-- The completion of a pending call is handed on with the updates still queued. -/
theorem Running.settles (hs : Running calls completions [] pending s) {index : Nat}
    (hindex : pending[index]? = some execution) (hallows : Allows pending allowed s)
    {result : Except ToolError AgentToolResult} (hsteady : Steady s s')
    (haborting : s'.aborting = false) (hhand : s'.hand = [])
    (hjobs : s'.jobs = s.jobs.set execution.sourceIndex
      ⟨execution.call, .settled (.finished result)⟩) :
    (do
      closeUpdates execution.call.id
      let updates ← takeUpdates
      pure (some (index, ParallelToolStep.completed execution result (updates.getD [])), allowed) :
      Drive (Option (Nat × ParallelToolStep) × List ToolCallId)).Follows (machine h runs)
      (PolledAll calls completions pending) Broken s' := by
  have hmem : execution ∈ pending := List.mem_of_getElem? hindex
  obtain ⟨polled, hjob⟩ := hs.job execution hmem
  have hsettled : s'.jobs[execution.sourceIndex]? =
      some ⟨execution.call, .settled (.finished result)⟩ := by
    rw [hjobs]
    exact List.getElem?_set_self (List.getElem?_eq_some_iff.mp hjob).1
  refine .bind _ (closeUpdates_follows hsettled .finished) ?_
  rintro _ _ rfl
  have hput : ((s'.shut execution.call.id).put execution.sourceIndex execution.call
      (.settled (.finished result))).jobs = s'.jobs := set_self hsettled
  refine .bind _ (takeUpdates_follows hhand haborting) ?_
  rintro updates _ ⟨rfl, -⟩
  refine ⟨hindex, rfl, fun others hperm => ⟨?_, ?_, ?_⟩⟩
  · have hfocus := (hs.perm hperm).focus ((s'.shut execution.call.id).put
      execution.sourceIndex execution.call (.settled (.finished result))) hsteady.calls
      hsteady.parallel (fun id hid => ?_) (hput.trans hjobs)
    · refine ⟨hfocus.draw _, haborting, List.mem_cons_self, ?_, .finished result, rfl, ?_⟩
      · simp [Batch.draw, Batch.put, Batch.shut]
      · exact (Rearmed.draw _).get (by rw [hput]; exact hsettled) rfl
    · have hid' := List.mem_filter.mp hid
      rw [hsteady.live] at hid'
      exact ⟨hid'.1, by simpa using hid'.2⟩
  · exact fun hne => hsteady.seen (hallows.seen hne)
  · intro other hother hallowed
    have hne : execution.sourceIndex ≠ other.sourceIndex := by
      intro heq
      have hnodup := ((hs.perm hperm).nodup)
      exact (List.nodup_cons.mp hnodup).1 (List.mem_map.mpr ⟨other, hother, heq.symm⟩)
    have hgranted := hallows.granted other (hperm.mem_iff.mpr (List.mem_cons_of_mem _ hother))
      hallowed
    refine (Rearmed.draw _).get ?_ rfl
    rw [hput, hjobs, List.getElem?_set_ne hne]
    exact hgranted

theorem pollPending_follows (before : List PendingToolExecution)
    {rest : List PendingToolExecution} {allowed : List ToolCallId}
    (hs : Running calls completions [] (before ++ rest) s) (haborting : s.aborting = false)
    (hhand : s.hand = []) (hallows : Allows (before ++ rest) allowed s)
    (hemptied : allowed ≠ [] → s.emptied = true) :
    (pollPending rest before.length allowed).Follows (machine h runs)
      (PolledAll calls completions (before ++ rest)) Broken s := by
  induction rest generalizing s before allowed with
  | nil => exact ⟨hs, haborting, hhand, hallows⟩
  | cons execution rest ih =>
    unfold pollPending
    have hmem : execution ∈ before ++ execution :: rest := by simp
    have hnext : ∀ {s allowed}, Running calls completions [] (before ++ execution :: rest) s →
        s.aborting = false → s.hand = [] → Allows (before ++ execution :: rest) allowed s →
        (allowed ≠ [] → s.emptied = true) →
        (pollPending rest (before.length + 1) allowed).Follows (machine h runs)
          (PolledAll calls completions (before ++ execution :: rest)) Broken s := by
      intro s allowed hs haborting hhand hallows hemptied
      have hrest := @ih s (before ++ [execution]) allowed
      simp only [List.append_assoc, List.singleton_append, List.length_append,
        List.length_singleton] at hrest
      exact hrest hs haborting hhand hallows hemptied
    refine .bind _ isCancelled_follows ?_
    rintro cancelled _ ⟨rfl, hseen⟩
    have hlook : Allows (before ++ execution :: rest) allowed (s.look cancelled) :=
      ⟨fun hne => (steady_look cancelled).seen (hallows.seen hne), hallows.granted⟩
    have hlookEmptied : allowed ≠ [] → (s.look cancelled).emptied = true := by
      intro hne
      simp [Batch.look, hemptied hne, hallows.seen hne]
    by_cases hskip : (cancelled && !allowed.contains execution.call.id) = true
    · simp only [hskip, if_true]
      exact hnext (hs.look cancelled) haborting hhand hlook hlookEmptied
    simp only [hskip]
    -- under cancellation the call is one of those that are allowed a poll
    have hmay : (s.look cancelled).checked = true ∨ ((s.look cancelled).seen = true ∧
        (s.look cancelled).emptied = true ∧ (s.look cancelled).jobs[execution.sourceIndex]? =
          some ⟨execution.call, .running false⟩ ∧ execution.call.id ∉
        (if cancelled then allowed.filter (· ≠ execution.call.id) else allowed)) := by
      cases cancelled with
      | false => exact .inl rfl
      | true =>
        have hallowed : execution.call.id ∈ allowed := by simpa using hskip
        have hne : allowed ≠ [] := List.ne_nil_of_mem hallowed
        exact .inr ⟨hlook.seen hne, hlookEmptied hne, hallows.granted execution hmem hallowed,
          by simp⟩
    have hsub : ∀ id ∈ (if cancelled then allowed.filter (· ≠ execution.call.id) else allowed),
        id ∈ allowed := by
      intro id hid
      split at hid
      · exact (List.mem_filter.mp hid).1
      · exact hid
    have hless : Allows (before ++ execution :: rest)
        (if cancelled then allowed.filter (· ≠ execution.call.id) else allowed)
        (s.look cancelled) := by
      refine ⟨fun hne => ?_, fun other hother hid => hlook.granted other hother (hsub _ hid)⟩
      obtain ⟨id, hid⟩ := List.exists_mem_of_ne_nil _ hne
      exact hlook.seen (List.ne_nil_of_mem (hsub id hid))
    refine .bind _ (pollOne_follows (hs.look cancelled) haborting hhand hmem hless hmay) ?_
    rintro (_ | result) s' hone
    · obtain ⟨hs', haborting', hhand', hallows'⟩ := hone
      refine .bind _ (takeUpdates_follows hhand' haborting') ?_
      rintro (_ | updates) _ ⟨rfl, hsome⟩
      · refine hnext (hs'.draw []) haborting' rfl ⟨hallows'.seen, ?_⟩ fun _ => rfl
        simpa using hallows'.granted
      · have hnil : updates ≠ [] := fun hnil => hsome (congrArg some hnil)
        exact ⟨hs'.draw updates, haborting', rfl, hallows'.seen, hs'.granted hnil⟩
    · obtain ⟨hsteady, hjobs⟩ := hone
      refine (hs.look cancelled).settles (by simp) hless hsteady (hsteady.aborting.trans haborting)
        (hsteady.hand.trans hhand) hjobs

/-! ### One step of the scheduler -/

theorem swapRemove_perm {items : List α} {index : Nat} {item : α}
    (hitem : items[index]? = some item) : items.Perm (item :: swapRemove items index) := by
  obtain ⟨hlt, rfl⟩ := List.getElem?_eq_some_iff.mp hitem
  obtain ⟨init, last, rfl⟩ : ∃ init last, items = init ++ [last] :=
    ⟨_, _, (List.dropLast_append_getLast (List.ne_nil_of_length_pos (by omega))).symm⟩
  have hgetLast : (init ++ [last]).getLast? = some last := by simp
  simp only [swapRemove, hgetLast]
  by_cases hlast : index + 1 = (init ++ [last]).length
  · rw [if_pos hlast, List.dropLast_concat]
    have hindex : index = init.length := by simpa using hlast
    subst hindex
    simp
  · have hinit : index < init.length := by
      rw [List.length_append, List.length_singleton] at hlt hlast
      omega
    obtain ⟨before, after, heq, -, hset⟩ : ∃ before after, init = before ++ init[index] :: after ∧
        before.length = index ∧ init.set index last = before ++ last :: after :=
      List.exists_of_set hinit
    rw [if_neg hlast, List.set_append_left _ _ hinit, List.dropLast_concat, hset,
      List.getElem_append_left hinit]
    have hsplit : init ++ [last] = before ++ init[index] :: (after ++ [last]) := by
      have happend := congrArg (· ++ [last]) heq
      simpa using happend
    have hfront : (before ++ init[index] :: (after ++ [last])).Perm
        (init[index] :: (before ++ (after ++ [last]))) := List.perm_middle
    have hback : (before ++ (after ++ [last])).Perm (before ++ last :: after) :=
      (List.perm_append_singleton last after).append_left before
    exact (List.Perm.of_eq hsplit).trans (hfront.trans (hback.cons _))

/-- What a step of the scheduler has made of the batch. -/
def SteppedAll (calls : List ToolCall) (completions : Completions) : ParallelState → Batch → Prop
  | ⟨.cancelled updates, pending, _⟩, s =>
      Running calls completions [] pending s ∧ s.seen = true ∧ s.hand = updates
  | ⟨.updates updates, pending, allowed⟩, s =>
      Running calls completions [] pending s ∧ s.aborting = false ∧ s.hand = updates ∧
        (allowed ≠ [] → s.seen = true) ∧ ∀ execution ∈ pending,
          s.jobs[execution.sourceIndex]? = some ⟨execution.call, .running false⟩
  | ⟨.completed execution result updates, pending, allowed⟩, s =>
      Finishing calls completions pending execution result s ∧ s.hand = updates ∧
        Allows pending allowed s

theorem nextParallelStep_follows (fuel : Nat) (hs : Running calls completions [] pending s)
    (haborting : s.aborting = false) (hhand : s.hand = []) (hallows : Allows pending allowed s) :
    (nextParallelStep fuel pending allowed).Follows (machine h runs)
      (SteppedAll calls completions) Broken s := by
  induction fuel generalizing s allowed with
  | zero => exact exhausted_follows
  | succ fuel ih =>
    unfold nextParallelStep
    have hupdates : ∀ {s updates}, Running calls completions [] pending s → s.aborting = false →
        (allowed ≠ [] → s.seen = true) → some updates ≠ some [] →
        SteppedAll calls completions ⟨.updates updates, pending, allowed⟩ (s.draw updates) := by
      intro s updates hs haborting hseen hsome
      have hnil : updates ≠ [] := fun hnil => hsome (congrArg some hnil)
      exact ⟨hs.draw updates, haborting, rfl, hseen, hs.granted hnil⟩
    have hstopped : ∀ {cancelled : Bool} {s : Batch}, (cancelled && allowed.isEmpty) = true →
        (s.look cancelled).seen = true := by
      intro cancelled s hstop
      simp [Batch.look, (Bool.and_eq_true_iff.mp hstop).1]
    refine .bind _ (takeUpdates_follows hhand haborting) ?_
    rintro (_ | updates) _ ⟨rfl, hsome⟩
    · refine .bind _ isCancelled_follows ?_
      rintro cancelled _ ⟨rfl, -⟩
      have hs₁ := (hs.draw []).look cancelled
      have hseen₁ : allowed ≠ [] → ((s.draw []).look cancelled).seen = true := fun hne =>
        (steady_look cancelled).seen (hallows.seen hne)
      by_cases hstop : (cancelled && allowed.isEmpty) = true
      · simp only [hstop, if_true]
        exact ⟨hs₁, hstopped hstop, rfl⟩
      simp only [hstop]
      refine .bind _ (takeUpdates_follows rfl haborting) ?_
      rintro (_ | updates) _ ⟨rfl, hsome⟩
      · refine .bind _ isCancelled_follows ?_
        rintro cancelled' _ ⟨rfl, -⟩
        have hs₂ := (hs₁.draw []).look cancelled'
        by_cases hstop : (cancelled' && allowed.isEmpty) = true
        · simp only [hstop, if_true]
          refine .bind _ (takeUpdates_follows rfl haborting) ?_
          rintro updates _ ⟨rfl, -⟩
          exact ⟨hs₂.draw _, hstopped hstop, rfl⟩
        simp only [hstop]
        have hallows₂ : Allows pending allowed
            ((((s.draw []).look cancelled).draw []).look cancelled') := by
          refine ⟨fun hne => (steady_look cancelled').seen (hseen₁ hne), ?_⟩
          simpa using hallows.granted
        refine .bind _ (pollPending_follows [] hs₂ haborting rfl hallows₂ ?_) ?_
        · intro hne
          simp [Batch.look, Batch.draw, hallows.seen hne]
        rintro ⟨_ | ⟨index, updates | updates | ⟨execution, result, updates⟩⟩, allowed'⟩ x hpolled
        · obtain ⟨hs₃, haborting₃, hhand₃, hallows₃⟩ := hpolled
          refine .bind _ isCancelled_follows ?_
          rintro cancelled _ ⟨rfl, -⟩
          refine .bind _ (takeUpdates_follows hhand₃ haborting₃) ?_
          rintro updates _ ⟨rfl, hsome⟩
          have hs₄ := (hs₃.look cancelled).draw (updates.getD [])
          have hseen₄ : allowed' ≠ [] → (x.look cancelled).seen = true := fun hne =>
            (steady_look cancelled).seen (hallows₃.seen hne)
          cases cancelled with
          | true => exact ⟨hs₄, by simp [Batch.look, Batch.draw], rfl⟩
          | false =>
            rcases updates with _ | updates
            · refine .bind _ (ask_follows fun _ => ⟨_, .wake rfl, rfl⟩) ?_
              rintro _ _ rfl
              refine ih (hs₄.steady ⟨rfl, rfl, rfl, rfl, rfl, rfl, id⟩ rfl) haborting₃ rfl
                ⟨hseen₄, ?_⟩
              simpa using hallows₃.granted
            · have hnil : updates ≠ [] := fun hnil => hsome (congrArg some hnil)
              exact ⟨hs₄, haborting₃, rfl, hseen₄, (hs₃.look false).granted hnil⟩
        · exact hpolled.elim
        · exact hpolled
        · obtain ⟨hindex, hhand₃, hfinishing⟩ := hpolled
          obtain ⟨hfinishing, hallows₃⟩ := hfinishing _ (swapRemove_perm hindex)
          exact ⟨hfinishing, hhand₃, hallows₃⟩
      · exact hupdates hs₁ haborting hseen₁ hsome
    · exact hupdates hs haborting hallows.seen hsome

/-! ### The ends of the calls -/

/-- The parallel scheduler announces the result as the hook left it. -/
theorem Ends.parallel {source : Source} {result : AgentToolResult} {terminate : Bool}
    (hparallel : s.parallel = true) (closed : call.id ∉ s.live)
    (drained : call.id ∈ s.drained ∨ s.aborting = true) :
    Ends h runs s call (.finalized source result terminate) source result terminate := by
  have hends : Ends h runs s call (.finalized source result terminate) source
      (if s.parallel then result else normalizeResultFailure result) terminate :=
    .executed closed drained
  rwa [hparallel] at hends

/-- The pending calls do not notice what becomes of the job that is looked after. -/
theorem Running.put_get {index : Nat} (hs : Running calls completions [index] pending s)
    (progress : Progress) (hmem : execution ∈ pending) :
    (s.put index call progress).jobs[execution.sourceIndex]? = s.jobs[execution.sourceIndex]? := by
  rw [Batch.put_jobs]
  refine List.getElem?_set_ne fun heq => ?_
  exact (List.nodup_cons.mp hs.nodup).1 (List.mem_map.mpr ⟨execution, hmem, heq.symm⟩)

/-- The end of the job that is looked after is announced, and its completion kept. -/
theorem Running.finish {index : Nat} {source : Source} {result : AgentToolResult}
    {terminate : Bool} (hs : Running calls completions [index] pending s)
    (hjob : s.jobs[index]? = some ⟨call, .finalized source result terminate⟩)
    (hhand : s.hand = []) (hclosed : call.id ∉ s.live)
    (hdrained : call.id ∈ s.drained ∨ s.aborting = true) :
    (emitToolExecutionEnd call result).Follows (machine h runs)
      (fun _ x => x = s.put index call (.ended source result terminate) ∧
        Running calls (completions.set index (some (result, terminate))) [] pending x)
      Broken s := by
  refine (emitToolExecutionEnd_follows hjob hhand
    (.parallel hs.parallel hclosed hdrained)).weaken ?_ fun _ _ hbroken => hbroken
  rintro _ _ rfl
  have hended : Running calls completions [index] pending
      (s.put index call (.ended source result terminate)) := hs.step rfl rfl rfl hjob rfl
  exact ⟨rfl, hended.complete (List.getElem?_set_self (List.getElem?_eq_some_iff.mp hjob).1)⟩

/-- What a pending call leaves behind that is closed. -/
theorem Running.shut {progress : Progress}
    (hs : Running calls completions [] (execution :: pending) s) (s' : Batch)
    (hbatch : s'.calls = s.calls) (hparallel : s'.parallel = s.parallel)
    (hlive : s'.live = s.live.filter (· ≠ execution.call.id))
    (hjobs : s'.jobs = s.jobs.set execution.sourceIndex ⟨execution.call, progress⟩) :
    Running calls completions [execution.sourceIndex] pending s' ∧ execution.call.id ∉ s'.live ∧
      s'.jobs[execution.sourceIndex]? = some ⟨execution.call, progress⟩ := by
  obtain ⟨polled, hjob⟩ := hs.job execution List.mem_cons_self
  refine ⟨hs.focus s' hbatch hparallel (fun id hid => ?_) hjobs, ?_, ?_⟩
  · rw [hlive] at hid
    exact ⟨(List.mem_filter.mp hid).1, by simpa using (List.mem_filter.mp hid).2⟩
  · simp [hlive]
  · rw [hjobs]
    exact List.getElem?_set_self (List.getElem?_eq_some_iff.mp hjob).1

theorem abortPending_follows (hs : Running calls completions [] pending s)
    (hseen : s.seen = true) (hhand : s.hand = []) :
    (abortPending pending completions).Follows (machine h runs)
      (fun value x => Running calls value [] [] x ∧ x.hand = []) Broken s := by
  induction pending generalizing s completions with
  | nil => exact ⟨hs, hhand⟩
  | cons execution rest ih =>
    obtain ⟨polled, hjob⟩ := hs.job execution List.mem_cons_self
    have habort : (closeUpdates execution.call.id).Follows (machine h runs)
        (fun _ x => x = ({ s.shut execution.call.id with aborting := true }.put
          execution.sourceIndex execution.call
          (.finalized .cancelled (abortedToolResult execution.call) false))) Broken s :=
      fun _ _ => ⟨_, .abort hjob hseen, rfl⟩
    refine .bind _ habort ?_
    rintro _ _ rfl
    obtain ⟨hfocus, hclosed, hfinalized⟩ := hs.shut
      ({ s.shut execution.call.id with aborting := true }.put execution.sourceIndex execution.call
        (.finalized .cancelled (abortedToolResult execution.call) false)) rfl rfl rfl rfl
    refine .bind _ (hfocus.finish hfinalized hhand hclosed (.inr rfl)) ?_
    rintro _ _ ⟨rfl, hrest⟩
    exact ih hrest hseen hhand

/-- Every pending call has its poll after the cancellation. -/
def Granted (pending : List PendingToolExecution) (s : Batch) : Prop :=
  ∀ execution ∈ pending,
    s.jobs[execution.sourceIndex]? = some ⟨execution.call, .running false⟩

theorem Flushed.running (hflush : Flushed s s') (hs : Running calls completions busy pending s) :
    Running calls completions busy pending s' :=
  hs.rearm hflush.calls hflush.parallel hflush.live hflush.jobs

theorem Flushed.granted (hflush : Flushed s s') (hgranted : Granted pending s) :
    Granted pending s' := fun execution hmem => hflush.jobs.get (hgranted execution hmem) rfl

theorem Granted.put {index : Nat} (hgranted : Granted pending s)
    (hs : Running calls completions [index] pending s) (progress : Progress) :
    Granted pending (s.put index call progress) := fun execution hmem => by
  rw [hs.put_get progress hmem]
  exact hgranted execution hmem

/-- The last poll of a pending call: it has settled, or it is dropped. -/
theorem lastPoll_follows {index : Nat} (hjob : s.jobs[index]? = some ⟨call, .running false⟩)
    (hseen : s.seen = true) :
    (pollTool call).Follows (machine h runs)
      (fun polled x => Steady s x ∧ ∃ progress progress',
        x.jobs = s.jobs.set index ⟨call, progress⟩ ∧ Closes x call progress progress' ∧
        match polled with
        | some execution => progress' = .settled (.finished execution)
        | none => progress' = .finalized .cancelled (abortedToolResult call) false) err s := by
  refine ask_follows ?_
  rintro (_ | execution)
  · exact ⟨_, .last hjob hseen, ⟨rfl, rfl, rfl, rfl, rfl, rfl, id⟩, _, _, rfl, .dropped, rfl⟩
  · exact ⟨_, .ready hjob (.inr ⟨hseen, rfl⟩), ⟨rfl, rfl, rfl, rfl, rfl, rfl, id⟩, _, _, rfl,
      .finished, rfl⟩

/-- The result of a call whose callback is closed is at hand. -/
structure Finalized (calls : List ToolCall) (completions : Completions)
    (pending : List PendingToolExecution) (execution : PendingToolExecution)
    (value : AgentToolResult × Bool) (s : Batch) : Prop where
  running : Running calls completions [execution.sourceIndex] pending s
  hand : s.hand = []
  shut : execution.call.id ∉ s.live
  drained : execution.call.id ∈ s.drained
  finalized : ∃ source,
    s.jobs[execution.sourceIndex]? = some ⟨execution.call, .finalized source value.1 value.2⟩

theorem finalizeSibling_follows {polled : Option (Except ToolError AgentToolResult)}
    {progress : Progress} (hs : Running calls completions [execution.sourceIndex] pending s)
    (hhand : s.hand = []) (hshut : execution.call.id ∉ s.live)
    (hdrained : execution.call.id ∈ s.drained) (hgranted : Granted pending s)
    (hjob : s.jobs[execution.sourceIndex]? = some ⟨execution.call, progress⟩)
    (hprogress : match polled with
      | some execution => progress = .settled (.finished execution)
      | none => progress = .finalized .cancelled (abortedToolResult execution.call) false) :
    (finalizeSibling execution.call polled).Follows (machine h runs)
      (fun value x => Finalized calls completions pending execution value x ∧ Granted pending x ∧
        x.seen = s.seen ∧ x.aborting = s.aborting) Broken s := by
  cases polled with
  | none =>
    subst hprogress
    exact ⟨⟨hs, hhand, hshut, hdrained, .cancelled, hjob⟩, hgranted, rfl, rfl⟩
  | some result =>
    subst hprogress
    refine (finalizeExecutedTool_follows hjob).weaken ?_ fun _ _ hbroken => hbroken
    rintro value _ rfl
    refine ⟨⟨hs.step rfl rfl rfl hjob rfl, hhand, hshut, hdrained, .finished result, ?_⟩,
      hgranted.put hs _, rfl, rfl⟩
    exact List.getElem?_set_self (List.getElem?_eq_some_iff.mp hjob).1

/-- The siblings of the calls whose update requested the cancellation are settled, and
    those calls stay pending. -/
theorem settleSiblings_follows (fuel : Nat) (updateCallIds : List ToolCallId)
    (kept : List PendingToolExecution) {rest : List PendingToolExecution}
    (hs : Running calls completions [] (kept ++ rest) s) (hgranted : Granted (kept ++ rest) s)
    (hseen : s.seen = true) (haborting : s.aborting = false) (hhand : s.hand = []) :
    (settleSiblings fuel updateCallIds rest completions).Follows (machine h runs)
      (fun value x => Running calls value.2 [] (kept ++ value.1) x ∧
        Granted (kept ++ value.1) x ∧ x.seen = true ∧ x.aborting = false ∧ x.hand = [])
      Broken s := by
  induction rest generalizing s kept completions with
  | nil => exact ⟨hs, hgranted, hseen, haborting, hhand⟩
  | cons execution rest ih =>
    unfold settleSiblings
    by_cases hkeep : updateCallIds.contains execution.call.id = true
    · simp only [hkeep, if_true]
      have hrest := @ih s completions (kept ++ [execution])
      simp only [List.append_assoc, List.singleton_append] at hrest
      refine .bind _ (hrest hs hgranted hseen haborting hhand) ?_
      rintro ⟨pending, completions⟩ x hx
      exact hx
    · simp only [hkeep]
      have hperm : (kept ++ execution :: rest).Perm (execution :: (kept ++ rest)) :=
        List.perm_middle
      have hjob := hgranted execution (by simp)
      refine .bind _ (lastPoll_follows hjob hseen) ?_
      rintro polled s₁ ⟨hsteady, progress, progress', hjobs, hcloses, hprogress⟩
      have hjob₁ : s₁.jobs[execution.sourceIndex]? = some ⟨execution.call, progress⟩ := by
        rw [hjobs]
        exact List.getElem?_set_self (List.getElem?_eq_some_iff.mp hjob).1
      refine .bind _ (closeUpdates_follows hjob₁ hcloses) ?_
      rintro _ _ rfl
      have hjobs₂ : ((s₁.shut execution.call.id).put execution.sourceIndex execution.call
          progress').jobs = s.jobs.set execution.sourceIndex ⟨execution.call, progress'⟩ := by
        simp [Batch.shut, hjobs]
      obtain ⟨hs₂, hshut, hjob₂⟩ := (hs.perm hperm).shut
        ((s₁.shut execution.call.id).put execution.sourceIndex execution.call progress')
        hsteady.calls hsteady.parallel
        (congrArg (List.filter (· ≠ execution.call.id)) hsteady.live) hjobs₂
      have hgranted₂ : Granted (kept ++ rest) ((s₁.shut execution.call.id).put
          execution.sourceIndex execution.call progress') := by
        intro other hother
        have hne : execution.sourceIndex ≠ other.sourceIndex := fun heq =>
          (List.nodup_cons.mp hs₂.nodup).1 (List.mem_map.mpr ⟨other, hother, heq.symm⟩)
        rw [hjobs₂, List.getElem?_set_ne hne]
        exact hgranted other (hperm.mem_iff.mpr (List.mem_cons_of_mem _ hother))
      refine .bind _ (flushToolUpdates_follows fuel (hsteady.hand.trans hhand)
        (hsteady.aborting.trans haborting)) ?_
      rintro _ s₃ hflush
      have hsame : progress'.rearm = progress' := by
        cases polled with
        | none => rw [hprogress]; rfl
        | some result => rw [hprogress]; rfl
      refine .bind _ (finalizeSibling_follows (hflush.running hs₂)
        (hflush.hand.trans (hsteady.hand.trans hhand)) (by rw [hflush.live]; exact hshut)
        (by rw [hflush.drained]; exact List.mem_cons_self) (hflush.granted hgranted₂)
        (hflush.jobs.get hjob₂ hsame) hprogress) ?_
      rintro value s₄ ⟨hfinalized, hgranted₄, hseen₄, haborting₄⟩
      obtain ⟨source, hjob₄⟩ := hfinalized.finalized
      refine .bind _ (hfinalized.running.finish hjob₄ hfinalized.hand hfinalized.shut
        (.inl hfinalized.drained)) ?_
      rintro _ _ ⟨rfl, hrest⟩
      refine ih kept hrest (hgranted₄.put hfinalized.running _) ?_ ?_ hfinalized.hand
      · exact hseen₄.trans (hflush.seen_eq.trans (hsteady.seen hseen))
      · exact haborting₄.trans (hflush.aborting.trans (hsteady.aborting.trans haborting))

/-! ### The batch -/

theorem mem_extendAllowed {ids : List ToolCallId} {id : ToolCallId}
    (hid : id ∈ extendAllowed allowed ids) : id ∈ allowed ∨ id ∈ ids := by
  rcases List.mem_append.mp hid with hmem | hmem
  · exact .inl hmem
  · exact .inr (List.mem_filter.mp hmem).1

theorem Running.deliver (hs : Running calls completions busy pending s) :
    Running calls completions busy pending { s with hand := [] } :=
  hs.rearm rfl rfl rfl (.inl rfl)

theorem runBatch_follows (fuel n : Nat) (hs : Running calls completions [] pending s)
    (haborting : s.aborting = false) (hhand : s.hand = []) (hallows : Allows pending allowed s) :
    (runBatch fuel n pending allowed completions).Follows (machine h runs)
      (fun value x => Running calls value [] [] x ∧ x.hand = []) Broken s := by
  induction n generalizing s pending allowed completions with
  | zero =>
    cases pending with
    | nil => exact ⟨hs, hhand⟩
    | cons execution rest => exact exhausted_follows
  | succ n ih =>
    cases pending with
    | nil => exact ⟨hs, hhand⟩
    | cons execution rest =>
      refine .bind _ (nextParallelStep_follows fuel hs haborting hhand hallows) ?_
      rintro ⟨updates | updates | ⟨execution, result, updates⟩, pending, allowed⟩ s hstep
      · obtain ⟨hs, hseen, hupdates⟩ := hstep
        refine .bind _ (emitToolUpdates_follows hupdates) ?_
        rintro _ _ rfl
        exact abortPending_follows hs.deliver hseen rfl
      · obtain ⟨hs, haborting, hupdates, hallowed, hgranted⟩ := hstep
        refine .bind _ (emitToolUpdates_follows hupdates) ?_
        rintro _ _ rfl
        refine .bind _ isCancelled_follows ?_
        rintro (_ | _) _ ⟨rfl, -⟩
        · refine ih (hs.deliver.look false) haborting rfl ?_
          exact ⟨fun hne => (steady_look false).seen (hallowed hne), fun other hother _ =>
            hgranted other hother⟩
        · refine .bind _ (settleSiblings_follows fuel _ [] (hs.deliver.look true)
            hgranted ?_ haborting rfl) ?_
          · simp [Batch.look]
          rintro ⟨pending, completions⟩ x ⟨hs, hgranted, hseen, haborting, hhand⟩
          exact ih hs haborting hhand ⟨fun _ => hseen, fun other hother _ => hgranted other hother⟩
      · obtain ⟨hfinishing, hupdates, hallows⟩ := hstep
        refine .bind _ (emitToolUpdates_follows hupdates) ?_
        rintro _ _ rfl
        obtain ⟨source, rfl, hjob⟩ := hfinishing.settled
        have hlt := (List.getElem?_eq_some_iff.mp hjob).1
        have hs : Running calls completions [execution.sourceIndex] pending { s with hand := [] } :=
          hfinishing.running.deliver
        refine .bind _ (finalizeExecutedTool_follows hjob) ?_
        rintro value _ rfl
        have hs₁ : Running calls completions [execution.sourceIndex] pending
            (({ s with hand := [] } : Batch).put execution.sourceIndex execution.call
              (.finalized source value.1 value.2)) := hs.step rfl rfl rfl hjob rfl
        have hgranted₁ : ∀ other ∈ pending, other.call.id ∈ allowed →
            (({ s with hand := [] } : Batch).put execution.sourceIndex execution.call
              (.finalized source value.1 value.2)).jobs[other.sourceIndex]? =
                some ⟨other.call, .running false⟩ := fun other hother hallowed => by
          rw [hs.put_get _ hother]
          exact hallows.granted other hother hallowed
        refine .bind _ (flushToolUpdates_follows fuel rfl hfinishing.aborting) ?_
        rintro _ x hflush
        have hfinalized : x.jobs[execution.sourceIndex]? =
            some ⟨execution.call, .finalized source value.1 value.2⟩ :=
          hflush.jobs.get (List.getElem?_set_self hlt) rfl
        have hshut : execution.call.id ∉ x.live := by
          rw [hflush.live]
          exact hfinishing.shut
        have hdrained : execution.call.id ∈ x.drained := by
          rw [hflush.drained]
          exact hfinishing.closed
        have hs₂ := hflush.running hs₁
        refine .bind _ (hs₂.finish hfinalized hflush.hand hshut (.inl hdrained)) ?_
        rintro _ _ ⟨rfl, hrest⟩
        refine ih hrest (hflush.aborting.trans hfinishing.aborting) hflush.hand ⟨?_, ?_⟩
        · exact fun hne => hflush.seen (hallows.seen hne)
        · intro other hother hallowed
          rw [hs₂.put_get _ hother]
          exact hflush.jobs.get (hgranted₁ other hother hallowed) rfl

/-! ### Recording -/

/-- The calls that were prepared stand at their source indices, from an index on. -/
inductive Lined : Nat → List PreparedToolExecution → List ToolCall → Prop where
  | nil {index : Nat} : Lined index [] []
  | cons {index : Nat} {call : ToolCall} {preparation : PreparedToolCall}
      {prepared : List PreparedToolExecution} {calls : List ToolCall}
      (rest : Lined (index + 1) prepared calls) :
      Lined index (⟨index, call, preparation⟩ :: prepared) (call :: calls)

theorem Listed.lined {index : Nat} {prepared : List PreparedToolExecution}
    (hlisted : Listed index prepared jobs) : Lined index prepared (jobs.map (·.call)) := by
  induction hlisted with
  | nil => exact .nil
  | immediate rest ih => exact .cons ih
  | execute rest ih => exact .cons ih

/-- The first jobs are recorded, and the others are ended with their completions. -/
structure Recording (calls : List ToolCall) (completions : Completions) (done rest : List Job)
    (s : Batch) : Prop where
  parallel : s.parallel = true
  jobs : s.jobs = done ++ rest
  jobCalls : s.jobs.map (·.call) = calls
  hand : s.hand = []
  live : s.live = []
  ended : ∀ (index : Nat) job, rest[index]? = some job → ∃ source result terminate,
    job.progress = .ended source result terminate ∧
      completions[done.length + index]? = some (some (result, terminate))

theorem recordBatch_follows {prepared : List PreparedToolExecution} {rest : List Job}
    {allTerminate : Bool} (terminalFailure : Option String)
    (hs : Recording calls completions done rest s)
    (hlined : Lined done.length prepared (rest.map (·.call)))
    (hcounted : Counted done allTerminate) :
    (recordBatch h prepared completions allTerminate terminalFailure).Follows (machine h runs)
      (Completed calls true) Broken s := by
  induction rest generalizing s done prepared completions allTerminate terminalFailure with
  | nil =>
    cases hlined
    have hjobs : s.jobs = done := by rw [hs.jobs, List.append_nil]
    refine ⟨⟨fun job hjob => ?_, hs.hand, hs.live⟩, hs.parallel, hs.jobCalls, ?_, ?_⟩
    · rw [hjobs] at hjob
      obtain ⟨source, result, terminate, hprogress⟩ := hcounted.executed job hjob
      rw [hprogress]
      rfl
    · rw [hjobs]
      exact fun _ => hcounted.executed
    · rw [hjobs]
      exact fun _ => hcounted.terminate
  | cons job rest ih =>
    obtain ⟨call, progress⟩ := job
    obtain ⟨source, result, terminate, hprogress, hcompletion⟩ := hs.ended 0 _ rfl
    simp only at hprogress
    subst hprogress
    cases hlined with
    | @cons _ _ preparation prepared _ hlined =>
    rw [Nat.add_zero] at hcompletion
    unfold recordBatch
    simp only [hcompletion]
    have hjob : s.jobs[done.length]? = some ⟨call, .ended source result terminate⟩ := by
      simp [hs.jobs]
    have horder : ∀ j job, s.jobs[j]? = some job →
        (job.progress.isRecorded = true ↔ j < done.length) := by
      intro j job hj
      rw [hs.jobs] at hj
      by_cases hlt : j < done.length
      · rw [List.getElem?_append_left hlt] at hj
        obtain ⟨_, _, _, hrecorded⟩ := hcounted.executed job (List.mem_of_getElem? hj)
        simp [hrecorded, Progress.isRecorded, hlt]
      · rw [List.getElem?_append_right (by omega)] at hj
        obtain ⟨_, _, _, hended, _⟩ := hs.ended _ job hj
        simp [hended, Progress.isRecorded, hlt]
    refine .bind _ (appendToolResultMessage_follows hjob horder) ?_
    rintro _ _ rfl
    refine .bind _ (observeToolFailure_follows call _) ?_
    rintro observed x ⟨hsteady, hjobs⟩
    have hx : Recording calls (completions.set done.length none)
        (done ++ [⟨call, .recorded source result terminate⟩]) rest x := by
      refine ⟨hsteady.parallel.trans hs.parallel, ?_, ?_, hsteady.hand.trans hs.hand,
        hsteady.live.trans hs.live, ?_⟩
      · rw [hjobs, Batch.put_jobs, hs.jobs]
        simp
      · rw [hjobs]
        exact (map_call_set hjob).trans hs.jobCalls
      · intro index job hindex
        obtain ⟨source', result', terminate', hended, hget⟩ := hs.ended (index + 1) job hindex
        refine ⟨source', result', terminate', hended, ?_⟩
        rw [List.length_append, List.length_singleton, List.getElem?_set_ne (by omega)]
        rwa [show done.length + 1 + index = done.length + (index + 1) by omega]
    refine ih _ hx ?_ hcounted.snoc
    rwa [List.length_append, List.length_singleton]

theorem executeToolCallsParallel_follows (fuel : Nat) (hs : Ready runs calls true s) :
    (executeToolCallsParallel h fuel calls).Follows (machine h runs) (Completed calls true)
      Broken s := by
  have hbegin : resetUpdates.Follows (machine h runs)
      (fun _ x => x = { calls, parallel := true }) Broken s := by
    intro w _
    exact ⟨_, hs.begin (.inr rfl), rfl⟩
  refine .bind _ hbegin ?_
  rintro _ _ rfl
  have hpreparing : Preparing calls [] (List.replicate calls.length none)
      { calls, parallel := true } := by
    refine ⟨by simp, ?_, fun _ hjob => (by cases hjob), rfl, rfl, rfl, rfl, rfl, rfl⟩
    intro index call source result terminate hjob
    simp at hjob
  refine .bind _ (prepareBatch_follows hpreparing rfl) ?_
  rintro ⟨prepared, completions⟩ s ⟨jobs, hlisted, hjobCalls, hs⟩
  refine .bind _ (startBatch_follows hlisted hs.jobs hs.slotted) ?_
  rintro pending x ⟨hcalls, hparallel, haborting, hhand, hlive, jobs', hstarted, hjobs, hmap, hslot⟩
  have hrunning : Running calls completions [] pending x := by
    rw [List.nil_append] at hjobs
    refine ⟨hs.length, hcalls.trans hs.calls, hparallel.trans hs.parallel, ?_, ?_, ?_, ?_, ?_, ?_⟩
    · rw [hjobs, hmap, hjobCalls]
    · rw [hjobs]
      exact fun index _ => hslot index
    · intro execution hmem
      rw [hjobs]
      exact ⟨false, hstarted.job execution hmem⟩
    · exact hstarted.nodup
    · intro index job hjob
      rw [hjobs] at hjob
      rcases hstarted.cover index job hjob with hended | ⟨execution, hmem, hindex⟩
      · exact .inl hended
      · exact .inr (.inr ⟨execution, hmem, by simpa using hindex⟩)
    · intro id hid
      rcases hlive id hid with hmem | hpending
      · rw [hs.live] at hmem
        cases hmem
      · exact hpending
  have hallows : Allows pending [] x := ⟨fun hne => absurd rfl hne, fun _ _ hmem => by cases hmem⟩
  refine .bind _ (runBatch_follows fuel fuel hrunning (haborting.trans hs.aborting)
    (hhand.trans hs.hand) hallows) ?_
  rintro completions x ⟨hx, hhand⟩
  have hrecording : Recording calls completions [] x.jobs x := by
    refine ⟨hx.parallel, rfl, hx.jobCalls, hhand, ?_, fun index job hjob => ?_⟩
    · refine List.eq_nil_iff_forall_not_mem.mpr fun id hid => ?_
      obtain ⟨execution, hmem, _⟩ := hx.live id hid
      cases hmem
    · obtain ⟨call, progress⟩ := job
      rcases hx.cover index _ hjob with hended | hbusy | ⟨execution, hmem, _⟩
      · cases progress with
        | ended source result terminate =>
          refine ⟨source, result, terminate, rfl, ?_⟩
          rw [List.length_nil, Nat.zero_add]
          exact hx.slotted index (fun hmem => by cases hmem) _ _ _ _ hjob
        | _ => cases hended
      · cases hbusy
      · cases hmem
  refine recordBatch_follows none hrecording ?_ ⟨fun _ hmem => (by cases hmem), rfl⟩
  rw [hx.jobCalls, ← hjobCalls]
  exact hlisted.lined

/-- **Both executors follow the machine**: a batch that is not broken is completed. -/
theorem executeToolCalls_follows (fuel : Nat)
    (hs : Ready runs calls (!hasSequentialTool h calls) s) (hcalls : runs = true → calls ≠ []) :
    (executeToolCalls h fuel calls).Follows (machine h runs)
      (Completed calls (!hasSequentialTool h calls)) Broken s := by
  unfold executeToolCalls
  by_cases hsequential : hasSequentialTool h calls = true
  · simp only [hsequential, if_true, Bool.not_true] at hs ⊢
    exact executeToolCallsSequential_follows fuel hs hcalls
  · simp only [hsequential] at hs ⊢
    exact executeToolCallsParallel_follows fuel hs

end Tea.Tools
