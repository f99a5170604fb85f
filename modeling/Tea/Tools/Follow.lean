/-
  Tea/Tools/Follow.lean
  =====================
  **The parts of the two executors follow the batch machine.**

  One lemma for each function that both executors call: which control states it may
  be entered in, and in which it leaves the batch.  An error of any part leaves the
  batch broken.
-/
import Tea.Tools.Batch

namespace Tea.Tools

open Tea.Async Tea.Core Tea.Run

variable {h : RunHandle} {runs : Bool} {s : Batch} {α β : Type}
  {ok : α → Batch → Prop} {err : CoreError → Batch → Prop}

/-- The assertion on the errors of a batch. -/
def Broken (_ : CoreError) (s : Batch) : Prop := s.broken = true

/-! ### Control states -/

namespace Batch

@[simp] theorem put_jobs (index : Nat) (call : ToolCall) (progress : Progress) :
    (s.put index call progress).jobs = s.jobs.set index ⟨call, progress⟩ := rfl

@[simp] theorem put_seen (index : Nat) (call : ToolCall) (progress : Progress) :
    (s.put index call progress).seen = s.seen := rfl

@[simp] theorem look_jobs (cancelled : Bool) : (s.look cancelled).jobs = s.jobs := rfl

@[simp] theorem draw_hand (updates : List PendingToolUpdate) :
    (s.draw updates).hand = updates := rfl

@[simp] theorem draw_nil_jobs : (s.draw []).jobs = s.jobs := by simp [draw]

end Batch

/-- The fields that only the scheduling of the batch changes. -/
structure Steady (s s' : Batch) : Prop where
  calls : s'.calls = s.calls
  parallel : s'.parallel = s.parallel
  live : s'.live = s.live
  closed : s'.closed = s.closed
  hand : s'.hand = s.hand
  aborting : s'.aborting = s.aborting
  seen : s.seen = true → s'.seen = true

theorem Steady.refl (s : Batch) : Steady s s := ⟨rfl, rfl, rfl, rfl, rfl, rfl, id⟩

theorem Steady.trans {s s' s'' : Batch} (hs : Steady s s') (hs' : Steady s' s'') :
    Steady s s'' :=
  ⟨hs'.calls.trans hs.calls, hs'.parallel.trans hs.parallel, hs'.live.trans hs.live,
    hs'.closed.trans hs.closed, hs'.hand.trans hs.hand, hs'.aborting.trans hs.aborting,
    fun hseen => hs'.seen (hs.seen hseen)⟩

theorem steady_put (index : Nat) (call : ToolCall) (progress : Progress) :
    Steady s (s.put index call progress) := ⟨rfl, rfl, rfl, rfl, rfl, rfl, id⟩

theorem steady_look (cancelled : Bool) : Steady s (s.look cancelled) := by
  refine ⟨rfl, rfl, rfl, rfl, rfl, rfl, fun hseen => ?_⟩
  simp [Batch.look, hseen]

theorem Progress.rearm_rearm (progress : Progress) : progress.rearm.rearm = progress.rearm := by
  cases progress <;> rfl

theorem Job.rearm_rearm (job : Job) : job.rearm.rearm = job.rearm := by
  simp [Job.rearm, Progress.rearm_rearm]

/-- The jobs are the same, but further polls may have been granted. -/
def Rearmed (jobs jobs' : List Job) : Prop := jobs' = jobs ∨ jobs' = jobs.map Job.rearm

theorem Rearmed.trans {jobs jobs' jobs'' : List Job} (hj : Rearmed jobs jobs')
    (hj' : Rearmed jobs' jobs'') : Rearmed jobs jobs'' := by
  have hmap : (jobs.map Job.rearm).map Job.rearm = jobs.map Job.rearm := by
    simp [Function.comp_def, Job.rearm_rearm]
  rcases hj with rfl | rfl
  · exact hj'
  · rcases hj' with rfl | rfl
    · exact .inr rfl
    · exact .inr hmap

theorem Rearmed.draw (updates : List PendingToolUpdate) : Rearmed s.jobs (s.draw updates).jobs := by
  by_cases hnil : updates = []
  · exact .inl (by simp [Batch.draw, hnil])
  · exact .inr (by simp [Batch.draw, hnil])

/-- A job that is not running stays as it is. -/
theorem Rearmed.get {jobs jobs' : List Job} (hj : Rearmed jobs jobs') {index : Nat} {job : Job}
    (hjob : jobs[index]? = some job) (hsame : job.progress.rearm = job.progress) :
    jobs'[index]? = some job := by
  rcases hj with rfl | rfl
  · exact hjob
  · have hrearm : job.rearm = job := by
      obtain ⟨call, progress⟩ := job
      exact congrArg (Job.mk call) hsame
    rw [List.getElem?_map, hjob, Option.map_some, hrearm]

theorem normalizeResultFailure_idem (result : AgentToolResult) :
    normalizeResultFailure (normalizeResultFailure result) = normalizeResultFailure result := by
  unfold normalizeResultFailure
  cases herror : result.isError with
  | false => simp
  | true => cases result.failure <;> simp

/-! ### Sections -/

theorem Aside.refl (w : World) : Aside w w := ⟨rfl, rfl, rfl, rfl, rfl⟩

theorem read_aside {f : World → α} :
    (Future.read f : Drive α).Follows (machine h runs) (fun _ x => x = s) err s :=
  fun w _ => ⟨s, .aside (.refl w), rfl⟩

theorem modify_aside {f : World → World} (hf : ∀ w, Aside w (f w)) :
    (Future.modify f : Drive Unit).Follows (machine h runs) (fun _ x => x = s) err s :=
  fun w _ => ⟨s, .aside (hf w), rfl⟩

theorem ask_follows {query : Query} {ok : Reply query → Batch → Prop}
    (hok : ∀ reply, ∃ s', Replies h runs s query reply s' ∧ ok reply s') :
    (Future.ask query : Drive (Reply query)).Follows (machine h runs) ok err s := ⟨trivial, hok⟩

theorem isCancelled_follows :
    isCancelled.Follows (machine h runs)
      (fun cancelled x => x = s.look cancelled ∧ (s.seen = true → cancelled = true)) err s :=
  fun _ hw => ⟨_, .look, rfl, hw⟩

theorem exhausted_follows : (exhausted : Drive α).Follows (machine h runs) ok err s :=
  ⟨trivial, fun reply => nomatch reply⟩

theorem panicked_follows : (panicked : Drive α).Follows (machine h runs) ok err s :=
  ⟨trivial, fun reply => nomatch reply⟩

theorem ofExcept_follows {result : Except CoreError α}
    (hok : ∀ value, result = .ok value → ok value s)
    (herr : ∀ error, result = .error error → err error s) :
    (Future.ofExcept result : Drive α).Follows (machine h runs) ok err s := by
  rcases result with error | value
  · exact herr error rfl
  · exact hok value rfl

theorem currentContext_follows :
    currentContext.Follows (machine h runs) (fun _ x => x = s) Broken s := by
  intro w _
  rcases hphase : w.agent.phase with _ | runId | runId
  · exact ⟨s.break_, .lapse hphase, by simp only [contextOf, hphase]; rfl⟩
  · exact ⟨s, .aside (.refl w), by simp only [contextOf, hphase]; rfl⟩
  · exact ⟨s, .aside (.refl w), by simp only [contextOf, hphase]; rfl⟩

/-! ### Events -/

theorem deliver_follows (event : AgentEvent) (observers : List ObserverId) :
    (deliver event observers).Follows (machine h runs) (fun _ x => x = s) Broken s := by
  induction observers with
  | nil => exact rfl
  | cons observer rest ih =>
    refine ⟨trivial, ?_⟩
    rintro (error | ⟨⟩)
    · exact ⟨_, .refused, rfl⟩
    · exact ⟨s, .accepted, ih⟩

theorem emit_follows {kind : AgentEventKind} {s' : Batch}
    (hown : ∀ w, Own h runs s w (recorded kind w) s') :
    (emit kind).Follows (machine h runs) (fun _ x => x = s') Broken s := by
  have hrecord : (recordEvent kind).Follows (machine h runs) (fun _ x => x = s') Broken s :=
    fun w _ => ⟨s', hown w, rfl⟩
  refine .bind _ hrecord ?_
  rintro event s rfl
  refine .bind _ (modify_aside fun _ => ⟨rfl, rfl, rfl, rfl, rfl⟩) ?_
  rintro _ s rfl
  refine .bind _ read_aside ?_
  rintro observers s rfl
  refine .bind _ (deliver_follows _ observers) ?_
  rintro _ s rfl
  exact modify_aside fun _ => ⟨rfl, rfl, rfl, rfl, rfl⟩

theorem note_follows {kind : AgentEventKind} (hother : isExecution kind = false)
    (hinside : isTurnEnd kind = false) :
    (emit kind).Follows (machine h runs) (fun _ x => x = s) Broken s :=
  emit_follows fun _ => .note hother hinside

theorem announce_follows (message : AgentMessage) :
    (announce message).Follows (machine h runs) (fun _ x => x = s) Broken s := by
  refine .bind _ (note_follows rfl rfl) ?_
  rintro _ s rfl
  exact note_follows rfl rfl

theorem modifyAgent_follows {f : AgentState → AgentState}
    (hf : ∀ agent, (f agent).messages = agent.messages ∧
      (f agent).nextMessageId = agent.nextMessageId) :
    (modifyAgent f).Follows (machine h runs) (fun _ x => x = s) err s :=
  modify_aside fun w => ⟨(hf w.agent).1, (hf w.agent).2, rfl, rfl, rfl⟩

theorem insertPendingToolCall_aside (id : ToolCallId) (w : World) :
    Aside w { w with agent := (if id ∈ w.agent.pendingToolCalls then w.agent
      else { w.agent with pendingToolCalls := w.agent.pendingToolCalls ++ [id] }) } := by
  by_cases hmem : id ∈ w.agent.pendingToolCalls
  · rw [if_pos hmem]
    exact ⟨rfl, rfl, rfl, rfl, rfl⟩
  · rw [if_neg hmem]
    exact ⟨rfl, rfl, rfl, rfl, rfl⟩

theorem insertPendingToolCall_follows (id : ToolCallId) :
    (insertPendingToolCall id).Follows (machine h runs) (fun _ x => x = s) err s :=
  modify_aside (insertPendingToolCall_aside id)

theorem emitToolExecutionStart_follows {call : ToolCall}
    (horder : s.jobs.map (·.call) ++ [call] <+: s.calls) (hhand : s.hand = [])
    (hunskipped : ∀ job ∈ s.jobs, job.progress.isSkipped = false) :
    (emitToolExecutionStart call).Follows (machine h runs)
      (fun _ x => x = { s with jobs := s.jobs ++ [⟨call, .announced⟩] }) Broken s := by
  refine .bind _ (insertPendingToolCall_follows call.id) ?_
  rintro _ s rfl
  exact emit_follows fun _ => .announce horder hhand hunskipped

theorem emitToolExecutionEnd_follows {index : Nat} {call : ToolCall} {progress : Progress}
    {source : Source} {result : AgentToolResult} {terminate : Bool}
    (hjob : s.jobs[index]? = some ⟨call, progress⟩) (hhand : s.hand = [])
    (hends : Ends h runs s call progress source result terminate) :
    (emitToolExecutionEnd call result).Follows (machine h runs)
      (fun _ x => x = s.put index call (.ended source result terminate)) Broken s := by
  refine .bind _ (modifyAgent_follows fun _ => ⟨rfl, rfl⟩) ?_
  rintro _ s rfl
  exact emit_follows fun _ => .finish hjob hhand hends

theorem emitToolUpdates_follows {updates : List PendingToolUpdate} (hhand : s.hand = updates) :
    (emitToolUpdates updates).Follows (machine h runs)
      (fun _ x => x = { s with hand := [] }) Broken s := by
  induction updates generalizing s with
  | nil => exact congrArg (fun hand => ({ s with hand } : Batch)) hhand
  | cons update rest ih =>
    have hdeliver : (emit (.toolExecutionUpdate update.toolCallId update.toolName
        update.update)).Follows (machine h runs) (fun _ x => x = { s with hand := rest })
        Broken s := emit_follows fun _ => .deliver hhand
    refine .bind _ hdeliver ?_
    rintro _ _ rfl
    exact ih (s := { s with hand := rest }) rfl

/-! ### The queue of updates -/

theorem takeUpdates_follows (hhand : s.hand = []) (haborting : s.aborting = false) :
    takeUpdates.Follows (machine h runs)
      (fun updates x => x = s.draw (updates.getD []) ∧ updates ≠ some []) err s := by
  intro w _
  refine ⟨s.draw (takenUpdates w), .draw hhand haborting, rfl, ?_⟩
  unfold PendingToolUpdates.take
  by_cases hnil : w.updates.updates = []
  · simp [hnil]
  · simp [hnil]

/-- The queue has been emptied. -/
structure Flushed (s s' : Batch) : Prop extends Steady s s' where
  jobs : Rearmed s.jobs s'.jobs
  drained : s'.drained = s.closed
  emptied : s'.emptied = true
  seen_eq : s'.seen = s.seen

theorem flushed_draw (hhand : s.hand = []) : Flushed s (s.draw []) where
  calls := rfl
  parallel := rfl
  live := rfl
  closed := rfl
  hand := hhand.symm
  aborting := rfl
  seen := id
  jobs := .draw []
  drained := rfl
  emptied := rfl
  seen_eq := rfl

theorem flushToolUpdates_follows (fuel : Nat) (hhand : s.hand = [])
    (haborting : s.aborting = false) :
    (flushToolUpdates fuel).Follows (machine h runs) (fun _ x => Flushed s x) Broken s := by
  induction fuel generalizing s with
  | zero => exact exhausted_follows
  | succ fuel ih =>
    refine .bind _ (takeUpdates_follows hhand haborting) ?_
    rintro (_ | updates) _ ⟨rfl, -⟩
    · exact flushed_draw hhand
    · refine .bind _ (emitToolUpdates_follows rfl) ?_
      rintro _ _ rfl
      have hrest := ih (s := { s.draw updates with hand := [] }) rfl haborting
      refine hrest.weaken (fun _ x hx => ?_) fun _ _ hx => hx
      exact
        { calls := hx.calls, parallel := hx.parallel, live := hx.live, closed := hx.closed
          hand := hx.hand.trans hhand.symm, aborting := hx.aborting, seen := hx.seen
          jobs := (Rearmed.draw updates).trans hx.jobs, drained := hx.drained
          emptied := hx.emptied, seen_eq := hx.seen_eq }

/-! ### One call -/

/-- What preparing the call of a job has made of it. -/
structure Prepared (h : RunHandle) (runs : Bool) (s : Batch) (index : Nat) (call : ToolCall)
    (preparation : PreparedToolCall) (s' : Batch) : Prop extends Steady s s' where
  job : match preparation with
    | .immediate result terminate => ∃ progress, s'.jobs = s.jobs.set index ⟨call, progress⟩ ∧
        Refuses h runs s' call progress result terminate
    | .execute => s'.jobs = s.jobs.set index ⟨call, .decided (.ok .allow)⟩

theorem set_self {items : List α} {index : Nat} {item : α} (hitem : items[index]? = some item) :
    items.set index item = items := by
  obtain ⟨hlt, rfl⟩ := List.getElem?_eq_some_iff.mp hitem
  exact List.set_getElem_self hlt

theorem prepareToolCall_follows {index : Nat} {call : ToolCall}
    (hjob : s.jobs[index]? = some ⟨call, .announced⟩) :
    (prepareToolCall h call).Follows (machine h runs) (Prepared h runs s index call) Broken s := by
  unfold prepareToolCall
  rcases hfound : h.configuration.tool call.name with _ | tool
  · exact ⟨.refl s, _, (set_self hjob).symm, .unknown hfound⟩
  rcases hvalid : tool.validate call.arguments with error | ⟨⟩
  · simp only [hvalid]
    exact ⟨.refl s, _, (set_self hjob).symm, .invalid hfound hvalid⟩
  simp only [hvalid]
  refine .bind _ currentContext_follows ?_
  rintro context s rfl
  refine .bind (fun decision x => x = s.put index call (.decided decision))
    (ask_follows fun decision => ⟨_, .decide hjob hfound hvalid, rfl⟩) ?_
  rintro (error | _ | reason | reason) _ rfl
  · exact ⟨steady_put _ _ _, _, rfl, .failed⟩
  · refine .bind _ isCancelled_follows ?_
    rintro (_ | _) _ ⟨rfl, -⟩
    · exact ⟨(steady_put _ _ _).trans (steady_look _), rfl⟩
    · exact ⟨(steady_put _ _ _).trans (steady_look _), _, rfl, .cancelled (by simp [Batch.look])⟩
  · exact ⟨steady_put _ _ _, _, rfl, .blocked⟩
  · exact ⟨steady_put _ _ _, _, rfl, .terminated⟩

theorem startToolFuture_follows {index : Nat} {call : ToolCall}
    (hjob : s.jobs[index]? = some ⟨call, .decided (.ok .allow)⟩) :
    (startToolFuture call).Follows (machine h runs)
      (fun _ x => x = ({ s with live := call.id :: s.live }.put index call (.running false)))
      err s :=
  fun _ _ => ⟨_, .sink hjob, trivial, fun _ => ⟨_, .execute, rfl⟩⟩

theorem finalizeExecutedTool_follows {index : Nat} {call : ToolCall} {source : Source}
    (hjob : s.jobs[index]? = some ⟨call, .settled source⟩) :
    (finalizeExecutedTool call source.execution).Follows (machine h runs)
      (fun value x => x = s.put index call (.finalized source value.1 value.2)) Broken s := by
  refine .bind _ currentContext_follows ?_
  rintro context s rfl
  refine .bind (fun after x => x = s.put index call (.finalized source
      (finalResult call (executionResult call source.execution) after).1
      (finalResult call (executionResult call source.execution) after).2))
    (ask_follows fun after => ⟨_, .finalize hjob, rfl⟩) ?_
  rintro (error | after) _ rfl
  · exact rfl
  · exact rfl

theorem closeUpdates_follows {index : Nat} {call : ToolCall} {progress progress' : Progress}
    (hjob : s.jobs[index]? = some ⟨call, progress⟩) (hcloses : Closes s call progress progress') :
    (closeUpdates call.id).Follows (machine h runs)
      (fun _ x => x = (s.shut call.id).put index call progress') err s :=
  fun _ _ => ⟨_, .close hjob hcloses, rfl⟩

theorem lockPolicy_follows {f : RunPolicyState → α × RunPolicyState} :
    (lockPolicy f).Follows (machine h runs) (fun _ x => x = s) err s :=
  fun _ _ => ⟨s, .aside ⟨rfl, rfl, rfl, rfl, rfl⟩, rfl⟩

theorem whenever_follows {condition : Bool} {p : Drive Unit}
    (hp : p.Follows (machine h runs) (fun _ x => x = s) Broken s) :
    (whenever condition p).Follows (machine h runs) (fun _ x => x = s) Broken s := by
  cases condition with
  | false => exact rfl
  | true => exact hp

theorem observeToolFailure_follows (call : ToolCall) (result : AgentToolResult) :
    (observeToolFailure h call result).Follows (machine h runs)
      (fun _ x => Steady s x ∧ x.jobs = s.jobs) Broken s := by
  refine .bind _ isCancelled_follows ?_
  rintro (_ | _) _ ⟨rfl, -⟩
  · by_cases herror : result.isError = true
    · simp only [herror]
      refine .bind _ lockPolicy_follows ?_
      rintro observed _ rfl
      refine .bind _ (whenever_follows (note_follows rfl rfl)) ?_
      rintro _ _ rfl
      exact ⟨steady_look _, rfl⟩
    · simp only [herror]
      refine .bind _ lockPolicy_follows ?_
      rintro _ _ rfl
      exact ⟨steady_look _, rfl⟩
  · exact ⟨steady_look _, rfl⟩

theorem appendToolResultMessage_follows {index : Nat} {call : ToolCall} {source : Source}
    {result : AgentToolResult} {terminate : Bool}
    (hjob : s.jobs[index]? = some ⟨call, .ended source result terminate⟩)
    (horder : ∀ j job, s.jobs[j]? = some job → (job.progress.isRecorded = true ↔ j < index)) :
    (appendToolResultMessage call (normalizeResultFailure result)).Follows (machine h runs)
      (fun _ x => x = s.put index call (.recorded source result terminate)) Broken s := by
  intro w _
  exact ⟨_, .append hjob horder ⟨rfl, rfl, rfl, rfl, rfl⟩, announce_follows _⟩

end Tea.Tools
