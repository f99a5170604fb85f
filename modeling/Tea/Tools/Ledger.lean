/-
  Tea/Tools/Ledger.lean
  =====================
  **What a batch has written**, to the events of the run and to the transcript.

  The end events of a batch are those of its ended jobs, in any order.  The messages
  that it has appended are the results of its recorded jobs in source order,
  followed by the messages of the calls that were skipped (`Written`).
-/
import Tea.Tools.Parallel

namespace Tea.Tools

open Tea.Async Tea.Core Tea.Run

variable {h : RunHandle} {s s' : Batch} {w w' w₀ : World} {jobs jobs' : List Job}
  {α β : Type} {acts : Now → ClientOp → Prop}
  {answers : Now → (query : Query) → Reply query → Prop}

/-! ### Lists -/

theorem filterMap_set {f : α → Option β} {items : List α} {index : Nat} {old new : α}
    (hold : items[index]? = some old) (hsame : f new = f old) :
    (items.set index new).filterMap f = items.filterMap f := by
  induction items generalizing index with
  | nil => simp at hold
  | cons item rest ih =>
    cases index with
    | zero =>
      rw [List.getElem?_cons_zero, Option.some.injEq] at hold
      subst hold
      simp only [List.set_cons_zero, List.filterMap_cons, hsame]
    | succ index => simp only [List.set_cons_succ, List.filterMap_cons, ih hold]

/-- An item gets a value: the values are the same but for this one. -/
theorem filterMap_set_perm {f : α → Option β} {items : List α} {index : Nat} {old new : α} {b : β}
    (hold : items[index]? = some old) (hnone : f old = none) (hsome : f new = some b) :
    ((items.set index new).filterMap f).Perm (items.filterMap f ++ [b]) := by
  induction items generalizing index with
  | nil => simp at hold
  | cons item rest ih =>
    cases index with
    | zero =>
      rw [List.getElem?_cons_zero, Option.some.injEq] at hold
      subst hold
      simp only [List.set_cons_zero, List.filterMap_cons, hnone, hsome]
      exact (List.perm_append_singleton b _).symm
    | succ index =>
      simp only [List.set_cons_succ, List.filterMap_cons]
      cases f item with
      | none => exact ih hold
      | some value => exact (ih hold).cons value

/-- An item gets a value after all those that have one. -/
theorem filterMap_set_last {f : α → Option β} {items : List α} {index : Nat} {old new : α} {b : β}
    (hold : items[index]? = some old) (hsome : f new = some b)
    (hlast : ∀ (j : Nat) item, items[j]? = some item → index ≤ j → f item = none) :
    (items.set index new).filterMap f = items.filterMap f ++ [b] := by
  induction items generalizing index with
  | nil => simp at hold
  | cons item rest ih =>
    cases index with
    | zero =>
      have hnone : rest.filterMap f = [] := by
        rw [List.filterMap_eq_nil_iff]
        intro other hother
        obtain ⟨j, hj⟩ := List.mem_iff_getElem?.mp hother
        exact hlast (j + 1) other hj (Nat.zero_le _)
      simp [hsome, hnone, hlast 0 item rfl (Nat.le_refl _)]
    | succ index =>
      have hrest := ih hold fun j other hj hle => hlast (j + 1) other hj (by omega)
      simp only [List.set_cons_succ, List.filterMap_cons, hrest]
      cases f item <;> simp

theorem filterMap_snoc_none {f : α → Option β} {item : α} (hnone : f item = none)
    (items : List α) : (items ++ [item]).filterMap f = items.filterMap f := by
  simp [List.filterMap_append, hnone]

/-! ### Results -/

/-- The result with which the end of the job was announced. -/
def Job.ended : Job → Option (ToolCall × AgentToolResult)
  | ⟨call, .ended _ result _⟩ => some (call, result)
  | ⟨call, .recorded _ result _⟩ => some (call, result)
  | _ => none

/-- The result that was recorded for the job. -/
def Job.recorded : Job → Option (ToolCall × AgentToolResult)
  | ⟨call, .recorded _ result _⟩ => some (call, normalizeResultFailure result)
  | _ => none

/-- The messages of the results, with ids allocated in order. -/
def resultMessages : List (ToolCall × AgentToolResult) → UInt64 → List AgentMessage
  | [], _ => []
  | (call, result) :: rest, next =>
      toolResultMessage call result ⟨next⟩ :: resultMessages rest (satSucc next)

/-- The next message id once so many are allocated. -/
def nextAfter : Nat → UInt64 → UInt64
  | 0, next => next
  | count + 1, next => nextAfter count (satSucc next)

theorem resultMessages_snoc (results : List (ToolCall × AgentToolResult)) (call : ToolCall)
    (result : AgentToolResult) (next : UInt64) :
    resultMessages (results ++ [(call, result)]) next =
      resultMessages results next ++
        [toolResultMessage call result ⟨nextAfter results.length next⟩] := by
  induction results generalizing next with
  | nil => rfl
  | cons first rest ih =>
    simp only [List.cons_append, resultMessages, ih, List.length_cons, nextAfter]

theorem satSucc_nextAfter (count : Nat) (next : UInt64) :
    satSucc (nextAfter count next) = nextAfter (count + 1) next := by
  induction count generalizing next with
  | zero => rfl
  | succ count ih => exact ih (satSucc next)

/-! ### Jobs that write nothing -/

/-- Calls were skipped, which happens only once all others are recorded. -/
def Skipping (jobs : List Job) : Prop :=
  (∃ job ∈ jobs, job.progress.isSkipped = true) ∧ ∀ job ∈ jobs, job.progress.isRecorded = true

/-- The jobs have come further, but none was ended or recorded. -/
structure Still (jobs jobs' : List Job) : Prop where
  ended : jobs'.filterMap Job.ended = jobs.filterMap Job.ended
  recorded : jobs'.filterMap Job.recorded = jobs.filterMap Job.recorded
  skipping : Skipping jobs → Skipping jobs'

theorem Still.refl (jobs : List Job) : Still jobs jobs := ⟨rfl, rfl, id⟩

theorem Skipping.get {index : Nat} {call : ToolCall} {progress : Progress} (hs : Skipping jobs)
    (hjob : jobs[index]? = some ⟨call, progress⟩) : progress.isRecorded = true :=
  hs.2 _ (List.mem_of_getElem? hjob)

theorem not_recorded_of_open {progress : Progress} (hopen : progress.isOpen = true) :
    progress.isRecorded = false := by
  cases progress with
  | recorded => cases hopen
  | skipped => cases hopen
  | _ => rfl

theorem ended_of_open {call : ToolCall} {progress : Progress} (hopen : progress.isOpen = true) :
    Job.ended ⟨call, progress⟩ = none ∧ Job.recorded ⟨call, progress⟩ = none := by
  cases progress with
  | ended => cases hopen
  | recorded => cases hopen
  | skipped => cases hopen
  | _ => exact ⟨rfl, rfl⟩

theorem still_set {index : Nat} {call : ToolCall} {progress progress' : Progress}
    (hjob : jobs[index]? = some ⟨call, progress⟩) (hopen : progress.isOpen = true)
    (hopen' : progress'.isOpen = true) : Still jobs (jobs.set index ⟨call, progress'⟩) where
  ended := filterMap_set hjob (by rw [(ended_of_open hopen).1, (ended_of_open hopen').1])
  recorded := filterMap_set hjob (by rw [(ended_of_open hopen).2, (ended_of_open hopen').2])
  skipping hskip := by
    have hrecorded := hskip.get hjob
    rw [not_recorded_of_open hopen] at hrecorded
    cases hrecorded

theorem still_announced (call : ToolCall)
    (hunskipped : ∀ job ∈ jobs, job.progress.isSkipped = false) :
    Still jobs (jobs ++ [⟨call, .announced⟩]) where
  ended := filterMap_snoc_none rfl jobs
  recorded := filterMap_snoc_none rfl jobs
  skipping hskip := by
    obtain ⟨job, hjob, hskipped⟩ := hskip.1
    rw [hunskipped job hjob] at hskipped
    cases hskipped

theorem still_rearm : Still jobs (jobs.map Job.rearm) where
  ended := by
    rw [List.filterMap_map]
    exact List.filterMap_congr fun ⟨call, progress⟩ _ => by cases progress <;> rfl
  recorded := by
    rw [List.filterMap_map]
    exact List.filterMap_congr fun ⟨call, progress⟩ _ => by cases progress <;> rfl
  skipping hskip := by
    rwa [rearm_recorded hskip.2]

theorem still_draw (updates : List PendingToolUpdate) : Still s.jobs (s.draw updates).jobs := by
  unfold Batch.draw
  by_cases hnil : updates = []
  · simp only [hnil, if_true]
    exact .refl _
  · simp only [hnil, if_false]
    exact still_rearm

theorem Closes.open {call : ToolCall} {progress progress' : Progress}
    (hcloses : Closes s call progress progress') :
    progress.isOpen = true ∧ progress'.isOpen = true := by
  cases hcloses <;> exact ⟨rfl, rfl⟩

theorem Ends.open {runs : Bool} {call : ToolCall} {progress : Progress} {source : Source}
    {result : AgentToolResult} {terminate : Bool}
    (hends : Ends h runs s call progress source result terminate) : progress.isOpen = true := by
  cases hends with
  | refused refuses => cases refuses <;> rfl
  | executed => rfl

/-! ### The ledger -/

def endOf : AgentEventKind → Option (ToolCallId × String × AgentToolResult)
  | .toolExecutionEnd id name result => some (id, name, result)
  | _ => none

theorem endOf_none {kind : AgentEventKind} (hother : isExecution kind = false) :
    endOf kind = none := by
  cases kind with
  | toolExecutionEnd => cases hother
  | _ => rfl

def endedAs (ended : ToolCall × AgentToolResult) : ToolCallId × String × AgentToolResult :=
  (ended.1.id, ended.1.name, ended.2)

/-- What a batch that began in `w₀` has written. -/
structure Written (w₀ : World) (s : Batch) (w : World) : Prop where
  ends : ∃ kinds, w.run.kinds = w₀.run.kinds ++ kinds ∧
    (kinds.filterMap endOf).Perm ((s.jobs.filterMap Job.ended).map endedAs)
  results : ∃ skips, w.agent.messages = w₀.agent.messages ++
      resultMessages (s.jobs.filterMap Job.recorded) w₀.agent.nextMessageId ++ skips ∧
    (Skipping s.jobs ∨ (skips = [] ∧ w.agent.nextMessageId =
      nextAfter (s.jobs.filterMap Job.recorded).length w₀.agent.nextMessageId))

theorem written_start (hjobs : s.jobs = []) : Written w₀ s w₀ where
  ends := ⟨[], by simp, by simp [hjobs]⟩
  results := ⟨[], by simp [hjobs, resultMessages], .inr ⟨rfl, by simp [hjobs, nextAfter]⟩⟩

/-- Nothing is written, or an event that is no end. -/
structure Unwritten (w w' : World) : Prop where
  messages : w'.agent.messages = w.agent.messages
  next : w'.agent.nextMessageId = w.agent.nextMessageId
  kinds : w'.run.kinds = w.run.kinds ∨
    ∃ kind, endOf kind = none ∧ w'.run.kinds = w.run.kinds ++ [kind]

theorem unwritten_refl (w : World) : Unwritten w w := ⟨rfl, rfl, .inl rfl⟩

theorem unwritten_recorded {kind : AgentEventKind} (hkind : endOf kind = none) (w : World) :
    Unwritten w (recorded kind w) :=
  ⟨rfl, rfl, .inr ⟨kind, hkind, RunState.recordEvent_kinds _ _⟩⟩

theorem Aside.unwritten (ha : Aside w w') : Unwritten w w' :=
  ⟨ha.messages, ha.next, .inl (by rw [ha.run])⟩

theorem Written.still (hw : Written w₀ s w) (hstill : Still s.jobs s'.jobs)
    (hu : Unwritten w w') : Written w₀ s' w' where
  ends := by
    obtain ⟨kinds, hkinds, hperm⟩ := hw.ends
    rw [hstill.ended]
    rcases hu.kinds with hsame | ⟨kind, hkind, hkinds'⟩
    · exact ⟨kinds, hsame.trans hkinds, hperm⟩
    · refine ⟨kinds ++ [kind], by rw [hkinds', hkinds, List.append_assoc], ?_⟩
      simpa [hkind] using hperm
  results := by
    obtain ⟨skips, hmessages, hskips⟩ := hw.results
    rw [hstill.recorded]
    refine ⟨skips, hu.messages.trans hmessages, ?_⟩
    rcases hskips with hskip | ⟨hnil, hnext⟩
    · exact .inl (hstill.skipping hskip)
    · exact .inr ⟨hnil, hu.next.trans hnext⟩

/-- The end of a job is announced. -/
theorem Written.finish {index : Nat} {call : ToolCall} {progress : Progress} {source : Source}
    {result : AgentToolResult} {terminate : Bool} (hw : Written w₀ s w)
    (hjob : s.jobs[index]? = some ⟨call, progress⟩) (hopen : progress.isOpen = true) :
    Written w₀ (s.put index call (.ended source result terminate))
      (Tools.recorded (.toolExecutionEnd call.id call.name result) w) where
  ends := by
    obtain ⟨kinds, hkinds, hperm⟩ := hw.ends
    refine ⟨kinds ++ [.toolExecutionEnd call.id call.name result], ?_, ?_⟩
    · rw [← List.append_assoc, ← hkinds]
      exact RunState.recordEvent_kinds _ _
    · have hended : ((s.jobs.set index ⟨call, .ended source result terminate⟩).filterMap
          Job.ended).Perm (s.jobs.filterMap Job.ended ++ [(call, result)]) :=
        filterMap_set_perm hjob (ended_of_open hopen).1 rfl
      rw [List.filterMap_append, Batch.put_jobs]
      refine (hperm.append_right _).trans ?_
      simpa [endOf, endedAs] using (hended.map endedAs).symm
  results := by
    obtain ⟨skips, hmessages, hskips⟩ := hw.results
    have hrecorded : (s.jobs.set index ⟨call, .ended source result terminate⟩).filterMap
        Job.recorded = s.jobs.filterMap Job.recorded :=
      filterMap_set hjob (by rw [(ended_of_open hopen).2]; rfl)
    rw [Batch.put_jobs, hrecorded]
    refine ⟨skips, hmessages, ?_⟩
    rcases hskips with hskip | hnone
    · have hget := hskip.get hjob
      rw [not_recorded_of_open hopen] at hget
      cases hget
    · exact .inr hnone

/-- The result of a job is recorded, after those of the jobs before it. -/
theorem Written.append {index : Nat} {call : ToolCall} {source : Source}
    {result : AgentToolResult} {terminate : Bool} (hw : Written w₀ s w)
    (hjob : s.jobs[index]? = some ⟨call, .ended source result terminate⟩)
    (horder : ∀ j job, s.jobs[j]? = some job → (job.progress.isRecorded = true ↔ j < index))
    (hmessages : w'.agent.messages = w.agent.messages ++
      [toolResultMessage call (normalizeResultFailure result) ⟨w.agent.nextMessageId⟩])
    (hnext : w'.agent.nextMessageId = satSucc w.agent.nextMessageId) (hrun : w'.run = w.run) :
    Written w₀ (s.put index call (.recorded source result terminate)) w' where
  ends := by
    obtain ⟨kinds, hkinds, hperm⟩ := hw.ends
    have hended : (s.jobs.set index ⟨call, .recorded source result terminate⟩).filterMap
        Job.ended = s.jobs.filterMap Job.ended := filterMap_set hjob rfl
    rw [Batch.put_jobs, hended, hrun]
    exact ⟨kinds, hkinds, hperm⟩
  results := by
    obtain ⟨skips, hbefore, hskips⟩ := hw.results
    have hrecorded : (s.jobs.set index ⟨call, .recorded source result terminate⟩).filterMap
        Job.recorded =
          s.jobs.filterMap Job.recorded ++ [(call, normalizeResultFailure result)] := by
      refine filterMap_set_last hjob rfl fun j job hj hle => ?_
      have hunrecorded : ¬ job.progress.isRecorded = true := fun hrecorded => by
        have := (horder j job hj).mp hrecorded
        omega
      obtain ⟨call', progress⟩ := job
      cases progress with
      | recorded => exact absurd rfl hunrecorded
      | _ => rfl
    rcases hskips with hskip | ⟨rfl, hcount⟩
    · have hget := hskip.get hjob
      cases hget
    · rw [Batch.put_jobs, hrecorded, resultMessages_snoc, List.length_append]
      refine ⟨[], ?_, .inr ⟨rfl, ?_⟩⟩
      · rw [hmessages, hbefore, hcount]
        simp
      · rw [hnext, hcount, satSucc_nextAfter]
        rfl

/-- A call that was never announced is given a result. -/
theorem Written.skip {call : ToolCall} {message : AgentMessage} (hw : Written w₀ s w)
    (hrest : s.Rest) (hmessages : w'.agent.messages = w.agent.messages ++ [message])
    (hrun : w'.run = w.run) :
    Written w₀ { s with jobs := s.jobs ++ [⟨call, .skipped⟩] } w' where
  ends := by
    obtain ⟨kinds, hkinds, hperm⟩ := hw.ends
    refine ⟨kinds, by rw [hrun, hkinds], ?_⟩
    rwa [filterMap_snoc_none rfl]
  results := by
    obtain ⟨skips, hbefore, _⟩ := hw.results
    refine ⟨skips ++ [message], ?_, .inl ⟨⟨_, List.mem_append_right _ List.mem_cons_self, rfl⟩, ?_⟩⟩
    · rw [filterMap_snoc_none rfl, hmessages, hbefore, List.append_assoc]
    · intro job hjob
      rcases List.mem_append.mp hjob with hmem | hmem
      · exact hrest.recorded job hmem
      · rw [List.mem_singleton.mp hmem]
        rfl

theorem Own.written (hown : Own h false s w w' s') (hw : Written w₀ s w) : Written w₀ s' w' := by
  cases hown with
  | aside aside => exact hw.still (.refl _) aside.unwritten
  | begin rest fresh opens whole =>
    obtain ⟨hjobs, -, -⟩ := fresh.resolve_left (by simp)
    have hsame : Still s.jobs ([] : List Job) := by
      rw [hjobs]
      exact .refl []
    refine hw.still hsame ?_
    rcases opens with aside | rfl
    · exact aside.unwritten
    · exact ⟨rfl, rfl, .inl rfl⟩
  | look => exact hw.still (.refl _) (unwritten_refl _)
  | lapse => exact hw.still (.refl _) (unwritten_refl _)
  | announce order hand unskipped =>
    exact hw.still (still_announced _ unskipped) (unwritten_recorded rfl _)
  | reset => exact hw.still (.refl _) ⟨rfl, rfl, .inl rfl⟩
  | sink job => exact hw.still (still_set job rfl rfl) ⟨rfl, rfl, .inl rfl⟩
  | draw => exact hw.still (still_draw _) ⟨rfl, rfl, .inl rfl⟩
  | close job closes => exact hw.still (still_set job closes.open.1 closes.open.2) ⟨rfl, rfl, .inl rfl⟩
  | abort job => exact hw.still (still_set job rfl rfl) ⟨rfl, rfl, .inl rfl⟩
  | deliver => exact hw.still (.refl _) (unwritten_recorded rfl _)
  | finish job hand ends => exact hw.finish job ends.open
  | append job order pushes =>
    exact hw.append job order pushes.1 pushes.2.1 pushes.2.2.1
  | skip rest order pushes => exact hw.skip rest pushes.1 pushes.2.1
  | note other => exact hw.still (.refl _) (unwritten_recorded (endOf_none other) _)
  | outside run => cases run

theorem Replies.still {query : Query} {reply : Reply query}
    (hreply : Replies h false s query reply s') : Still s.jobs s'.jobs := by
  cases hreply with
  | decide job => exact still_set job rfl rfl
  | ready job => exact still_set job rfl rfl
  | again job => exact still_set job rfl rfl
  | last job => exact still_set job rfl rfl
  | finalize job => exact still_set job rfl rfl
  | outside run => cases run
  | _ => exact .refl _

/-! ### Clients -/

/-- No client withdraws a cancellation. -/
theorem apply_cancelled (op : ClientOp) (hcancelled : w.cancelled = true) :
    (op.apply w).cancelled = true := by
  have hsettle : ∀ {w : World} (phase : AgentPhase) (error : Option String),
      (w.settleAgent phase error).cancelled = w.cancelled := by
    intro w phase error
    unfold World.settleAgent
    split <;> rfl
  cases op with
  | cancel => rfl
  | abortRun =>
    simp only [ClientOp.apply, World.abortRun]
    split
    · rfl
    · split
      · exact hsettle _ _
      · split <;> rfl
  | abortAgent =>
    simp only [ClientOp.apply, World.abortAgent]
    split
    · exact hcancelled
    · rfl
  | _ => exact hcancelled

theorem Written.client (hw : Written w₀ s w) (op : ClientOp) : Written w₀ s (op.apply w) := by
  have hc := Lifecycle.ClientOp.client op w
  exact hw.still (.refl _) ⟨hc.messages, hc.nextMessageId, .inl hc.kinds⟩

/-! ### Consistency -/

theorem Consistent.client (hw : Consistent s w) (op : ClientOp) : Consistent s (op.apply w) :=
  fun hseen => apply_cancelled op (hw hseen)

theorem Own.consistent {runs : Bool} (hown : Own h runs s w w' s') (hw : Consistent s w) :
    Consistent s' w' := by
  cases hown with
  | aside aside => exact fun hseen => aside.cancelled.trans (hw hseen)
  | begin => exact fun hseen => by cases hseen
  | look =>
    intro hseen
    simp only [Batch.look, Bool.or_eq_true] at hseen
    exact hseen.elim hw id
  | append job order pushes => exact fun hseen => pushes.2.2.2.2.trans (hw hseen)
  | skip rest order pushes => exact fun hseen => pushes.2.2.2.trans (hw hseen)
  | outside run rest outside => exact fun hseen => outside.cancelled.trans (hw hseen)
  | _ => exact hw

theorem Replies.consistent {runs : Bool} {query : Query} {reply : Reply query}
    (hreply : Replies h runs s query reply s') (hw : Consistent s w) : Consistent s' w := by
  cases hreply <;> exact hw

/-- **The ledger of a batch.**  At every moment of every run of a batch, the events and
    the transcript hold what the jobs say. -/
theorem written_invariant (h : RunHandle) (w₀ : World) :
    (machine h false).Invariant (Host.of acts answers) fun s m =>
      Consistent s m.state ∧ Written w₀ s m.state where
  consistent s m hm := hm.1
  interfere s m w hm hi := by
    obtain ⟨op, _, rfl⟩ := hi
    exact ⟨hm.1.client op, hm.2.client op⟩
  own s m update s' hm hown := ⟨Own.consistent hown hm.1, Own.written hown hm.2⟩
  reply s m query answer s' hm _ hreply :=
    ⟨Replies.consistent hreply hm.1, hm.2.still (Replies.still hreply) (unwritten_refl _)⟩

end Tea.Tools
