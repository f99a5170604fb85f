/-
  Tea/Async/HostCalls.lean
  ========================
  **Calls to a host**, as a protocol.  A suspended program is resumed, asks its host for
  something, and is resumed with the value of the future that the host has started for it.
  `Turn` says which event may come next; `CallDiscipline` says what that means for the events
  of a whole run, and `disciplined_of_path` that it does.
-/
import Tea.Async.PollLoop
import Mathlib.Data.List.Range
import Mathlib.Tactic.Tauto

namespace Tea.Async

variable {Q V E R : Type}

/-- What a run lets happen: `Q` are requests, `V` values, `E` errors of futures and `R`
    what it settles with.  Futures are named by their number. -/
inductive HostEvent (Q V E R : Type) where
  /-- An iteration begins, and sees whether there is a cancellation. -/
  | began (cancelled : Bool)
  /-- The program is resumed, with a value or for the first time. -/
  | resumed (value : Option V)
  | invoked (future : Nat) (request : Q)
  | completed (future : Nat) (result : Except E V)
  | dropped (future : Nat)
  | settled (result : R)
  /-- A poll after the end. -/
  | refused

inductive Phase (V : Type) where
  /-- The program has not been resumed. -/
  | fresh
  | running
  | waiting (future : Nat)
  /-- The value of a future is there, and the program not yet resumed with it. -/
  | holding (value : V)
  | failing
  /-- A cancellation has been seen while the future is outstanding. -/
  | dropping (future : Nat)
  | cancelling
  | settled

namespace Phase

/-- The future that is outstanding. -/
def pending : Phase V → List Nat
  | .waiting future => [future]
  | .dropping future => [future]
  | _ => []

/-- An iteration may begin. -/
inductive Rests : Phase V → Prop
  | fresh : Rests .fresh
  | waiting (future : Nat) : Rests (.waiting future)
  | holding (value : V) : Rests (.holding value)

/-- The run may settle with anything. -/
inductive MaySettle : Phase V → Prop
  | fresh : MaySettle .fresh
  | running : MaySettle .running
  | holding (value : V) : MaySettle (.holding value)
  | failing : MaySettle .failing

end Phase

/-- The number of futures that there have been, and the phase. -/
structure CallProgress (V : Type) where
  calls : Nat
  phase : Phase V

/-- One event; a cancelled run settles with a result in `cancelled`. -/
inductive Turn (cancelled : R → Prop) : CallProgress V → HostEvent Q V E R → CallProgress V → Prop
  | begin {n : Nat} {phase : Phase V} (hrests : phase.Rests) :
      Turn cancelled ⟨n, phase⟩ (.began false) ⟨n, phase⟩
  | cancelWaiting {n future : Nat} :
      Turn cancelled ⟨n, .waiting future⟩ (.began true) ⟨n, .dropping future⟩
  | cancelIdle {n : Nat} {phase : Phase V} (hrests : phase.Rests) (hidle : phase.pending = []) :
      Turn cancelled ⟨n, phase⟩ (.began true) ⟨n, .cancelling⟩
  | start {n : Nat} : Turn cancelled ⟨n, .fresh⟩ (.resumed none) ⟨n, .running⟩
  | resume {n : Nat} {value : V} :
      Turn cancelled ⟨n, .holding value⟩ (.resumed (some value)) ⟨n, .running⟩
  | invoke {n : Nat} {request : Q} :
      Turn cancelled ⟨n, .running⟩ (.invoked n request) ⟨n + 1, .waiting n⟩
  | complete {n future : Nat} {value : V} :
      Turn cancelled ⟨n, .waiting future⟩ (.completed future (.ok value)) ⟨n, .holding value⟩
  | fail {n future : Nat} {error : E} :
      Turn cancelled ⟨n, .waiting future⟩ (.completed future (.error error)) ⟨n, .failing⟩
  | abandon {n future : Nat} :
      Turn cancelled ⟨n, .waiting future⟩ (.dropped future) ⟨n, .cancelling⟩
  | drop {n future : Nat} :
      Turn cancelled ⟨n, .dropping future⟩ (.dropped future) ⟨n, .cancelling⟩
  | settleCancelled {n : Nat} {result : R} (hcancelled : cancelled result) :
      Turn cancelled ⟨n, .cancelling⟩ (.settled result) ⟨n, .settled⟩
  | settle {n : Nat} {phase : Phase V} {result : R} (hmay : phase.MaySettle) :
      Turn cancelled ⟨n, phase⟩ (.settled result) ⟨n, .settled⟩
  | refuse {n : Nat} : Turn cancelled ⟨n, .settled⟩ .refused ⟨n, .settled⟩

/-! ### What the events tell -/

/-- The futures that have been invoked, and the requests for them. -/
def invocations (events : List (HostEvent Q V E R)) : List (Nat × Q) :=
  events.filterMap fun
    | .invoked future request => some (future, request)
    | _ => none

/-- An event and the futures that are outstanding. -/
def outstandingAfter (futures : List Nat) : HostEvent Q V E R → List Nat
  | .invoked future _ => futures ++ [future]
  | .completed future _ => futures.erase future
  | .dropped future => futures.erase future
  | _ => futures

/-- The futures that have been invoked and have neither completed nor been dropped. -/
def outstanding (events : List (HostEvent Q V E R)) : List Nat :=
  events.foldl outstandingAfter []

/-- The events are beginnings of iterations without a cancellation. -/
def Idle (events : List (HostEvent Q V E R)) : Prop := ∀ event ∈ events, event = .began false

/-- What may follow on the value of a future: the program is resumed with it, unless a
    cancellation comes in between or the run settles. -/
inductive AnswersWith (value : V) : HostEvent Q V E R → Prop
  | resumed : AnswersWith value (.resumed (some value))
  | cancelled : AnswersWith value (.began true)
  | settled (result : R) : AnswersWith value (.settled result)

/-- **The discipline of a run**, with the results that tell of a cancellation. -/
structure CallDiscipline (cancelled : R → Prop) (events : List (HostEvent Q V E R)) : Prop where
  /-- Futures are numbered in the order of their invocation. -/
  numbered : (invocations events).map (·.1) = List.range (invocations events).length
  /-- At any time one future at most is outstanding. -/
  one : ∀ before after, events = before ++ after → (outstanding before).length ≤ 1
  /-- The future that completes is the one that is outstanding. -/
  completed : ∀ before future result after,
    events = before ++ .completed future result :: after → outstanding before = [future]
  /-- The program is resumed for the first time, or with the value of the future that has
      completed since it was resumed last. -/
  resumed : ∀ before value after, events = before ++ .resumed value :: after →
    (value = none ∧ Idle before) ∨ ∃ earlier future result idle, value = some result ∧
      before = earlier ++ .completed future (.ok result) :: idle ∧ Idle idle
  /-- The value of a future is what the program is resumed with next. -/
  answered : ∀ before future value idle event after, Idle idle → event ≠ .began false →
    events = before ++ .completed future (.ok value) :: (idle ++ event :: after) →
      AnswersWith value event
  /-- An iteration that begins cancelled drops what is outstanding and settles. -/
  cancelled : ∀ before after, events = before ++ .began true :: after → ∃ result refusals,
    after = (outstanding before).map .dropped ++ .settled result ::
      List.replicate refusals .refused ∧ cancelled result
  /-- Nothing is outstanding in the end, and then nothing happens any more. -/
  settled : ∀ before result after, events = before ++ .settled result :: after →
    outstanding before = [] ∧ ∀ event ∈ after, event = .refused

/-! ### From turns to discipline -/

section

variable {cancelled : R → Prop} {p p' : CallProgress V} {event : HostEvent Q V E R}
  {events before : List (HostEvent Q V E R)}

theorem Turn.pending (h : Turn cancelled p event p') :
    p'.phase.pending = outstandingAfter p.phase.pending event := by
  cases h with
  | cancelIdle hrests hidle => exact hidle.symm
  | settle hmay => cases hmay <;> rfl
  | _ => simp [Phase.pending, outstandingAfter]

theorem foldl_outstandingAfter (h : Path (Turn cancelled) p events p') :
    events.foldl outstandingAfter p.phase.pending = p'.phase.pending := by
  induction h with
  | nil => rfl
  | cons first _ ih => rw [List.foldl_cons, ← first.pending, ih]

/-- The phase knows what is outstanding. -/
theorem outstanding_eq (h : Path (Turn cancelled) ⟨0, .fresh⟩ events p) :
    outstanding events = p.phase.pending := foldl_outstandingAfter h

theorem pending_length_le (phase : Phase V) : phase.pending.length ≤ 1 := by
  cases phase <;> simp [Phase.pending]

/-- The last events before a phase. -/
def Phase.Recent : Phase V → List (HostEvent Q V E R) → Prop
  | .fresh, before => Idle before
  | .holding value, before => ∃ earlier future idle,
      before = earlier ++ .completed future (.ok value) :: idle ∧ Idle idle
  | _, _ => True

theorem Idle.concat (h : Idle events) : Idle (events ++ [.began false]) := by
  intro event hevent
  rcases List.mem_append.mp hevent with hevent | hevent
  · exact h event hevent
  · exact List.mem_singleton.mp hevent

theorem Turn.recent (h : Turn cancelled p event p') (hrecent : p.phase.Recent before) :
    p'.phase.Recent (before ++ [event]) := by
  cases h with
  | begin hrests =>
    cases hrests with
    | fresh => exact Idle.concat hrecent
    | waiting future => trivial
    | holding value =>
      obtain ⟨earlier, future, idle, rfl, hidle⟩ := hrecent
      exact ⟨earlier, future, idle ++ [.began false], by simp, hidle.concat⟩
  | complete => exact ⟨before, _, [], rfl, fun _ hmem => absurd hmem List.not_mem_nil⟩
  | _ => trivial

theorem recent_of_path (h : Path (Turn cancelled) p events p') (hrecent : p.phase.Recent before) :
    p'.phase.Recent (before ++ events) := by
  induction h generalizing before with
  | nil => rwa [List.append_nil]
  | cons first _ ih =>
    rw [List.append_cons]
    exact ih (first.recent hrecent)

/-- Futures are numbered from the number of those before. -/
theorem invocations_of_path (h : Path (Turn cancelled) p events p') :
    (invocations events).map (·.1) = List.range' p.calls (invocations events).length ∧
      p'.calls = p.calls + (invocations events).length := by
  induction h with
  | nil => exact ⟨rfl, rfl⟩
  | @cons p q r event events first _ ih =>
    obtain ⟨hnumbers, hcalls⟩ := ih
    cases first with
    | invoke =>
      rw [show invocations (HostEvent.invoked _ _ :: events) = _ :: invocations events from rfl]
      simp only [List.map_cons, List.length_cons, List.range'_succ, hnumbers, hcalls]
      exact ⟨trivial, by omega⟩
    | _ => exact ⟨hnumbers, hcalls⟩

/-- Idle iterations lead nowhere. -/
theorem path_idle (h : Path (Turn cancelled) p events p') (hidle : Idle events) : p' = p := by
  induction h with
  | nil => rfl
  | cons first _ ih =>
    obtain ⟨rfl, hrest⟩ := List.forall_mem_cons.mp hidle
    cases first
    exact ih hrest

theorem path_settled {n : Nat} (h : Path (Turn cancelled) ⟨n, .settled⟩ events p) :
    events = List.replicate events.length .refused := by
  generalize hq : (⟨n, .settled⟩ : CallProgress V) = q at h
  induction h with
  | nil => rfl
  | cons first _ ih =>
    subst hq
    cases first with
    | refuse =>
      rw [List.length_cons, List.replicate_succ, ← ih rfl]
    | begin hrests => cases hrests
    | cancelIdle hrests => cases hrests
    | settle hmay => cases hmay

/-- The run has stopped before an iteration, or is over. -/
def Phase.Between (phase : Phase V) : Prop := phase.Rests ∨ phase = .settled

theorem path_cancelling {n : Nat} (h : Path (Turn cancelled) ⟨n, .cancelling⟩ events p)
    (hend : p.phase.Between) : ∃ result refusals,
      events = .settled result :: List.replicate refusals .refused ∧ cancelled result := by
  cases h with
  | nil => rcases hend with hend | hend <;> cases hend
  | cons first rest =>
    cases first with
    | settleCancelled hcancelled => exact ⟨_, _, congrArg _ (path_settled rest), hcancelled⟩
    | begin hrests => cases hrests
    | cancelIdle hrests => cases hrests
    | settle hmay => cases hmay

theorem path_dropping {n future : Nat}
    (h : Path (Turn cancelled) ⟨n, .dropping future⟩ events p) (hend : p.phase.Between) :
    ∃ result refusals, events = .dropped future :: .settled result ::
      List.replicate refusals .refused ∧ cancelled result := by
  cases h with
  | nil => rcases hend with hend | hend <;> cases hend
  | cons first rest =>
    cases first with
    | drop =>
      obtain ⟨result, refusals, rfl, hcancelled⟩ := path_cancelling rest hend
      exact ⟨result, refusals, rfl, hcancelled⟩
    | begin hrests => cases hrests
    | cancelIdle hrests => cases hrests
    | settle hmay => cases hmay

/-- **A run that takes one turn after another** is disciplined. -/
theorem disciplined_of_path (h : Path (Turn cancelled) ⟨0, .fresh⟩ events p)
    (hend : p.phase.Between) : CallDiscipline cancelled events where
  numbered := by
    rw [(invocations_of_path h).1, List.range_eq_range']
  one := by
    rintro before after rfl
    obtain ⟨q, hbefore, -⟩ := path_append_iff.mp h
    rw [outstanding_eq hbefore]
    exact pending_length_le q.phase
  completed := by
    rintro before future result after rfl
    obtain ⟨q, hbefore, hafter⟩ := path_append_iff.mp h
    obtain ⟨q', hturn, -⟩ := path_cons_iff.mp hafter
    rw [outstanding_eq hbefore]
    cases hturn <;> rfl
  resumed := by
    rintro before value after rfl
    obtain ⟨q, hbefore, hafter⟩ := path_append_iff.mp h
    obtain ⟨q', hturn, -⟩ := path_cons_iff.mp hafter
    have hrecent : q.phase.Recent ([] ++ before) :=
      recent_of_path hbefore fun _ hmem => absurd hmem List.not_mem_nil
    rw [List.nil_append] at hrecent
    cases hturn with
    | start => exact .inl ⟨rfl, hrecent⟩
    | @resume n result =>
      obtain ⟨earlier, future, idle, hbefore, hidle⟩ := hrecent
      exact .inr ⟨earlier, future, result, idle, rfl, hbefore, hidle⟩
  answered := by
    rintro before future value idle event after hidle hne rfl
    obtain ⟨q, -, hcompleted⟩ := path_append_iff.mp h
    obtain ⟨q', hturn, hrest⟩ := path_cons_iff.mp hcompleted
    obtain ⟨held, hbetween, hrest⟩ := path_append_iff.mp hrest
    obtain ⟨next, hnext, -⟩ := path_cons_iff.mp hrest
    obtain rfl := path_idle hbetween hidle
    cases hturn
    cases hnext with
    | begin hrests => exact absurd rfl hne
    | cancelIdle hrests hpending => exact .cancelled
    | resume => exact .resumed
    | settle hmay => exact .settled _
  cancelled := by
    rintro before after rfl
    obtain ⟨q, hbefore, hafter⟩ := path_append_iff.mp h
    obtain ⟨q', hturn, hrest⟩ := path_cons_iff.mp hafter
    rw [outstanding_eq hbefore]
    cases hturn with
    | cancelWaiting =>
      obtain ⟨result, refusals, rfl, hcancelled⟩ := path_dropping hrest hend
      exact ⟨result, refusals, rfl, hcancelled⟩
    | cancelIdle hrests hidle =>
      rw [hidle]
      exact path_cancelling hrest hend
  settled := by
    rintro before result after rfl
    obtain ⟨q, hbefore, hafter⟩ := path_append_iff.mp h
    obtain ⟨q', hturn, hrest⟩ := path_cons_iff.mp hafter
    rw [outstanding_eq hbefore]
    have hafter : ∀ {n}, q' = ⟨n, .settled⟩ → ∀ event ∈ after, event = .refused := by
      rintro n rfl event hevent
      rw [path_settled hrest] at hevent
      exact List.eq_of_mem_replicate hevent
    cases hturn with
    | settleCancelled => exact ⟨rfl, hafter rfl⟩
    | settle hmay => exact ⟨by cases hmay <;> rfl, hafter rfl⟩

end

end Tea.Async
