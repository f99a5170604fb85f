/-
  Tea/Contract/RejectedStart.lean
  ===============================
  **At most one run is claimed at a time, and a rejected start changes nothing**, in any
  interleaving of the calls.

  A rejected start moves the counter of the run identifiers, which nobody can see in the
  transcript, the allocator and the queues.  It can be left out of the interleaving, as
  long as a continuation that has drained its messages finds the agent idle: where it
  is rejected after the drain, the messages are lost.
-/
import Tea.Clients.Ownership

namespace Tea.Contract

open Tea.Async Tea.Core Tea.Run Tea.Clients

variable {ι : Type} [DecidableEq ι] {a : Agent} {s s' : Shared} {c : Clients ι Shared Point}
  {p : Point}

/-! ### The view -/

/-- The calls that start or queue something. -/
def starts : Call → Bool
  | .startPrompt _ => true
  | .startContinue => true
  | .startCompaction => true
  | .steer _ => true
  | .followUp _ => true
  | _ => false

def inStart : Point → Bool
  | .returned _ => true
  | .checkTail => true
  | .readSteeringMode => true
  | .readFollowUpMode _ => true
  | .drainTail .. => true
  | .fetchRunId .. => true
  | .claim .. => true
  | .publish .. => true
  | .fetchCompactionId => true
  | .checkIdle _ => true
  | .readCompactor _ => true
  | .claimCompaction _ => true
  | .pushSteering _ => true
  | .pushFollowUp _ => true
  | _ => false

/-- Which run owns the agent cannot be seen. -/
def ownerless : AgentPhase → AgentPhase
  | .idle => .idle
  | .running _ => .running ⟨0⟩
  | .cancelling _ => .cancelling ⟨0⟩

/-- The shared state without runs and run identifiers. -/
def seen (s : Shared) : Shared where
  agent := { s.agent with phase := ownerless s.agent.phase }
  queues := s.queues
  steeringMode := s.steeringMode
  followUpMode := s.followUpMode

/-- A point without runs and run identifiers. -/
def seenPoint : Point → Point
  | .returned _ => .returned .done
  | .claim _ contents skip => .claim ⟨0⟩ contents skip
  | .publish .. => .publish 0 {}
  | .checkIdle _ => .checkIdle ⟨0⟩
  | .readCompactor _ => .readCompactor ⟨0⟩
  | .claimCompaction _ => .claimCompaction ⟨0⟩
  | p => p

theorem seen_of_active {active : RunId} (hactive : s.agent.phase.active = some active) :
    (seen s).agent.phase.active = some ⟨0⟩ := by
  cases hphase : s.agent.phase with
  | idle =>
    rw [hphase] at hactive
    cases hactive
  | running => simp [seen, hphase, ownerless, AgentPhase.active]
  | cancelling => simp [seen, hphase, ownerless, AgentPhase.active]

theorem seen_of_idle (hidle : s.agent.phase.active = none) :
    (seen s).agent.phase.active = none := by
  cases hphase : s.agent.phase with
  | idle => simp [seen, hphase, ownerless, AgentPhase.active]
  | running =>
    rw [hphase] at hidle
    cases hidle
  | cancelling =>
    rw [hphase] at hidle
    cases hidle

theorem pushContents_phase (contents : List String) (agent : AgentState) (phase : AgentPhase) :
    pushContents contents { agent with phase } =
      ((pushContents contents agent).1, { (pushContents contents agent).2 with phase }) := by
  induction contents generalizing agent with
  | nil => rfl
  | cons content rest ih =>
    have hpush : ({ agent with phase } : AgentState).pushMessage (fun id => .user id content) =
        ((agent.pushMessage fun id => .user id content).1,
          { (agent.pushMessage fun id => .user id content).2 with phase }) := rfl
    simp only [pushContents, hpush, ih]

theorem seen_give (s : Shared) (id id' : RunId) (phase : RunPhase) (contents : List String) :
    seen (s.give id phase (pushContents contents s.agent).2) =
      seen ((seen s).give id' phase (pushContents contents (seen s).agent).2) := by
  simp only [Shared.give, seen, pushContents_phase]
  rfl

/-- What is seen of a section is determined by what is seen before it. -/
theorem seen_section (a : Agent) (hp : inStart p = true) (s : Shared) :
    seenPoint (section_ a p s).1 = seenPoint (section_ a (seenPoint p) (seen s)).1 ∧
      seen (section_ a p s).2 = seen (section_ a (seenPoint p) (seen s)).2 := by
  have hseen : seen (seen s) = seen s := by
    cases hphase : s.agent.phase <;> simp [seen, hphase, ownerless]
  cases p with
  | checkTail =>
    refine ⟨?_, hseen.symm⟩
    simp only [section_, seenPoint, checkTail]
    rcases hphase : s.agent.phase.active with _ | active
    · rw [seen_of_idle hphase]
      rfl
    · rw [seen_of_active hphase]
      rfl
  | drainTail steering followUp =>
    have hqueues : (seen s).queues = s.queues := rfl
    have hseen' : ∀ queues, seen { seen s with queues } = seen { s with queues } := fun queues =>
      congrArg (fun t : Shared => { t with queues }) hseen
    simp only [section_, seenPoint, drainTail, hqueues]
    by_cases hsteering : (s.queues.steering.drain steering).1 ≠ []
    · rw [if_pos hsteering, if_pos hsteering]
      exact ⟨rfl, (hseen' _).symm⟩
    · rw [if_neg hsteering, if_neg hsteering]
      exact ⟨rfl, (hseen' _).symm⟩
  | claim id contents skip =>
    simp only [section_, seenPoint]
    rcases hphase : s.agent.phase.active with _ | active
    · rw [claim_idle hphase, claim_idle (seen_of_idle hphase)]
      exact ⟨rfl, seen_give _ _ _ _ _⟩
    · rw [claim_active hphase, claim_active (seen_of_active hphase)]
      exact ⟨rfl, hseen.symm⟩
  | claimCompaction id =>
    simp only [section_, seenPoint]
    rcases hphase : s.agent.phase.active with _ | active
    · rw [claimCompaction_idle hphase, claimCompaction_idle (seen_of_idle hphase)]
      exact ⟨rfl, seen_give _ _ _ _ []⟩
    · rw [claimCompaction_active hphase, claimCompaction_active (seen_of_active hphase)]
      exact ⟨rfl, hseen.symm⟩
  | checkIdle id =>
    refine ⟨?_, hseen.symm⟩
    simp only [section_, seenPoint, checkIdle]
    rcases hphase : s.agent.phase.active with _ | active
    · rw [seen_of_idle hphase]
    · rw [seen_of_active hphase]
      rfl
  | readCompactor id =>
    refine ⟨?_, hseen.symm⟩
    simp only [section_, seenPoint]
    by_cases hcompactor : a.capabilities.hasCompactor = true
    · rw [if_pos hcompactor, if_pos hcompactor]
    · rw [if_neg hcompactor, if_neg hcompactor]
  | pushSteering content =>
    exact ⟨rfl, congrArg (fun t : Shared => { t with
      queues := { s.queues with steering := (s.queues.steering.push content).2 } }) hseen.symm⟩
  | pushFollowUp content =>
    exact ⟨rfl, congrArg (fun t : Shared => { t with
      queues := { s.queues with followUp := (s.queues.followUp.push content).2 } }) hseen.symm⟩
  | publish => exact ⟨rfl, hseen.symm⟩
  | returned => exact ⟨rfl, hseen.symm⟩
  | readSteeringMode => exact ⟨rfl, hseen.symm⟩
  | readFollowUpMode => exact ⟨rfl, hseen.symm⟩
  | fetchRunId => exact ⟨rfl, hseen.symm⟩
  | fetchCompactionId => exact ⟨rfl, hseen.symm⟩
  | _ => cases hp

theorem inStart_section (a : Agent) (hp : inStart p = true) (s : Shared) :
    inStart (section_ a p s).1 = true := by
  cases p with
  | checkTail =>
    simp only [section_]
    rcases checkTail_cases s with ⟨_, heq⟩ | heq | heq <;> rw [heq] <;> rfl
  | drainTail steering followUp =>
    obtain ⟨queued, queues, heq, _⟩ := drainTail_spec steering followUp s
    simp only [section_, heq]
    rcases continueWith_cases queued with ⟨_, heq⟩ | ⟨_, heq⟩ <;> rw [heq] <;> rfl
  | claim id contents skip =>
    rcases hphase : s.agent.phase.active with _ | active
    · simp only [section_, claim_idle hphase]
      rfl
    · simp only [section_, claim_active hphase]
      rfl
  | claimCompaction id =>
    rcases hphase : s.agent.phase.active with _ | active
    · simp only [section_, claimCompaction_idle hphase]
      rfl
    · simp only [section_, claimCompaction_active hphase]
      rfl
  | checkIdle id =>
    simp only [section_]
    rcases checkIdle_cases (.readCompactor id) s with ⟨_, heq⟩ | heq <;> rw [heq] <;> rfl
  | readCompactor id =>
    simp only [section_]
    split <;> rfl
  | returned => rfl
  | readSteeringMode => rfl
  | readFollowUpMode => rfl
  | fetchRunId => rfl
  | fetchCompactionId => rfl
  | publish => rfl
  | pushSteering => rfl
  | pushFollowUp => rfl
  | _ => cases hp

theorem seenPoint_returned (p : Point) : (seenPoint p).isReturned = p.isReturned := by
  cases p <;> rfl

/-- Starts are determined by what is seen of them. -/
theorem starts_view :
    Sections.View (calls a) starts (fun p => inStart p = true) seen seenPoint where
  admits s s' call hcall _ := by
    cases call <;> first | rfl | cases hcall
  returned p p' heq := by
    change p.isReturned = p'.isReturned
    rw [← seenPoint_returned p, heq, seenPoint_returned]
  idle p p' hp hp' := by
    cases p <;> cases hp
    cases p' <;> cases hp'
    rfl
  entry call hcall := by
    cases call <;> first | rfl | cases hcall
  stays p s hp := inStart_section a hp s
  section_ p p' s s' hp hp' hpoint hstate := by
    obtain ⟨hnext, hseen⟩ := seen_section a hp s
    obtain ⟨hnext', hseen'⟩ := seen_section a hp' s'
    change seenPoint (section_ a p s).1 = seenPoint (section_ a p' s').1 ∧
      seen (section_ a p s).2 = seen (section_ a p' s').2
    rw [hnext, hseen, hnext', hseen', hpoint, hstate]
    exact ⟨rfl, rfl⟩

/-! ### Rejected calls -/

/-- The call has drained messages, claimed or queued, and will not be rejected any more. -/
def committed : Point → Bool
  | .fetchRunId _ skip => skip
  | .claim _ _ skip => skip
  | .publish .. => true
  | .returned (.failed _) => false
  | .returned _ => true
  | _ => false

/-- Before it is committed, a call cannot be seen. -/
theorem unseen_section (a : Agent) (hp : inStart p = true) (s : Shared)
    (hcommitted : committed (section_ a p s).1 = false) : seen (section_ a p s).2 = seen s := by
  cases p with
  | drainTail steering followUp =>
    obtain ⟨queued, queues, heq, hqueues⟩ := drainTail_spec steering followUp s
    simp only [section_, heq] at hcommitted ⊢
    by_cases hempty : queued = []
    · rw [hqueues hempty]
    · rw [continueWith, if_neg hempty] at hcommitted
      cases hcommitted
  | claim id contents skip =>
    rcases hphase : s.agent.phase.active with _ | active
    · simp only [section_, claim_idle hphase] at hcommitted
      cases hcommitted
    · simp only [section_, claim_active hphase]
  | claimCompaction id =>
    rcases hphase : s.agent.phase.active with _ | active
    · simp only [section_, claimCompaction_idle hphase] at hcommitted
      cases hcommitted
    · simp only [section_, claimCompaction_active hphase]
  | publish => cases hcommitted
  | pushSteering => cases hcommitted
  | pushFollowUp => cases hcommitted
  | returned => rfl
  | checkTail => rfl
  | readSteeringMode => rfl
  | readFollowUpMode => rfl
  | fetchRunId => rfl
  | fetchCompactionId => rfl
  | checkIdle => rfl
  | readCompactor => rfl
  | _ => cases hp

/-- A continuation that has drained its messages finds the agent idle. -/
def unovertaken (c : Clients ι Shared Point) : Move ι Call → Bool
  | .call .. => true
  | .go client =>
      match c.point client with
      | .claim _ _ true => c.state.agent.phase.active.isNone
      | _ => true

/-- No step overtakes a continuation that has drained its messages. -/
def Unovertaken (a : Agent) (c : Clients ι Shared Point) (moves : List (Move ι Call)) : Prop :=
  (calls a).Along (fun c m => unovertaken c m = true) c moves

instance (a : Agent) (c : Clients ι Shared Point) (moves : List (Move ι Call)) :
    Decidable (Unovertaken a c moves) :=
  inferInstanceAs (Decidable ((calls a).Along (fun c m => unovertaken c m = true) c moves))

omit [DecidableEq ι] in
theorem idle_of_unovertaken {client : ι} {id : RunId} {contents : List String}
    (h : unovertaken c (.go client) = true) (hpoint : c.point client = .claim id contents true) :
    c.state.agent.phase.active = none := by
  simp only [unovertaken, hpoint, Option.isNone_iff_eq_none] at h
  exact h

theorem committed_section (a : Agent) (hp : inStart p = true) (s : Shared)
    (hcommitted : committed p = true)
    (hidle : ∀ id contents, p = .claim id contents true → s.agent.phase.active = none) :
    committed (section_ a p s).1 = true := by
  cases p with
  | returned => exact hcommitted
  | fetchRunId => exact hcommitted
  | claim id contents skip =>
    cases skip with
    | false => cases hcommitted
    | true =>
      simp only [section_, claim_idle (hidle id contents rfl)]
      rfl
  | publish => rfl
  | _ => cases hcommitted

theorem inStart_move {client : ι} {m : Move ι Call} (hm : m.Stays client)
    (hp : inStart (c.point client) = true) :
    inStart (((calls a).move c m).point client) = true := by
  rcases Sections.move_stays (S := calls a) (c := c) hm with heq | ⟨rfl, hgoing⟩
  · rw [heq]
    exact hp
  · rw [Sections.move_go hgoing, Clients.set_self]
    exact inStart_section a hp c.state

theorem committed_play {client : ι} {moves : List (Move ι Call)}
    (hmoves : ∀ m ∈ moves, m.Stays client) (hcondition : Unovertaken a c moves)
    (hp : inStart (c.point client) = true) (hcommitted : committed (c.point client) = true) :
    committed (((calls a).play c moves).point client) = true := by
  induction moves generalizing c with
  | nil => exact hcommitted
  | cons m moves ih =>
    have hm := hmoves m (List.mem_cons_self ..)
    refine ih (fun m hm => hmoves m (List.mem_cons_of_mem _ hm)) hcondition.2
      (inStart_move hm hp) ?_
    rcases Sections.move_stays (S := calls a) (c := c) hm with heq | ⟨rfl, hgoing⟩
    · rw [heq]
      exact hcommitted
    · rw [Sections.move_go hgoing, Clients.set_self]
      exact committed_section a hp c.state hcommitted fun id contents hpoint =>
        idle_of_unovertaken hcondition.1 hpoint

/-- The sections of a call that ends uncommitted cannot be seen. -/
theorem unseen_play {client : ι} {moves : List (Move ι Call)}
    (hmoves : ∀ m ∈ moves, m.Stays client) (hcondition : Unovertaken a c moves)
    (hp : inStart (c.point client) = true)
    (hrejected : committed (((calls a).play c moves).point client) = false) :
    (calls a).Along (Sections.Unseen (calls a) seen client) c moves := by
  induction moves generalizing c with
  | nil => trivial
  | cons m moves ih =>
    have hm := hmoves m (List.mem_cons_self ..)
    have hrest : ∀ m ∈ moves, m.Stays client := fun m hm => hmoves m (List.mem_cons_of_mem _ hm)
    have hp' := inStart_move (a := a) hm hp
    refine ⟨fun hclient => ?_, ih hrest hcondition.2 hp' hrejected⟩
    have huncommitted : committed (((calls a).move c m).point client) = false := by
      by_contra hcommitted
      have hend := committed_play hrest hcondition.2 hp' (by simpa using hcommitted)
      rw [Sections.play_cons, hend] at hrejected
      cases hrejected
    cases m with
    | call other call => exact absurd hclient hm
    | go other =>
      obtain rfl : other = client := hclient
      cases hreturned : (c.point other).isReturned with
      | true => rw [Sections.move_returned hreturned]
      | false =>
        rw [Sections.move_go hreturned] at huncommitted ⊢
        rw [Clients.set_self] at huncommitted
        exact unseen_section a hp c.state huncommitted

/-! ### Starts -/

/-- What a rejected start must not touch. -/
def kept (s : Shared) : List AgentMessage × UInt64 × AgentQueues :=
  (s.agent.messages, s.agent.nextMessageId, s.queues)

theorem kept_of_seen (h : seen s = seen s') : kept s = kept s' :=
  congrArg (fun t => (t.agent.messages, t.agent.nextMessageId, t.queues)) h

/-- A rejected call of a start, and what the other clients did meanwhile and later. -/
theorem rejected_start_left_out {client : ι} {call : Call} {error : CoreError}
    {during later : List (Move ι Call)} (hidle : (c.point client).isReturned = true)
    (hstart : ∀ i, inStart (c.point i) = true) (hcall : starts call = true)
    (hmoves : ∀ m ∈ during ++ later, m.Within starts = true) (hsame : ∀ m ∈ during, m.Stays client)
    (hcondition : Unovertaken a c (.call client call :: during))
    (hrejected : ((calls a).play c (.call client call :: during)).point client = failed error) :
    kept ((calls a).play c (.call client call :: during ++ later)).state =
      kept ((calls a).play c (Sections.others client during ++ later)).state := by
  have hview : Sections.View (calls a) starts (fun p => inStart p = true) seen seenPoint :=
    starts_view
  have hduring : ∀ m ∈ during, m.Within starts = true := fun m hm =>
    hmoves m (List.mem_append_left _ hm)
  have hcalled : (calls a).move c (.call client call) = c.set client call.entry c.state :=
    Sections.move_call hidle (by cases call <;> first | rfl | cases hcall)
  have hentry : inStart call.entry = true := hview.entry call hcall
  rw [List.cons_append, Sections.play_cons, hcalled, Sections.play_append, Sections.play_append]
  rw [Sections.play_cons, hcalled] at hrejected
  have hlater : Unovertaken a (c.set client call.entry c.state) during := by
    rw [← hcalled]
    exact hcondition.2
  have hunseen := unseen_play hsame hlater (by rw [Clients.set_self]; exact hentry)
    (by rw [hrejected]; rfl)
  have halike : Sections.Alike (fun p => inStart p = true) seen seenPoint (fun i => i ≠ client)
      (c.set client call.entry c.state) c := by
    refine ⟨rfl, fun i hi => ?_, fun i hi => ?_⟩
    · rw [c.set_other _ _ hi]
    · rw [c.set_other _ _ hi]
      exact ⟨hstart i, hstart i⟩
  obtain ⟨hothers, hpoint⟩ := hview.leave_out halike hduring hunseen
  -- the client itself has returned in both
  have hreturned : seenPoint (failed error) = seenPoint (c.point client) :=
    hview.idle _ _ rfl hidle
  have hall : Sections.Alike (fun p => inStart p = true) seen seenPoint (fun _ => True)
      ((calls a).play (c.set client call.entry c.state) during)
      ((calls a).play c (Sections.others client during)) := by
    refine ⟨hothers.state, fun i _ => ?_, fun i _ => ?_⟩ <;> by_cases hi : i = client
    · rw [hi, hrejected, hpoint]
      exact hreturned
    · exact hothers.point i hi
    · rw [hi, hrejected, hpoint]
      exact ⟨rfl, hstart client⟩
    · exact hothers.inside i hi
  have hend := hview.play hall fun m hm => hmoves m (List.mem_append_right _ hm)
  exact kept_of_seen hend.state

/-- The run has been claimed, and the agent has not been released since. -/
def Owner (s : Shared) (run : Nat) : Prop := run < s.claims ∧ (s.runs run).settled = false

/-- **Starts.**  In any interleaving of the calls of any clients, at most one run or
    compaction owns the agent at a time.  Where starts and queue pushes interleave and no
    continuation is overtaken after its drain, a start that is rejected leaves transcript,
    allocator and queues as the others alone would have left them, then and later. -/
theorem rejected_start_changes_nothing (howned : Owned c.state)
    (hidle : ∀ i, (c.point i).isReturned = true) :
    (∀ moves run run', Owner ((calls a).play c moves).state run →
      Owner ((calls a).play c moves).state run' → run = run') ∧
    ∀ before client call error during later,
      (∀ m ∈ before ++ .call client call :: (during ++ later), m.Within starts = true) →
      Unovertaken a c (before ++ .call client call :: during) →
      (((calls a).play c before).point client).isReturned = true →
      (∀ m ∈ during, m.Stays client) →
      ((calls a).play c (before ++ .call client call :: during)).point client = failed error →
      kept ((calls a).play c (before ++ .call client call :: (during ++ later))).state =
        kept ((calls a).play c (before ++ (Sections.others client during ++ later))).state := by
  constructor
  · intro moves run run' howner howner'
    have hpreserved : Sections.Preserved (calls a) (fun _ _ => True) (Ownership (ι := ι)) :=
      ownership_preserved
    have hend := hpreserved.always (.idle howned hidle) moves
    exact hend.owned.unique howner.1 howner'.1 howner.2 howner'.2
  · intro before client call error during later hmoves hcondition hreturned hsame hrejected
    have hview : Sections.View (calls a) starts (fun p => inStart p = true) seen seenPoint :=
      starts_view
    have hinside : Sections.Alike (fun p => inStart p = true) seen seenPoint (fun _ => True) c c :=
      ⟨rfl, fun _ _ => rfl, fun i _ => by
        have hi := hidle i
        cases hpoint : c.point i <;> rw [hpoint] at hi <;> first | exact ⟨rfl, rfl⟩ | cases hi⟩
    have hstarts : ∀ m ∈ before, m.Within starts = true := fun m hm =>
      hmoves m (List.mem_append_left _ hm)
    have hbefore := hview.play hinside hstarts
    have hafter : ∀ m ∈ .call client call :: (during ++ later), m.Within starts = true :=
      fun m hm => hmoves m (List.mem_append_right _ hm)
    rw [Sections.play_append] at hrejected
    rw [Sections.play_append, Sections.play_append]
    exact rejected_start_left_out hreturned (fun i => (hbefore.inside i trivial).1)
      (hafter _ (List.mem_cons_self ..)) (fun m hm => hafter m (List.mem_cons_of_mem _ hm)) hsame
      (Sections.along_append.mp hcondition).2 hrejected

/-- An idle agent that may continue with a steering message. -/
def answered : Shared where
  agent := { messages := [.user ⟨1⟩ "hi", .assistant ⟨2⟩ "a" [] (some .stop) none], nextMessageId := 3 }
  queues := { steering := { nextSequence := 1, entries := [⟨1, "more"⟩] } }

/-- The first client prompts, and the second one tries to continue meanwhile. -/
def triesToContinue : List (Move Nat Call) × List (Move Nat Call) × List (Move Nat Call) :=
  ([.call 0 (.startPrompt "again"), .go 0, .go 0], [.go 1, .go 0, .call 0 (.steer "x")], [.go 0])

theorem answered_owned : Owned answered :=
  ⟨fun _ hr => (by cases hr), fun _ hr => (by cases hr), fun _ hr => (by cases hr)⟩

/-- The continuation is rejected, and the queue keeps its messages. -/
theorem rejected_start_changes_nothing_answered :
    kept ((calls {}).play (unused answered) (triesToContinue.1 ++
        .call 1 .startContinue :: (triesToContinue.2.1 ++ triesToContinue.2.2))).state =
      kept ((calls {}).play (unused answered) (triesToContinue.1 ++
        (Sections.others 1 triesToContinue.2.1 ++ triesToContinue.2.2))).state :=
  (rejected_start_changes_nothing answered_owned fun _ => rfl).2 triesToContinue.1 1
    .startContinue (.activeRun ⟨1⟩) triesToContinue.2.1 triesToContinue.2.2 (by decide)
    (by decide) (by decide) (by decide) rfl

/-- The continuation drains, and the prompt claims the agent before it does. -/
def overtaken : List (Move Nat Call) :=
  [.go 1, .go 1, .go 1, .go 1, .call 0 (.startPrompt "again"), .go 0, .go 0, .go 1, .go 1]

/-- The continuation is rejected, and the drained message is in no queue and in no
    transcript. -/
theorem rejected_start_loses_message :
    ((calls {}).play (unused answered) (.call 1 .startContinue :: overtaken)).point 1 =
        failed (.activeRun ⟨1⟩) ∧
      ((calls {}).play (unused answered) (.call 1 .startContinue :: overtaken)).state.queues ≠
        ((calls {}).play (unused answered) (Sections.others 1 overtaken)).state.queues :=
  ⟨rfl, by decide⟩

end Tea.Contract
