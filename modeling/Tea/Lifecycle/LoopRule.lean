/-
  Tea/Lifecycle/LoopRule.lean
  ===========================
  **The rule of the run loop.**  What a run keeps is proved of one turn: an assertion
  that the steps before the first turn keep, and that a turn restores whenever another
  one follows, holds before each turn of `drive`, and what it implies holds wherever the
  run stops (`drive_ends`).
-/
import Tea.Lifecycle.Routine

namespace Tea.Lifecycle

open Tea.Async Tea.Core Tea.Run

variable {acts : Now → ClientOp → Prop} {answers : Now → (query : Query) → Reply query → Prop}
  {C : World → World → Prop} {P P' G : Now → Prop} {h : RunHandle} {α β : Type}

/-- The program ends with a value as `ok` says; wherever else it stops, `G` holds. -/
abbrev Ends (G : Now → Prop) (ok : α → Now → Prop) : Outcome Query CoreError α → Now → Prop :=
  Post ok (fun _ => G) fun _ => G

/-! ### Parts of a run -/

theorem ends_bind {E : Host} {ok : β → Now → Prop} {mid : α → Now → Prop} {p : Drive α}
    {next : α → Drive β} (hp : Triple E P p (Ends G mid))
    (hnext : ∀ value, Triple E (mid value) (next value) (Ends G ok)) :
    Triple E P (p >>= next) (Ends G ok) := Triple.bind hp hnext

/-- A part within the class keeps what the class keeps. -/
theorem ends_within {E : Host} {p : Drive α} (hp : p.Within C) (hP : Invariant E C P)
    (hG : ∀ m, P m → G m) : Triple E P p (Ends G fun _ => P) := by
  refine (hp.keeps hP).post ?_
  rintro (value | error | query) m hm
  · exact hm
  · exact hG m hm
  · exact hG m hm

theorem ends_pure {E : Host} (hP : Stable E P) {value : α} {ok : α → Now → Prop}
    (hok : ∀ m, P m → ok value m) : Triple E P (pure value : Drive α) (Ends G ok) :=
  Triple.done hP hok

theorem ends_fail {E : Host} (hP : Stable E P) {error : CoreError} {ok : α → Now → Prop}
    (hG : ∀ m, P m → G m) : Triple E P (.fail error : Drive α) (Ends G ok) :=
  Triple.fail hP hG

/-- A critical section, and what holds after it. -/
theorem ends_section {E : Host} (hP : Stable E P) {f : World → α × World} {ok : α → Now → Prop}
    (hok : ∀ value, Stable E (ok value))
    (hf : ∀ m, P m → ok (f m.state).1 (m.own fun w => (f w).2)) :
    Triple E P (Future.section_ f : Drive α) (Ends G ok) :=
  Triple.section_ hP hok hf fun _ _ hm => hm

theorem ends_read {E : Host} (hP : Stable E P) {f : World → α} {ok : α → Now → Prop}
    (hok : ∀ value, Stable E (ok value)) (hf : ∀ m, P m → ok (f m.state) (m.own id)) :
    Triple E P (Future.read f : Drive α) (Ends G ok) :=
  Triple.read hP hok hf fun _ _ hm => hm

theorem ends_modify {E : Host} (hP : Stable E P) {f : World → World} (hP' : Stable E P')
    (hf : ∀ m, P m → P' (m.own f)) :
    Triple E P (Future.modify f : Drive Unit) (Ends G fun _ => P') :=
  Triple.modify hP hP' hf fun _ hm => hm

/-- An event is recorded, and the rest of its delivery changes nothing. -/
theorem ends_emit {E : Host} (hC : Admits C) (hP : Stable E P) (hP' : Invariant E C P')
    (hG : ∀ m, P' m → G m) {kind : AgentEventKind}
    (hnote : ∀ m, P m → P' (m.own (noted kind))) :
    Triple E P (emit kind) (Ends G fun _ => P') := by
  apply ends_bind (ends_section hP (fun _ => hP'.interfere) hnote)
  intro event
  exact ends_within (hC.publish_within event) hP' hG

theorem ends_whenever {E : Host} (hP : Stable E P) {condition : Bool} {p : Drive Unit}
    (hp : condition = true → Triple E P p (Ends G fun _ => P')) (himp : ∀ m, P m →
      condition = false → P' m) : Triple E P (whenever condition p) (Ends G fun _ => P') := by
  unfold whenever
  cases condition with
  | true => exact hp rfl
  | false => exact ends_pure hP fun m hm => himp m hm rfl

/-! ### Turns that fail -/

variable {ok : Option LoopState → Now → Prop}

/-- A part that is followed by an error ends with it. -/
theorem ends_then_fail {E : Host} {p : Drive α} (hp : p.Within C) (hG : Invariant E C G)
    (error : CoreError) {ok : β → Now → Prop} :
    Triple E G (p >>= fun _ => .fail error) (Ends G ok) :=
  ends_bind (ends_within hp hG fun _ hm => hm) fun _ => ends_fail hG.interfere fun _ hm => hm

theorem failModelResponse_ends {E : Host} (hC : Admits C) (hG : Invariant E C G)
    (turnId : TurnId) (reason : StopReason) (errorMessage : Option String) :
    Triple E G (failModelResponse h turnId reason errorMessage) (Ends G ok) := by
  apply ends_bind (ends_within (hC.routine_within rfl) hG fun _ hm => hm)
  intro _
  apply ends_bind (ends_within hC.emitAgentEnd_within hG fun _ hm => hm)
  intro _
  split_ifs
  · apply ends_bind (ends_within hC.isCancelled_within hG fun _ hm => hm)
    rintro (_ | _)
    · exact ends_then_fail (hC.finish_within _ _ _) hG _
    · exact ends_then_fail (hC.finish_within _ _ _) hG _
  · exact ends_then_fail (hC.finish_within _ _ _) hG _

theorem cancelModelResponse_ends {E : Host} (hC : Admits C) (hG : Invariant E C G)
    (turnId : TurnId) : Triple E G (cancelModelResponse h turnId) (Ends G ok) := by
  apply ends_bind (ends_within (hC.routine_within rfl) hG fun _ hm => hm)
  intro _
  apply ends_bind (ends_within hC.emitAgentEnd_within hG fun _ hm => hm)
  intro _
  exact ends_then_fail (hC.finish_within _ _ _) hG _

theorem tripCircuitBreaker_ends {E : Host} (hC : Admits C) (hG : Invariant E C G)
    (turnId : TurnId) (message : String) :
    Triple E G (tripCircuitBreaker h turnId message) (Ends G ok) := by
  apply ends_bind (ends_within (hC.routine_within rfl) hG fun _ hm => hm)
  intro _
  apply ends_bind (ends_within (hC.routine_within rfl) hG fun _ hm => hm)
  intro _
  apply ends_bind (ends_within hC.emitAgentEnd_within hG fun _ hm => hm)
  intro _
  exact ends_then_fail (hC.finish_within _ _ _) hG _

/-! ### Compactions that fail -/

theorem cancelCompaction_ends {E : Host} (hC : Admits C) (hends : HasEnds C)
    (hG : Invariant E C G) (reason : AutomaticCompactionReason) (retry : Bool)
    {ok : α → Now → Prop} : Triple E G (cancelCompaction reason retry : Drive α) (Ends G ok) := by
  apply ends_bind (ends_within (hC.lockPolicy_within fun _ => rfl) hG fun _ hm => hm)
  intro _
  exact ends_then_fail (hC.emit_within (hends _ _ _)) hG _

theorem rejectCompaction_ends {E : Host} (hC : Admits C) (hends : HasEnds C)
    (hG : Invariant E C G) (reason : AutomaticCompactionReason) (retry : Bool)
    (message : String) {ok : α → Now → Prop} :
    Triple E G (rejectCompaction reason retry message : Drive α) (Ends G ok) :=
  ends_then_fail (hC.emit_within (hends _ _ _)) hG _

theorem failCompaction_ends {E : Host} (hC : Admits C) (hends : HasEnds C)
    (hG : Invariant E C G) (reason : AutomaticCompactionReason) (retry : Bool)
    (error : String) {ok : α → Now → Prop} :
    Triple E G (failCompaction reason retry error : Drive α) (Ends G ok) := by
  apply ends_bind (ends_within hC.isCancelled_within hG fun _ hm => hm)
  rintro (_ | _)
  · exact rejectCompaction_ends hC hends hG _ _ _
  · exact cancelCompaction_ends hC hends hG _ _

/-! ### The loop -/

/-- What holds before a turn. -/
abbrev Before : Type := LoopState → Now → Prop

/-- Another turn follows, and it may begin. -/
def Again (top : Before) (next : Option LoopState) (m : Now) : Prop :=
  ∀ st, next = some st → top st m

theorem again_of_some {top : Before} {st : LoopState} {m : Now} (hm : top st m) :
    Again top (some st) m := by
  intro st' heq
  cases heq
  exact hm

theorem again_none {top : Before} {m : Now} : Again top none m := fun _ heq => nomatch heq

theorem driveLoop_ends {E : Host} {fuel : Nat} {runId : RunId} {top : Before}
    (hstable : ∀ st, Stable E (top st)) (hG : ∀ st m, top st m → G m) (hGstable : Stable E G)
    (hturn : ∀ st, Triple E (top st) (turn h fuel runId st)
      (Ends G fun next m => G m ∧ Again top next m))
    (n : Nat) (st : LoopState) :
    Triple E (top st) (driveLoop h fuel runId n st) (Ends G fun _ => G) := by
  induction n generalizing st with
  | zero =>
    refine Triple.call (hstable st) (fun m hm => hG st m hm) ?_
    intro m answer
    cases answer
  | succ n ih =>
    apply ends_bind (hturn st)
    intro next
    cases next with
    | none => exact (ends_pure hGstable fun m hm => hm).pre fun m hm => hm.1
    | some st => exact (ih st).pre fun m hm => hm.2 st rfl

variable {C' : World → World → Prop}

/-- **The rule.**  `B` holds until the first turn, `top` before each turn and `G`
    always. -/
theorem drive_ends {E : Host} {fuel : Nat} {B : Now → Prop} {top : Before}
    (hC : Admits C) (hB : Invariant E C B) (hC' : Admits C') (hG : Invariant E C' G)
    (happends : HasAppends C) (husers : HasUsers C) (happends' : HasAppends C')
    (hmessages : HasMessages C')
    (hinitial : ∀ message ∈ h.initialMessages, ∀ w, C w (noted (.messageEnd message) w))
    (hstable : ∀ st, Stable E (top st)) (hbegin : ∀ nextContext m, B m → top { nextContext } m)
    (htop : ∀ st m, top st m → G m)
    (hturn : ∀ runId st, Triple E (top st) (turn h fuel runId st)
      (Ends G fun next m => G m ∧ Again top next m)) :
    Triple E B (drive h fuel) (Ends G fun _ => G) := by
  have hBG : ∀ m, B m → G m := fun m hm => htop _ m (hbegin none m hm)
  have hinner : Triple E B (driveInner h fuel) (Ends G fun _ => G) := by
    have hloop : ∀ runId nextContext,
        Triple E B (driveLoop h fuel runId fuel { nextContext }) (Ends G fun _ => G) := by
      intro runId nextContext
      exact (driveLoop_ends hstable htop hG.interfere (hturn runId) fuel _).pre
        (hbegin nextContext)
    have hsteering : Triple E B (initialSteering h) (Ends G fun _ => B) := by
      unfold initialSteering
      split_ifs
      · exact ends_pure hB.interfere fun m hm => hm
      apply ends_bind (ends_within hC.currentContext_within hB hBG)
      intro context
      apply ends_bind (ends_within hC.drainSteering_within hB hBG)
      intro queued
      apply ends_bind (ends_within (hC.injectQueuedMessages_within happends husers _ _) hB hBG)
      intro context
      exact ends_pure hB.interfere fun m hm => hm
    apply ends_bind (ends_within (hC.read_within _) hB hBG)
    intro held
    split_ifs
    · apply ends_bind (ends_within (hC.read_within _) hB hBG)
      intro runId
      apply ends_bind (ends_within (hC.startTurn_within _) hB hBG)
      intro _
      apply ends_bind (ends_within (hC.read_within _) hB hBG)
      intro owned
      split_ifs
      · apply ends_bind (ends_within (hC.routine_within rfl) hB hBG)
        intro _
        apply ends_bind (ends_within (hC.routine_within rfl) hB hBG)
        intro _
        apply ends_bind (ends_within (hC.announceAll_within hinitial) hB hBG)
        intro _
        apply ends_bind hsteering
        intro nextContext
        exact hloop runId nextContext
      · exact ends_fail hB.interfere hBG
    · exact ends_fail hB.interfere hBG
  refine Triple.attempt hinner (fun _ => ?_) (fun error => ?_) fun _ _ hm => hm
  · exact ends_pure hG.interfere fun m hm => hm
  · have hleave : leaveLoop.Within C' := by
      apply hC'.section_within
      · exact fun _ => ⟨rfl, rfl, rfl⟩
      · exact fun _ => rfl
    apply ends_bind (ends_within hleave hG fun m hm => hm)
    intro phase
    split_ifs
    · exact ends_fail hG.interfere fun m hm => hm
    · apply ends_bind (ends_within (hC'.settle_within happends' hmessages error) hG fun m hm => hm)
      intro _
      exact ends_fail hG.interfere fun m hm => hm

/-! ### The initial messages -/

theorem pushContents_user (contents : List String) (agent : AgentState) :
    ∀ message ∈ (pushContents contents agent).1, ∃ id content, message = .user id content := by
  induction contents generalizing agent with
  | nil => exact fun message hmem => nomatch hmem
  | cons content rest ih =>
    intro message hmem
    rcases List.mem_cons.mp hmem with rfl | hmem
    · exact ⟨_, _, rfl⟩
    · exact ih _ message hmem

theorem Claimed.initial_user {a : Agent} {contents : List String} {skip : Bool} {w₀ w : World}
    (hclaimed : Claimed a contents skip w₀ h w) :
    ∀ message ∈ h.initialMessages, ∃ id content, message = .user id content := by
  rw [hclaimed.handle]
  exact pushContents_user contents w₀.agent

end Tea.Lifecycle
