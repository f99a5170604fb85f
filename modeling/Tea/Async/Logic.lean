/-
  Tea/Async/Logic.lean
  ====================
  **A program logic for futures under interference.**

  `Triple E P p Q` says that every run of `p` in the environment `E` from a moment
  satisfying `P` ends in an outcome and a moment satisfying `Q`.  Because the
  environment may act between any two steps, the assertions of the rules have to
  be *stable*: no interference admitted by `E` may falsify them.

  Most code of a large future never touches what an invariant speaks about.
  `Within C p` is the syntactic statement that every critical section of `p` is a
  step of the relation `C`, whatever the environment replies; an invariant that
  `C`, the interference and the replies preserve is then kept by `p`
  (`Within.keeps`), and no state has to be followed through `p`.
-/
import Tea.Async.Future

namespace Tea.Async

variable {σ Q : Type} {R : Q → Type} {ε ε' α β γ : Type}

/-- The postcondition made of one assertion for each way of ending. -/
def Post (ok : α → Moment σ Q R → Prop) (err : ε → Moment σ Q R → Prop)
    (hang : Q → Moment σ Q R → Prop) : Outcome Q ε α → Moment σ Q R → Prop
  | .done value, m => ok value m
  | .failed error, m => err error m
  | .pending query, m => hang query m

/-- No interference of `E` falsifies `P`. -/
def Stable (E : Environment σ Q R) (P : Moment σ Q R → Prop) : Prop :=
  ∀ m s, P m → E.interferes m s → P (m.interfere s)

/-- Every run of `p` from a moment in `P` ends in `post`. -/
def Triple (E : Environment σ Q R) (P : Moment σ Q R → Prop) (p : Future σ Q R ε α)
    (post : Outcome Q ε α → Moment σ Q R → Prop) : Prop :=
  ∀ m o m', P m → Run E p m o m' → post o m'

variable {E : Environment σ Q R} {P P' : Moment σ Q R → Prop}

/-! ### The rules -/

theorem Triple.done {value : α} {post : Outcome Q ε α → Moment σ Q R → Prop}
    (stable : Stable E P) (h : ∀ m, P m → post (.done value) m) :
    Triple E P (.done value) post := by
  intro m o m' hP hrun
  generalize hq : (Future.done value : Future σ Q R ε α) = q at hrun
  induction hrun with
  | done => cases hq; exact h _ hP
  | fail => cases hq
  | pending => cases hq
  | interfere hi _ ih => exact ih (stable _ _ hP hi) hq
  | atomic => cases hq
  | call => cases hq

theorem Triple.fail {error : ε} {post : Outcome Q ε α → Moment σ Q R → Prop}
    (stable : Stable E P) (h : ∀ m, P m → post (.failed error) m) :
    Triple E P (.fail error) post := by
  intro m o m' hP hrun
  generalize hq : (Future.fail error : Future σ Q R ε α) = q at hrun
  induction hrun with
  | done => cases hq
  | fail => cases hq; exact h _ hP
  | pending => cases hq
  | interfere hi _ ih => exact ih (stable _ _ hP hi) hq
  | atomic => cases hq
  | call => cases hq

/-- A critical section starts from some stable moment and leaves the rest of the
    future to be run from the updated state. -/
theorem Triple.atomic {update : σ → σ} {next : σ → Future σ Q R ε α}
    {post : Outcome Q ε α → Moment σ Q R → Prop} (stable : Stable E P)
    (h : ∀ m, P m → Triple E (· = m.own update) (next m.state) post) :
    Triple E P (.atomic update next) post := by
  intro m o m' hP hrun
  generalize hq : Future.atomic update next = q at hrun
  induction hrun with
  | done => cases hq
  | fail => cases hq
  | pending => cases hq
  | interfere hi _ ih => exact ih (stable _ _ hP hi) hq
  | atomic hrest => cases hq; exact h _ hP _ _ _ rfl hrest
  | call => cases hq

/-- A call may be left unanswered; otherwise the rest runs on any admitted reply. -/
theorem Triple.call {query : Q} {next : R query → Future σ Q R ε α}
    {post : Outcome Q ε α → Moment σ Q R → Prop} (stable : Stable E P)
    (hang : ∀ m, P m → post (.pending query) m)
    (h : ∀ m answer, P m → E.answers m query answer →
      Triple E (· = m.reply query answer) (next answer) post) :
    Triple E P (.call query next) post := by
  intro m o m' hP hrun
  generalize hq : Future.call query next = q at hrun
  induction hrun with
  | done => cases hq
  | fail => cases hq
  | pending => cases hq; exact hang _ hP
  | interfere hi _ ih => exact ih (stable _ _ hP hi) hq
  | atomic => cases hq
  | call ha hrest => cases hq; exact h _ _ hP ha _ _ _ rfl hrest

theorem Triple.pre {p : Future σ Q R ε α} {post : Outcome Q ε α → Moment σ Q R → Prop}
    (h : Triple E P p post) (hP : ∀ m, P' m → P m) : Triple E P' p post :=
  fun m o m' hm hrun => h m o m' (hP m hm) hrun

theorem Triple.post {p : Future σ Q R ε α} {post post' : Outcome Q ε α → Moment σ Q R → Prop}
    (h : Triple E P p post) (himp : ∀ o m, post o m → post' o m) : Triple E P p post' :=
  fun m o m' hm hrun => himp _ _ (h m o m' hm hrun)

/-- Continue from the moment reached, of which `P` is known. -/
theorem Triple.at {p : Future σ Q R ε α} {post : Outcome Q ε α → Moment σ Q R → Prop}
    (h : Triple E P p post) {m : Moment σ Q R} (hP : P m) : Triple E (· = m) p post :=
  h.pre fun _ heq => heq ▸ hP

/-- A fact that does not depend on the moment can be taken out of a precondition. -/
theorem Triple.assume {p : Future σ Q R ε α} {post : Outcome Q ε α → Moment σ Q R → Prop}
    {φ : Prop} (h : φ → Triple E P p post) : Triple E (fun m => φ ∧ P m) p post :=
  fun m o m' hm hrun => h hm.1 m o m' hm.2 hrun

/-- Run `p`, then `next` where `p` ended with a value.  An error of `p` and a
    query left unanswered end the whole future. -/
theorem Triple.bind {p : Future σ Q R ε α} {next : α → Future σ Q R ε β}
    {ok : α → Moment σ Q R → Prop} {ok' : β → Moment σ Q R → Prop}
    {err : ε → Moment σ Q R → Prop} {hang : Q → Moment σ Q R → Prop}
    (h : Triple E P p (Post ok err hang))
    (hnext : ∀ value, Triple E (ok value) (next value) (Post ok' err hang)) :
    Triple E P (p >>= next) (Post ok' err hang) := by
  intro m o m' hP hrun
  rcases hrun.bind_inv with ⟨a, m₁, h₁, h₂⟩ | ⟨e, rfl, h₁⟩ | ⟨q, rfl, h₁⟩
  · exact hnext a _ _ _ (h _ _ _ hP h₁) h₂
  · exact h _ _ _ hP h₁
  · exact h _ _ _ hP h₁

/-- Run `p`, which ends with a value, then `next`. -/
theorem Triple.seq {p : Future σ Q R ε α} {next : α → Future σ Q R ε β}
    {ok : α → Moment σ Q R → Prop} {post : Outcome Q ε β → Moment σ Q R → Prop}
    (h : Triple E P p (Post ok (fun _ _ => False) fun _ _ => False))
    (hnext : ∀ value, Triple E (ok value) (next value) post) : Triple E P (p >>= next) post := by
  intro m o m' hP hrun
  rcases hrun.bind_inv with ⟨a, m₁, h₁, h₂⟩ | ⟨e, rfl, h₁⟩ | ⟨q, rfl, h₁⟩
  · exact hnext a _ _ _ (h _ _ _ hP h₁) h₂
  · exact (h _ _ _ hP h₁).elim
  · exact (h _ _ _ hP h₁).elim

/-- Run `p` and go on with its result, be it a value or an error. -/
theorem Triple.attempt {p : Future σ Q R ε α}
    {next : Except ε α → Future σ Q R ε' β}
    {ok : α → Moment σ Q R → Prop} {err : ε → Moment σ Q R → Prop}
    {hang : Q → Moment σ Q R → Prop} {post : Outcome Q ε' β → Moment σ Q R → Prop}
    (h : Triple E P p (Post ok err hang))
    (hok : ∀ value, Triple E (ok value) (next (.ok value)) post)
    (herr : ∀ error, Triple E (err error) (next (.error error)) post)
    (hhang : ∀ query m, hang query m → post (.pending query) m) :
    Triple E P (p.attempt >>= next) post := by
  intro m o m' hP hrun
  rcases hrun.bind_inv with ⟨a, m₁, h₁, h₂⟩ | ⟨e, rfl, h₁⟩ | ⟨q, rfl, h₁⟩
  · rcases h₁.attempt_inv with ⟨v, heq, h₃⟩ | ⟨e, heq, h₃⟩ | ⟨q, heq, h₃⟩
    · cases heq; exact hok v _ _ _ (h _ _ _ hP h₃) h₂
    · cases heq; exact herr e _ _ _ (h _ _ _ hP h₃) h₂
    · cases heq
  · rcases h₁.attempt_inv with ⟨v, heq, _⟩ | ⟨e, heq, _⟩ | ⟨q, heq, _⟩ <;> cases heq
  · rcases h₁.attempt_inv with ⟨v, heq, _⟩ | ⟨e, heq, _⟩ | ⟨q', heq, h₃⟩
    · cases heq
    · cases heq
    · cases heq; exact hhang _ _ (h _ _ _ hP h₃)

/-! ### Derived rules for the primitive futures -/

theorem Triple.read {f : σ → α} {post : Outcome Q ε α → Moment σ Q R → Prop}
    {P₁ : α → Moment σ Q R → Prop} (stable : Stable E P) (stable₁ : ∀ value, Stable E (P₁ value))
    (h : ∀ m, P m → P₁ (f m.state) (m.own id))
    (hpost : ∀ value m, P₁ value m → post (.done value) m) :
    Triple E P (Future.read f) post :=
  .atomic stable fun m hP =>
    (Triple.done (stable₁ _) fun m' h' => hpost _ m' h').at (h m hP)

theorem Triple.modify {f : σ → σ} {post : Outcome Q ε Unit → Moment σ Q R → Prop}
    {P₁ : Moment σ Q R → Prop} (stable : Stable E P) (stable₁ : Stable E P₁)
    (h : ∀ m, P m → P₁ (m.own f)) (hpost : ∀ m, P₁ m → post (.done ()) m) :
    Triple E P (Future.modify f) post :=
  .atomic stable fun m hP =>
    (Triple.done stable₁ fun m' h' => hpost m' h').at (h m hP)

theorem Triple.section_ {f : σ → α × σ} {post : Outcome Q ε α → Moment σ Q R → Prop}
    {P₁ : α → Moment σ Q R → Prop} (stable : Stable E P) (stable₁ : ∀ value, Stable E (P₁ value))
    (h : ∀ m, P m → P₁ (f m.state).1 (m.own fun s => (f s).2))
    (hpost : ∀ value m, P₁ value m → post (.done value) m) :
    Triple E P (Future.section_ f) post :=
  .atomic stable fun m hP =>
    (Triple.done (stable₁ _) fun m' h' => hpost _ m' h').at (h m hP)

theorem Triple.ask {query : Q} {post : Outcome Q ε (R query) → Moment σ Q R → Prop}
    {P₁ : R query → Moment σ Q R → Prop} (stable : Stable E P)
    (stable₁ : ∀ answer, Stable E (P₁ answer))
    (hang : ∀ m, P m → post (.pending query) m)
    (h : ∀ m answer, P m → E.answers m query answer → P₁ answer (m.reply query answer))
    (hpost : ∀ answer m, P₁ answer m → post (.done answer) m) :
    Triple E P (Future.ask query) post :=
  .call stable hang fun m answer hP ha =>
    (Triple.done (stable₁ _) fun m' h' => hpost _ m' h').at (h m answer hP ha)

/-! ### Classes of critical sections -/

/-- Every critical section of the future is a step of `C`, whatever is read and
    whatever the environment replies. -/
def Future.Within (C : σ → σ → Prop) : Future σ Q R ε α → Prop
  | .done _ => True
  | .fail _ => True
  | .atomic update next => ∀ s, C s (update s) ∧ (next s).Within C
  | .call _ next => ∀ reply, (next reply).Within C

namespace Future

variable {C : σ → σ → Prop}

theorem Within.bind {p : Future σ Q R ε α} {next : α → Future σ Q R ε β}
    (h : p.Within C) (hnext : ∀ value, (next value).Within C) : (p >>= next).Within C := by
  induction p with
  | done value => exact hnext value
  | fail error => trivial
  | atomic update rest ih => exact fun s => ⟨(h s).1, ih s (h s).2⟩
  | call query rest ih => exact fun reply => ih reply (h reply)

theorem Within.attempt {p : Future σ Q R ε α} (h : p.Within C) :
    (p.attempt : Future σ Q R ε' (Except ε α)).Within C := by
  induction p with
  | done value => trivial
  | fail error => trivial
  | atomic update rest ih => exact fun s => ⟨(h s).1, ih s (h s).2⟩
  | call query rest ih => exact fun reply => ih reply (h reply)

theorem Within.mono {D : σ → σ → Prop} {p : Future σ Q R ε α} (h : p.Within C)
    (himp : ∀ s s', C s s' → D s s') : p.Within D := by
  induction p with
  | done value => trivial
  | fail error => trivial
  | atomic update rest ih => exact fun s => ⟨himp _ _ (h s).1, ih s (h s).2⟩
  | call query rest ih => exact fun reply => ih reply (h reply)

theorem Within.pure {value : α} : (Pure.pure value : Future σ Q R ε α).Within C := trivial

theorem Within.read {f : σ → α} (h : ∀ s, C s s) :
    (Future.read f : Future σ Q R ε α).Within C := fun s => ⟨h s, trivial⟩

theorem Within.modify {f : σ → σ} (h : ∀ s, C s (f s)) :
    (Future.modify f : Future σ Q R ε Unit).Within C := fun s => ⟨h s, trivial⟩

theorem Within.section_ {f : σ → α × σ} (h : ∀ s, C s (f s).2) :
    (Future.section_ f : Future σ Q R ε α).Within C := fun s => ⟨h s, trivial⟩

theorem Within.ask {query : Q} : (Future.ask query : Future σ Q R ε (R query)).Within C :=
  fun _ => trivial

theorem Within.ofExcept {result : Except ε α} :
    (Future.ofExcept result : Future σ Q R ε α).Within C := by
  cases result <;> trivial

end Future

/-- The environment, and every critical section in `C`, preserve `P`. -/
structure Invariant (E : Environment σ Q R) (C : σ → σ → Prop)
    (P : Moment σ Q R → Prop) : Prop where
  interfere : ∀ m s, P m → E.interferes m s → P (m.interfere s)
  own : ∀ m update, P m → C m.state (update m.state) → P (m.own update)
  reply : ∀ m query answer, P m → E.answers m query answer → P (m.reply query answer)

/-- `p` keeps `P`, however it ends. -/
def Keeps (E : Environment σ Q R) (P : Moment σ Q R → Prop) (p : Future σ Q R ε α) : Prop :=
  Triple E P p (Post (fun _ => P) (fun _ => P) (fun _ => P))

/-- **The class rule.**  An invariant of the class of a future's critical sections
    is kept by the future. -/
theorem Future.Within.keeps {C : σ → σ → Prop} {p : Future σ Q R ε α} (h : p.Within C)
    (hinv : Invariant E C P) : Keeps E P p := by
  intro m o m' hP hrun
  induction hrun with
  | done => exact hP
  | fail => exact hP
  | pending => exact hP
  | interfere hi _ ih => exact ih h (hinv.interfere _ _ hP hi)
  | @atomic update next m o m' hrest ih =>
    exact ih (h m.state).2 (hinv.own _ _ hP (h m.state).1)
  | call ha _ ih => exact ih (h _) (hinv.reply _ _ _ hP ha)

theorem Keeps.bind {p : Future σ Q R ε α} {next : α → Future σ Q R ε β}
    (h : Keeps E P p) (hnext : ∀ value, Keeps E P (next value)) : Keeps E P (p >>= next) :=
  Triple.bind h hnext

/-! ### Computing a run -/

/-- A scheduler with a memory `τ`: what others do to the state before a query is
    answered, and the answer, if one comes. -/
structure Scheduler (τ σ Q : Type) (R : Q → Type) where
  others : τ → (query : Q) → List (σ → σ)
  answer : τ → (query : Q) → Option (R query × τ)

def Moment.interfereAll (m : Moment σ Q R) : List (σ → σ) → Moment σ Q R
  | [] => m
  | f :: rest => (m.interfere (f m.state)).interfereAll rest

/-- Poll a future under a scheduler. -/
def Future.exec {τ : Type} (S : Scheduler τ σ Q R) :
    τ → Future σ Q R ε α → Moment σ Q R → Outcome Q ε α × Moment σ Q R
  | _, .done value, m => (.done value, m)
  | _, .fail error, m => (.failed error, m)
  | t, .atomic update next, m => (next m.state).exec S t (m.own update)
  | t, .call query next, m =>
    let m := m.interfereAll (S.others t query)
    match S.answer t query with
    | none => (.pending query, m)
    | some (answer, t) => (next answer).exec S t (m.reply query answer)

/-- What a scheduler may do is admitted by `E`. -/
structure Scheduler.Admitted {τ : Type} (S : Scheduler τ σ Q R) (E : Environment σ Q R) :
    Prop where
  others : ∀ t query, ∀ f ∈ S.others t query, ∀ m : Moment σ Q R, E.interferes m (f m.state)
  answer : ∀ t query answer t', S.answer t query = some (answer, t') →
    ∀ m : Moment σ Q R, E.answers m query answer

theorem Run.interfereAll {p : Future σ Q R ε α} {o : Outcome Q ε α} {m' : Moment σ Q R}
    {fs : List (σ → σ)} {m : Moment σ Q R}
    (h : ∀ f ∈ fs, ∀ m : Moment σ Q R, E.interferes m (f m.state))
    (hrun : Run E p (m.interfereAll fs) o m') : Run E p m o m' := by
  induction fs generalizing m with
  | nil => exact hrun
  | cons f rest ih =>
    exact .interfere (h f (by simp) m) (ih (fun g hg => h g (by simp [hg])) hrun)

/-- What polling under an admitted scheduler computes is a run. -/
theorem Future.exec_run {τ : Type} {S : Scheduler τ σ Q R} (hS : S.Admitted E)
    (p : Future σ Q R ε α) (t : τ) (m : Moment σ Q R) :
    Run E p m (p.exec S t m).1 (p.exec S t m).2 := by
  induction p generalizing t m with
  | done value => exact .done
  | fail error => exact .fail
  | atomic update next ih => exact .atomic (ih _ _ _)
  | call query next ih =>
    refine Run.interfereAll (hS.others t query) ?_
    simp only [Future.exec]
    rcases h : S.answer t query with _ | ⟨answer, t'⟩
    · exact .pending
    · exact .call (hS.answer t query answer t' h _) (ih _ _ _)

end Tea.Async
