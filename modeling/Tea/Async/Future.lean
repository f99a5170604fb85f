/-
  Tea/Async/Future.lean
  =====================
  **Caller-polled futures under interference.**

  A future alternates *critical sections* on a shared state with *calls* into its
  environment (a provider, a hook, an observer, a tool).  The environment answers
  a call with any value of the reply type of that query, may leave it unanswered
  for ever, and may change the shared state on its own between any two steps of
  the future: other clients hold clones of the same handles.

  A run is a relation between two *moments*.  A moment is the shared state
  together with the history of the steps that led to it, so that an environment
  may depend on everything that has happened, and a property of whole runs
  ("after the cancellation no message leaves the queue") is a property of the
  last moment.
-/

namespace Tea.Async

/-- A future over a shared state `σ` that asks its environment queries `Q`,
    each with its own type of replies, and ends with a value or an error. -/
inductive Future (σ Q : Type) (R : Q → Type) (ε α : Type) : Type where
  | done (value : α)
  | fail (error : ε)
  /-- A critical section: the update is made, and the future goes on with what
      it read from the state it locked. -/
  | atomic (update : σ → σ) (next : σ → Future σ Q R ε α)
  /-- A call into the environment, awaited. -/
  | call (query : Q) (next : R query → Future σ Q R ε α)

variable {σ Q : Type} {R : Q → Type} {ε ε' α β γ : Type}

namespace Future

def bind : Future σ Q R ε α → (α → Future σ Q R ε β) → Future σ Q R ε β
  | .done value, next => next value
  | .fail error, _ => .fail error
  | .atomic update rest, next => .atomic update fun s => (rest s).bind next
  | .call query rest, next => .call query fun reply => (rest reply).bind next

instance : Monad (Future σ Q R ε) where
  pure := .done
  bind := .bind

/-- Read a value of the shared state. -/
def read (f : σ → α) : Future σ Q R ε α := .atomic id fun s => .done (f s)

/-- Change the shared state. -/
def modify (f : σ → σ) : Future σ Q R ε Unit := .atomic f fun _ => .done ()

/-- One critical section that both returns a value and changes the state. -/
def section_ (f : σ → α × σ) : Future σ Q R ε α :=
  .atomic (fun s => (f s).2) fun s => .done (f s).1

/-- Ask the environment and return its reply. -/
def ask (query : Q) : Future σ Q R ε (R query) := .call query .done

/-- Return the error of a future as a value (`match future.await`). -/
def attempt : Future σ Q R ε α → Future σ Q R ε' (Except ε α)
  | .done value => .done (.ok value)
  | .fail error => .done (.error error)
  | .atomic update rest => .atomic update fun s => (rest s).attempt
  | .call query rest => .call query fun reply => (rest reply).attempt

/-- Pass the error of a returned result on (the `?` operator). -/
def ofExcept : Except ε α → Future σ Q R ε α
  | .ok value => .done value
  | .error error => .fail error

@[simp] theorem pure_eq (value : α) : (pure value : Future σ Q R ε α) = .done value := rfl

@[simp] theorem done_bind (value : α) (next : α → Future σ Q R ε β) :
    (Future.done value >>= next) = next value := rfl

@[simp] theorem fail_bind (error : ε) (next : α → Future σ Q R ε β) :
    ((Future.fail error : Future σ Q R ε α) >>= next) = .fail error := rfl

@[simp] theorem atomic_bind (update : σ → σ) (rest : σ → Future σ Q R ε α)
    (next : α → Future σ Q R ε β) :
    (Future.atomic update rest >>= next) = .atomic update fun s => rest s >>= next := rfl

@[simp] theorem call_bind (query : Q) (rest : R query → Future σ Q R ε α)
    (next : α → Future σ Q R ε β) :
    (Future.call query rest >>= next) = .call query fun reply => rest reply >>= next := rfl

end Future

/-! ### Moments and environments -/

/-- One step of a run: a change made by somebody else, a critical section of the
    future itself, or a reply of the environment. -/
inductive Step (σ Q : Type) (R : Q → Type) where
  | interference (before after : σ)
  | own (before after : σ)
  | reply (query : Q) (answer : R query)

/-- The shared state and the steps that led to it, latest first. -/
structure Moment (σ Q : Type) (R : Q → Type) where
  past : List (Step σ Q R)
  state : σ

namespace Moment

def interfere (m : Moment σ Q R) (after : σ) : Moment σ Q R :=
  ⟨.interference m.state after :: m.past, after⟩

def own (m : Moment σ Q R) (update : σ → σ) : Moment σ Q R :=
  ⟨.own m.state (update m.state) :: m.past, update m.state⟩

def reply (m : Moment σ Q R) (query : Q) (answer : R query) : Moment σ Q R :=
  ⟨.reply query answer :: m.past, m.state⟩

@[simp] theorem interfere_state (m : Moment σ Q R) (after : σ) :
    (m.interfere after).state = after := rfl

@[simp] theorem own_state (m : Moment σ Q R) (update : σ → σ) :
    (m.own update).state = update m.state := rfl

@[simp] theorem reply_state (m : Moment σ Q R) (query : Q) (answer : R query) :
    (m.reply query answer).state = m.state := rfl

end Moment

/-- What surrounds a future: the changes that others make to the shared state,
    and the replies that queries may get.  Both may depend on the whole past. -/
structure Environment (σ Q : Type) (R : Q → Type) where
  interferes : Moment σ Q R → σ → Prop
  answers : Moment σ Q R → (query : Q) → R query → Prop

/-- How polling a future ended: with a value, with an error, or with the future
    left waiting at a query (where its owner may drop it). -/
inductive Outcome (Q ε α : Type) where
  | done (value : α)
  | failed (error : ε)
  | pending (query : Q)
deriving DecidableEq

/-- The future was polled to its end. -/
def Outcome.completed : Outcome Q ε α → Bool
  | .pending _ => false
  | _ => true

/-- `Run E p m o m'`: polling `p` from the moment `m` can end with `o` at `m'`. -/
inductive Run (E : Environment σ Q R) :
    Future σ Q R ε α → Moment σ Q R → Outcome Q ε α → Moment σ Q R → Prop where
  | done {value m} : Run E (.done value) m (.done value) m
  | fail {error m} : Run E (.fail error) m (.failed error) m
  | pending {query next m} : Run E (.call query next) m (.pending query) m
  | interfere {p m s o m'} (h : E.interferes m s) (rest : Run E p (m.interfere s) o m') :
      Run E p m o m'
  | atomic {update next m o m'} (rest : Run E (next m.state) (m.own update) o m') :
      Run E (.atomic update next) m o m'
  | call {query next m answer o m'} (h : E.answers m query answer)
      (rest : Run E (next answer) (m.reply query answer) o m') :
      Run E (.call query next) m o m'

/-- A run in a narrower environment is a run in a wider one. -/
theorem Run.mono {E F : Environment σ Q R}
    (hi : ∀ m s, E.interferes m s → F.interferes m s)
    (ha : ∀ m q r, E.answers m q r → F.answers m q r)
    {p : Future σ Q R ε α} {m : Moment σ Q R} {o : Outcome Q ε α} {m' : Moment σ Q R}
    (h : Run E p m o m') : Run F p m o m' := by
  induction h with
  | done => exact .done
  | fail => exact .fail
  | pending => exact .pending
  | interfere h _ ih => exact .interfere (hi _ _ h) ih
  | atomic _ ih => exact .atomic ih
  | call h _ ih => exact .call (ha _ _ _ h) ih

/-- The past is only ever extended. -/
theorem Run.past_suffix {E : Environment σ Q R} {p : Future σ Q R ε α} {m : Moment σ Q R}
    {o : Outcome Q ε α} {m' : Moment σ Q R} (h : Run E p m o m') : m.past <:+ m'.past := by
  induction h with
  | done => exact List.suffix_rfl
  | fail => exact List.suffix_rfl
  | pending => exact List.suffix_rfl
  | interfere _ _ ih => exact (List.suffix_cons _ _).trans ih
  | atomic _ ih => exact (List.suffix_cons _ _).trans ih
  | call _ _ ih => exact (List.suffix_cons _ _).trans ih

/-- Every future has a run: it may be left waiting at its first query. -/
theorem Run.exists {E : Environment σ Q R} (p : Future σ Q R ε α) (m : Moment σ Q R) :
    ∃ o m', Run E p m o m' := by
  induction p generalizing m with
  | done value => exact ⟨_, _, .done⟩
  | fail error => exact ⟨_, _, .fail⟩
  | atomic update next ih =>
    obtain ⟨o, m', hrest⟩ := ih m.state (m.own update)
    exact ⟨o, m', .atomic hrest⟩
  | call query next => exact ⟨_, _, .pending⟩

/-- The environment in which every query may get any reply. -/
def Environment.answering (E : Environment σ Q R) : Environment σ Q R where
  interferes := E.interferes
  answers _ _ _ := True

/-- A run that was left waiting goes on with any reply. -/
theorem Run.answered {E : Environment σ Q R} {p : Future σ Q R ε α} {m m' : Moment σ Q R}
    {query : Q} (h : Run E p m (.pending query) m') (answer : R query) :
    ∃ o m'', Run E.answering p m o m'' ∧ (.reply query answer :: m'.past) <:+ m''.past := by
  generalize ho : (Outcome.pending query : Outcome Q ε α) = o at h
  induction h with
  | done => cases ho
  | fail => cases ho
  | @pending query next m =>
    cases ho
    obtain ⟨o, m'', hrest⟩ := Run.exists (next answer) (m.reply query answer)
    exact ⟨o, m'', .call trivial hrest, hrest.past_suffix⟩
  | interfere hi _ ih =>
    obtain ⟨o, m'', hrest, hpast⟩ := ih ho
    exact ⟨o, m'', .interfere hi hrest, hpast⟩
  | atomic _ ih =>
    obtain ⟨o, m'', hrest, hpast⟩ := ih ho
    exact ⟨o, m'', .atomic hrest, hpast⟩
  | call _ _ ih =>
    obtain ⟨o, m'', hrest, hpast⟩ := ih ho
    exact ⟨o, m'', .call trivial hrest, hpast⟩

/-- The environment whose replies lead to admitted pasts only. -/
def Environment.admitting (E : Environment σ Q R) (admitted : List (Step σ Q R) → Prop) :
    Environment σ Q R where
  interferes := E.interferes
  answers m query answer := E.answers m query answer ∧ admitted (.reply query answer :: m.past)

/-- A run all of whose pasts are admitted is one of the narrower environment. -/
theorem Run.admitting {E : Environment σ Q R} {admitted : List (Step σ Q R) → Prop}
    {p : Future σ Q R ε α} {m : Moment σ Q R} {o : Outcome Q ε α} {m' : Moment σ Q R}
    (h : Run E p m o m') (hadmitted : ∀ past, past <:+ m'.past → admitted past) :
    Run (E.admitting admitted) p m o m' := by
  induction h with
  | done => exact .done
  | fail => exact .fail
  | pending => exact .pending
  | interfere h _ ih => exact .interfere h (ih hadmitted)
  | atomic _ ih => exact .atomic (ih hadmitted)
  | call h hrest ih => exact .call ⟨h, hadmitted _ hrest.past_suffix⟩ (ih hadmitted)

/-- A run of `p >>= next` is a run of `p`, followed by one of `next` where `p`
    ended with a value. -/
theorem Run.bind_inv {E : Environment σ Q R} {p : Future σ Q R ε α}
    {next : α → Future σ Q R ε β} {m : Moment σ Q R} {o : Outcome Q ε β} {m' : Moment σ Q R}
    (h : Run E (p >>= next) m o m') :
    (∃ value m₁, Run E p m (.done value) m₁ ∧ Run E (next value) m₁ o m') ∨
      (∃ error, o = .failed error ∧ Run E p m (.failed error) m') ∨
      (∃ query, o = .pending query ∧ Run E p m (.pending query) m') := by
  generalize hq : (p >>= next) = q at h
  induction h generalizing p with
  | @done value m =>
    cases p with
    | done a => exact .inl ⟨a, m, .done, by rw [← Future.done_bind a next, hq]; exact .done⟩
    | fail e => cases hq
    | atomic u k => cases hq
    | call q k => cases hq
  | @fail error m =>
    cases p with
    | done a => exact .inl ⟨a, m, .done, by rw [← Future.done_bind a next, hq]; exact .fail⟩
    | fail e => cases hq; exact .inr (.inl ⟨_, rfl, .fail⟩)
    | atomic u k => cases hq
    | call q k => cases hq
  | @pending query rest m =>
    cases p with
    | done a => exact .inl ⟨a, m, .done, by rw [← Future.done_bind a next, hq]; exact .pending⟩
    | fail e => cases hq
    | atomic u k => cases hq
    | call q k => cases hq; exact .inr (.inr ⟨_, rfl, .pending⟩)
  | interfere h _ ih =>
    rcases ih hq with ⟨a, m₁, h₁, h₂⟩ | ⟨e, rfl, h₁⟩ | ⟨q, rfl, h₁⟩
    · exact .inl ⟨a, m₁, .interfere h h₁, h₂⟩
    · exact .inr (.inl ⟨e, rfl, .interfere h h₁⟩)
    · exact .inr (.inr ⟨q, rfl, .interfere h h₁⟩)
  | @atomic update rest m o m' hrun ih =>
    cases p with
    | done a => exact .inl ⟨a, m, .done, by rw [← Future.done_bind a next, hq]; exact .atomic hrun⟩
    | fail e => cases hq
    | call q k => cases hq
    | atomic u k =>
      cases hq
      rcases ih rfl with ⟨a, m₁, h₁, h₂⟩ | ⟨e, rfl, h₁⟩ | ⟨q, rfl, h₁⟩
      · exact .inl ⟨a, m₁, .atomic h₁, h₂⟩
      · exact .inr (.inl ⟨e, rfl, .atomic h₁⟩)
      · exact .inr (.inr ⟨q, rfl, .atomic h₁⟩)
  | @call query rest m answer o m' h hrun ih =>
    cases p with
    | done a => exact .inl ⟨a, m, .done, by rw [← Future.done_bind a next, hq]; exact .call h hrun⟩
    | fail e => cases hq
    | atomic u k => cases hq
    | call q k =>
      cases hq
      rcases ih rfl with ⟨a, m₁, h₁, h₂⟩ | ⟨e, rfl, h₁⟩ | ⟨q, rfl, h₁⟩
      · exact .inl ⟨a, m₁, .call h h₁, h₂⟩
      · exact .inr (.inl ⟨e, rfl, .call h h₁⟩)
      · exact .inr (.inr ⟨q, rfl, .call h h₁⟩)

/-- A run of `p.attempt` is a run of `p` whose error, if any, became a value. -/
theorem Run.attempt_inv {E : Environment σ Q R} {p : Future σ Q R ε α} {m : Moment σ Q R}
    {o : Outcome Q ε' (Except ε α)} {m' : Moment σ Q R} (h : Run E p.attempt m o m') :
    (∃ value, o = .done (.ok value) ∧ Run E p m (.done value) m') ∨
      (∃ error, o = .done (.error error) ∧ Run E p m (.failed error) m') ∨
      (∃ query, o = .pending query ∧ Run E p m (.pending query) m') := by
  generalize hq : (p.attempt : Future σ Q R ε' (Except ε α)) = q at h
  induction h generalizing p with
  | done =>
    cases p with
    | done a => cases hq; exact .inl ⟨_, rfl, .done⟩
    | fail e => cases hq; exact .inr (.inl ⟨_, rfl, .fail⟩)
    | atomic u k => cases hq
    | call q k => cases hq
  | fail => cases p <;> cases hq
  | pending =>
    cases p with
    | done a => cases hq
    | fail e => cases hq
    | atomic u k => cases hq
    | call q k => cases hq; exact .inr (.inr ⟨_, rfl, .pending⟩)
  | interfere h _ ih =>
    rcases ih hq with ⟨a, rfl, h₁⟩ | ⟨e, rfl, h₁⟩ | ⟨q, rfl, h₁⟩
    · exact .inl ⟨a, rfl, .interfere h h₁⟩
    · exact .inr (.inl ⟨e, rfl, .interfere h h₁⟩)
    · exact .inr (.inr ⟨q, rfl, .interfere h h₁⟩)
  | atomic _ ih =>
    cases p with
    | done a => cases hq
    | fail e => cases hq
    | call q k => cases hq
    | atomic u k =>
      cases hq
      rcases ih rfl with ⟨a, rfl, h₁⟩ | ⟨e, rfl, h₁⟩ | ⟨q, rfl, h₁⟩
      · exact .inl ⟨a, rfl, .atomic h₁⟩
      · exact .inr (.inl ⟨e, rfl, .atomic h₁⟩)
      · exact .inr (.inr ⟨q, rfl, .atomic h₁⟩)
  | call h _ ih =>
    cases p with
    | done a => cases hq
    | fail e => cases hq
    | atomic u k => cases hq
    | call q k =>
      cases hq
      rcases ih rfl with ⟨a, rfl, h₁⟩ | ⟨e, rfl, h₁⟩ | ⟨q, rfl, h₁⟩
      · exact .inl ⟨a, rfl, .call h h₁⟩
      · exact .inr (.inl ⟨e, rfl, .call h h₁⟩)
      · exact .inr (.inr ⟨q, rfl, .call h h₁⟩)

end Tea.Async
