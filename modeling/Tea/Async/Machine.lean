/-
  Tea/Async/Machine.lean
  ======================
  **Futures that follow an abstract machine.**

  A machine has control states of its own and says which critical sections and
  which replies may happen in each of them, and where they lead.  `p.Follows M ok
  err s` is the refinement of a future by a machine: from the control state `s`
  every critical section of `p` is a step of the machine, whatever state it finds
  that is consistent with the control state, and so is every reply.

  The traversal of a program is thereby done once (`Follows`), and each property
  of its runs is an invariant of the machine (`Machine.Invariant`): an assertion
  on control states and moments that the steps of the machine, the interference
  and the replies preserve.  `Follows.run` puts the two together.
-/
import Tea.Async.Future

namespace Tea.Async

variable {S σ Q : Type} {R : Q → Type} {ε ε' α β : Type}

structure Machine (S σ Q : Type) (R : Q → Type) where
  /-- What the shared state looks like in a control state. -/
  consistent : S → σ → Prop
  own : S → σ → σ → S → Prop
  /-- The control states in which a reply is awaited. -/
  awaits : S → Prop
  reply : S → (query : Q) → R query → S → Prop

/-- Every step of the future is a step of the machine; it ends with a value in a
    control state admitted by `ok`, or with an error in one admitted by `err`. -/
def Future.Follows (M : Machine S σ Q R) (ok : α → S → Prop) (err : ε → S → Prop) :
    Future σ Q R ε α → S → Prop
  | .done value, s => ok value s
  | .fail error, s => err error s
  | .atomic update next, s => ∀ w, M.consistent s w →
      ∃ s', M.own s w (update w) s' ∧ (next w).Follows M ok err s'
  | .call query next, s => M.awaits s ∧ ∀ answer,
      ∃ s', M.reply s query answer s' ∧ (next answer).Follows M ok err s'

namespace Future

variable {M : Machine S σ Q R} {ok : α → S → Prop} {err : ε → S → Prop} {s : S}

theorem Follows.done {value : α} (h : ok value s) :
    (Future.done value : Future σ Q R ε α).Follows M ok err s := h

theorem Follows.fail {error : ε} (h : err error s) :
    (Future.fail error : Future σ Q R ε α).Follows M ok err s := h

theorem Follows.pure {value : α} (h : ok value s) :
    (Pure.pure value : Future σ Q R ε α).Follows M ok err s := h

theorem Follows.weaken {ok' : α → S → Prop} {err' : ε → S → Prop} {p : Future σ Q R ε α}
    (h : p.Follows M ok err s) (hok : ∀ value s, ok value s → ok' value s)
    (herr : ∀ error s, err error s → err' error s) : p.Follows M ok' err' s := by
  induction p generalizing s with
  | done value => exact hok _ _ h
  | fail error => exact herr _ _ h
  | atomic update next ih =>
    intro w hw
    obtain ⟨s', hown, hnext⟩ := h w hw
    exact ⟨s', hown, ih w hnext⟩
  | call query next ih =>
    refine ⟨h.1, fun answer => ?_⟩
    obtain ⟨s', hreply, hnext⟩ := h.2 answer
    exact ⟨s', hreply, ih answer hnext⟩

/-- `mid` says where the first future leaves the machine. -/
theorem Follows.bind {ok : β → S → Prop} {p : Future σ Q R ε α} {next : α → Future σ Q R ε β}
    (mid : α → S → Prop) (h : p.Follows M mid err s)
    (hnext : ∀ value s, mid value s → (next value).Follows M ok err s) :
    (p >>= next).Follows M ok err s := by
  induction p generalizing s with
  | done value => exact hnext _ _ h
  | fail error => exact h
  | atomic update rest ih =>
    intro w hw
    obtain ⟨s', hown, hrest⟩ := h w hw
    exact ⟨s', hown, ih w hrest⟩
  | call query rest ih =>
    refine ⟨h.1, fun answer => ?_⟩
    obtain ⟨s', hreply, hrest⟩ := h.2 answer
    exact ⟨s', hreply, ih answer hrest⟩

/-- The assertion on a result that is an error or a value. -/
def either (ok : α → S → Prop) (err : ε → S → Prop) : Except ε α → S → Prop
  | .ok value => ok value
  | .error error => err error

theorem Follows.attempt {err' : ε' → S → Prop} {p : Future σ Q R ε α}
    (h : p.Follows M ok err s) :
    (p.attempt : Future σ Q R ε' (Except ε α)).Follows M (either ok err) err' s := by
  induction p generalizing s with
  | done value => exact h
  | fail error => exact h
  | atomic update rest ih =>
    intro w hw
    obtain ⟨s', hown, hrest⟩ := h w hw
    exact ⟨s', hown, ih w hrest⟩
  | call query rest ih =>
    refine ⟨h.1, fun answer => ?_⟩
    obtain ⟨s', hreply, hrest⟩ := h.2 answer
    exact ⟨s', hreply, ih answer hrest⟩

theorem Follows.section_ {f : σ → α × σ}
    (h : ∀ w, M.consistent s w → ∃ s', M.own s w (f w).2 s' ∧ ok (f w).1 s') :
    (Future.section_ f : Future σ Q R ε α).Follows M ok err s := h

theorem Follows.read {f : σ → α}
    (h : ∀ w, M.consistent s w → ∃ s', M.own s w w s' ∧ ok (f w) s') :
    (Future.read f : Future σ Q R ε α).Follows M ok err s := h

theorem Follows.modify {f : σ → σ} {ok : Unit → S → Prop}
    (h : ∀ w, M.consistent s w → ∃ s', M.own s w (f w) s' ∧ ok () s') :
    (Future.modify f : Future σ Q R ε Unit).Follows M ok err s := h

theorem Follows.ask {query : Q} {ok : R query → S → Prop} (hawaits : M.awaits s)
    (h : ∀ answer, ∃ s', M.reply s query answer s' ∧ ok answer s') :
    (Future.ask query : Future σ Q R ε (R query)).Follows M ok err s := ⟨hawaits, h⟩

end Future

/-- The assertion `I` holds of a control state and a moment and is preserved by
    the machine, by the interference and by the replies of the environment. -/
structure Machine.Invariant (M : Machine S σ Q R) (E : Environment σ Q R)
    (I : S → Moment σ Q R → Prop) : Prop where
  consistent : ∀ s m, I s m → M.consistent s m.state
  interfere : ∀ s m w, I s m → E.interferes m w → I s (m.interfere w)
  own : ∀ s m update s', I s m → M.own s m.state (update m.state) s' → I s' (m.own update)
  reply : ∀ s m query answer s', I s m → E.answers m query answer →
    M.reply s query answer s' → I s' (m.reply query answer)

/-- What an assertion `I` says of the end of a run that started in it. -/
def Reached (M : Machine S σ Q R) (ok : α → S → Prop) (err : ε → S → Prop) (I : S → Moment σ Q R → Prop)
    (m : Moment σ Q R) : Outcome Q ε α → Prop
  | .done value => ∃ s, ok value s ∧ I s m
  | .failed error => ∃ s, err error s ∧ I s m
  | .pending _ => ∃ s, M.awaits s ∧ I s m

/-- **Refinement.**  An invariant of the machine is an invariant of every run of a
    future that follows the machine, wherever the run ends. -/
theorem Future.Follows.run {M : Machine S σ Q R} {E : Environment σ Q R}
    {I : S → Moment σ Q R → Prop} (hinv : M.Invariant E I) {ok : α → S → Prop}
    {err : ε → S → Prop} {p : Future σ Q R ε α} {s : S} {m : Moment σ Q R}
    {o : Outcome Q ε α} {m' : Moment σ Q R} (h : p.Follows M ok err s) (hI : I s m)
    (hrun : Run E p m o m') : Reached M ok err I m' o := by
  induction hrun generalizing s with
  | done => exact ⟨s, h, hI⟩
  | fail => exact ⟨s, h, hI⟩
  | pending => exact ⟨s, h.1, hI⟩
  | interfere hi _ ih => exact ih h (hinv.interfere _ _ _ hI hi)
  | @atomic update next m o m' _ ih =>
    obtain ⟨s', hown, hnext⟩ := h m.state (hinv.consistent _ _ hI)
    exact ih hnext (hinv.own _ _ _ _ hI hown)
  | @call query next m answer o m' ha _ ih =>
    obtain ⟨s', hreply, hnext⟩ := h.2 answer
    exact ih hnext (hinv.reply _ _ _ _ _ hI ha hreply)

/-- Two invariants of one machine hold together. -/
theorem Machine.Invariant.and {M : Machine S σ Q R} {E : Environment σ Q R}
    {I J : S → Moment σ Q R → Prop} (hI : M.Invariant E I)
    (interfere : ∀ s m w, I s m → J s m → E.interferes m w → J s (m.interfere w))
    (own : ∀ s m update s', I s m → J s m → M.own s m.state (update m.state) s' →
      J s' (m.own update))
    (reply : ∀ s m query answer s', I s m → J s m → E.answers m query answer →
      M.reply s query answer s' → J s' (m.reply query answer)) :
    M.Invariant E fun s m => I s m ∧ J s m where
  consistent s m h := hI.consistent s m h.1
  interfere s m w h hi := ⟨hI.interfere s m w h.1 hi, interfere s m w h.1 h.2 hi⟩
  own s m update s' h hown := ⟨hI.own s m update s' h.1 hown, own s m update s' h.1 h.2 hown⟩
  reply s m query answer s' h ha hr :=
    ⟨hI.reply s m query answer s' h.1 ha hr, reply s m query answer s' h.1 h.2 ha hr⟩

end Tea.Async
