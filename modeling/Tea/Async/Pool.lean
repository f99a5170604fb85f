/-
  Tea/Async/Pool.lean
  ===================
  **Several futures polled on one state.**

  `Pool E joins p others m o m'` is a run of the *owner* `p` beside the futures
  `others`: critical sections and replies of all of them interleave in any order,
  and more futures may join where `joins` admits them.  To the owner a step of
  another future is interference.

  A future `Rejects T` if it fails without an effect from any state of `T`.  Where
  only such futures join, and `T` lasts, an invariant of the owner's machine holds
  of the pool as it does of the owner alone (`Follows.pool`).
-/
import Tea.Async.Machine

namespace Tea.Async

variable {S σ Q : Type} {R : Q → Type} {ε α β : Type}

inductive Pool (E : Environment σ Q R) (joins : Moment σ Q R → Future σ Q R ε β → Prop) :
    Future σ Q R ε α → List (Future σ Q R ε β) → Moment σ Q R → Outcome Q ε α →
      Moment σ Q R → Prop where
  | done {value others m} : Pool E joins (.done value) others m (.done value) m
  | fail {error others m} : Pool E joins (.fail error) others m (.failed error) m
  | pending {query next others m} : Pool E joins (.call query next) others m (.pending query) m
  | interfere {p others m s o m'} (h : E.interferes m s)
      (rest : Pool E joins p others (m.interfere s) o m') : Pool E joins p others m o m'
  | atomic {update next others m o m'}
      (rest : Pool E joins (next m.state) others (m.own update) o m') :
      Pool E joins (.atomic update next) others m o m'
  | call {query next others m answer o m'} (h : E.answers m query answer)
      (rest : Pool E joins (next answer) others (m.reply query answer) o m') :
      Pool E joins (.call query next) others m o m'
  | join {p q others m o m'} (h : joins m q) (rest : Pool E joins p (q :: others) m o m') :
      Pool E joins p others m o m'
  | otherAtomic {p update next before after m o m'}
      (rest : Pool E joins p (before ++ next m.state :: after) (m.interfere (update m.state)) o m') :
      Pool E joins p (before ++ .atomic update next :: after) m o m'
  | otherCall {p query next before after m answer o m'} (h : E.answers m query answer)
      (rest : Pool E joins p (before ++ next answer :: after) m o m') :
      Pool E joins p (before ++ .call query next :: after) m o m'

variable {E : Environment σ Q R} {joins : Moment σ Q R → Future σ Q R ε β → Prop}

/-- The owner may be alone. -/
theorem Run.pool {p : Future σ Q R ε α} {m : Moment σ Q R} {o : Outcome Q ε α}
    {m' : Moment σ Q R} (h : Run E p m o m') : Pool E joins p [] m o m' := by
  induction h with
  | done => exact .done
  | fail => exact .fail
  | pending => exact .pending
  | interfere h _ ih => exact .interfere h ih
  | atomic _ ih => exact .atomic ih
  | call h _ ih => exact .call h ih

/-! ### Futures without an effect -/

/-- In the states of `T` the future changes nothing, awaits nothing and fails. -/
def Future.Rejects (T : σ → Prop) : Future σ Q R ε α → Prop
  | .done _ => False
  | .fail _ => True
  | .atomic update next => ∀ s, T s → update s = s ∧ (next s).Rejects T
  | .call _ _ => False

/-- A rejected future fails, and none of its critical sections changes the state. -/
theorem Future.Rejects.run {T : σ → Prop} (hT : ∀ m s, T m.state → E.interferes m s → T s)
    {p : Future σ Q R ε α} {m : Moment σ Q R} {o : Outcome Q ε α} {m' : Moment σ Q R}
    (h : p.Rejects T) (hm : T m.state) (hrun : Run E p m o m') :
    (∃ error, o = .failed error) ∧ ∀ before after, .own before after ∈ m'.past →
      .own before after ∈ m.past ∨ after = before := by
  induction hrun with
  | done => exact h.elim
  | fail => exact ⟨⟨_, rfl⟩, fun _ _ hmem => .inl hmem⟩
  | pending => exact h.elim
  | @interfere p m s o m' hi _ ih =>
    obtain ⟨hfailed, hpast⟩ := ih h (hT _ _ hm hi)
    refine ⟨hfailed, fun before after hmem => (hpast before after hmem).imp_left fun hmem => ?_⟩
    rcases hmem with _ | ⟨_, hmem⟩
    exact hmem
  | @atomic update next m o m' _ ih =>
    obtain ⟨heq, hnext⟩ := h m.state hm
    obtain ⟨hfailed, hpast⟩ := ih hnext (by rw [Moment.own_state, heq]; exact hm)
    refine ⟨hfailed, fun before after hmem => ?_⟩
    rcases hpast before after hmem with (_ | ⟨_, hmem⟩) | hsame
    · exact .inr heq
    · exact .inl hmem
    · exact .inr hsame
  | call => exact h.elim

/-- An invariant of the owner's machine survives the futures that join late, in the
    states of `T`, and reject. -/
theorem Future.Follows.pool {M : Machine S σ Q R} {I : S → Moment σ Q R → Prop}
    (hinv : M.Invariant E I) {T : σ → Prop}
    (stutter : ∀ s m, I s m → I s (m.interfere m.state))
    (interfere : ∀ s m w, I s m → T m.state → E.interferes m w → T w)
    (own : ∀ s m (update : σ → σ) s', I s m → T m.state → M.own s m.state (update m.state) s' →
      T (update m.state))
    (late : ∀ s m (q : Future σ Q R ε β), I s m → joins m q → T m.state ∧ q.Rejects T)
    {ok : α → S → Prop} {err : ε → S → Prop} {p : Future σ Q R ε α} {s : S}
    {others : List (Future σ Q R ε β)} {m : Moment σ Q R} {o : Outcome Q ε α} {m' : Moment σ Q R}
    (h : p.Follows M ok err s) (hI : I s m) (hothers : ∀ q ∈ others, T m.state ∧ q.Rejects T)
    (hrun : Pool E joins p others m o m') : Reached M ok err I m' o := by
  induction hrun generalizing s with
  | done => exact ⟨s, h, hI⟩
  | fail => exact ⟨s, h, hI⟩
  | pending => exact ⟨s, h.1, hI⟩
  | interfere hi _ ih =>
    refine ih h (hinv.interfere _ _ _ hI hi) fun q hq => ?_
    exact ⟨interfere _ _ _ hI (hothers q hq).1 hi, (hothers q hq).2⟩
  | @atomic update next others m o m' _ ih =>
    obtain ⟨s', hown, hnext⟩ := h m.state (hinv.consistent _ _ hI)
    refine ih hnext (hinv.own _ _ _ _ hI hown) fun q hq => ?_
    exact ⟨own _ _ _ _ hI (hothers q hq).1 hown, (hothers q hq).2⟩
  | @call query next others m answer o m' ha _ ih =>
    obtain ⟨s', hreply, hnext⟩ := h.2 answer
    exact ih hnext (hinv.reply _ _ _ _ _ hI ha hreply) hothers
  | @join p q others m o m' hq _ ih =>
    refine ih h hI fun q' hq' => ?_
    rcases List.mem_cons.mp hq' with rfl | hq'
    · exact late _ _ _ hI hq
    · exact hothers q' hq'
  | @otherAtomic p update next before after m o m' _ ih =>
    obtain ⟨hT, hrejects⟩ := hothers (.atomic update next) (by simp)
    obtain ⟨heq, hnext⟩ := hrejects m.state hT
    rw [heq] at ih
    refine ih h (stutter _ _ hI) fun q hq => ⟨hT, ?_⟩
    rcases List.mem_append.mp hq with hq | hq
    · exact (hothers q (List.mem_append_left _ hq)).2
    rcases List.mem_cons.mp hq with rfl | hq
    · exact hnext
    · exact (hothers q (List.mem_append_right _ (List.mem_cons_of_mem _ hq))).2
  | @otherCall p query next before after m answer o m' _ _ ih =>
    exact (hothers (.call query next) (by simp)).2.elim

end Tea.Async
