/-
  Tea/Async/Execution.lean
  ========================
  **Executions of a labelled transition system**, with every transition kept.  An
  invariant may need a condition on the transitions; it then holds in every state of
  an execution whose transitions all meet the condition (`Execution.invariant`), and
  each of them starts from a state where it holds (`Execution.always`).
-/

namespace Tea.Async

/-- One step of a system, with its label. -/
structure Transition (σ L : Type) where
  before : σ
  label : L
  after : σ

variable {σ L : Type}

/-- The executions of the system with the steps `next`, from `start`; the transitions
    are in the order in which they were made. -/
inductive Execution (next : σ → L → σ → Prop) (start : σ) : List (Transition σ L) → σ → Prop
  | start : Execution next start [] start
  | step {past : List (Transition σ L)} {s s' : σ} {label : L}
      (run : Execution next start past s) (made : next s label s') :
      Execution next start (past ++ [⟨s, label, s'⟩]) s'

variable {next : σ → L → σ → Prop} {start s : σ} {past : List (Transition σ L)}

/-- What holds at the start and is kept by the transitions that meet a condition holds
    at the end of an execution whose transitions all meet it. -/
theorem Execution.invariant {I : σ → Prop} {admitted : Transition σ L → Prop}
    (hrun : Execution next start past s) (hstart : I start)
    (hstep : ∀ s label s', next s label s' → admitted ⟨s, label, s'⟩ → I s → I s')
    (hpast : ∀ t ∈ past, admitted t) : I s := by
  induction hrun with
  | start => exact hstart
  | step run made ih =>
    apply hstep _ _ _ made
    · apply hpast
      simp
    · apply ih
      intro t ht
      apply hpast
      simp [ht]

/-- Every transition of such an execution is a step from a state with the invariant. -/
theorem Execution.always {I : σ → Prop} {admitted : Transition σ L → Prop}
    (hrun : Execution next start past s) (hstart : I start)
    (hstep : ∀ s label s', next s label s' → admitted ⟨s, label, s'⟩ → I s → I s')
    (hpast : ∀ t ∈ past, admitted t) :
    ∀ t ∈ past, I t.before ∧ next t.before t.label t.after := by
  induction hrun with
  | start =>
    intro t ht
    cases ht
  | @step past s s' label run made ih =>
    have hbefore : ∀ t ∈ past, admitted t := fun t ht => hpast t (by simp [ht])
    intro t ht
    rcases List.mem_append.mp ht with hearlier | hlast
    · exact ih hbefore t hearlier
    · rw [List.mem_singleton] at hlast
      subst hlast
      exact ⟨run.invariant hstart hstep hbefore, made⟩

/-- The transitions of a computed step function along a list of labels. -/
def trail (step : σ → L → Option σ) : σ → List L → Option (List (Transition σ L) × σ)
  | s, [] => some ([], s)
  | s, label :: labels =>
      (step s label).bind fun s' =>
        (trail step s' labels).map fun rest => (⟨s, label, s'⟩ :: rest.1, rest.2)

/-- A trail is an execution. -/
theorem trail_execution {step : σ → L → Option σ} {labels : List L}
    {more : List (Transition σ L)} {s' : σ}
    (hrun : Execution (fun s label s' => step s label = some s') start past s)
    (htrail : trail step s labels = some (more, s')) :
    Execution (fun s label s' => step s label = some s') start (past ++ more) s' := by
  induction labels generalizing past s more with
  | nil =>
    cases htrail
    simpa using hrun
  | cons label labels ih =>
    simp only [trail, Option.bind_eq_some_iff, Option.map_eq_some_iff] at htrail
    obtain ⟨s₁, hstep, ⟨rest, s₂⟩, hrest, heq⟩ := htrail
    cases heq
    have hmore := ih (hrun.step hstep) hrest
    simpa using hmore

/-- The execution along labels that are all enabled. -/
theorem trail_get {step : σ → L → Option σ} {labels : List L}
    (h : (trail step start labels).isSome = true) :
    Execution (fun s label s' => step s label = some s') start
      ((trail step start labels).get h).1 ((trail step start labels).get h).2 :=
  trail_execution .start (Option.some_get h).symm

end Tea.Async
