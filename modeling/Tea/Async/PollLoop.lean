/-
  Tea/Async/PollLoop.lean
  =======================
  **Loops inside of a poll**, as what they let happen.  A poll repeats an iteration until
  it is pending or ready; what the surroundings answer in an iteration is given to it, so
  that a list of answers stands for one behaviour of everything that is polled.

  If every iteration is a path of a transition system, so is every sequence of polls
  (`loop_path`, `drive_path`).
-/
import Mathlib.Data.List.Basic

namespace Tea.Async

variable {S A E R P : Type}

/-- How an iteration ends: with another one, or with what the poll returns. -/
inductive Flow (S R : Type) where
  | again (state : S)
  | pending (state : S)
  | ready (state : S) (result : R)

namespace Flow

/-- A poll is followed by others while it is pending. -/
def paused : Flow S R → Option S
  | .pending state => some state
  | _ => none

/-- A poll that has returned is followed by others. -/
def returned : Flow S R → Option S
  | .again _ => none
  | .pending state => some state
  | .ready state _ => some state

end Flow

/-- Events before those of an outcome. -/
def emit (events : List E) (out : List E × Flow S R) : List E × Flow S R :=
  (events ++ out.1, out.2)

/-- The loop, for as many iterations as there are answers. -/
def loop (iterate : S → A → List E × Flow S R) : S → List A → List E × Flow S R
  | state, [] => ([], .again state)
  | state, answers :: rest =>
    match iterate state answers with
    | (events, .again state) => emit events (loop iterate state rest)
    | out => out

/-- One poll after another: `next` says whether and from where there is another one. -/
def drive (poll : S → List A → List E × Flow S R) (next : Flow S R → Option S) :
    S → List (List A) → List E
  | _, [] => []
  | state, answers :: polls =>
    match next (poll state answers).2 with
    | some state' => (poll state answers).1 ++ drive poll next state' polls
    | none => (poll state answers).1

/-! ### Paths -/

/-- The events lead from one place to another. -/
inductive Path (step : P → E → P → Prop) : P → List E → P → Prop
  | nil {p : P} : Path step p [] p
  | cons {p q r : P} {event : E} {events : List E} (first : step p event q)
      (rest : Path step q events r) : Path step p (event :: events) r

section

variable {step : P → E → P → Prop} {p q r : P} {event : E} {events more : List E}

theorem Path.single (h : step p event q) : Path step p [event] q := .cons h .nil

theorem Path.append (h : Path step p events q) (hmore : Path step q more r) :
    Path step p (events ++ more) r := by
  induction h with
  | nil => exact hmore
  | cons first _ ih => exact .cons first (ih hmore)

theorem path_cons_iff : Path step p (event :: events) r ↔
    ∃ q, step p event q ∧ Path step q events r := by
  constructor
  · intro h
    cases h with
    | cons first rest => exact ⟨_, first, rest⟩
  · rintro ⟨q, first, rest⟩
    exact .cons first rest

theorem path_append_iff : Path step p (events ++ more) r ↔
    ∃ q, Path step p events q ∧ Path step q more r := by
  constructor
  · intro h
    induction events generalizing p with
    | nil => exact ⟨p, .nil, h⟩
    | cons event events ih =>
      obtain ⟨q, first, rest⟩ := path_cons_iff.mp h
      obtain ⟨s, hs, hmore⟩ := ih rest
      exact ⟨s, .cons first hs, hmore⟩
  · rintro ⟨q, h, hmore⟩
    exact h.append hmore

theorem Path.imp {step' : P → E → P → Prop} (himp : ∀ p event q, step p event q → step' p event q)
    (h : Path step p events q) : Path step' p events q := by
  induction h with
  | nil => exact .nil
  | cons first _ ih => exact .cons (himp _ _ _ first) ih

/-- What every step says of its event holds of all of them. -/
theorem Path.forall_mem {Q : E → Prop} (hstep : ∀ p event q, step p event q → Q event)
    (h : Path step p events q) : ∀ event ∈ events, Q event := by
  induction h with
  | nil => exact fun _ hmem => absurd hmem List.not_mem_nil
  | cons first _ ih => exact List.forall_mem_cons.mpr ⟨hstep _ _ _ first, ih⟩

end

/-! ### Loops -/

/-- How the states of a loop are seen as places of a transition system. -/
structure Seen (S P E : Type) where
  step : P → E → P → Prop
  /-- Of the states that an iteration begins in. -/
  goes : S → Prop
  /-- Of the states that a poll is ready in. -/
  ends : S → Prop
  view : S → P
  settled : S → P

namespace Seen

variable (seen : Seen S P E)

/-- The place where an iteration has led to. -/
def Lands : Flow S R → P → Prop
  | .again state, p => seen.goes state ∧ p = seen.view state
  | .pending state, p => seen.goes state ∧ p = seen.view state
  | .ready state _, p => seen.ends state ∧ p = seen.settled state

/-- The events lead from the place to where the outcome is. -/
def Reaches (p : P) (out : List E × Flow S R) : Prop :=
  ∃ q, Path seen.step p out.1 q ∧ seen.Lands out.2 q

/-- The events of an iteration, or of a poll, are a path from where the state is. -/
def Simulates (poll : S → A → List E × Flow S R) : Prop :=
  ∀ state answers, seen.goes state → seen.Reaches (seen.view state) (poll state answers)

variable {seen}

theorem Reaches.emit {p q : P} {events : List E} {out : List E × Flow S R}
    (hpath : Path seen.step p events q) (h : seen.Reaches q out) :
    seen.Reaches p (emit events out) := by
  obtain ⟨r, hrest, hlands⟩ := h
  exact ⟨r, hpath.append hrest, hlands⟩

/-- **A loop** is simulated when its iterations are. -/
theorem loop_simulates {iterate : S → A → List E × Flow S R} (h : seen.Simulates iterate) :
    seen.Simulates (loop iterate) := by
  intro state answers hgoes
  induction answers generalizing state with
  | nil => exact ⟨seen.view state, .nil, hgoes, rfl⟩
  | cons first rest ih =>
    obtain ⟨p, hpath, hlands⟩ := h state first hgoes
    rw [loop]
    generalize iterate state first = out at hpath hlands
    obtain ⟨events, flow⟩ := out
    cases flow with
    | again state' =>
      obtain ⟨hgoes', rfl⟩ := hlands
      exact (ih state' hgoes').emit hpath
    | pending state' => exact ⟨p, hpath, hlands⟩
    | ready state' result => exact ⟨p, hpath, hlands⟩

/-- **Polls** that start where the ones before have led to are a path together, which ends
    where one of them has led to. -/
theorem drive_path {poll : S → List A → List E × Flow S R} {next : Flow S R → Option S}
    (h : seen.Simulates poll)
    (hnext : ∀ flow p state', seen.Lands flow p → next flow = some state' →
      seen.goes state' ∧ p = seen.view state')
    {state : S} (hgoes : seen.goes state) (polls : List (List A)) :
    ∃ p, Path seen.step (seen.view state) (drive poll next state polls) p ∧
      ((∃ state', seen.goes state' ∧ p = seen.view state') ∨
        ∃ state', seen.ends state' ∧ p = seen.settled state') := by
  induction polls generalizing state with
  | nil => exact ⟨seen.view state, .nil, .inl ⟨state, hgoes, rfl⟩⟩
  | cons answers polls ih =>
    obtain ⟨p, hpath, hlands⟩ := h state answers hgoes
    rw [drive]
    cases hflow : next (poll state answers).2 with
    | some state' =>
      obtain ⟨hgoes', rfl⟩ := hnext _ _ _ hlands hflow
      obtain ⟨q, hrest, hend⟩ := ih hgoes'
      exact ⟨q, hpath.append hrest, hend⟩
    | none =>
      refine ⟨p, hpath, ?_⟩
      generalize (poll state answers).2 = flow at hlands
      cases flow with
      | again state' => exact .inl ⟨state', hlands⟩
      | pending state' => exact .inl ⟨state', hlands⟩
      | ready state' result => exact .inr ⟨state', hlands⟩

end Seen

end Tea.Async
