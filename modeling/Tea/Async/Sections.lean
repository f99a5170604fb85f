/-
  Tea/Async/Sections.lean
  =======================
  **Calls that interleave section by section.**

  A call is made of critical sections.  Between two of them stands a *point*: what the
  caller keeps in its local variables, and which section comes next.  Each of any number
  of clients makes one call after the other, and the sections of all calls interleave
  in any order (`Sections.play`).

  An assertion that every admitted move preserves holds after every admitted sequence of
  moves (`Sections.Preserved.play`).  A call none of whose sections can be seen through
  a view of the state can be left out of a sequence, and what is seen afterwards is the
  same (`Sections.View.leave_out`).
-/
import Mathlib.Logic.Function.Basic

namespace Tea.Async

variable {ι σ C P α β : Type}

/-- The calls on a shared state `σ`, from point to point. -/
structure Sections (σ C P : Type) where
  entry : C → P
  /-- A client may make the call in this state. -/
  admits : σ → C → Bool
  returned : P → Bool
  section_ : P → σ → P × σ

/-- The shared state, and the point at which each client is. -/
structure Clients (ι σ P : Type) where
  state : σ
  point : ι → P

/-- A client makes its next call, or its call goes on with a section. -/
inductive Move (ι C : Type) where
  | call (client : ι) (call : C)
  | go (client : ι)

def Move.client : Move ι C → ι
  | .call client _ => client
  | .go client => client

/-- The call that the move makes is one of `K`. -/
def Move.Within (K : C → Bool) : Move ι C → Bool
  | .call _ made => K made
  | .go _ => true

variable [DecidableEq ι]

/-- The client makes no further call. -/
def Move.Stays (client : ι) : Move ι C → Prop
  | .call other _ => other ≠ client
  | .go _ => True

instance (client : ι) : ∀ m : Move ι C, Decidable (m.Stays client)
  | .call other _ => inferInstanceAs (Decidable (other ≠ client))
  | .go _ => inferInstanceAs (Decidable True)

def Clients.set (c : Clients ι σ P) (client : ι) (point : P) (state : σ) : Clients ι σ P where
  state := state
  point := Function.update c.point client point

@[simp] theorem Clients.set_state (c : Clients ι σ P) (client : ι) (point : P) (state : σ) :
    (c.set client point state).state = state := rfl

@[simp] theorem Clients.set_self (c : Clients ι σ P) (client : ι) (point : P) (state : σ) :
    (c.set client point state).point client = point := by
  simp [Clients.set]

theorem Clients.set_other (c : Clients ι σ P) {client other : ι} (point : P) (state : σ)
    (hne : other ≠ client) : (c.set client point state).point other = c.point other := by
  simp [Clients.set, hne]

theorem Clients.set_cases (c : Clients ι σ P) (client : ι) (point : P) (state : σ) (i : ι) :
    ((c.set client point state).point i = point ∧ i = client) ∨
      ((c.set client point state).point i = c.point i ∧ i ≠ client) := by
  by_cases hi : i = client
  · exact .inl ⟨by rw [hi, Clients.set_self], hi⟩
  · exact .inr ⟨c.set_other _ _ hi, hi⟩

namespace Sections

variable (S : Sections σ C P)

/-- A call of a client that is in another one, and a section of one that is in none, do
    not happen. -/
def move (c : Clients ι σ P) : Move ι C → Clients ι σ P
  | .call client call =>
      if S.returned (c.point client) ∧ S.admits c.state call then
        c.set client (S.entry call) c.state
      else c
  | .go client =>
      if S.returned (c.point client) then c
      else c.set client (S.section_ (c.point client) c.state).1
        (S.section_ (c.point client) c.state).2

def play (c : Clients ι σ P) (moves : List (Move ι C)) : Clients ι σ P := moves.foldl S.move c

@[simp] theorem play_nil (c : Clients ι σ P) : S.play c [] = c := rfl

@[simp] theorem play_cons (c : Clients ι σ P) (m : Move ι C) (moves : List (Move ι C)) :
    S.play c (m :: moves) = S.play (S.move c m) moves := rfl

theorem play_append (c : Clients ι σ P) (moves moves' : List (Move ι C)) :
    S.play c (moves ++ moves') = S.play (S.play c moves) moves' :=
  List.foldl_append

/-- Every move is admitted where it happens. -/
def Along (admitted : Clients ι σ P → Move ι C → Prop) : Clients ι σ P → List (Move ι C) → Prop
  | _, [] => True
  | c, m :: moves => admitted c m ∧ Along admitted (S.move c m) moves

instance instDecidableAlong {admitted : Clients ι σ P → Move ι C → Prop} [∀ c m, Decidable (admitted c m)] :
    ∀ (c : Clients ι σ P) (moves : List (Move ι C)), Decidable (S.Along admitted c moves)
  | _, [] => .isTrue trivial
  | c, m :: moves =>
      have : Decidable (S.Along admitted (S.move c m) moves) :=
        instDecidableAlong (S.move c m) moves
      inferInstanceAs (Decidable (admitted c m ∧ S.Along admitted (S.move c m) moves))

variable {S} {admitted : Clients ι σ P → Move ι C → Prop}

theorem along_append {c : Clients ι σ P} {moves moves' : List (Move ι C)} :
    S.Along admitted c (moves ++ moves') ↔
      S.Along admitted c moves ∧ S.Along admitted (S.play c moves) moves' := by
  induction moves generalizing c with
  | nil => simp [Along]
  | cons m moves ih => simp [Along, ih, and_assoc]

theorem move_call {c : Clients ι σ P} {client : ι} {call : C}
    (hreturned : S.returned (c.point client) = true) (hadmits : S.admits c.state call = true) :
    S.move c (.call client call) = c.set client (S.entry call) c.state :=
  if_pos ⟨hreturned, hadmits⟩

theorem move_returned {c : Clients ι σ P} {client : ι}
    (hreturned : S.returned (c.point client) = true) : S.move c (.go client) = c :=
  if_pos hreturned

theorem move_go {c : Clients ι σ P} {client : ι} (hgoing : S.returned (c.point client) = false) :
    S.move c (.go client) = c.set client (S.section_ (c.point client) c.state).1
      (S.section_ (c.point client) c.state).2 :=
  if_neg (by rw [hgoing]; exact Bool.false_ne_true)

theorem move_other (c : Clients ι σ P) {m : Move ι C} {client : ι} (hne : client ≠ m.client) :
    (S.move c m).point client = c.point client := by
  cases m with
  | call other call =>
    simp only [move]
    split
    · exact c.set_other _ _ hne
    · rfl
  | go other =>
    simp only [move]
    split
    · rfl
    · exact c.set_other _ _ hne

/-- A move of others leaves the client where it is, and its own is its next section. -/
theorem move_stays {c : Clients ι σ P} {client : ι} {m : Move ι C} (hm : m.Stays client) :
    (S.move c m).point client = c.point client ∨
      (m = .go client ∧ S.returned (c.point client) = false) := by
  by_cases hclient : m.client = client
  · cases m with
    | call other call => exact absurd hclient hm
    | go other =>
      obtain rfl : other = client := hclient
      cases hreturned : S.returned (c.point other) with
      | true =>
        rw [move_returned hreturned]
        exact .inl rfl
      | false => exact .inr ⟨rfl, rfl⟩
  · exact .inl (move_other c (Ne.symm hclient))

/-! ### Invariants -/

/-- The admitted moves preserve the assertion. -/
def Preserved (S : Sections σ C P) (admitted : Clients ι σ P → Move ι C → Prop)
    (I : Clients ι σ P → Prop) : Prop :=
  ∀ c m, I c → admitted c m → I (S.move c m)

theorem Preserved.play {I : Clients ι σ P → Prop} (h : Preserved S admitted I)
    {c : Clients ι σ P} {moves : List (Move ι C)} (hc : I c) (hmoves : S.Along admitted c moves) :
    I (S.play c moves) := by
  induction moves generalizing c with
  | nil => exact hc
  | cons m moves ih => exact ih (h c m hc hmoves.1) hmoves.2

/-- What every move preserves holds after every sequence of moves. -/
theorem Preserved.always {I : Clients ι σ P → Prop} (h : Preserved S (fun _ _ => True) I)
    {c : Clients ι σ P} (hc : I c) (moves : List (Move ι C)) : I (S.play c moves) := by
  refine h.play hc ?_
  induction moves generalizing c with
  | nil => trivial
  | cons m moves ih => exact ⟨trivial, ih (h c m hc trivial)⟩

/-- A section is preserved where the calls are, and the sections of the clients that are
    in a call. -/
theorem Preserved.of {I : Clients ι σ P → Prop}
    (hcall : ∀ c client call, I c → S.returned (c.point client) = true →
      S.admits c.state call = true → I (c.set client (S.entry call) c.state))
    (hgo : ∀ c client, I c → S.returned (c.point client) = false → admitted c (.go client) →
      I (c.set client (S.section_ (c.point client) c.state).1
        (S.section_ (c.point client) c.state).2)) : Preserved S admitted I := by
  intro c m hc hm
  cases m with
  | call client call =>
    simp only [move]
    split
    · rename_i hidle
      exact hcall c client call hc hidle.1 hidle.2
    · exact hc
  | go client =>
    simp only [move]
    by_cases hreturned : S.returned (c.point client) = true
    · rw [if_pos hreturned]
      exact hc
    · rw [if_neg hreturned]
      exact hgo c client hc (Bool.eq_false_iff.mpr hreturned) hm

/-! ### Calls that cannot be seen -/

/-- A view of the state and of the points `inside` the calls of `K`, through which these
    calls are determined, and through which all clients outside of a call look the same. -/
structure View (S : Sections σ C P) (K : C → Bool) (inside : P → Prop) (view : σ → α)
    (look : P → β) : Prop where
  admits : ∀ s s' call, K call = true → view s = view s' → S.admits s call = S.admits s' call
  returned : ∀ p p', look p = look p' → S.returned p = S.returned p'
  idle : ∀ p p', S.returned p = true → S.returned p' = true → look p = look p'
  entry : ∀ call, K call = true → inside (S.entry call)
  stays : ∀ p s, inside p → inside (S.section_ p s).1
  section_ : ∀ p p' s s', inside p → inside p' → look p = look p' → view s = view s' →
    look (S.section_ p s).1 = look (S.section_ p' s').1 ∧
      view (S.section_ p s).2 = view (S.section_ p' s').2

/-- The states and the clients `who` look the same. -/
structure Alike (inside : P → Prop) (view : σ → α) (look : P → β) (who : ι → Prop)
    (c c' : Clients ι σ P) : Prop where
  state : view c.state = view c'.state
  point : ∀ i, who i → look (c.point i) = look (c'.point i)
  inside : ∀ i, who i → inside (c.point i) ∧ inside (c'.point i)

variable {K : C → Bool} {inside : P → Prop} {view : σ → α} {look : P → β} {who : ι → Prop}
  {c c' : Clients ι σ P}

theorem Alike.set (h : Alike inside view look who c c') {client : ι} {p p' : P} {s s' : σ}
    (hstate : view s = view s') (hpoint : look p = look p') (hinside : inside p ∧ inside p') :
    Alike inside view look who (c.set client p s) (c'.set client p' s') := by
  refine ⟨hstate, fun i hi => ?_, fun i hi => ?_⟩ <;> by_cases heq : i = client
  · rw [heq, Clients.set_self, Clients.set_self]
    exact hpoint
  · rw [c.set_other _ _ heq, c'.set_other _ _ heq]
    exact h.point i hi
  · rw [heq, Clients.set_self, Clients.set_self]
    exact hinside
  · rw [c.set_other _ _ heq, c'.set_other _ _ heq]
    exact h.inside i hi

/-- A move of one of them does the same in both. -/
theorem View.move (hview : View S K inside view look) {m : Move ι C}
    (h : Alike inside view look who c c') (hwho : who m.client) (hm : m.Within K = true) :
    Alike inside view look who (S.move c m) (S.move c' m) := by
  have hreturned := hview.returned _ _ (h.point _ hwho)
  cases m with
  | call client made =>
    have hadmits := hview.admits _ _ made hm h.state
    simp only [Sections.move, Move.client] at hreturned ⊢
    rw [hreturned, hadmits]
    split
    · exact h.set h.state rfl ⟨hview.entry made hm, hview.entry made hm⟩
    · exact h
  | go client =>
    simp only [Sections.move, Move.client] at hreturned ⊢
    rw [hreturned]
    split
    · exact h
    · obtain ⟨hp, hp'⟩ := h.inside _ hwho
      obtain ⟨hpoint, hstate⟩ := hview.section_ _ _ _ _ hp hp' (h.point _ hwho) h.state
      exact h.set hstate hpoint ⟨hview.stays _ _ hp, hview.stays _ _ hp'⟩

theorem View.play (hview : View S K inside view look) {moves : List (Move ι C)}
    (h : Alike inside view look (fun _ => True) c c') (hmoves : ∀ m ∈ moves, m.Within K = true) :
    Alike inside view look (fun _ => True) (S.play c moves) (S.play c' moves) := by
  induction moves generalizing c c' with
  | nil => exact h
  | cons m moves ih =>
    have hm := hmoves m (List.mem_cons_self ..)
    exact ih (hview.move h trivial hm) fun m hm => hmoves m (List.mem_cons_of_mem _ hm)

/-- A section of the client cannot be seen. -/
def Unseen (S : Sections σ C P) (view : σ → α) (client : ι) (c : Clients ι σ P)
    (m : Move ι C) : Prop :=
  m.client = client → view (S.move c m).state = view c.state

/-- The moves of the other clients. -/
def others (client : ι) (moves : List (Move ι C)) : List (Move ι C) :=
  moves.filter fun m => m.client ≠ client

/-- **A call that cannot be seen can be left out**, and everybody else goes on as if it
    had not been made. -/
theorem View.leave_out (hview : View S K inside view look) {client : ι}
    {moves : List (Move ι C)} (h : Alike inside view look (fun i => i ≠ client) c c')
    (hmoves : ∀ m ∈ moves, m.Within K = true) (hunseen : S.Along (Unseen S view client) c moves) :
    Alike inside view look (fun i => i ≠ client) (S.play c moves)
        (S.play c' (others client moves)) ∧
      (S.play c' (others client moves)).point client = c'.point client := by
  induction moves generalizing c c' with
  | nil => exact ⟨h, rfl⟩
  | cons m moves ih =>
    have hrest : ∀ m ∈ moves, m.Within K := fun m hm => hmoves m (List.mem_cons_of_mem _ hm)
    by_cases hm : m.client = client
    · -- the move is left out
      have hothers : others client (m :: moves) = others client moves := by simp [others, hm]
      have hsame : ∀ i, i ≠ client → (S.move c m).point i = c.point i := by
        intro i hi
        exact move_other c (by rw [hm]; exact hi)
      rw [hothers, play_cons]
      refine ih ⟨(hunseen.1 hm).trans h.state, fun i hi => ?_, fun i hi => ?_⟩ hrest hunseen.2
      · rw [hsame i hi]
        exact h.point i hi
      · rw [hsame i hi]
        exact h.inside i hi
    · have hothers : others client (m :: moves) = m :: others client moves := by
        simp [others, hm]
      have hnext := hview.move h hm (hmoves m (List.mem_cons_self ..))
      rw [hothers, play_cons, play_cons, ← move_other c' (Ne.symm hm)]
      exact ih hnext hrest hunseen.2

end Sections

end Tea.Async
