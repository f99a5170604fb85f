/-
  Tea/Contract/FailureStreak.lean
  ===============================
  **The failure circuit breaker counts blocks of equal failures**: the count that it
  reports for a retryable failure is the length of the block that the failure ends, in
  the order of the transcript.  The single slot of the policy state loses the block at
  two places: a fatal failure leaves its own signature in it, and the results of a
  response that was cut off at the token limit do not reach it.

  An account of the recorded events says which results the transcript got
  (`accountOf`).  The slot after these results counts the block of the last one if and
  only if the failures stand apart (`slot_counts_iff`).
-/
import Tea.Run.Agent

namespace Tea.Contract

open Tea.Core Tea.Run

/-! ### The results of a run -/

/-- A tool result: its failure, and whether its call was refused because the response
    had been cut off. -/
structure Verdict where
  call : ToolCallId
  refused : Bool
  failure : Option ToolFailure
deriving DecidableEq

/-- The signature of a failure of this disposition. -/
def Verdict.signed (disposition : ToolFailureDisposition) (v : Verdict) :
    Option FailureSignature :=
  v.failure.bind fun failure =>
    if failure.disposition = disposition then failure.signature else none

/-- The signature of a retryable failure. -/
def Verdict.retries (v : Verdict) : Option FailureSignature := v.signed .retryable

/-- The signature of a fatal failure; a fatal failure is built with one. -/
def Verdict.kills (v : Verdict) : Option FailureSignature := v.signed .fatal

/-- The length of the block of retryable failures with the signature that ends the
    results; the latest result is the first of the list. -/
def block (s : FailureSignature) : List Verdict → Nat
  | [] => 0
  | v :: past => if v.retries = some s then block s past + 1 else 0

/-- The results of a run, the latest first, and how the last response ended. -/
structure Account where
  reason : Option StopReason := none
  verdicts : List Verdict := []

def Account.read (a : Account) : AgentEventKind → Account
  | .messageEnd (.assistant _ _ _ reason _) => { a with reason }
  | .messageEnd (.toolResult _ call _ _ _ _ _ _ isError failure) =>
      { a with verdicts :=
          ⟨call, a.reason = some .length,
            if isError then some (failure.getD .recoverableFailure) else none⟩ :: a.verdicts }
  | _ => a

def accountOf (kinds : List AgentEventKind) : Account := kinds.foldl Account.read {}

@[simp] theorem accountOf_append (kinds : List AgentEventKind) (kind : AgentEventKind) :
    accountOf (kinds ++ [kind]) = (accountOf kinds).read kind := by
  simp [accountOf]

/-- What the breaker reports of a result is the length of the block that it ends, and
    whether the limit is reached; a fatal failure is always terminal. -/
structure Counted (limit : Option Nat) (v : Verdict) (past : List Verdict)
    (disposition : ToolFailureDisposition) (signature : Option String) (count : Nat)
    (terminal : Bool) : Prop where
  names : ∃ failure, v.failure = some failure ∧ failure.disposition = disposition ∧
    failure.signature.map (·.text) = signature
  counts : ∀ s, v.retries = some s → count = block s (v :: past)
  trips : ∀ s, v.retries = some s →
    (terminal = true ↔ ∃ n, limit = some n ∧ n ≤ block s (v :: past))
  stops : ∀ s, v.kills = some s → terminal = true

/-- Every observed failure is that of the last result, and counted as it should be. -/
def CountsBlocks (limit : Option Nat) (kinds : List AgentEventKind) : Prop :=
  ∀ before after call disposition signature count terminal message,
    kinds = before ++
      .toolFailureObserved call disposition signature count terminal message :: after →
    ∃ v past, (accountOf before).verdicts = v :: past ∧ v.call = call ∧
      Counted limit v past disposition signature count terminal

/-! ### When it counts right -/

/-- The last result that was not refused failed with the signature, retryably or fatally. -/
def lingers (s : FailureSignature) : List Verdict → Bool
  | [] => false
  | v :: past =>
      if v.refused then lingers s past else v.retries = some s ∨ v.kills = some s

/-- No fatal failure with the signature stands directly before, and no failure with it
    stands before refused results. -/
def separate (s : FailureSignature) : List Verdict → Bool
  | [] => true
  | v :: past => if v.refused then !lingers s past else v.kills ≠ some s

/-- Every retryable failure stands apart from what is no part of its block, and its
    block fits the counter. -/
def Separated : List Verdict → Prop
  | [] => True
  | v :: past =>
      (∀ s, v.retries = some s → separate s past = true ∧ block s (v :: past) ≤ 4294967295) ∧
        Separated past

/-- The refused results are no retryable failures. -/
def Ordinary (verdicts : List Verdict) : Prop :=
  ∀ v ∈ verdicts, v.refused = true → v.retries = none

/-! ### The slot -/

/-- The slot after a result. -/
def noteVerdict (v : Verdict) (slot : Option (FailureSignature × Nat)) :
    Option (FailureSignature × Nat) :=
  match v.failure with
  | none => none
  | some failure => (observeFailureStreak none failure { failureStreak := slot }).2.failureStreak

/-- The slot after the results that were not refused. -/
def slotOf : List Verdict → Option (FailureSignature × Nat)
  | [] => none
  | v :: past => if v.refused then slotOf past else noteVerdict v (slotOf past)

/-- The count after another failure with the signature. -/
def nextCount (s : FailureSignature) (slot : Option (FailureSignature × Nat)) : Nat :=
  match slot with
  | some (previous, count) => if previous = s then satSucc32 count else 1
  | none => 1

theorem signed_eq_some {disposition : ToolFailureDisposition} {v : Verdict}
    {s : FailureSignature} :
    v.signed disposition = some s ↔ ∃ failure, v.failure = some failure ∧
      failure.disposition = disposition ∧ failure.signature = some s := by
  unfold Verdict.signed
  cases v.failure with
  | none =>
    constructor
    · intro h
      cases h
    · rintro ⟨_, h, _⟩
      cases h
  | some failure =>
    by_cases hdisposition : failure.disposition = disposition
    · simp [hdisposition]
    · simp [hdisposition]

theorem noteVerdict_retries {v : Verdict} {s : FailureSignature} (h : v.retries = some s)
    (slot : Option (FailureSignature × Nat)) : noteVerdict v slot = some (s, nextCount s slot) := by
  obtain ⟨failure, hfailure, hdisposition, hsignature⟩ := signed_eq_some.mp h
  cases slot with
  | none => simp [noteVerdict, hfailure, observeFailureStreak, hdisposition, hsignature, nextCount]
  | some last =>
    simp [noteVerdict, hfailure, observeFailureStreak, hdisposition, hsignature, nextCount]

theorem noteVerdict_kills {v : Verdict} {s : FailureSignature} (h : v.kills = some s)
    (slot : Option (FailureSignature × Nat)) : noteVerdict v slot = some (s, 1) := by
  obtain ⟨failure, hfailure, hdisposition, hsignature⟩ := signed_eq_some.mp h
  simp only [noteVerdict, hfailure, observeFailureStreak, hdisposition, hsignature]

theorem noteVerdict_other {v : Verdict} (hretries : v.retries = none) (hkills : v.kills = none)
    (slot : Option (FailureSignature × Nat)) : noteVerdict v slot = none := by
  unfold noteVerdict
  cases hfailure : v.failure with
  | none => rfl
  | some failure =>
    rw [Verdict.retries, Verdict.signed, hfailure] at hretries
    rw [Verdict.kills, Verdict.signed, hfailure] at hkills
    obtain ⟨disposition, signature, guidance⟩ := failure
    cases signature with
    | none => cases disposition <;> rfl
    | some s =>
      cases disposition with
      | retryable => cases hretries
      | fatal => cases hkills
      | _ => rfl

/-- The signature in the slot is that of the last failure that was not refused. -/
theorem slotOf_lingers {s : FailureSignature} {count : Nat} {verdicts : List Verdict}
    (h : slotOf verdicts = some (s, count)) : lingers s verdicts = true := by
  induction verdicts with
  | nil => cases h
  | cons v past ih =>
    rw [slotOf] at h
    rw [lingers]
    by_cases hrefused : v.refused = true
    · rw [if_pos hrefused] at h ⊢
      exact ih h
    rw [if_neg hrefused] at h ⊢
    rw [decide_eq_true_eq]
    cases hretries : v.retries with
    | some signature =>
      rw [noteVerdict_retries hretries] at h
      obtain ⟨rfl, -⟩ := Prod.mk.inj (Option.some.inj h)
      exact .inl rfl
    | none =>
      cases hkills : v.kills with
      | some signature =>
        rw [noteVerdict_kills hkills] at h
        obtain ⟨rfl, -⟩ := Prod.mk.inj (Option.some.inj h)
        exact .inr rfl
      | none =>
        rw [noteVerdict_other hretries hkills] at h
        cases h

/-- The failures with a signature that stand in the slot were counted at least once. -/
theorem slotOf_of_lingers {s : FailureSignature} {verdicts : List Verdict}
    (h : lingers s verdicts = true) : ∃ count, slotOf verdicts = some (s, count) ∧ 1 ≤ count := by
  induction verdicts with
  | nil => cases h
  | cons v past ih =>
    rw [lingers] at h
    rw [slotOf]
    by_cases hrefused : v.refused = true
    · rw [if_pos hrefused] at h ⊢
      exact ih h
    rw [if_neg hrefused] at h ⊢
    rcases decide_eq_true_eq.mp h with hretries | hkills
    · refine ⟨_, noteVerdict_retries hretries _, ?_⟩
      unfold nextCount satSucc32
      split
      · split_ifs <;> omega
      · exact Nat.le_refl 1
    · exact ⟨1, noteVerdict_kills hkills _, Nat.le_refl 1⟩

theorem nextCount_of_ne {s : FailureSignature} {slot : Option (FailureSignature × Nat)}
    (h : ∀ count, slot ≠ some (s, count)) : nextCount s slot = 1 := by
  cases slot with
  | none => rfl
  | some entry =>
    obtain ⟨previous, count⟩ := entry
    refine if_neg ?_
    rintro rfl
    exact h count rfl

theorem block_of_ne {s : FailureSignature} {v : Verdict} (h : v.retries ≠ some s)
    (past : List Verdict) : block s (v :: past) = 0 := if_neg h

theorem block_of_eq {s : FailureSignature} {v : Verdict} (h : v.retries = some s)
    (past : List Verdict) : block s (v :: past) = block s past + 1 := if_pos h

/-- **The slot counts the block** that a failure ends. -/
theorem slot_counts {v : Verdict} {past : List Verdict} {s : FailureSignature}
    (hordinary : Ordinary (v :: past)) (hseparated : Separated (v :: past))
    (hretries : v.retries = some s) : nextCount s (slotOf past) = block s (v :: past) := by
  induction past generalizing v with
  | nil =>
    rw [block_of_eq hretries]
    rfl
  | cons u past ih =>
    obtain ⟨hseparate, hbound⟩ := hseparated.1 s hretries
    have hordinary' : Ordinary (u :: past) := fun x hx => hordinary x (List.mem_cons_of_mem _ hx)
    rw [block_of_eq hretries] at hbound ⊢
    rw [separate] at hseparate
    rw [slotOf]
    by_cases hrefused : u.refused = true
    · rw [if_pos hrefused] at hseparate ⊢
      have hnone : u.retries = none := hordinary' u List.mem_cons_self hrefused
      rw [block_of_ne (by rw [hnone]; exact fun h => nomatch h)]
      apply nextCount_of_ne
      intro count hslot
      rw [slotOf_lingers hslot] at hseparate
      cases hseparate
    rw [if_neg hrefused] at hseparate ⊢
    rw [decide_eq_true_eq] at hseparate
    by_cases hsame : u.retries = some s
    · -- the failure goes on with the block
      have hcounted := ih hordinary' hseparated.2 hsame
      rw [noteVerdict_retries hsame, hcounted]
      simp only [nextCount, if_true, satSucc32]
      omega
    · rw [block_of_ne hsame]
      apply nextCount_of_ne
      intro count hslot
      cases hretries' : u.retries with
      | some signature =>
        rw [noteVerdict_retries hretries'] at hslot
        obtain ⟨rfl, -⟩ := Prod.mk.inj (Option.some.inj hslot)
        exact hsame hretries'
      | none =>
        cases hkills : u.kills with
        | some signature =>
          rw [noteVerdict_kills hkills] at hslot
          obtain ⟨rfl, -⟩ := Prod.mk.inj (Option.some.inj hslot)
          exact hseparate hkills
        | none =>
          rw [noteVerdict_other hretries' hkills] at hslot
          cases hslot

theorem nextCount_le (s : FailureSignature) (slot : Option (FailureSignature × Nat)) :
    nextCount s slot ≤ 4294967295 := by
  unfold nextCount satSucc32
  split
  · split_ifs <;> omega
  · omega

/-- A failure that does not stand apart is counted wrong. -/
theorem miscounted {v : Verdict} {past : List Verdict} {s : FailureSignature}
    (hordinary : Ordinary (v :: past)) (hretries : v.retries = some s)
    (hmixed : separate s past = false) : nextCount s (slotOf past) ≠ block s (v :: past) := by
  have hblock : block s past = 0 → ∀ count, slotOf past = some (s, count) → 1 ≤ count →
      nextCount s (slotOf past) ≠ block s (v :: past) := by
    intro hnone count hslot hcount
    rw [block_of_eq hretries, hnone, hslot]
    simp only [nextCount, if_true, satSucc32]
    omega
  cases past with
  | nil => cases hmixed
  | cons u past =>
    rw [separate] at hmixed
    by_cases hrefused : u.refused = true
    · rw [if_pos hrefused, Bool.not_eq_false'] at hmixed
      have hnone : u.retries = none :=
        hordinary u (List.mem_cons_of_mem _ List.mem_cons_self) hrefused
      obtain ⟨count, hslot, hcount⟩ := slotOf_of_lingers hmixed
      refine hblock (block_of_ne (by rw [hnone]; exact fun h => nomatch h) _) count ?_ hcount
      rw [slotOf, if_pos hrefused]
      exact hslot
    · rw [if_neg hrefused, decide_eq_false_iff_not, not_not] at hmixed
      refine hblock (block_of_ne ?_ _) 1 ?_ (Nat.le_refl 1)
      · -- a failure has one disposition
        intro hsame
        obtain ⟨failure, hfailure, hdisposition, -⟩ := signed_eq_some.mp hsame
        obtain ⟨failure', hfailure', hdisposition', -⟩ := signed_eq_some.mp hmixed
        rw [hfailure] at hfailure'
        obtain rfl := Option.some.inj hfailure'
        rw [hdisposition] at hdisposition'
        cases hdisposition'
      · rw [slotOf, if_neg hrefused]
        exact noteVerdict_kills hmixed _

/-- **The condition is exact** for each result. -/
theorem slot_counts_iff {v : Verdict} {past : List Verdict} {s : FailureSignature}
    (hordinary : Ordinary (v :: past)) (hseparated : Separated past)
    (hretries : v.retries = some s) :
    nextCount s (slotOf past) = block s (v :: past) ↔ Separated (v :: past) := by
  constructor
  · intro hcounts
    refine ⟨fun s' hs' => ?_, hseparated⟩
    obtain rfl : s' = s := Option.some.inj (hs'.symm.trans hretries)
    refine ⟨?_, hcounts ▸ nextCount_le _ _⟩
    by_contra hmixed
    exact miscounted hordinary hretries (Bool.eq_false_iff.mpr hmixed) hcounts
  · intro hall
    exact slot_counts hordinary hall hretries

end Tea.Contract
