/-
  Tea/Contract/CancelWakes.lean
  =============================
  **No lost cancellation wake-up.**  A waker that is registered directly is not stored
  again if a wait has stored it; when this wait is dropped, or polled with another waker,
  nothing wakes the registered one (`wakes_lost`).  In every run in which no step takes the
  last entry of a registered waker, reuses an id, drops a polled wait between the flag and
  the taking of its entry, or repeats `cancel` while the first call goes on, a `cancel`
  that has returned has woken every waker that it should, and the list never holds more
  wakers than it should (`wakes_kept`).
-/

import Tea.Core.Cancellation
import Tea.Async.Execution
import Mathlib.Data.List.Dedup
import Mathlib.Data.List.Perm.Subperm

namespace Tea.Contract

open Tea.Async Tea.Core

variable {W : Type}

/-! ### The contract -/

/-- The wait exists still. -/
def Live (wait : Wait W) : Prop := wait.phase ≠ .dropped

instance [DecidableEq W] (wait : Wait W) : Decidable (Live wait) :=
  inferInstanceAs (Decidable (wait.phase ≠ .dropped))

/-- The wait exists still, and was polled. -/
def livePolled (wait : Wait W) : Bool :=
  match wait.phase, wait.polled with
  | .dropped, _ => false
  | _, .never => false
  | _, _ => true

/-- What a state owes the users of the token. -/
structure WakesKept [DecidableEq W] (s : Token W) : Prop where
  registered : s.completed = true → ∀ waker ∈ s.registered, waker ∈ s.woken
  waits : s.completed = true → ∀ wait ∈ s.waits, Live wait → ∀ waker,
    wait.polled = .pending waker → waker ∈ s.woken
  ready : s.completed = true → ∀ i waker s',
    s.step (.poll i waker) = some s' ∨ s.step (.pollLocked i) = some s' →
      ∃ wait, s'.waits[i]? = some wait ∧ wait.polled = .ready
  bound : s.waiters.length ≤ (s.waits.filter livePolled).length + s.registered.dedup.length

/-! ### The condition -/

/-- The next id is that of no entry and of no wait. -/
def FreshId (s : Token W) : Prop :=
  (∀ entry ∈ s.waiters, entry.1 ≠ s.nextWaiterId) ∧
    ∀ wait ∈ s.waits, Live wait → wait.waiterId ≠ s.nextWaiterId

instance [DecidableEq W] (s : Token W) : Decidable (FreshId s) :=
  inferInstanceAs (Decidable ((∀ entry ∈ s.waiters, entry.1 ≠ s.nextWaiterId) ∧
    ∀ wait ∈ s.waits, Live wait → wait.waiterId ≠ s.nextWaiterId))

/-- The waker, if it is stored under the id, is stored once more. -/
def StoredTwice (s : Token W) (id : Nat) (waker : W) : Prop :=
  (id, waker) ∈ s.waiters → ∃ entry ∈ s.waiters, entry.1 ≠ id ∧ entry.2 = waker

instance [DecidableEq W] (s : Token W) (id : Nat) (waker : W) :
    Decidable (StoredTwice s id waker) :=
  inferInstanceAs (Decidable
    ((id, waker) ∈ s.waiters → ∃ entry ∈ s.waiters, entry.1 ≠ id ∧ entry.2 = waker))

/-- The step takes the last entry of no registered waker, mixes no ids, and no `cancel` or
    `drop` runs ahead of the `cancel` that is under way. -/
def LosesNone (t : Transition (Token W) (TokenStep W)) : Prop :=
  let s := t.before
  match t.label with
  | .cancel => s.cancelled = true → s.completed = true
  | .registerLocked call => ∀ waker ∈ s.registering[call]?, s.cancelled = false →
      (∀ entry ∈ s.waiters, entry.2 ≠ waker) → FreshId s
  | .makeWait => FreshId s
  | .pollLocked i => ∀ wait ∈ s.waits[i]?, s.cancelled = false →
      ∀ old ∈ s.registered, wait.phase ≠ .polling old → StoredTwice s wait.waiterId old
  | .drop i => ∀ wait ∈ s.waits[i]?, s.cancelled = true →
      ∀ entry ∈ s.waiters, entry.1 ≠ wait.waiterId
  | .dropLocked i => ∀ wait ∈ s.waits[i]?, ∀ old ∈ s.registered, StoredTwice s wait.waiterId old
  | .take | .wake | .cancelReturns | .registerWaker _ | .poll _ _ => True

instance [DecidableEq W] : DecidablePred (LosesNone (W := W)) := fun ⟨s, label, _⟩ =>
  match label with
  | .cancel => inferInstanceAs (Decidable (s.cancelled = true → s.completed = true))
  | .registerLocked call => inferInstanceAs (Decidable (∀ waker ∈ s.registering[call]?,
      s.cancelled = false → (∀ entry ∈ s.waiters, entry.2 ≠ waker) → FreshId s))
  | .makeWait => inferInstanceAs (Decidable (FreshId s))
  | .pollLocked i => inferInstanceAs (Decidable (∀ wait ∈ s.waits[i]?, s.cancelled = false →
      ∀ old ∈ s.registered, wait.phase ≠ .polling old → StoredTwice s wait.waiterId old))
  | .drop i => inferInstanceAs (Decidable (∀ wait ∈ s.waits[i]?, s.cancelled = true →
      ∀ entry ∈ s.waiters, entry.1 ≠ wait.waiterId))
  | .dropLocked i => inferInstanceAs (Decidable (∀ wait ∈ s.waits[i]?,
      ∀ old ∈ s.registered, StoredTwice s wait.waiterId old))
  | .take | .wake | .cancelReturns | .registerWaker _ | .poll _ _ =>
      inferInstanceAs (Decidable True)

/-! ### The invariant -/

/-- What the running `cancel` still has to wake. -/
def stillWaking (s : Token W) : List (Nat × W) :=
  match s.cancelling with
  | some (.waking waiters) => waiters
  | _ => []

/-- The waker is woken, or will be. -/
def Promised (s : Token W) (waker : W) : Prop :=
  waker ∈ s.woken ∨ ∃ id, (id, waker) ∈ stillWaking s

/-- The entry is no wait's. -/
def Direct (waits : List (Wait W)) (id : Nat) : Prop :=
  ∀ wait ∈ waits, Live wait → wait.waiterId ≠ id

/-- Each entry is that of a wait that was polled, or that of a registered waker; there is
    one for a wait, and one for a waker beside those of the waits. -/
structure Entries (waiters : List (Nat × W)) (waits : List (Wait W)) (registered : List W) :
    Prop where
  ids : (waiters.map Prod.fst).Nodup
  apart : ∀ (i j : Nat) (a b : Wait W), waits[i]? = some a → waits[j]? = some b → Live a → Live b →
    a.waiterId = b.waiterId → i = j
  owned : ∀ entry ∈ waiters,
    (∃ wait ∈ waits, livePolled wait = true ∧ wait.waiterId = entry.1) ∨
      entry.2 ∈ registered ∧ Direct waits entry.1
  distinct : ∀ a ∈ waiters, ∀ b ∈ waiters, Direct waits a.1 → Direct waits b.1 →
    a.2 = b.2 → a = b

/-- How far the cancellation is. -/
structure Stages (s : Token W) : Prop where
  unset : s.cancelled = false → s.cancelling = none ∧ s.completed = false
  completed : s.completed = true → s.cancelling = none
  taken : s.cancelled = true → s.cancelling ≠ some .taking → s.waiters = []

structure TokenSound (s : Token W) : Prop where
  stages : Stages s
  entries : Entries s.waiters s.waits s.registered
  registered : ∀ waker ∈ s.registered, Promised s waker ∨ ∃ id, (id, waker) ∈ s.waiters
  waits : ∀ wait ∈ s.waits, Live wait → ∀ waker, wait.polled = .pending waker →
    Promised s waker ∨ (wait.waiterId, waker) ∈ s.waiters

theorem livePolled_iff {wait : Wait W} :
    livePolled wait = true ↔ Live wait ∧ wait.polled ≠ .never := by
  unfold livePolled Live
  cases wait.phase <;> cases wait.polled <;> simp

/-! ### Counting -/

/-- **The bound**: no more entries than waits and registered wakers. -/
theorem Entries.bound [DecidableEq W] {waiters : List (Nat × W)} {waits : List (Wait W)}
    {registered : List W} (h : Entries waiters waits registered) :
    waiters.length ≤ (waits.filter livePolled).length + registered.dedup.length := by
  have hnodup : waiters.Nodup := h.ids.of_map Prod.fst
  -- the entries of the waits, by their ids
  let waited := waiters.filter fun entry =>
    (waits.filter livePolled).any fun wait => wait.waiterId = entry.1
  let direct := waiters.filter fun entry =>
    !(waits.filter livePolled).any fun wait => wait.waiterId = entry.1
  have hsplit : waiters.length = waited.length + direct.length :=
    List.length_eq_length_filter_add _
  have hwaited : waited.length ≤ (waits.filter livePolled).length := by
    have hids : (waited.map Prod.fst).Nodup := h.ids.sublist (List.filter_sublist.map Prod.fst)
    have hsubset : waited.map Prod.fst ⊆ (waits.filter livePolled).map (·.waiterId) := by
      intro id hid
      obtain ⟨entry, hentry, rfl⟩ := List.mem_map.mp hid
      obtain ⟨wait, hwait, heq⟩ := List.any_eq_true.mp (List.mem_filter.mp hentry).2
      exact List.mem_map.mpr ⟨wait, hwait, of_decide_eq_true heq⟩
    have hle := (hids.subperm hsubset).length_le
    rwa [List.length_map, List.length_map] at hle
  have hdirect : direct.length ≤ registered.dedup.length := by
    have hmem : ∀ entry ∈ direct, entry ∈ waiters ∧ entry.2 ∈ registered ∧
        Direct waits entry.1 := by
      intro entry hentry
      obtain ⟨hin, hnone⟩ := List.mem_filter.mp hentry
      refine ⟨hin, ?_⟩
      rcases h.owned entry hin with ⟨wait, hwait, hpolled, heq⟩ | howned
      · have hany : ((waits.filter livePolled).any fun wait => wait.waiterId = entry.1) = true :=
          List.any_eq_true.mpr
            ⟨wait, List.mem_filter.mpr ⟨hwait, hpolled⟩, decide_eq_true heq⟩
        rw [hany] at hnone
        cases hnone
      · exact howned
    have hwakers : (direct.map Prod.snd).Nodup := by
      apply List.Nodup.map_on _ (hnodup.filter _)
      intro a ha b hb heq
      obtain ⟨hina, -, hdira⟩ := hmem a ha
      obtain ⟨hinb, -, hdirb⟩ := hmem b hb
      exact h.distinct a hina b hinb hdira hdirb heq
    have hsubset : direct.map Prod.snd ⊆ registered.dedup := by
      intro waker hwaker
      obtain ⟨entry, hentry, rfl⟩ := List.mem_map.mp hwaker
      exact List.mem_dedup.mpr (hmem entry hentry).2.1
    have hle := (hwakers.subperm hsubset).length_le
    rwa [List.length_map] at hle
  omega

/-! ### Changes of the list -/

section

variable {waiters : List (Nat × W)} {waits : List (Wait W)} {registered : List W}

theorem mem_storeWaker {id : Nat} {waker : W} (hids : (waiters.map Prod.fst).Nodup)
    {entry : Nat × W} : entry ∈ Token.storeWaker id waker waiters ↔
      entry = (id, waker) ∨ entry ∈ waiters ∧ entry.1 ≠ id := by
  induction waiters with
  | nil => simp [Token.storeWaker]
  | cons first rest ih =>
    rw [List.map_cons, List.nodup_cons] at hids
    rw [Token.storeWaker]
    split_ifs with hfirst
    · have hrest : ∀ entry ∈ rest, entry.1 ≠ id := by
        intro entry hentry heq
        apply hids.1
        rw [hfirst, ← heq]
        exact List.mem_map_of_mem hentry
      simp only [List.mem_cons]
      constructor
      · rintro (hnew | hin)
        · exact .inl hnew
        · exact .inr ⟨.inr hin, hrest entry hin⟩
      · rintro (hnew | ⟨rfl | hin, hne⟩)
        · exact .inl hnew
        · exact absurd hfirst hne
        · exact .inr hin
    · rw [List.mem_cons, ih hids.2, List.mem_cons]
      constructor
      · rintro (rfl | hnew | ⟨hin, hne⟩)
        · exact .inr ⟨.inl rfl, hfirst⟩
        · exact .inl hnew
        · exact .inr ⟨.inr hin, hne⟩
      · rintro (hnew | ⟨rfl | hin, hne⟩)
        · exact .inr (.inl hnew)
        · exact .inl rfl
        · exact .inr (.inr ⟨hin, hne⟩)

theorem storeWaker_ids {id : Nat} {waker : W} (hids : (waiters.map Prod.fst).Nodup) :
    ((Token.storeWaker id waker waiters).map Prod.fst).Nodup := by
  induction waiters with
  | nil => simp [Token.storeWaker]
  | cons first rest ih =>
    rw [List.map_cons, List.nodup_cons] at hids
    rw [Token.storeWaker]
    split_ifs with hfirst
    · rw [List.map_cons, List.nodup_cons, ← hfirst]
      exact hids
    · rw [List.map_cons, List.nodup_cons]
      refine ⟨?_, ih hids.2⟩
      intro hin
      obtain ⟨entry, hentry, heq⟩ := List.mem_map.mp hin
      rcases (mem_storeWaker hids.2).mp hentry with rfl | ⟨hrest, -⟩
      · exact hfirst heq.symm
      · apply hids.1
        rw [← heq]
        exact List.mem_map_of_mem hrest

/-- A wait is the one that is replaced, or is there still. -/
theorem mem_of_mem_set {i : Nat} {wait other : Wait W} (wait' : Wait W) (hi : waits[i]? = some wait)
    (h : other ∈ waits) : other = wait ∨ other ∈ waits.set i wait' := by
  obtain ⟨j, hj⟩ := List.mem_iff_getElem?.mp h
  by_cases heq : i = j
  · left
    rw [← heq, hi] at hj
    exact (Option.some_inj.mp hj).symm
  · right
    apply List.mem_iff_getElem?.mpr
    refine ⟨j, ?_⟩
    rw [List.getElem?_set_ne heq, hj]

theorem mem_set_self {i : Nat} {wait wait' : Wait W} (hi : waits[i]? = some wait) :
    wait' ∈ waits.set i wait' := by
  apply List.mem_iff_getElem?.mpr
  refine ⟨i, ?_⟩
  rw [List.getElem?_set_self (List.getElem?_eq_some_iff.mp hi).1]

theorem Entries.grow {waker : W} (h : Entries waiters waits registered) :
    Entries waiters waits (waker :: registered) where
  ids := h.ids
  apart := h.apart
  owned entry hentry := by
    rcases h.owned entry hentry with hwait | ⟨hin, hdirect⟩
    · exact .inl hwait
    · exact .inr ⟨List.mem_cons_of_mem _ hin, hdirect⟩
  distinct := h.distinct

/-- A wait goes on; if it is gone behind that, its entry is gone before. -/
theorem Entries.setWait {i : Nat} {wait wait' : Wait W} (h : Entries waiters waits registered)
    (hi : waits[i]? = some wait) (hid : wait'.waiterId = wait.waiterId)
    (hlive : Live wait' → Live wait)
    (hpolled : livePolled wait = true → Live wait' → livePolled wait' = true)
    (hgone : ¬ Live wait' → ∀ entry ∈ waiters, entry.1 ≠ wait.waiterId) :
    Entries waiters (waits.set i wait') registered := by
  have hold : ∀ entry ∈ waiters, Direct (waits.set i wait') entry.1 → Direct waits entry.1 := by
    intro entry hentry hdirect other hother hotherLive
    rcases mem_of_mem_set wait' hi hother with rfl | hset
    · by_cases hlive' : Live wait'
      · rw [← hid]
        exact hdirect wait' (mem_set_self hi) hlive'
      · exact (hgone hlive' entry hentry).symm
    · exact hdirect other hset hotherLive
  constructor
  · exact h.ids
  · have hat : ∀ (j : Nat) (a : Wait W), (waits.set i wait')[j]? = some a → Live a →
        ∃ b, waits[j]? = some b ∧ Live b ∧ b.waiterId = a.waiterId := by
      intro j a ha halive
      by_cases heq : i = j
      · subst heq
        rw [List.getElem?_set_self (List.getElem?_eq_some_iff.mp hi).1] at ha
        obtain rfl := Option.some_inj.mp ha
        exact ⟨wait, hi, hlive halive, hid.symm⟩
      · rw [List.getElem?_set_ne heq] at ha
        exact ⟨a, ha, halive, rfl⟩
    intro j k a b ha hb halive hblive hsame
    obtain ⟨a', ha', halive', haid⟩ := hat j a ha halive
    obtain ⟨b', hb', hblive', hbid⟩ := hat k b hb hblive
    apply h.apart j k a' b' ha' hb' halive' hblive'
    rw [haid, hbid, hsame]
  · intro entry hentry
    rcases h.owned entry hentry with ⟨other, hother, hotherPolled, heq⟩ | ⟨hin, hdirect⟩
    · left
      rcases mem_of_mem_set wait' hi hother with rfl | hset
      · have hlive' : Live wait' := by
          by_contra hnot
          exact hgone hnot entry hentry heq.symm
        exact ⟨wait', mem_set_self hi, hpolled hotherPolled hlive', hid.trans heq⟩
      · exact ⟨other, hset, hotherPolled, heq⟩
    · right
      refine ⟨hin, ?_⟩
      intro other hother hotherLive
      rcases List.mem_or_eq_of_mem_set hother with hmem | rfl
      · exact hdirect other hmem hotherLive
      · rw [hid]
        exact hdirect wait (List.mem_of_getElem? hi) (hlive hotherLive)
  · intro a ha b hb hdira hdirb heq
    exact h.distinct a ha b hb (hold a ha hdira) (hold b hb hdirb) heq

/-- A wait that was polled stores its waker. -/
theorem Entries.store {wait : Wait W} {waker : W} (h : Entries waiters waits registered)
    (hwait : wait ∈ waits) (hpolled : livePolled wait = true) :
    Entries (Token.storeWaker wait.waiterId waker waiters) waits registered := by
  have hnot : ¬ Direct waits wait.waiterId := by
    intro hdirect
    exact hdirect wait hwait (livePolled_iff.mp hpolled).1 rfl
  constructor
  · exact storeWaker_ids h.ids
  · exact h.apart
  · intro entry hentry
    rcases (mem_storeWaker h.ids).mp hentry with rfl | ⟨hin, -⟩
    · exact .inl ⟨wait, hwait, hpolled, rfl⟩
    · exact h.owned entry hin
  · intro a ha b hb hdira hdirb heq
    rcases (mem_storeWaker h.ids).mp ha with rfl | ⟨hina, -⟩
    · exact absurd hdira hnot
    · rcases (mem_storeWaker h.ids).mp hb with rfl | ⟨hinb, -⟩
      · exact absurd hdirb hnot
      · exact h.distinct a hina b hinb hdira hdirb heq

theorem Entries.filter (keep : Nat × W → Bool) (h : Entries waiters waits registered) :
    Entries (waiters.filter keep) waits registered where
  ids := h.ids.sublist (List.filter_sublist.map Prod.fst)
  apart := h.apart
  owned entry hentry := h.owned entry (List.mem_of_mem_filter hentry)
  distinct a ha b hb := h.distinct a (List.mem_of_mem_filter ha) b (List.mem_of_mem_filter hb)

/-- A waker that is not stored is stored under a fresh id. -/
theorem Entries.push {id : Nat} {waker : W} (h : Entries waiters waits registered)
    (hentries : ∀ entry ∈ waiters, entry.1 ≠ id) (hwaits : Direct waits id)
    (hnew : ∀ entry ∈ waiters, entry.2 ≠ waker) :
    Entries (waiters ++ [(id, waker)]) waits (waker :: registered) := by
  have hmem : ∀ entry ∈ waiters ++ [(id, waker)], entry ∈ waiters ∨ entry = (id, waker) := by
    intro entry hentry
    rcases List.mem_append.mp hentry with hin | hlast
    · exact .inl hin
    · exact .inr (List.mem_singleton.mp hlast)
  constructor
  · rw [List.map_append, List.nodup_append]
    refine ⟨h.ids, by simp, ?_⟩
    intro a ha b hb
    obtain ⟨entry, hentry, rfl⟩ := List.mem_map.mp ha
    obtain rfl := List.mem_singleton.mp hb
    exact hentries entry hentry
  · exact h.apart
  · intro entry hentry
    rcases hmem entry hentry with hin | rfl
    · exact h.grow.owned entry hin
    · exact .inr ⟨List.mem_cons_self, hwaits⟩
  · intro a ha b hb hdira hdirb heq
    rcases hmem a ha with hina | rfl
    · rcases hmem b hb with hinb | rfl
      · exact h.distinct a hina b hinb hdira hdirb heq
      · exact absurd heq (hnew a hina)
    · rcases hmem b hb with hinb | rfl
      · exact absurd heq.symm (hnew b hinb)
      · rfl

/-- A new wait with a fresh id has no entry. -/
theorem Entries.addWait {id : Nat} (h : Entries waiters waits registered)
    (hentries : ∀ entry ∈ waiters, entry.1 ≠ id) (hwaits : Direct waits id) :
    Entries waiters (waits ++ [{ waiterId := id }]) registered := by
  have hat : ∀ (j : Nat) (a : Wait W), (waits ++ [{ waiterId := id }])[j]? = some a →
      waits[j]? = some a ∨ j = waits.length ∧ a.waiterId = id := by
    intro j a ha
    rcases Nat.lt_trichotomy j waits.length with hlt | heq | hgt
    · left
      rwa [List.getElem?_append_left hlt] at ha
    · right
      subst heq
      rw [List.getElem?_append_right (Nat.le_refl _), Nat.sub_self] at ha
      obtain rfl := Option.some_inj.mp ha
      exact ⟨rfl, rfl⟩
    · rw [List.getElem?_eq_none (by rw [List.length_append, List.length_singleton]; omega)] at ha
      cases ha
  constructor
  · exact h.ids
  · intro j k a b ha hb halive hblive hsame
    rcases hat j a ha with hina | ⟨hj, haid⟩
    · rcases hat k b hb with hinb | ⟨-, hbid⟩
      · exact h.apart j k a b hina hinb halive hblive hsame
      · exact absurd (hsame.trans hbid) (hwaits a (List.mem_of_getElem? hina) halive)
    · rcases hat k b hb with hinb | ⟨hk, -⟩
      · exact absurd (hsame.symm.trans haid) (hwaits b (List.mem_of_getElem? hinb) hblive)
      · rw [hj, hk]
  · intro entry hentry
    rcases h.owned entry hentry with ⟨wait, hwait, hpolled, heq⟩ | ⟨hin, hdirect⟩
    · exact .inl ⟨wait, List.mem_append_left _ hwait, hpolled, heq⟩
    · right
      refine ⟨hin, ?_⟩
      intro wait hwait hlive
      rcases List.mem_append.mp hwait with hold | hlast
      · exact hdirect wait hold hlive
      · obtain rfl := List.mem_singleton.mp hlast
        exact (hentries entry hentry).symm
  · intro a ha b hb hdira hdirb heq
    refine h.distinct a ha b hb ?_ ?_ heq
    · intro wait hwait
      exact hdira wait (List.mem_append_left _ hwait)
    · intro wait hwait
      exact hdirb wait (List.mem_append_left _ hwait)

end

/-! ### Steps of `cancel` -/

section

variable {s s' : Token W}

theorem cancel_sound (h : TokenSound s) (hfirst : s.cancelled = true → s.completed = true) :
    TokenSound s.cancel := by
  unfold Token.cancel
  split_ifs with hflag
  · have hcompleted := hfirst hflag
    rw [show ({ s with completed := true } : Token W) = s by rw [← hcompleted]]
    exact h
  · have hflag' : s.cancelled = false := Bool.eq_false_iff.mpr hflag
    obtain ⟨hnone, hcompleted⟩ := h.stages.unset hflag'
    have hpromised : ∀ {waker}, Promised s waker →
        Promised { s with cancelled := true, cancelling := some .taking } waker := by
      rintro waker (hwoken | ⟨id, hid⟩)
      · exact .inl hwoken
      · rw [stillWaking, hnone] at hid
        cases hid
    constructor
    · constructor
      · intro hunset
        cases hunset
      · intro hdone
        rw [hcompleted] at hdone
        cases hdone
      · intro _ hnot
        exact absurd rfl hnot
    · exact h.entries
    · intro waker hwaker
      exact (h.registered waker hwaker).imp_left hpromised
    · intro wait hwait hlive waker hpending
      exact (h.waits wait hwait hlive waker hpending).imp_left hpromised

theorem take_sound (h : TokenSound s) (hstep : s.take = some s') : TokenSound s' := by
  unfold Token.take at hstep
  split at hstep
  · rename_i htaking
    obtain rfl := Option.some_inj.mp hstep
    have hcancelled : s.cancelled = true := by
      by_contra hunset
      have hnone := (h.stages.unset (Bool.eq_false_iff.mpr hunset)).1
      rw [htaking] at hnone
      cases hnone
    have hcompleted : s.completed ≠ true := by
      intro hdone
      have hnone := h.stages.completed hdone
      rw [htaking] at hnone
      cases hnone
    have hpromised : ∀ {id waker}, Promised s waker ∨ (id, waker) ∈ s.waiters →
        Promised { s with waiters := [], cancelling := some (.waking s.waiters) } waker := by
      rintro id waker ((hwoken | ⟨id', hid⟩) | hstored)
      · exact .inl hwoken
      · rw [stillWaking, htaking] at hid
        cases hid
      · exact .inr ⟨id, hstored⟩
    constructor
    · constructor
      · intro hunset
        rw [hcancelled] at hunset
        cases hunset
      · intro hdone
        exact absurd hdone hcompleted
      · intro _ _
        rfl
    · refine ⟨by simp, h.entries.apart, ?_, ?_⟩
      · intro entry hentry
        cases hentry
      · intro a ha
        cases ha
    · intro waker hwaker
      rcases h.registered waker hwaker with hin | ⟨id, hstored⟩
      · exact .inl (hpromised (Or.inl hin : _ ∨ (0, waker) ∈ s.waiters))
      · exact .inl (hpromised (.inr hstored))
    · intro wait hwait hlive waker hpending
      exact .inl (hpromised (h.waits wait hwait hlive waker hpending))
  · cases hstep

/-- A wake-up keeps every promise. -/
theorem wake_sound (h : TokenSound s) (hstep : s.wake = some s') : TokenSound s' := by
  unfold Token.wake at hstep
  split at hstep
  · rename_i id waker rest hwaking
    obtain rfl := Option.some_inj.mp hstep
    have hpromised : ∀ {other}, Promised s other →
        Promised { s with
          cancelling := some (.waking rest)
          woken := waker :: s.woken } other := by
      rintro other (hwoken | ⟨id', hid⟩)
      · exact .inl (List.mem_cons_of_mem _ hwoken)
      · rw [stillWaking, hwaking] at hid
        rcases List.mem_cons.mp hid with heq | hrest
        · left
          rw [(Prod.mk.inj heq).2]
          exact List.mem_cons_self
        · exact .inr ⟨id', hrest⟩
    constructor
    · constructor
      · intro hunset
        have hnone := (h.stages.unset hunset).1
        rw [hwaking] at hnone
        cases hnone
      · intro hdone
        have hnone := h.stages.completed hdone
        rw [hwaking] at hnone
        cases hnone
      · intro hflag _
        apply h.stages.taken hflag
        rw [hwaking]
        simp
    · exact h.entries
    · intro other hother
      exact (h.registered other hother).imp_left hpromised
    · intro wait hwait hlive other hpending
      exact (h.waits wait hwait hlive other hpending).imp_left hpromised
  · cases hstep

theorem cancelReturns_sound (h : TokenSound s) (hstep : s.cancelReturns = some s') :
    TokenSound s' := by
  unfold Token.cancelReturns at hstep
  split at hstep
  · rename_i hwaking
    obtain rfl := Option.some_inj.mp hstep
    have hpromised : ∀ {waker}, Promised s waker →
        Promised { s with cancelling := none, completed := true } waker := by
      rintro waker (hwoken | ⟨id, hid⟩)
      · exact .inl hwoken
      · rw [stillWaking, hwaking] at hid
        cases hid
    constructor
    · constructor
      · intro hunset
        have hnone := (h.stages.unset hunset).1
        rw [hwaking] at hnone
        cases hnone
      · intro _
        rfl
      · intro hflag _
        apply h.stages.taken hflag
        rw [hwaking]
        simp
    · exact h.entries
    · intro waker hwaker
      exact (h.registered waker hwaker).imp_left hpromised
    · intro wait hwait hlive waker hpending
      exact (h.waits wait hwait hlive waker hpending).imp_left hpromised
  · cases hstep

/-! ### Steps of `register_waker` -/

theorem wakeByRef_sound (waker : W) (h : TokenSound s) : TokenSound (s.wakeByRef waker) := by
  have hpromised : ∀ {other}, Promised s other → Promised (s.wakeByRef waker) other := by
    rintro other (hwoken | hid)
    · exact .inl (List.mem_cons_of_mem _ hwoken)
    · exact .inr hid
  constructor
  · exact ⟨h.stages.unset, h.stages.completed, h.stages.taken⟩
  · exact h.entries.grow
  · intro other hother
    rcases List.mem_cons.mp hother with rfl | hold
    · exact .inl (.inl List.mem_cons_self)
    · exact (h.registered other hold).imp_left hpromised
  · intro wait hwait hlive other hpending
    exact (h.waits wait hwait hlive other hpending).imp_left hpromised

/-- The calls under way are not in the invariant. -/
theorem registering_sound (registering : List W) (h : TokenSound s) :
    TokenSound { s with registering } :=
  ⟨⟨h.stages.unset, h.stages.completed, h.stages.taken⟩, h.entries, h.registered, h.waits⟩

theorem register_sound [DecidableEq W] {waker : W} (h : TokenSound s)
    (hflag : s.cancelled = false)
    (hfresh : (∀ entry ∈ s.waiters, entry.2 ≠ waker) → FreshId s) :
    TokenSound (s.register waker) := by
  unfold Token.register
  split_ifs with hstored
  · constructor
    · exact ⟨h.stages.unset, h.stages.completed, h.stages.taken⟩
    · exact h.entries.grow
    · intro other hother
      rcases List.mem_cons.mp hother with rfl | hold
      · obtain ⟨entry, hentry, heq⟩ := List.any_eq_true.mp hstored
        right
        refine ⟨entry.1, ?_⟩
        rw [← of_decide_eq_true heq]
        exact hentry
      · exact h.registered other hold
    · exact h.waits
  · have hnew : ∀ entry ∈ s.waiters, entry.2 ≠ waker := by
      intro entry hentry heq
      exact hstored (List.any_eq_true.mpr ⟨entry, hentry, decide_eq_true heq⟩)
    obtain ⟨hentries, hwaits⟩ := hfresh hnew
    constructor
    · refine ⟨h.stages.unset, h.stages.completed, ?_⟩
      intro hset
      rw [hflag] at hset
      cases hset
    · exact h.entries.push hentries hwaits hnew
    · intro other hother
      rcases List.mem_cons.mp hother with rfl | hold
      · exact .inr ⟨_, List.mem_append_right _ (List.mem_singleton_self _)⟩
      · rcases h.registered other hold with hpromised | ⟨id, hid⟩
        · exact .inl hpromised
        · exact .inr ⟨id, List.mem_append_left _ hid⟩
    · intro wait hwait hlive other hpending
      rcases h.waits wait hwait hlive other hpending with hpromised | hin
      · exact .inl hpromised
      · exact .inr (List.mem_append_left _ hin)

/-! ### Steps of a wait -/

theorem makeWait_sound (h : TokenSound s) (hfresh : FreshId s) : TokenSound s.makeWait := by
  constructor
  · exact ⟨h.stages.unset, h.stages.completed, h.stages.taken⟩
  · exact h.entries.addWait hfresh.1 hfresh.2
  · exact h.registered
  · intro wait hwait hlive waker hpending
    rcases List.mem_append.mp hwait with hold | hlast
    · exact h.waits wait hold hlive waker hpending
    · obtain rfl := List.mem_singleton.mp hlast
      cases hpending

/-- A wait goes on and stores nothing. -/
theorem setWait_sound {i : Nat} {wait wait' : Wait W} (h : TokenSound s)
    (hi : s.waits[i]? = some wait) (hid : wait'.waiterId = wait.waiterId)
    (hlive : Live wait' → Live wait)
    (hpolled : livePolled wait = true → Live wait' → livePolled wait' = true)
    (hgone : ¬ Live wait' → ∀ entry ∈ s.waiters, entry.1 ≠ wait.waiterId)
    (hpending : ∀ waker, wait'.polled = .pending waker → wait.polled = .pending waker) :
    TokenSound (s.setWait i wait') := by
  constructor
  · exact ⟨h.stages.unset, h.stages.completed, h.stages.taken⟩
  · exact h.entries.setWait hi hid hlive hpolled hgone
  · exact h.registered
  · intro other hother hotherLive waker hwaker
    rcases List.mem_or_eq_of_mem_set hother with hold | rfl
    · exact h.waits other hold hotherLive waker hwaker
    · rw [hid]
      exact h.waits wait (List.mem_of_getElem? hi) (hlive hotherLive) waker (hpending waker hwaker)

theorem poll_sound {i : Nat} {waker : W} (h : TokenSound s) (hstep : s.poll i waker = some s') :
    TokenSound s' := by
  unfold Token.poll at hstep
  split at hstep
  · rename_i wait hi
    split at hstep
    · rename_i hidle
      obtain rfl := Option.some_inj.mp hstep
      split_ifs
      · refine setWait_sound h hi ?_ ?_ ?_ ?_ ?_
        · rfl
        · exact fun hlive => hlive
        · intro _ hlive
          exact livePolled_iff.mpr ⟨hlive, by simp⟩
        · intro hnot
          exact absurd (show Live wait by simp [Live, hidle]) hnot
        · intro waker hready
          cases hready
      · refine setWait_sound h hi ?_ ?_ ?_ ?_ ?_
        · rfl
        · intro _
          simp [Live, hidle]
        · intro hpolled hlive
          exact livePolled_iff.mpr ⟨hlive, (livePolled_iff.mp hpolled).2⟩
        · intro hnot
          exact absurd (by simp [Live]) hnot
        · exact fun _ hwaker => hwaker
    · cases hstep
  · cases hstep

theorem pollLocked_sound {i : Nat} (h : TokenSound s) (hstep : s.pollLocked i = some s')
    (hkept : ∀ wait ∈ s.waits[i]?, s.cancelled = false →
      ∀ old ∈ s.registered, wait.phase ≠ .polling old → StoredTwice s wait.waiterId old) :
    TokenSound s' := by
  unfold Token.pollLocked at hstep
  split at hstep
  · rename_i wait hi
    split at hstep
    · rename_i waker hphase
      obtain rfl := Option.some_inj.mp hstep
      split_ifs with hflag
      · refine setWait_sound h hi ?_ ?_ ?_ ?_ ?_
        · rfl
        · intro _
          simp [Live, hphase]
        · intro _ hlive
          exact livePolled_iff.mpr ⟨hlive, by simp⟩
        · intro hnot
          exact absurd (by simp [Live]) hnot
        · intro waker hready
          cases hready
      · have hflag' : s.cancelled = false := Bool.eq_false_iff.mpr hflag
        have hlive : Live wait := by simp [Live, hphase]
        let wait' : Wait W := { wait with polled := .pending waker, phase := .idle }
        have hlive' : Live wait' := by simp [Live, wait']
        have hpolled' : livePolled wait' = true := livePolled_iff.mpr ⟨hlive', by simp [wait']⟩
        have hids := h.entries.ids
        -- an entry of another id is kept
        have hother : ∀ {id other}, (id, other) ∈ s.waiters → id ≠ wait.waiterId →
            (id, other) ∈ Token.storeWaker wait.waiterId waker s.waiters :=
          fun hin hne => (mem_storeWaker hids).mpr (.inr ⟨hin, hne⟩)
        have hnew : (wait.waiterId, waker) ∈ Token.storeWaker wait.waiterId waker s.waiters :=
          (mem_storeWaker hids).mpr (.inl rfl)
        constructor
        · refine ⟨h.stages.unset, h.stages.completed, ?_⟩
          intro hset
          exact absurd hset hflag
        · have hset : Entries s.waiters (s.waits.set i wait') s.registered :=
            h.entries.setWait hi rfl (fun _ => hlive) (fun _ _ => hpolled')
              (fun hnot => absurd hlive' hnot)
          have hstored : Entries (Token.storeWaker wait'.waiterId waker s.waiters)
              (s.waits.set i wait') s.registered := hset.store (mem_set_self hi) hpolled'
          exact hstored
        · intro other hmem
          rcases h.registered other hmem with hpromised | ⟨id, hid⟩
          · exact .inl hpromised
          · right
            by_cases heq : other = waker
            · rw [heq]
              exact ⟨_, hnew⟩
            · by_cases hown : id = wait.waiterId
              · have hphase' : wait.phase ≠ .polling other := by
                  rw [hphase]
                  intro hsame
                  exact heq (WaitPhase.polling.inj hsame).symm
                rw [hown] at hid
                obtain ⟨⟨id', _⟩, hid', hne, rfl⟩ := hkept wait hi hflag' other hmem hphase' hid
                exact ⟨id', hother hid' hne⟩
              · exact ⟨id, hother hid hown⟩
        · intro other hmem hotherLive old hpending
          obtain ⟨j, hj⟩ := List.mem_iff_getElem?.mp hmem
          by_cases heq : i = j
          · subst heq
            rw [List.getElem?_set_self (List.getElem?_eq_some_iff.mp hi).1] at hj
            obtain rfl := Option.some_inj.mp hj
            obtain rfl := Polled.pending.inj hpending
            exact .inr hnew
          · rw [List.getElem?_set_ne heq] at hj
            rcases h.waits other (List.mem_of_getElem? hj) hotherLive old hpending with
              hpromised | hin
            · exact .inl hpromised
            · right
              apply hother hin
              intro hsame
              exact heq (h.entries.apart i j wait other hi hj hlive hotherLive hsame.symm)
    · cases hstep
  · cases hstep

theorem drop_sound {i : Nat} (h : TokenSound s) (hstep : s.drop i = some s')
    (htaken : ∀ wait ∈ s.waits[i]?, s.cancelled = true →
      ∀ entry ∈ s.waiters, entry.1 ≠ wait.waiterId) : TokenSound s' := by
  unfold Token.drop at hstep
  split at hstep
  · rename_i wait hi
    split at hstep
    · rename_i hidle
      obtain rfl := Option.some_inj.mp hstep
      refine setWait_sound h hi ?_ ?_ ?_ ?_ ?_
      · rfl
      · intro _
        simp [Live, hidle]
      · intro hpolled hlive
        exact livePolled_iff.mpr ⟨hlive, (livePolled_iff.mp hpolled).2⟩
      · intro hnot
        apply htaken wait hi
        by_contra hflag
        exact hnot (by simp [Live, hflag])
      · exact fun _ hwaker => hwaker
    · cases hstep
  · cases hstep

/-- The entry of a dropped wait is removed. -/
theorem dropLocked_sound {i : Nat} (h : TokenSound s) (hstep : s.dropLocked i = some s')
    (hkept : ∀ wait ∈ s.waits[i]?, ∀ old ∈ s.registered, StoredTwice s wait.waiterId old) :
    TokenSound s' := by
  unfold Token.dropLocked at hstep
  split at hstep
  · rename_i wait hi
    split at hstep
    · rename_i hphase
      obtain rfl := Option.some_inj.mp hstep
      have hlive : Live wait := by simp [Live, hphase]
      have hother : ∀ {id other}, (id, other) ∈ s.waiters → id ≠ wait.waiterId →
          (id, other) ∈ s.waiters.filter fun entry => entry.1 ≠ wait.waiterId :=
        fun hin hne => List.mem_filter.mpr ⟨hin, decide_eq_true hne⟩
      constructor
      · refine ⟨h.stages.unset, h.stages.completed, ?_⟩
        intro hset hnot
        change s.waiters.filter _ = []
        rw [h.stages.taken hset hnot]
        rfl
      · refine (h.entries.filter _).setWait hi rfl ?_ ?_ ?_
        · exact fun _ => hlive
        · intro hpolled hgone
          exact absurd rfl hgone
        · intro _ entry hentry
          exact of_decide_eq_true (List.mem_filter.mp hentry).2
      · intro other hmem
        rcases h.registered other hmem with hpromised | ⟨id, hid⟩
        · exact .inl hpromised
        · right
          by_cases hown : id = wait.waiterId
          · rw [hown] at hid
            obtain ⟨⟨id', _⟩, hid', hne, rfl⟩ := hkept wait hi other hmem hid
            exact ⟨id', hother hid' hne⟩
          · exact ⟨id, hother hid hown⟩
      · intro other hmem hotherLive old hpending
        obtain ⟨j, hj⟩ := List.mem_iff_getElem?.mp hmem
        by_cases heq : i = j
        · subst heq
          rw [List.getElem?_set_self (List.getElem?_eq_some_iff.mp hi).1] at hj
          obtain rfl := Option.some_inj.mp hj
          exact absurd rfl hotherLive
        · rw [List.getElem?_set_ne heq] at hj
          rcases h.waits other (List.mem_of_getElem? hj) hotherLive old hpending with
            hpromised | hin
          · exact .inl hpromised
          · right
            apply hother hin
            intro hsame
            exact heq (h.entries.apart i j wait other hi hj hlive hotherLive hsame.symm)
    · cases hstep
  · cases hstep

/-! ### Runs -/

variable [DecidableEq W]

/-- **A step** that loses none keeps the invariant. -/
theorem token_step {label : TokenStep W} (h : TokenSound s) (hstep : s.step label = some s')
    (hnone : LosesNone ⟨s, label, s'⟩) : TokenSound s' := by
  cases label with
  | cancel =>
    obtain rfl := Option.some_inj.mp hstep
    exact cancel_sound h hnone
  | take => exact take_sound h hstep
  | wake => exact wake_sound h hstep
  | cancelReturns => exact cancelReturns_sound h hstep
  | registerWaker waker =>
    obtain rfl := Option.some_inj.mp hstep
    unfold Token.registerWaker
    split_ifs
    · exact wakeByRef_sound waker h
    · exact registering_sound _ h
  | registerLocked call =>
    change s.registerLocked call = some s' at hstep
    unfold Token.registerLocked at hstep
    split at hstep
    · rename_i waker hcall
      obtain rfl := Option.some_inj.mp hstep
      have hrest := registering_sound (s.registering.eraseIdx call) h
      dsimp only
      split_ifs with hflag
      · exact wakeByRef_sound waker hrest
      · have hflag' := Bool.eq_false_iff.mpr hflag
        exact register_sound hrest hflag' (hnone waker hcall hflag')
    · cases hstep
  | makeWait =>
    obtain rfl := Option.some_inj.mp hstep
    exact makeWait_sound h hnone
  | poll i waker => exact poll_sound h hstep
  | pollLocked i => exact pollLocked_sound h hstep hnone
  | drop i => exact drop_sound h hstep hnone
  | dropLocked i => exact dropLocked_sound h hstep hnone

omit [DecidableEq W] in
theorem new_sound : TokenSound ({} : Token W) := by
  constructor
  · refine ⟨fun _ => ⟨rfl, rfl⟩, ?_, ?_⟩
    · intro hdone
      cases hdone
    · intro hset
      cases hset
  · constructor
    · exact List.nodup_nil
    · intro i j a b ha
      cases ha
    · intro entry hentry
      cases hentry
    · intro a ha
      cases ha
  · intro waker hwaker
    cases hwaker
  · intro wait hwait
    cases hwait

omit [DecidableEq W] in
/-- A poll behind the flag is ready. -/
theorem poll_ready {i : Nat} {waker : W} (hflag : s.cancelled = true)
    (hstep : s.poll i waker = some s' ∨ s.pollLocked i = some s') :
    ∃ wait, s'.waits[i]? = some wait ∧ wait.polled = .ready := by
  have hset : ∀ {wait wait' : Wait W}, s.waits[i]? = some wait → wait'.polled = .ready →
      ∃ wait, (s.setWait i wait').waits[i]? = some wait ∧ wait.polled = .ready := by
    intro wait wait' hi hready
    refine ⟨wait', ?_, hready⟩
    rw [Token.setWait, List.getElem?_set_self (List.getElem?_eq_some_iff.mp hi).1]
  rcases hstep with hpoll | hlocked
  · unfold Token.poll at hpoll
    split at hpoll
    · rename_i wait hi
      split at hpoll
      · obtain rfl := Option.some_inj.mp hpoll
        rw [if_pos hflag]
        exact hset hi rfl
      · cases hpoll
    · cases hpoll
  · unfold Token.pollLocked at hlocked
    split at hlocked
    · rename_i wait hi
      split at hlocked
      · obtain rfl := Option.some_inj.mp hlocked
        rw [if_pos hflag]
        exact hset hi rfl
      · cases hlocked
    · cases hlocked

/-- A state that meets the invariant owes nothing. -/
theorem TokenSound.wakesKept (h : TokenSound s) : WakesKept s := by
  have hset : s.completed = true → s.cancelled = true := by
    intro hdone
    by_contra hflag
    rw [(h.stages.unset (Bool.eq_false_iff.mpr hflag)).2] at hdone
    cases hdone
  have hwoken : s.completed = true → ∀ {id waker},
      Promised s waker ∨ (id, waker) ∈ s.waiters → waker ∈ s.woken := by
    rintro hdone id waker ((hin | ⟨id', hid⟩) | hstored)
    · exact hin
    · rw [stillWaking, h.stages.completed hdone] at hid
      cases hid
    · have hnot : s.cancelling ≠ some .taking := by
        rw [h.stages.completed hdone]
        simp
      rw [h.stages.taken (hset hdone) hnot] at hstored
      cases hstored
  constructor
  · intro hdone waker hwaker
    rcases h.registered waker hwaker with hpromised | ⟨id, hid⟩
    · exact hwoken hdone (Or.inl hpromised : _ ∨ (0, waker) ∈ s.waiters)
    · exact hwoken hdone (.inr hid)
  · intro hdone wait hwait hlive waker hpending
    exact hwoken hdone (h.waits wait hwait hlive waker hpending)
  · intro hdone i waker s' hstep
    exact poll_ready (hset hdone) hstep
  · exact h.entries.bound

/-- **No lost cancellation wake-up.**  In a run from a new token in which no step loses a
    waker, every state owes nothing. -/
theorem wakes_kept {past : List (Transition (Token W) (TokenStep W))}
    (hrun : Execution (fun s label s' => s.step label = some s') ({} : Token W) past s)
    (hnone : ∀ t ∈ past, LosesNone t) : WakesKept s := by
  have hsound : TokenSound s :=
    hrun.invariant new_sound (fun s label s' hstep hnone hs => token_step hs hstep hnone) hnone
  exact hsound.wakesKept

end

/-! ### Two runs -/

/-- A waker that a wait has stored is registered, and the wait is dropped. -/
def sharedWaker : List (TokenStep Nat) :=
  [.makeWait, .poll 0 7, .pollLocked 0, .registerWaker 7, .registerLocked 0, .drop 0,
    .dropLocked 0, .cancel, .take, .cancelReturns]

theorem sharedWaker_enabled :
    (trail Token.step ({} : Token Nat) sharedWaker).isSome = true := by
  decide

/-- The registered waker is never woken. -/
theorem wakes_lost : ¬ ∀ (past : List (Transition (Token Nat) (TokenStep Nat))) (s : Token Nat),
    Execution (fun s label s' => s.step label = some s') {} past s → WakesKept s := by
  intro hkept
  have hwoken := (hkept _ _ (trail_get sharedWaker_enabled)).registered (by decide) 7 (by decide)
  exact absurd hwoken (by decide)

/-- A wait and a registration, each with a waker of its own. -/
def twoWakers : List (TokenStep Nat) :=
  [.makeWait, .poll 0 7, .pollLocked 0, .registerWaker 8, .registerLocked 0, .cancel, .take,
    .wake, .wake, .cancelReturns]

theorem twoWakers_enabled :
    (trail Token.step ({} : Token Nat) twoWakers).isSome = true := by
  decide

/-- Both are woken. -/
theorem wakes_kept_apart : ∃ past s,
    Execution (fun s label s' => s.step label = some s') ({} : Token Nat) past s ∧
      s.completed = true ∧ s.woken = [8, 7] ∧ WakesKept s := by
  have hnone : ∀ t ∈ ((trail Token.step ({} : Token Nat) twoWakers).get twoWakers_enabled).1,
      LosesNone t := by
    decide
  refine ⟨_, _, trail_get twoWakers_enabled, ?_, ?_, ?_⟩
  · decide
  · decide
  · exact wakes_kept (trail_get twoWakers_enabled) hnone

end Tea.Contract
