/-
  Tea/Contract/EscapeTimer.lean
  =============================
  **The timer of a held escape**: a poll gives up on a begun sequence 30 ms after the first
  poll that saw its escape byte, and no timer runs when no sequence is begun.

  The branch that delivers a key with Alt does not clear the timer.  Runs in which no such
  key is delivered while the timer runs keep to it (`escape_timer_kept`); in another one the
  timer of one escape byte is left to the next (`stale_timer_fires`).
-/
import Tea.Contract.InputReads

namespace Tea.Contract

open Tea.Encoding
open Tea.Terminal

/-! ### Runs -/

/-- `timeout_until_escape` -/
def timeoutUntilEscape (d : InputDecoder) (now : Nat) : Option Nat :=
  d.escapeDeadline.map (· - now)

/-- What is done with a decoder. -/
inductive DecoderStep where
  | push (bytes : List UInt8)
  | poll (now : Nat)

/-- The clock of a poll. -/
def DecoderStep.clock : DecoderStep → Option Nat
  | .push _ => none
  | .poll now => some now

/-- A poll: its clock, the place in the input of the first byte of the buffer, the decoder
    before and after it, and the event. -/
structure PollRecord where
  now : Nat
  offset : Nat
  before : InputDecoder
  event : Option TerminalEvent
  after : InputDecoder

/-- A decoder with the number of bytes that have been pushed and the polls so far. -/
structure Watched where
  decoder : InputDecoder := {}
  pushed : Nat := 0
  polls : List PollRecord := []

/-- The place in the input of the first byte of the buffer. -/
def Watched.offset (w : Watched) : Nat := w.pushed - w.decoder.bytes.length

def Watched.step (w : Watched) : DecoderStep → Watched
  | .push bytes =>
    { w with decoder := w.decoder.push bytes, pushed := w.pushed + bytes.length }
  | .poll now =>
    { w with
      decoder := (w.decoder.nextEvent now).2
      polls := w.polls ++ [{
        now, offset := w.offset, before := w.decoder
        event := (w.decoder.nextEvent now).1, after := (w.decoder.nextEvent now).2 }] }

/-- A run of a new decoder. -/
def watch (steps : List DecoderStep) : Watched := steps.foldl Watched.step {}

/-! ### The timer -/

/-- The buffer is a proper beginning of a known sequence. -/
def HeldEscape (bytes : List UInt8) : Prop := bytes ≠ [] ∧ Encoding.Begun codes bytes

/-- The poll saw an escape byte at the place of the input. -/
def PollRecord.saw (poll : PollRecord) (offset : Nat) : Bool :=
  poll.offset = offset && poll.before.bytes.head? = some 0x1b

/-- The clock of the first poll that saw the escape byte at the place. -/
def firstSeen (polls : List PollRecord) (offset : Nat) : Option Nat :=
  (polls.find? (·.saw offset)).map (·.now)

/-- An event made of a held escape comes 30 ms after its first poll at least; no timer runs
    behind a poll that leaves no held escape; and one that runs while a poll delivers nothing
    has not expired. -/
structure KeepsTime (polls : List PollRecord) (poll : PollRecord) : Prop where
  gaveUp : HeldEscape poll.before.bytes → poll.event ≠ none →
    ∃ first, firstSeen polls poll.offset = some first ∧ first + 30 ≤ poll.now
  stopped : ¬ HeldEscape poll.after.bytes → ∀ now, timeoutUntilEscape poll.after now = none
  unexpired : poll.event = none → ∀ remaining,
    timeoutUntilEscape poll.after poll.now = some remaining → 0 < remaining

/-- The buffer begins with the bytes of a key with Alt. -/
def AltInFront (bytes : List UInt8) : Prop :=
  ∃ byte rest, bytes = 0x1b :: byte :: rest ∧ 0x20 ≤ byte ∧ byte ≠ 0x5b ∧ byte ≠ 0x4f

/-- A poll outside of a paste, which leaves none open, and which delivers no key with Alt
    while the timer runs. -/
structure Undisturbed (d : InputDecoder) : Prop where
  outside : d.paste = false
  whole : PASTE_START <+: d.bytes → meaning d.bytes ≠ none
  untimed : AltInFront d.bytes → d.escapeDeadline = none

/-! ### One poll -/

variable {d : InputDecoder} {now : Nat}

theorem HeldEscape.front {bytes : List UInt8} (h : HeldEscape bytes) :
    bytes.head? = some 0x1b := by
  obtain ⟨hne, code, hcode, hbegins, -⟩ := h
  have hall : ∀ code ∈ codes, code.1.head? = some 0x1b := by decide
  obtain ⟨more, hmore⟩ := hbegins
  cases bytes with
  | nil => exact absurd rfl hne
  | cons byte bytes =>
    have hhead := hall code hcode
    rw [← hmore] at hhead
    exact hhead

/-- Behind a held escape only the byte of a sequence is there. -/
theorem HeldEscape.second {byte : UInt8} {rest : List UInt8}
    (h : HeldEscape (0x1b :: byte :: rest)) : byte = 0x5b ∨ byte = 0x4f := by
  obtain ⟨-, code, hcode, hbegins, -⟩ := h
  have hall : ∀ code ∈ codes, code.1[1]? = some 0x5b ∨ code.1[1]? = some 0x4f := by
    decide
  obtain ⟨more, hmore⟩ := hbegins
  have hbyte : code.1[1]? = some byte := by rw [← hmore]; rfl
  rcases hall code hcode with h | h
  · exact .inl (Option.some.inj (hbyte.symm.trans h))
  · exact .inr (Option.some.inj (hbyte.symm.trans h))

/-- A held escape that is early is kept. -/
theorem nextEvent_held (hpaste : d.paste = false) (hheld : HeldEscape d.bytes)
    (hearly : Early now d) : d.nextEvent now = (none, d.armed now) := by
  have hfront := hheld.front
  rw [InputDecoder.nextEvent, hpaste]
  cases hbytes : d.bytes with
  | nil => exact absurd hbytes hheld.1
  | cons first rest =>
    rw [hbytes] at hfront
    cases hfront
    exact escapeEvent_begun hearly hheld.2

/-- A held escape whose deadline has come is a key of its own. -/
theorem nextEvent_expired (hpaste : d.paste = false) (hheld : HeldEscape d.bytes)
    {deadline : Nat} (hdeadline : d.escapeDeadline = some deadline) (hle : deadline ≤ now) :
    d.nextEvent now = (some (key .esc), { d.popFront with escapeDeadline := none }) := by
  have hwaits : d.waits now = false := by
    rw [InputDecoder.waits, hdeadline]
    simpa using hle
  have harmed : d.armed now = d := by
    rw [InputDecoder.armed, hdeadline]
    cases d
    cases hdeadline
    rfl
  have hfront := hheld.front
  rw [InputDecoder.nextEvent, hpaste]
  cases hbytes : d.bytes with
  | nil => exact absurd hbytes hheld.1
  | cons first rest =>
    rw [hbytes] at hfront
    cases hfront
    change d.escapeEvent now = _
    rw [InputDecoder.escapeEvent]
    by_cases hlen : d.bytes.length = 1
    · rw [if_pos hlen, hwaits]
      rfl
    · have hlookup := lookup_of_begun codes_prefixFree hheld.2
      rw [if_neg hlen, escapeSequence_of_none hlookup]
      simp only [escapeSequencePrefix_iff.mpr hheld.2, if_true, hwaits, Bool.false_eq_true,
        if_false, harmed]
      cases rest with
      | nil =>
        rw [hbytes] at hlen
        exact absurd rfl hlen
      | cons byte rest =>
        have hsecond := hheld
        rw [hbytes] at hsecond
        rw [InputDecoder.looseEscape, hbytes]
        rcases hsecond.second with rfl | rfl <;> rfl

/-- What does not begin a sequence says what it is, unless it does not begin with an escape. -/
theorem meaning_of_escape (hundisturbed : Undisturbed d) (hheld : ¬ HeldEscape d.bytes)
    (hfront : d.bytes.head? = some 0x1b) : meaning d.bytes ≠ none := by
  have hwhole := hundisturbed.whole
  cases hbytes : d.bytes with
  | nil =>
    rw [hbytes] at hfront
    cases hfront
  | cons first rest =>
    rw [hbytes] at hfront hheld hwhole
    cases hfront
    have hbegun : ¬ Encoding.Begun codes (0x1b :: rest) := fun h => hheld ⟨List.cons_ne_nil _ _, h⟩
    intro hnone
    have hescape : escapeMeaning (0x1b :: rest) = none := hnone
    cases hlookup : lookup codes (0x1b :: rest) with
    | none => exact hbegun (not_begun_of_silent hescape hlookup)
    | some code =>
      obtain ⟨sequence, stands⟩ := code
      cases stands with
      | none =>
        obtain ⟨hmem, hbegins⟩ := lookup_some hlookup
        have hstart : sequence = PASTE_START := (codes_length hmem).2 rfl
        rw [hstart] at hbegins
        exact hwhole hbegins hnone
      | some event =>
        rw [escapeMeaning, hlookup] at hescape
        cases hescape

/-- What does not begin a sequence is not taken for an open paste. -/
theorem escapeSequence_idle (hundisturbed : Undisturbed d) {d' : InputDecoder}
    (h : d.escapeSequence = (none, d')) : d' = d := by
  cases hlookup : lookup codes d.bytes with
  | none =>
    rw [escapeSequence_of_none hlookup] at h
    exact (congrArg Prod.snd h).symm
  | some code =>
    obtain ⟨sequence, stands⟩ := code
    cases stands with
    | some event =>
      rw [escapeSequence_of_key hlookup] at h
      cases h
    | none =>
      exfalso
      obtain ⟨hmem, hbegins⟩ := lookup_some hlookup
      have hstart : sequence = PASTE_START := (codes_length hmem).2 rfl
      rw [hstart] at hbegins
      have hwhole := hundisturbed.whole hbegins
      rw [← start_append_drop hbegins, meaning_paste] at hwhole
      rw [escapeSequence_of_start hbegins] at h
      have hspec := pasteEvent_spec
        (d := { d with bytes := d.bytes.drop PASTE_START.length, paste := true }) rfl
      cases hpaste : pasteMeaning (d.bytes.drop PASTE_START.length) with
      | none => exact hwhole hpaste
      | some found =>
        simp only [hpaste] at hspec
        obtain ⟨after, hevent, -⟩ := hspec
        rw [hevent] at h
        cases h

/-- The timer is stopped by a poll of what is not held. -/
theorem deadline_of_other (hundisturbed : Undisturbed d) (hheld : ¬ HeldEscape d.bytes)
    (htimed : d.escapeDeadline ≠ none → d.bytes.head? = some 0x1b) :
    (d.nextEvent now).2.escapeDeadline = none := by
  rw [InputDecoder.nextEvent, hundisturbed.outside]
  cases hbytes : d.bytes with
  | nil =>
    by_contra hne
    have hfront := htimed hne
    rw [hbytes] at hfront
    cases hfront
  | cons first rest =>
    by_cases hescape : first = 0x1b
    · subst hescape
      change (d.escapeEvent now).2.escapeDeadline = none
      have hbegun : ¬ Encoding.Begun codes d.bytes := by
        intro h
        exact hheld ⟨by rw [hbytes]; exact List.cons_ne_nil _ _, h⟩
      have hunbegun : d.escapeSequencePrefix = false := by
        rw [← Bool.not_eq_true, escapeSequencePrefix_iff]
        exact hbegun
      rw [InputDecoder.escapeEvent]
      split
      next hlen =>
        exfalso
        rw [hbytes, List.length_cons, Nat.add_eq_right, List.length_eq_zero_iff] at hlen
        rw [hbytes, hlen] at hbegun
        exact hbegun begun_escape
      next =>
        split
        next => rfl
        next d' hsequence =>
          obtain rfl := escapeSequence_idle hundisturbed hsequence
          rw [hunbegun]
          change d'.looseEscape.2.escapeDeadline = none
          rw [InputDecoder.looseEscape]
          split
          next first' byte rest' hbytes' =>
            split
            next hloose =>
              refine hundisturbed.untimed ⟨byte, rest', ?_, hloose⟩
              rw [hbytes] at hbytes' ⊢
              rw [(List.cons.inj hbytes').2]
            next => rfl
          next => rfl
    · simp only [Bool.false_eq_true, if_false, if_neg hescape]
      split
      · rfl
      · exact escapeDeadline_nextUtf8

/-- A poll of what is not held makes its event of the bytes in front; one that makes none
    keeps all bytes, and they do not begin with an escape. -/
theorem nextEvent_other (hundisturbed : Undisturbed d) (hheld : ¬ HeldEscape d.bytes)
    (htimed : d.escapeDeadline ≠ none → d.bytes.head? = some 0x1b) :
    ((d.nextEvent now).1 ≠ none ∧
      (d.nextEvent now).2.bytes.length < d.bytes.length) ∨
    ((d.nextEvent now).1 = none ∧ (d.nextEvent now).2.bytes = d.bytes ∧
      d.bytes.head? ≠ some 0x1b) := by
  have hsame := held_of_not_paste hundisturbed.outside
  cases hmeaning : meaning d.bytes with
  | some found =>
    left
    obtain ⟨event, n⟩ := found
    obtain ⟨hpos, hle⟩ := meaning_incremental.consumes hmeaning
    rw [← hsame] at hmeaning
    obtain ⟨d', hevent, hheld', hpaste'⟩ := nextEvent_some now hmeaning
    rw [held_of_not_paste hpaste', hsame] at hheld'
    rw [hevent]
    refine ⟨by simp, ?_⟩
    simp only [hheld', List.length_drop]
    omega
  | none =>
    right
    have hfront : d.bytes.head? ≠ some 0x1b := by
      intro hfront
      exact meaning_of_escape hundisturbed hheld hfront hmeaning
    have hearly : Early now d := by
      intro deadline hdeadline
      have hne : d.escapeDeadline ≠ none := by simp [hdeadline]
      exact absurd (htimed hne) hfront
    have hwhole : ¬ PASTE_START <+: d.bytes := by
      intro hstart
      exact hundisturbed.whole hstart hmeaning
    have huntorn : ¬ Torn d := by
      rintro ⟨-, text, hbytes, -⟩
      exact hwhole ⟨text, hbytes.symm⟩
    rw [← hsame] at hmeaning
    obtain ⟨d', hevent, hheld', hpaste'⟩ := @nextEvent_none d now hearly hmeaning huntorn
    have houtside : d'.paste = false := by
      rw [hpaste', hsame, ← Bool.not_eq_true, List.isPrefixOf_iff_prefix]
      exact hwhole
    rw [held_of_not_paste houtside, hsame] at hheld'
    rw [hevent]
    exact ⟨rfl, hheld', hfront⟩

/-! ### Polls that have seen a byte -/

theorem firstSeen_append {polls : List PollRecord} {offset first : Nat}
    (h : firstSeen polls offset = some first) (more : List PollRecord) :
    firstSeen (polls ++ more) offset = some first := by
  rw [firstSeen, Option.map_eq_some_iff] at h ⊢
  obtain ⟨poll, hpoll, hnow⟩ := h
  exact ⟨poll, by rw [List.find?_append, hpoll, Option.some_or], hnow⟩

theorem firstSeen_snoc {polls : List PollRecord} {offset : Nat}
    (h : firstSeen polls offset = none) (poll : PollRecord) :
    firstSeen (polls ++ [poll]) offset = if poll.saw offset then some poll.now else none := by
  rw [firstSeen, Option.map_eq_none_iff] at h
  rw [firstSeen, List.find?_append, h, Option.none_or, List.find?_singleton]
  split <;> rfl

/-- A byte that lies behind every poll has not been seen. -/
theorem firstSeen_ahead {polls : List PollRecord} {offset : Nat}
    (h : ∀ poll ∈ polls, poll.offset < offset) : firstSeen polls offset = none := by
  rw [firstSeen, Option.map_eq_none_iff, List.find?_eq_none]
  intro poll hpoll hsaw
  rw [PollRecord.saw, Bool.and_eq_true, decide_eq_true_eq] at hsaw
  exact absurd hsaw.1 (Nat.ne_of_lt (h poll hpoll))

/-! ### Runs keep the timer -/

/-- The timer runs for the escape byte in front, from the first poll that saw it. -/
structure Tracked (w : Watched) : Prop where
  within : w.decoder.bytes.length ≤ w.pushed
  behind : ∀ poll ∈ w.polls, poll.offset ≤ w.offset
  idle : w.decoder.escapeDeadline = none → firstSeen w.polls w.offset = none
  timed : ∀ deadline, w.decoder.escapeDeadline = some deadline →
    w.decoder.bytes.head? = some 0x1b ∧
      ∃ first, firstSeen w.polls w.offset = some first ∧ deadline = first + 30

variable {w : Watched}

theorem Tracked.new : Tracked {} where
  within := by simp
  behind := by simp
  idle := by simp [firstSeen]
  timed := by simp

theorem offset_push (h : Tracked w) (bytes : List UInt8) :
    (w.step (.push bytes)).offset = w.offset := by
  have hwithin := h.within
  simp only [Watched.offset, Watched.step, InputDecoder.push, List.length_append]
  omega

theorem Tracked.push (h : Tracked w) (bytes : List UInt8) :
    Tracked (w.step (.push bytes)) := by
  refine ⟨?_, ?_, ?_, ?_⟩
  · have hwithin := h.within
    simp only [Watched.step, InputDecoder.push, List.length_append]
    omega
  · rw [offset_push h]
    exact h.behind
  · rw [offset_push h]
    exact h.idle
  · rw [offset_push h]
    intro deadline hdeadline
    obtain ⟨hfront, hseen⟩ := h.timed deadline hdeadline
    refine ⟨?_, hseen⟩
    simp only [Watched.step, InputDecoder.push]
    rw [List.head?_append, hfront, Option.some_or]

/-- The record that a poll adds. -/
def Watched.record (w : Watched) (now : Nat) : PollRecord :=
  { now, offset := w.offset, before := w.decoder
    event := (w.decoder.nextEvent now).1, after := (w.decoder.nextEvent now).2 }

theorem step_poll (now : Nat) :
    w.step (.poll now) =
      { w with decoder := (w.decoder.nextEvent now).2, polls := w.polls ++ [w.record now] } :=
  rfl

/-- A poll that takes bytes off and leaves no timer. -/
theorem Tracked.taken (h : Tracked w)
    (hshorter : (w.decoder.nextEvent now).2.bytes.length < w.decoder.bytes.length)
    (hdeadline : (w.decoder.nextEvent now).2.escapeDeadline = none) :
    Tracked (w.step (.poll now)) := by
  have hwithin := h.within
  have hahead : w.offset < (w.step (.poll now)).offset := by
    simp only [Watched.offset, Watched.step]
    omega
  have hbehind : ∀ poll ∈ (w.step (.poll now)).polls,
      poll.offset < (w.step (.poll now)).offset := by
    intro poll hpoll
    rw [step_poll, List.mem_append, List.mem_singleton] at hpoll
    rcases hpoll with hpoll | rfl
    · exact Nat.lt_of_le_of_lt (h.behind poll hpoll) hahead
    · exact hahead
  refine ⟨?_, ?_, ?_, ?_⟩
  · simp only [Watched.step]
    omega
  · intro poll hpoll
    exact Nat.le_of_lt (hbehind poll hpoll)
  · intro _
    exact firstSeen_ahead hbehind
  · intro deadline hsome
    rw [step_poll] at hsome
    rw [hdeadline] at hsome
    cases hsome

/-- A poll that keeps all bytes. -/
theorem Tracked.kept (h : Tracked w)
    (hbytes : (w.decoder.nextEvent now).2.bytes = w.decoder.bytes) :
    (w.step (.poll now)).offset = w.offset ∧
      (w.step (.poll now)).decoder.bytes.length ≤ (w.step (.poll now)).pushed ∧
      ∀ poll ∈ (w.step (.poll now)).polls, poll.offset ≤ (w.step (.poll now)).offset := by
  have hoffset : (w.step (.poll now)).offset = w.offset := by
    simp only [Watched.offset, Watched.step, hbytes]
  refine ⟨hoffset, ?_, ?_⟩
  · simp only [Watched.step, hbytes]
    exact h.within
  · intro poll hpoll
    rw [hoffset]
    rw [step_poll, List.mem_append, List.mem_singleton] at hpoll
    rcases hpoll with hpoll | rfl
    · exact h.behind poll hpoll
    · exact Nat.le_refl _

theorem record_saw (hfront : w.decoder.bytes.head? = some 0x1b) :
    (w.record now).saw w.offset = true := by
  simp [PollRecord.saw, Watched.record, hfront]

/-- The three ways of a poll: it waits for a held escape, it gives one up, or it is about
    something else. -/
theorem poll_cases (now : Nat) (h : Tracked w) (hundisturbed : Undisturbed w.decoder) :
    (HeldEscape w.decoder.bytes ∧ Early now w.decoder ∧
      w.decoder.nextEvent now = (none, w.decoder.armed now)) ∨
    (HeldEscape w.decoder.bytes ∧
      (∃ first, firstSeen w.polls w.offset = some first ∧ first + 30 ≤ now) ∧
      w.decoder.nextEvent now =
        (some (key .esc), { w.decoder.popFront with escapeDeadline := none })) ∨
    (¬ HeldEscape w.decoder.bytes ∧ (w.decoder.nextEvent now).2.escapeDeadline = none ∧
      (((w.decoder.nextEvent now).1 ≠ none ∧
        (w.decoder.nextEvent now).2.bytes.length < w.decoder.bytes.length) ∨
      ((w.decoder.nextEvent now).1 = none ∧
        (w.decoder.nextEvent now).2.bytes = w.decoder.bytes ∧
        w.decoder.bytes.head? ≠ some 0x1b))) := by
  by_cases hheld : HeldEscape w.decoder.bytes
  · by_cases hearly : Early now w.decoder
    · exact .inl ⟨hheld, hearly, nextEvent_held hundisturbed.outside hheld hearly⟩
    · right
      left
      simp only [Early, not_forall, Nat.not_lt] at hearly
      obtain ⟨deadline, hdeadline, hle⟩ := hearly
      obtain ⟨-, first, hseen, rfl⟩ := h.timed deadline hdeadline
      exact ⟨hheld, ⟨first, hseen, hle⟩,
        nextEvent_expired hundisturbed.outside hheld hdeadline hle⟩
  · right
    right
    have htimed : w.decoder.escapeDeadline ≠ none → w.decoder.bytes.head? = some 0x1b := by
      intro hne
      obtain ⟨deadline, hdeadline⟩ := Option.ne_none_iff_exists'.mp hne
      exact (h.timed deadline hdeadline).1
    exact ⟨hheld, deadline_of_other hundisturbed hheld htimed,
      nextEvent_other hundisturbed hheld htimed⟩

theorem Tracked.poll (h : Tracked w) (hundisturbed : Undisturbed w.decoder) :
    Tracked (w.step (.poll now)) := by
  rcases poll_cases now h hundisturbed with
    ⟨hheld, -, hevent⟩ | ⟨hheld, -, hevent⟩ | ⟨-, hdeadline, ⟨-, hshorter⟩ | ⟨-, hbytes, hother⟩⟩
  · have hbytes : (w.decoder.nextEvent now).2.bytes = w.decoder.bytes := by rw [hevent]; rfl
    obtain ⟨hoffset, hwithin, hbehind⟩ := h.kept hbytes
    have hfront := hheld.front
    refine ⟨hwithin, hbehind, ?_, ?_⟩
    · intro hnone
      rw [step_poll] at hnone
      simp only [hevent, InputDecoder.armed] at hnone
      cases hnone
    · intro deadline hsome
      rw [step_poll] at hsome
      simp only [hevent, InputDecoder.armed, Option.some.injEq] at hsome
      rw [hoffset]
      refine ⟨by rw [step_poll]; simp only [hbytes]; exact hfront, ?_⟩
      rw [step_poll]
      simp only
      cases hold : w.decoder.escapeDeadline with
      | some old =>
        obtain ⟨-, first, hseen, hfirst⟩ := h.timed old hold
        refine ⟨first, firstSeen_append hseen _, ?_⟩
        rw [← hsome, hold, Option.getD_some, hfirst]
      | none =>
        refine ⟨now, ?_, ?_⟩
        · rw [firstSeen_snoc (h.idle hold), record_saw hfront]
          rfl
        · rw [← hsome, hold, Option.getD_none]
  · refine h.taken ?_ ?_
    · rw [hevent]
      simp only [InputDecoder.popFront, List.length_tail]
      have hpos := List.length_pos_iff.mpr hheld.1
      omega
    · rw [hevent]
  · exact h.taken hshorter hdeadline
  · obtain ⟨hoffset, hwithin, hbehind⟩ := h.kept hbytes
    refine ⟨hwithin, hbehind, ?_, ?_⟩
    · intro _
      rw [hoffset, step_poll]
      have hnone : w.decoder.escapeDeadline = none := by
        by_contra hne
        obtain ⟨deadline, hsome⟩ := Option.ne_none_iff_exists'.mp hne
        exact hother (h.timed deadline hsome).1
      rw [firstSeen_snoc (h.idle hnone)]
      have hsaw : (w.record now).saw w.offset = false := by
        simp [PollRecord.saw, Watched.record, hother]
      rw [hsaw]
      rfl
    · intro deadline hsome
      rw [step_poll] at hsome
      rw [hdeadline] at hsome
      cases hsome

/-- The poll that a run adds keeps to the timer. -/
theorem keepsTime_record (h : Tracked w) (hundisturbed : Undisturbed w.decoder) :
    KeepsTime w.polls (w.record now) := by
  rcases poll_cases now h hundisturbed with
    ⟨hheld, hearly, hevent⟩ | ⟨hheld, hgiven, hevent⟩ | ⟨hheld, hdeadline, hother⟩
  · refine ⟨?_, ?_, ?_⟩
    · intro _ hsome
      rw [Watched.record, hevent] at hsome
      exact absurd rfl hsome
    · intro hafter
      rw [Watched.record, hevent] at hafter
      exact absurd hheld hafter
    · intro _ remaining hremaining
      rw [Watched.record, hevent] at hremaining
      simp only [timeoutUntilEscape, InputDecoder.armed, Option.map_some,
        Option.some.injEq] at hremaining
      rw [← hremaining]
      cases hold : w.decoder.escapeDeadline with
      | none =>
        rw [Option.getD_none]
        omega
      | some old =>
        have hlt := hearly old hold
        rw [Option.getD_some]
        omega
  · refine ⟨fun _ _ => hgiven, ?_, ?_⟩
    · intro _ clock
      rw [Watched.record, hevent]
      rfl
    · intro hnone
      rw [Watched.record, hevent] at hnone
      cases hnone
  · refine ⟨fun hbefore => absurd hbefore hheld, ?_, ?_⟩
    · intro _ clock
      simp only [Watched.record, timeoutUntilEscape, hdeadline, Option.map_none]
    · intro _ remaining hremaining
      simp only [Watched.record, timeoutUntilEscape, hdeadline, Option.map_none] at hremaining
      cases hremaining

theorem KeepsTime.append {polls : List PollRecord} {poll : PollRecord}
    (h : KeepsTime polls poll) (more : List PollRecord) : KeepsTime (polls ++ more) poll where
  gaveUp hheld hevent := by
    obtain ⟨first, hseen, hle⟩ := h.gaveUp hheld hevent
    exact ⟨first, firstSeen_append hseen more, hle⟩
  stopped := h.stopped
  unexpired := h.unexpired

theorem polls_kept {poll : PollRecord} (steps : List DecoderStep) (h : poll ∈ w.polls) :
    poll ∈ (steps.foldl Watched.step w).polls := by
  induction steps generalizing w with
  | nil => exact h
  | cons step steps ih =>
    refine ih ?_
    cases step with
    | push bytes => exact h
    | poll now => exact List.mem_append_left _ h

/-- Runs keep the invariant, and every poll in them keeps to the timer. -/
theorem Tracked.run (h : Tracked w) (hkept : ∀ poll ∈ w.polls, KeepsTime w.polls poll)
    (steps : List DecoderStep)
    (hundisturbed : ∀ poll ∈ (steps.foldl Watched.step w).polls, Undisturbed poll.before) :
    ∀ poll ∈ (steps.foldl Watched.step w).polls,
      KeepsTime (steps.foldl Watched.step w).polls poll := by
  induction steps generalizing w with
  | nil => exact hkept
  | cons step steps ih =>
    cases step with
    | push bytes => exact ih (h.push bytes) hkept hundisturbed
    | poll now =>
      have hnow : Undisturbed w.decoder := by
        refine hundisturbed (w.record now) ?_
        rw [List.foldl_cons]
        exact polls_kept steps (by rw [step_poll]; simp)
      refine ih (h.poll hnow) ?_ hundisturbed
      intro poll hpoll
      rw [step_poll, List.mem_append, List.mem_singleton] at hpoll
      rw [step_poll]
      rcases hpoll with hpoll | rfl
      · exact (hkept poll hpoll).append _
      · exact (keepsTime_record h hnow).append _

/-- **The timer of a held escape.**  In a run outside of a paste in which no key with Alt is
    delivered while the timer runs, every poll keeps to it. -/
theorem escape_timer_kept (steps : List DecoderStep)
    (hundisturbed : ∀ poll ∈ (watch steps).polls, Undisturbed poll.before) :
    ∀ poll ∈ (watch steps).polls, KeepsTime (watch steps).polls poll :=
  Tracked.new.run (by simp) steps hundisturbed

/-- An escape byte that nothing follows is given up 30 ms after its first poll. -/
theorem escape_timer_kept_alone :
    (watch [.push [0x1b], .poll 0, .poll 30]).polls.map (·.now) = [0, 30] ∧
      ∀ poll ∈ (watch [.push [0x1b], .poll 0, .poll 30]).polls,
        KeepsTime (watch [.push [0x1b], .poll 0, .poll 30]).polls poll := by
  have houtside : ∀ poll ∈ (watch [.push [0x1b], .poll 0, .poll 30]).polls,
      poll.before.paste = false ∧ poll.before.bytes = [0x1b] := by
    decide +kernel
  refine ⟨rfl, escape_timer_kept _ ?_⟩
  intro poll hpoll
  obtain ⟨hpaste, hbytes⟩ := houtside poll hpoll
  refine ⟨hpaste, ?_, ?_⟩
  · intro hstart
    have hle := hstart.length_le
    rw [hbytes] at hle
    exact absurd hle (by decide)
  · rintro ⟨byte, rest, hfront, -⟩
    rw [hbytes] at hfront
    cases hfront

/-- The timer of a first escape byte, which became a key with Alt, ends a second one at its
    first poll; between the two it runs behind an empty buffer. -/
theorem stale_timer_fires :
    ¬ ∀ steps : List DecoderStep,
      (steps.filterMap DecoderStep.clock).Pairwise (· ≤ ·) →
        (∀ poll ∈ (watch steps).polls,
          poll.before.paste = false ∧ ¬ PASTE_START <+: poll.before.bytes) →
        ∀ poll ∈ (watch steps).polls, KeepsTime (watch steps).polls poll := by
  intro hall
  have hkept := hall
    [.push [0x1b], .poll 0, .push [0x61], .poll 5, .push [0x1b], .poll 40]
    (by decide +kernel) (by decide +kernel)
  obtain ⟨poll, hpoll, hbytes, hevent, hfirst⟩ : ∃ poll ∈
      (watch [.push [0x1b], .poll 0, .push [0x61], .poll 5, .push [0x1b], .poll 40]).polls,
      poll.before.bytes = [0x1b] ∧ poll.event ≠ none ∧
        firstSeen
          (watch [.push [0x1b], .poll 0, .push [0x61], .poll 5, .push [0x1b], .poll 40]).polls
          poll.offset = some poll.now := by
    decide +kernel
  have hheld : HeldEscape poll.before.bytes := by
    rw [hbytes]
    exact ⟨List.cons_ne_nil _ _, begun_escape⟩
  obtain ⟨first, hseen, hle⟩ := (hkept poll hpoll).gaveUp hheld hevent
  rw [hfirst, Option.some.injEq] at hseen
  omega

end Tea.Contract
