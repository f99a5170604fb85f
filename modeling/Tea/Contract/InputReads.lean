/-
  Tea/Contract/InputReads.lean
  ============================
  **Terminal input and read boundaries.**  Bytes reach the decoder in reads, and every
  read is followed by polls until nothing is delivered.  The events and the undecoded
  bytes are those of the whole input exactly when no read tears a paste
  (`Reads.smooth`, `Reads.rough`): when no read ends inside a paste that it opened,
  with text read that does not begin an escape sequence.  Such a text is taken for a
  key.  One byte at a time never tears (`smooth_bytes`).
-/

import Tea.Terminal.Reads

namespace Tea.Contract

open Tea.Encoding Tea.Terminal

/-! ### Polling and reading -/

/-- Polls until nothing is delivered, each with a clock before every deadline. -/
inductive PollsOut : InputDecoder → List TerminalEvent → InputDecoder → Prop where
  | wait {d d' : InputDecoder} {now : Nat} (early : Early now d)
      (poll : d.nextEvent now = (none, d')) : PollsOut d [] d'
  | event {d d' d'' : InputDecoder} {now : Nat} {event : TerminalEvent}
      {events : List TerminalEvent} (early : Early now d)
      (poll : d.nextEvent now = (some event, d')) (more : PollsOut d' events d'') :
      PollsOut d (event :: events) d''

/-- Reads of the chunks, each followed by its polls. -/
inductive Reads :
    InputDecoder → List (List UInt8) → List TerminalEvent → InputDecoder → Prop where
  | done {d : InputDecoder} : Reads d [] [] d
  | read {d d' d'' : InputDecoder} {chunk : List UInt8} {chunks : List (List UInt8)}
      {events later : List TerminalEvent} (polls : PollsOut (d.push chunk) events d')
      (more : Reads d' chunks later d'') : Reads d (chunk :: chunks) (events ++ later) d''

/-! ### Torn pastes -/

/-- The bytes are an open paste whose text does not begin an escape sequence. -/
def OpenPaste (bytes : List UInt8) : Prop :=
  PASTE_START <+: bytes ∧ ¬ Encoding.Begun codes (bytes.drop PASTE_START.length)

instance (bytes : List UInt8) : Decidable (OpenPaste bytes) :=
  inferInstanceAs (Decidable (_ ∧ _))

/-- A read behind the undecoded bytes `held` tears a paste: it leaves an open one that
    it did not find open. -/
def Tears (held chunk : List UInt8) : Prop :=
  OpenPaste (rest meaning (held ++ chunk)) ∧
    ¬ (PASTE_START <+: held ∧ (delivered meaning (held ++ chunk)).isEmpty)

instance (held chunk : List UInt8) : Decidable (Tears held chunk) :=
  inferInstanceAs (Decidable (_ ∧ _))

/-- No read tears a paste. -/
def Smooth : List UInt8 → List (List UInt8) → Prop
  | _, [] => True
  | held, chunk :: chunks =>
      ¬ Tears held chunk ∧ Smooth (rest meaning (held ++ chunk)) chunks

instance : (held : List UInt8) → (chunks : List (List UInt8)) → Decidable (Smooth held chunks)
  | _, [] => .isTrue trivial
  | held, chunk :: chunks =>
      have := instDecidableSmooth (rest meaning (held ++ chunk)) chunks
      inferInstanceAs (Decidable (_ ∧ _))

/-! ### One read -/

variable {d d' : InputDecoder} {events : List TerminalEvent} {chunks : List (List UInt8)}

/-- A decoder after its polls: nothing more to deliver, and inside a paste just when
    what it holds opens one. -/
structure Settled (d : InputDecoder) : Prop where
  silent : meaning d.held = none
  paste : d.paste = PASTE_START.isPrefixOf d.held

/-- The polls of a decoder tear a paste: the start mark is still in front of it. -/
def TearsOn (d : InputDecoder) : Prop :=
  OpenPaste (rest meaning d.held) ∧
    ¬ (d.paste = true ∧ delivered meaning d.held = [])

theorem torn_iff (h : meaning d.held = none) : Torn d ↔ TearsOn d := by
  unfold Torn TearsOn OpenPaste
  rw [rest_of_none h, delivered_of_none h]
  cases hpaste : d.paste with
  | true => simp
  | false =>
    rw [held_of_not_paste hpaste] at h ⊢
    constructor
    · rintro ⟨-, text, hbytes, -, hbegun⟩
      refine ⟨⟨⟨text, hbytes.symm⟩, ?_⟩, by simp⟩
      rwa [hbytes, List.drop_left]
    · rintro ⟨⟨⟨text, hbytes⟩, hbegun⟩, -⟩
      rw [← hbytes, List.drop_left] at hbegun
      refine ⟨rfl, text, hbytes.symm, ?_, hbegun⟩
      rw [← meaning_paste, hbytes, h]

/-- **The polls after a read.**  They deliver the events of what the decoder holds; if
    they tear a paste they deliver one key more. -/
theorem PollsOut.spec (hpolls : PollsOut d events d') :
    (¬ TearsOn d ∧ events = delivered meaning d.held ∧ d'.held = rest meaning d.held ∧
      Settled d') ∨
    (TearsOn d ∧ ∃ event, events = delivered meaning d.held ++ [.key event]) := by
  induction hpolls with
  | @wait d d' now early poll =>
    have hsilent : meaning d.held = none := by
      cases hmeaning : meaning d.held with
      | none => rfl
      | some found =>
        obtain ⟨d'', hevent, -⟩ := nextEvent_some now hmeaning
        rw [poll] at hevent
        cases hevent
    have hwhole : ¬ Torn d := by
      intro htorn
      obtain ⟨event, d'', hevent, -⟩ := nextEvent_torn early htorn
      rw [poll] at hevent
      cases hevent
    obtain ⟨d'', hnext, hheld, hpaste⟩ := nextEvent_none early hsilent hwhole
    rw [poll] at hnext
    cases hnext
    left
    refine ⟨fun htears => hwhole ((torn_iff hsilent).mpr htears), ?_, ?_, ?_, ?_⟩
    · rw [delivered_of_none hsilent]
    · rw [hheld, rest_of_none hsilent]
    · rw [hheld, hsilent]
    · rw [hheld, hpaste]
  | @event d d' d'' now event events early poll more ih =>
    cases hmeaning : meaning d.held with
    | some found =>
      obtain ⟨item, n⟩ := found
      obtain ⟨d₁, hevent, hheld, hout⟩ := nextEvent_some now hmeaning
      rw [poll] at hevent
      cases hevent
      have hsame : TearsOn d ↔ TearsOn d' := by
        unfold TearsOn
        rw [hheld, rest_of_some meaning_incremental hmeaning,
          delivered_of_some meaning_incremental hmeaning, hout]
        simp
      rw [hsame, delivered_of_some meaning_incremental hmeaning,
        rest_of_some meaning_incremental hmeaning, ← hheld]
      rcases ih with ⟨hnot, hevents, hrest, hsettled⟩ | ⟨htears, key, hevents⟩
      · exact .inl ⟨hnot, by rw [hevents], hrest, hsettled⟩
      · exact .inr ⟨htears, key, by rw [hevents]; rfl⟩
    | none =>
      by_cases htorn : Torn d
      · obtain ⟨key, d₁, hevent, hpaste, hsilent⟩ := nextEvent_torn early htorn
        rw [poll] at hevent
        cases hevent
        -- inside the paste nothing more is delivered
        have hlast : events = [] := by
          cases more with
          | wait _ _ => rfl
          | @event _ d₂ _ now' event' _ early' poll' _ =>
            have hwhole : ¬ Torn d' := by
              rintro ⟨hnot, -⟩
              rw [hpaste] at hnot
              cases hnot
            obtain ⟨d₃, hnext, -⟩ := nextEvent_none early' hsilent hwhole
            rw [poll'] at hnext
            cases hnext
        rw [hlast, delivered_of_none hmeaning]
        exact .inr ⟨(torn_iff hmeaning).mp htorn, key, rfl⟩
      · obtain ⟨d₁, hnext, -⟩ := nextEvent_none early hmeaning htorn
        rw [poll] at hnext
        cases hnext

theorem held_push (chunk : List UInt8) : (d.push chunk).held = d.held ++ chunk := by
  unfold InputDecoder.held InputDecoder.push
  cases d.paste <;> simp

theorem tearsOn_push (hd : Settled d) (chunk : List UInt8) :
    TearsOn (d.push chunk) ↔ Tears d.held chunk := by
  unfold TearsOn Tears
  rw [held_push, ← List.isPrefixOf_iff_prefix, ← hd.paste, List.isEmpty_iff]
  rfl

/-! ### Whole runs -/

/-- **A run that tears no paste** delivers the events of its input, and holds the rest. -/
theorem Reads.smooth (hrun : Reads d chunks events d') (hd : Settled d)
    (hsmooth : Smooth d.held chunks) :
    events = delivered meaning (d.held ++ chunks.flatten) ∧
      d'.held = rest meaning (d.held ++ chunks.flatten) ∧ Settled d' := by
  induction hrun with
  | done => simp [delivered_of_none hd.silent, rest_of_none hd.silent, hd]
  | @read d d₁ d₂ chunk chunks events later polls more ih =>
    obtain ⟨hnot, hlater⟩ := hsmooth
    rw [List.flatten_cons, ← List.append_assoc, delivered_append meaning_incremental,
      rest_append meaning_incremental (d.held ++ chunk)]
    rcases polls.spec with ⟨-, hevents, hrest, hd₁⟩ | ⟨htears, -⟩
    · rw [held_push] at hevents hrest
      rw [← hrest] at hlater ⊢
      obtain ⟨hmore, hrest', hd₂⟩ := ih hd₁ hlater
      exact ⟨by rw [hevents, hmore], hrest', hd₂⟩
    · exact absurd ((tearsOn_push hd chunk).mp htears) hnot

/-- An open paste comes to a paste or to nothing, never to a key. -/
theorem delivered_openPaste {bytes : List UInt8} (h : OpenPaste bytes) (more : List UInt8)
    (event : KeyEvent) (later : List TerminalEvent) :
    .key event :: later ≠ delivered meaning (bytes ++ more) := by
  obtain ⟨⟨text, rfl⟩, -⟩ := h
  rw [List.append_assoc]
  have hmeaning := meaning_paste (text ++ more)
  cases hpaste : pasteMeaning (text ++ more) with
  | none =>
    rw [hpaste] at hmeaning
    rw [delivered_of_none hmeaning]
    intro heq
    cases heq
  | some found =>
    obtain ⟨item, n⟩ := found
    rw [hpaste] at hmeaning
    rw [delivered_of_some meaning_incremental hmeaning]
    intro heq
    injection heq with hitem _
    unfold pasteMeaning at hpaste
    rw [Option.map_eq_some_iff] at hpaste
    obtain ⟨stop, -, heq⟩ := hpaste
    rw [← hitem] at heq
    cases heq

/-- **A run that tears a paste** delivers something else. -/
theorem Reads.rough (hrun : Reads d chunks events d') (hd : Settled d)
    (hrough : ¬ Smooth d.held chunks) :
    events ≠ delivered meaning (d.held ++ chunks.flatten) := by
  induction hrun with
  | done => exact absurd trivial hrough
  | @read d d₁ d₂ chunk chunks events later polls more ih =>
    rw [List.flatten_cons, ← List.append_assoc, delivered_append meaning_incremental]
    rcases polls.spec with ⟨hnot, hevents, hrest, hd₁⟩ | ⟨htears, key, hevents⟩
    · rw [held_push] at hevents hrest
      have hlater : ¬ Smooth d₁.held chunks := by
        intro hsmooth
        rw [hrest] at hsmooth
        exact hrough ⟨fun htears => hnot ((tearsOn_push hd chunk).mpr htears), hsmooth⟩
      have hne := ih hd₁ hlater
      rw [hevents, ← hrest]
      intro heq
      exact hne (List.append_cancel_left heq)
    · rw [held_push] at hevents
      rw [hevents, List.append_assoc, List.cons_append, List.nil_append]
      intro heq
      have htears' := (tearsOn_push hd chunk).mp htears
      exact delivered_openPaste htears'.1 chunks.flatten key later (List.append_cancel_left heq)

/-! ### Runs exist -/

theorem escapeDeadline_pasteEvent : d.pasteEvent.2.escapeDeadline = d.escapeDeadline := by
  unfold InputDecoder.pasteEvent
  split <;> rfl

theorem escapeDeadline_escapeSequence :
    d.escapeSequence.2.escapeDeadline = d.escapeDeadline := by
  unfold InputDecoder.escapeSequence
  split
  · exact escapeDeadline_pasteEvent
  · split <;> rfl

theorem escapeDeadline_looseEscape :
    d.looseEscape.2.escapeDeadline = none ∨
      d.looseEscape.2.escapeDeadline = d.escapeDeadline := by
  unfold InputDecoder.looseEscape
  split
  · split
    · exact .inr rfl
    · exact .inl rfl
  · exact .inl rfl

theorem escapeDeadline_nextUtf8 : d.nextUtf8.2.escapeDeadline = d.escapeDeadline := by
  unfold InputDecoder.nextUtf8
  split
  · rfl
  · rfl
  · split_ifs
    · split <;> rfl
    · rfl
    · rfl

/-- The deadline that a poll leaves is none, the old one or a new one. -/
theorem escapeDeadline_nextEvent (now : Nat) :
    (d.nextEvent now).2.escapeDeadline = none ∨
      (d.nextEvent now).2.escapeDeadline = some (d.escapeDeadline.getD (now + 30)) ∨
      (d.nextEvent now).2.escapeDeadline = d.escapeDeadline := by
  unfold InputDecoder.nextEvent
  split
  · exact .inr (.inr escapeDeadline_pasteEvent)
  split
  · exact .inr (.inr rfl)
  split
  · unfold InputDecoder.escapeEvent
    split
    · split
      · exact .inr (.inl rfl)
      · exact .inl rfl
    · split
      · exact .inl rfl
      · rename_i d' hsequence
        have hkept : d'.escapeDeadline = d.escapeDeadline := by
          have hsame := escapeDeadline_escapeSequence (d := d)
          rwa [hsequence] at hsame
        rw [← hkept]
        split
        · split
          · exact .inr (.inl rfl)
          · rcases escapeDeadline_looseEscape (d := d'.armed now) with h | h
            · exact .inl h
            · exact .inr (.inl h)
        · rcases escapeDeadline_looseEscape (d := d') with h | h
          · exact .inl h
          · exact .inr (.inr h)
  · split
    · exact .inl rfl
    · exact .inl escapeDeadline_nextUtf8

/-- A poll at the start of time leaves a deadline behind it. -/
theorem early_nextEvent (h : Early 0 d) : Early 0 (d.nextEvent 0).2 := by
  intro deadline hdeadline
  rcases escapeDeadline_nextEvent (d := d) 0 with hnone | hnew | hold
  · rw [hnone] at hdeadline
    cases hdeadline
  · rw [hnew, Option.some.injEq] at hdeadline
    subst hdeadline
    cases hold : d.escapeDeadline with
    | none => simp
    | some old => exact h old hold
  · exact h deadline (hold.symm.trans hdeadline)

/-- Polling comes to an end. -/
theorem pollsOut_exists (h : Early 0 d) : ∃ events d', PollsOut d events d' ∧ Early 0 d' := by
  induction hlen : d.held.length using Nat.strongRecOn generalizing d with
  | _ length ih =>
    have hnext := early_nextEvent h
    cases hmeaning : meaning d.held with
    | some found =>
      obtain ⟨item, n⟩ := found
      obtain ⟨d', hevent, hheld, -⟩ := nextEvent_some 0 hmeaning
      obtain ⟨hpos, hle⟩ := meaning_incremental.consumes hmeaning
      rw [hevent] at hnext
      have hshorter : d'.held.length < length := by
        rw [hheld, List.length_drop]
        omega
      obtain ⟨events, d'', hpolls, hearly⟩ := ih _ hshorter hnext rfl
      exact ⟨item :: events, d'', .event h hevent hpolls, hearly⟩
    | none =>
      by_cases htorn : Torn d
      · obtain ⟨key, d', hevent, hpaste, hsilent⟩ := nextEvent_torn h htorn
        rw [hevent] at hnext
        have hwhole : ¬ Torn d' := by
          rintro ⟨hnot, -⟩
          rw [hpaste] at hnot
          cases hnot
        obtain ⟨d'', hlast, -⟩ := nextEvent_none hnext hsilent hwhole
        have hearly := early_nextEvent hnext
        rw [hlast] at hearly
        exact ⟨[.key key], d'', .event h hevent (.wait hnext hlast), hearly⟩
      · obtain ⟨d', hlast, -⟩ := nextEvent_none h hmeaning htorn
        rw [hlast] at hnext
        exact ⟨[], d', .wait h hlast, hnext⟩

/-- Every way of reading an input can be run. -/
theorem reads_exist (h : Early 0 d) (chunks : List (List UInt8)) :
    ∃ events d', Reads d chunks events d' := by
  induction chunks generalizing d with
  | nil => exact ⟨[], d, .done⟩
  | cons chunk chunks ih =>
    obtain ⟨events, d', hpolls, hearly⟩ := pollsOut_exists (d := d.push chunk) h
    obtain ⟨later, d'', hmore⟩ := ih hearly
    exact ⟨events ++ later, d'', .read hpolls hmore⟩

/-! ### One byte at a time -/

theorem incomplete_short {bytes : List UInt8} (h : firstScalar bytes = .incomplete) :
    bytes.length < 4 := by
  unfold firstScalar at h
  split at h
  · simp
  rename_i first rest
  split at h
  · cases h
  · unfold secondOfTwo at h
    split at h
    · simp
    · split at h <;> cases h
  · unfold secondOfThree at h
    split at h
    · simp
    · simp
    · split at h
      · split at h <;> cases h
      · cases h
  · unfold secondOfFour at h
    split at h
    · simp
    · simp
    · simp
    · split at h
      · split at h
        · split at h <;> cases h
        · cases h
      · cases h
  · cases h

/-- What says nothing yet is an open paste or short. -/
theorem silent_short {bytes : List UInt8} (h : meaning bytes = none) :
    PASTE_START <+: bytes ∨ bytes.length < 6 := by
  match bytes with
  | [] => exact .inr (by simp)
  | first :: rest =>
    simp only [meaning] at h
    split_ifs at h with hescape hascii
    · subst hescape
      cases hlookup : lookup codes (0x1b :: rest) with
      | none =>
        obtain ⟨code, hmem, -, hlt⟩ := not_begun_of_silent h hlookup
        have hlength : ∀ code ∈ codes, code.1.length ≤ 6 := by decide
        have hle := hlength code hmem
        exact .inr (by omega)
      | some code =>
        obtain ⟨sequence, event⟩ := code
        obtain ⟨hmem, hstarting⟩ := lookup_some hlookup
        cases event with
        | none =>
          obtain rfl : sequence = PASTE_START := (codes_length hmem).2 rfl
          exact .inl hstarting
        | some event => simp [escapeMeaning, hlookup] at h
    · unfold utf8Meaning at h
      cases hscalar : firstScalar (first :: rest) with
      | scalar c => simp [hscalar] at h
      | invalid width => simp [hscalar] at h
      | incomplete =>
        have hshort := incomplete_short hscalar
        exact .inr (by omega)

theorem begun_nil : Encoding.Begun codes [] := by decide

/-- A read of one byte tears nothing. -/
theorem not_tears_byte {held : List UInt8} (hheld : meaning held = none) (byte : UInt8) :
    ¬ Tears held [byte] := by
  rintro ⟨⟨⟨text, hrest⟩, hbegun⟩, hnew⟩
  rw [← hrest, List.drop_left] at hbegun
  have htext : 0 < text.length := by
    rw [List.length_pos_iff]
    rintro rfl
    exact hbegun begun_nil
  have hlen := (rest_suffix meaning_incremental (held ++ [byte])).length_le
  rw [← hrest, List.length_append, List.length_append, List.length_singleton] at hlen
  have hstart : PASTE_START.length = 6 := rfl
  rcases silent_short hheld with hopen | hshort
  · obtain ⟨inside, rfl⟩ := hopen
    rw [meaning_paste] at hheld
    have hmeaning := meaning_paste (inside ++ [byte])
    rw [← List.append_assoc] at hmeaning
    cases hpaste : pasteMeaning (inside ++ [byte]) with
    | none =>
      rw [hpaste] at hmeaning
      apply hnew
      rw [delivered_of_none hmeaning]
      exact ⟨List.prefix_append _ _, rfl⟩
    | some found =>
      obtain ⟨item, n⟩ := found
      rw [hpaste] at hmeaning
      -- the end mark was not there before this byte, so the paste is all there is
      have hall : (PASTE_START ++ inside ++ [byte]).length ≤ n := by
        by_contra hlt
        unfold pasteMeaning at hpaste hheld
        rw [Option.map_eq_some_iff] at hpaste
        obtain ⟨stop, hstop, heq⟩ := hpaste
        injection heq with _ hn
        have hfound := position_some hstop
        have hend : PASTE_END.length = 6 := rfl
        rw [Option.map_eq_none_iff, position_none (by simp [PASTE_END])] at hheld
        apply hheld
        simp only [List.length_append, List.length_singleton] at hlt
        rw [List.drop_append_of_le_length (by omega)] at hfound
        have hinside : PASTE_END <+: inside.drop stop :=
          List.prefix_of_prefix_length_le hfound (List.prefix_append _ _) (by
            rw [List.length_drop]
            omega)
        exact hinside.isInfix.trans (List.drop_suffix stop inside).isInfix
      rw [rest_of_some meaning_incremental hmeaning, List.drop_of_length_le hall,
        show rest meaning [] = [] from rest_of_none rfl] at hrest
      have hnil := congrArg List.length hrest
      rw [List.length_append, List.length_nil] at hnil
      omega
  · omega

/-- **One byte at a time** tears nothing. -/
theorem smooth_bytes {held : List UInt8} (hheld : meaning held = none) (bytes : List UInt8) :
    Smooth held (bytes.map fun byte => [byte]) := by
  induction bytes generalizing held with
  | nil => trivial
  | cons byte bytes ih =>
    exact ⟨not_tears_byte hheld byte, ih (front_rest meaning_incremental _)⟩

/-! ### Independence of read boundaries -/

/-- Two ways of reading come to the same events and undecoded bytes. -/
def Same (left right : List (List UInt8)) : Prop :=
  ∀ events d events' d', Reads {} left events d → Reads {} right events' d' →
    events = events' ∧ d.bytes = d'.bytes

/-- No beginning of the input ends in an open paste whose text does not begin an escape
    sequence, so that there is no place to tear it. -/
def Untearable (input : List UInt8) : Prop :=
  ∀ start, start <+: input → ¬ OpenPaste (rest meaning start)

theorem settled_start : Settled ({} : InputDecoder) := ⟨rfl, rfl⟩

theorem early_start : Early 0 ({} : InputDecoder) := by
  intro deadline hdeadline
  cases hdeadline

theorem Settled.bytes_eq (hd : Settled d) (hd' : Settled d') (h : d.held = d'.held) :
    d.bytes = d'.bytes := by
  have hpaste : d.paste = d'.paste := by rw [hd.paste, hd'.paste, h]
  unfold InputDecoder.held at h
  rw [hpaste] at h
  cases hinside : d'.paste with
  | true =>
    rw [hinside, if_pos rfl, if_pos rfl] at h
    exact List.append_cancel_left h
  | false =>
    rw [hinside] at h
    simpa using h

/-- Reads that tear nothing come to the same. -/
theorem same_of_smooth {left right : List (List UInt8)} (h : left.flatten = right.flatten)
    (hleft : Smooth [] left) (hright : Smooth [] right) : Same left right := by
  intro events d events' d' hrun hrun'
  obtain ⟨hevents, hrest, hd⟩ := hrun.smooth settled_start hleft
  obtain ⟨hevents', hrest', hd'⟩ := hrun'.smooth settled_start hright
  rw [h] at hevents hrest
  exact ⟨hevents.trans hevents'.symm, hd.bytes_eq hd' (hrest.trans hrest'.symm)⟩

theorem smooth_of_same {left right : List (List UInt8)} (h : left.flatten = right.flatten)
    (hright : Smooth [] right) (hsame : Same left right) : Smooth [] left := by
  by_contra hrough
  obtain ⟨events, d, hrun⟩ := reads_exist early_start left
  obtain ⟨events', d', hrun'⟩ := reads_exist early_start right
  have hne := hrun.rough settled_start hrough
  rw [h] at hne
  apply hne
  rw [(hsame _ _ _ _ hrun hrun').1]
  exact (hrun'.smooth settled_start hright).1

/-- The way of reading that tears nothing. -/
theorem flatten_bytes (input : List UInt8) : (input.map fun byte => [byte]).flatten = input := by
  induction input with
  | nil => rfl
  | cons byte input ih => rw [List.map_cons, List.flatten_cons, ih, List.singleton_append]

/-- An input with no place to tear is not torn. -/
theorem Untearable.smooth (start : List UInt8) {input : List UInt8} (h : Untearable input)
    {chunks : List (List UInt8)} (hinput : start ++ chunks.flatten = input) :
    Smooth (rest meaning start) chunks := by
  induction chunks generalizing start with
  | nil => trivial
  | cons chunk chunks ih =>
    rw [List.flatten_cons, ← List.append_assoc] at hinput
    have hmore := ih _ hinput
    rw [rest_append meaning_incremental start] at hmore
    refine ⟨?_, hmore⟩
    rintro ⟨hopen, -⟩
    rw [← rest_append meaning_incremental] at hopen
    exact h (start ++ chunk) ⟨_, hinput⟩ hopen

/-- An input is read to the same events in every way when it has no place to tear. -/
theorem same_iff_untearable (input : List UInt8) :
    (∀ left right, left.flatten = input → right.flatten = input → Same left right) ↔
      Untearable input := by
  constructor
  · intro hsame start hstart hopen
    obtain ⟨more, rfl⟩ := hstart
    have hflat : [start, more].flatten = ((start ++ more).map fun byte => [byte]).flatten := by
      rw [flatten_bytes]
      simp
    have hsmooth := smooth_of_same hflat (smooth_bytes rfl _)
      (hsame _ _ (by simp) (flatten_bytes _))
    apply hsmooth.1
    refine ⟨hopen, ?_⟩
    rintro ⟨hnil, -⟩
    have hlen := hnil.length_le
    simp [PASTE_START] at hlen
  · intro huntearable left right hleft hright
    exact same_of_smooth (hleft.trans hright.symm) (huntearable.smooth [] hleft)
      (huntearable.smooth [] hright)

/-- A whole paste is one event. -/
theorem delivered_paste {text : String} (htext : ¬ PASTE_END <:+: encodeUtf8 text.toList) :
    let input := PASTE_START ++ encodeUtf8 text.toList ++ PASTE_END
    delivered meaning input = [.paste text] ∧ rest meaning input = [] := by
  intro input
  have hmeaning : meaning input = some (.paste text, input.length) := by
    have hposition := position_text htext []
    rw [List.append_nil] at hposition
    simp only [input, List.append_assoc]
    rw [meaning_paste, pasteMeaning, hposition, Option.map_some, List.take_left,
      fromUtf8Lossy_encode, String.ofList_toList]
    simp only [List.length_append]
  have hdrop : input.drop input.length = [] := List.drop_length
  rw [delivered_of_some meaning_incremental hmeaning,
    rest_of_some meaning_incremental hmeaning, hdrop]
  exact ⟨rfl, rfl⟩

/-- **Terminal input and read boundaries.**  Two ways of reading an input, one of which
    tears no paste, agree exactly when the other tears none either; all ways agree
    exactly when the input has no place to tear; and a bracketed text comes as one
    paste and no key exactly when the reads do not tear it. -/
theorem input_independent_of_reads (input : List UInt8) :
    (∀ left right, left.flatten = input → right.flatten = input → Smooth [] right →
      (Same left right ↔ Smooth [] left)) ∧
    ((∀ left right, left.flatten = input → right.flatten = input → Same left right) ↔
      Untearable input) ∧
    (∀ text : String, ¬ PASTE_END <:+: encodeUtf8 text.toList →
      input = PASTE_START ++ encodeUtf8 text.toList ++ PASTE_END →
        ∀ chunks events d, chunks.flatten = input → Reads {} chunks events d →
          (events = [.paste text] ∧ d.bytes = [] ↔ Smooth [] chunks)) := by
  refine ⟨?_, same_iff_untearable input, ?_⟩
  · intro left right hleft hright hsmooth
    have hflat := hleft.trans hright.symm
    exact ⟨smooth_of_same hflat hsmooth, fun hleft => same_of_smooth hflat hleft hsmooth⟩
  · intro text htext hinput chunks events d hchunks hrun
    obtain ⟨hwhole, hnone⟩ := delivered_paste htext
    constructor
    · rintro ⟨hevents, -⟩
      by_contra hrough
      have hne := hrun.rough settled_start hrough
      apply hne
      have hstart : ({} : InputDecoder).held = [] := rfl
      rw [hstart, List.nil_append, hchunks, hinput, hwhole, hevents]
    · intro hsmooth
      obtain ⟨hevents, hrest, hd⟩ := hrun.smooth settled_start hsmooth
      have hstart : ({} : InputDecoder).held = [] := rfl
      rw [hstart, List.nil_append, hchunks, hinput] at hevents hrest
      rw [hwhole] at hevents
      rw [hnone] at hrest
      exact ⟨hevents, hd.bytes_eq settled_start hrest⟩

theorem early_of_none (h : d.escapeDeadline = none) (now : Nat) : Early now d := by
  intro deadline hdeadline
  rw [h] at hdeadline
  cases hdeadline

/-- A paste of one letter, read up to the letter and then on: the letter is lost to an
    escape key. -/
theorem torn_paste :
    ∃ left right events events',
      left.flatten = right.flatten ∧ Reads {} left events {} ∧ Reads {} right events' {} ∧
        events = [key .esc, .paste ""] ∧ events' = [.paste "a"] := by
  have hidle : ({} : InputDecoder).nextEvent 0 = (none, {}) := by decide +kernel
  have hwait : ({ paste := true } : InputDecoder).nextEvent 0 = (none, { paste := true }) := by
    decide +kernel
  have htear : (({} : InputDecoder).push (PASTE_START ++ [0x61])).nextEvent 0 =
      (some (key .esc), { paste := true }) := by decide +kernel
  have hclose : (({ paste := true } : InputDecoder).push PASTE_END).nextEvent 0 =
      (some (.paste ""), {}) := by decide +kernel
  have hwhole : (({} : InputDecoder).push (PASTE_START ++ [0x61] ++ PASTE_END)).nextEvent 0 =
      (some (.paste "a"), {}) := by decide +kernel
  refine ⟨[PASTE_START ++ [0x61], PASTE_END], [PASTE_START ++ [0x61] ++ PASTE_END], _, _,
    rfl, ?_, ?_, rfl, rfl⟩
  · exact .read (.event (early_of_none rfl 0) htear (.wait (early_of_none rfl 0) hwait))
      (.read (.event (early_of_none rfl 0) hclose (.wait (early_of_none rfl 0) hidle)) .done)
  · exact .read (.event (early_of_none rfl 0) hwhole (.wait (early_of_none rfl 0) hidle)) .done

/-- A paste behind a divided start mark is whole when its end mark comes with its text. -/
theorem input_independent_of_reads_whole :
    Same [[0x1b], PASTE_START.tail ++ [0x61] ++ PASTE_END, [0x62]]
      [PASTE_START ++ [0x61] ++ PASTE_END ++ [0x62]] := by
  have hindependent :=
    (input_independent_of_reads (PASTE_START ++ [0x61] ++ PASTE_END ++ [0x62])).1
      [[0x1b], PASTE_START.tail ++ [0x61] ++ PASTE_END, [0x62]]
      [PASTE_START ++ [0x61] ++ PASTE_END ++ [0x62]] rfl rfl (by decide +kernel)
  exact hindependent.mpr (by decide +kernel)

end Tea.Contract
