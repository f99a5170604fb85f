/-
  Tea/Terminal/Reads.lean
  =======================
  **The decoder against the meaning of its bytes**, one poll at a time.  The bytes a
  decoder holds back are those in its buffer, behind the start mark when it is inside a
  paste (`held`).  A poll before every deadline delivers the first event of what is
  held (`nextEvent_some`) or waits (`nextEvent_none`), except when it takes the start
  mark off a paste that has not ended: then it takes the text of the paste for keys
  (`nextEvent_torn`).
-/

import Tea.Terminal.Meaning

namespace Tea.Terminal

open Tea.Encoding

variable {d : InputDecoder} {now : Nat}

/-! ### What a decoder holds -/

/-- The bytes from which a decoder has made no event. -/
def InputDecoder.held (d : InputDecoder) : List UInt8 :=
  if d.paste then PASTE_START ++ d.bytes else d.bytes

/-- The clock of a poll is before the deadline of a held escape. -/
def Early (now : Nat) (d : InputDecoder) : Prop :=
  ∀ deadline, d.escapeDeadline = some deadline → now < deadline

theorem Early.waits (h : Early now d) : d.waits now = true := by
  unfold InputDecoder.waits
  cases hdeadline : d.escapeDeadline with
  | none => simp
  | some deadline => simpa using h deadline hdeadline

theorem meaning_paste (text : List UInt8) : meaning (PASTE_START ++ text) = pasteMeaning text := by
  have hlookup : lookup codes (PASTE_START ++ text) = some (PASTE_START, none) := by
    have hstart : lookup codes PASTE_START = some (PASTE_START, none) := by decide
    exact lookup_some_append codes_prefixFree hstart text
  have hmeaning : meaning (PASTE_START ++ text) = escapeMeaning (PASTE_START ++ text) := rfl
  rw [hmeaning, escapeMeaning, hlookup]
  simp

/-! ### The parts of a poll -/

theorem escapeSequencePrefix_iff : d.escapeSequencePrefix = true ↔ Begun codes d.bytes := by
  have hcandidates : candidates = codes.map (·.1) := by decide
  unfold InputDecoder.escapeSequencePrefix Begun
  rw [hcandidates, List.any_map, List.any_eq_true]
  constructor
  · rintro ⟨code, hmem, hcode⟩
    simp only [Function.comp_apply, Bool.and_eq_true, decide_eq_true_eq, beq_iff_eq] at hcode
    exact ⟨code, hmem, List.prefix_iff_eq_take.mpr hcode.2, hcode.1⟩
  · rintro ⟨code, hmem, hstarting, hlt⟩
    refine ⟨code, hmem, ?_⟩
    simp only [Function.comp_apply, Bool.and_eq_true, decide_eq_true_eq, beq_iff_eq]
    exact ⟨hlt, List.prefix_iff_eq_take.mp hstarting⟩

/-- A key sequence is looked up behind the start mark. -/
theorem lookup_codes (bytes : List UInt8) (hstart : PASTE_START.isPrefixOf bytes = false) :
    lookup codes bytes =
      (sequences.find? (fun sequence => sequence.1.isPrefixOf bytes)).map fun sequence =>
        (sequence.1, some sequence.2) := by
  unfold lookup codes
  rw [List.find?_cons_of_neg (by simp [hstart]), List.find?_map]
  rfl

theorem escapeSequence_of_start (h : PASTE_START <+: d.bytes) :
    d.escapeSequence =
      { d with
        bytes := d.bytes.drop PASTE_START.length, paste := true : InputDecoder }.pasteEvent := by
  unfold InputDecoder.escapeSequence InputDecoder.startsWith
  rw [if_pos (List.isPrefixOf_iff_prefix.mpr h)]
  rfl

theorem escapeSequence_of_key {sequence : List UInt8} {event : KeyEvent}
    (h : lookup codes d.bytes = some (sequence, some event)) :
    d.escapeSequence = (some (.key event), d.take sequence.length) := by
  have hstart : PASTE_START.isPrefixOf d.bytes = false := by
    by_contra hstarting
    rw [Bool.not_eq_false] at hstarting
    have hfirst : lookup codes d.bytes = some (PASTE_START, none) := by
      unfold lookup codes
      rw [List.find?_cons_of_pos (by exact hstarting)]
    rw [hfirst] at h
    cases h
  rw [lookup_codes _ hstart] at h
  unfold InputDecoder.escapeSequence InputDecoder.startsWith
  simp only [hstart, Bool.false_eq_true, if_false]
  cases hfind : sequences.find? (fun sequence => sequence.1.isPrefixOf d.bytes) with
  | none => simp [hfind] at h
  | some found =>
    simp only [hfind, Option.map_some, Option.some.injEq, Prod.mk.injEq] at h
    simp only [← h.1, ← h.2]

theorem escapeSequence_of_none (h : lookup codes d.bytes = none) :
    d.escapeSequence = (none, d) := by
  have hnone := lookup_none.mp h
  have hstart : PASTE_START.isPrefixOf d.bytes = false := by
    rw [← Bool.not_eq_true, List.isPrefixOf_iff_prefix]
    exact hnone (PASTE_START, none) (by simp [codes])
  rw [lookup_codes _ hstart, Option.map_eq_none_iff] at h
  unfold InputDecoder.escapeSequence InputDecoder.startsWith
  simp only [hstart, Bool.false_eq_true, if_false, h]

/-- Inside a paste a poll delivers the whole paste, or waits. -/
theorem pasteEvent_spec (hpaste : d.paste = true) :
    match pasteMeaning d.bytes with
    | some (event, n) =>
        ∃ d', d.pasteEvent = (some event, d') ∧ d'.held = d.held.drop n ∧ d'.paste = false
    | none => d.pasteEvent = (none, d) := by
  unfold pasteMeaning InputDecoder.pasteEvent
  rw [findSubslice_end]
  cases hposition : position PASTE_END d.bytes with
  | none => rfl
  | some stop =>
    refine ⟨_, rfl, ?_, rfl⟩
    simp only [InputDecoder.held, InputDecoder.take, hpaste, if_true, Bool.false_eq_true, if_false,
      List.drop_drop]
    rw [List.drop_append]
    simp

theorem nextUtf8_spec (hne : d.bytes ≠ []) :
    match utf8Meaning d.bytes with
    | some (event, n) =>
        ∃ d', d.nextUtf8 = (some event, d') ∧ d'.bytes = d.bytes.drop n ∧ d'.paste = d.paste
    | none => d.nextUtf8 = (none, d) := by
  have hfirst := fromUtf8_first hne
  unfold utf8Meaning InputDecoder.nextUtf8
  cases hscalar : firstScalar d.bytes with
  | scalar c =>
    rw [hscalar] at hfirst
    rcases hfirst with ⟨more, hok⟩ | ⟨e, more, herror, hvalid, hstarting⟩
    · rw [hok]
      exact ⟨_, rfl, rfl, rfl⟩
    · rw [herror]
      simp only [hvalid, ne_eq, not_false_eq_true, if_true, hstarting]
      exact ⟨_, rfl, rfl, rfl⟩
  | invalid width =>
    rw [hscalar] at hfirst
    rw [hfirst]
    exact ⟨_, rfl, by simp [InputDecoder.popFront], rfl⟩
  | incomplete =>
    rw [hscalar] at hfirst
    rw [hfirst]
    rfl

/-! ### The escape branch -/

@[simp] theorem held_deadline (deadline : Option Nat) :
    { d with escapeDeadline := deadline : InputDecoder }.held = d.held := rfl

@[simp] theorem held_armed : (d.armed now).held = d.held := rfl

theorem held_of_paste (h : d.paste = true) : d.held = PASTE_START ++ d.bytes := by
  rw [InputDecoder.held, if_pos h]

theorem held_of_not_paste (h : d.paste = false) : d.held = d.bytes := by
  rw [InputDecoder.held, if_neg (by simp [h])]

theorem start_append_drop {bytes : List UInt8} (h : PASTE_START <+: bytes) :
    PASTE_START ++ bytes.drop PASTE_START.length = bytes := by
  obtain ⟨text, rfl⟩ := h
  rw [List.drop_left]

/-- An escape byte that opens no sequence, with the byte behind it. -/
theorem looseEscape_spec {byte : UInt8} {rest : List UInt8} (hpaste : d.paste = false)
    (hbytes : d.bytes = 0x1b :: byte :: rest) :
    ∃ d', d.looseEscape = (some (looseMeaning byte).1, d') ∧
      d'.held = d.bytes.drop (looseMeaning byte).2 ∧ d'.paste = false := by
  unfold InputDecoder.looseEscape looseMeaning
  simp only [hbytes]
  split
  · exact ⟨_, rfl, by simp [InputDecoder.held, hpaste], hpaste⟩
  · exact ⟨_, rfl, by simp [InputDecoder.held, InputDecoder.popFront, hpaste, hbytes], hpaste⟩

theorem escapeEvent_some {rest : List UInt8} {event : TerminalEvent} {n : Nat}
    (hpaste : d.paste = false) (hbytes : d.bytes = 0x1b :: rest)
    (h : escapeMeaning d.bytes = some (event, n)) :
    ∃ d', d.escapeEvent now = (some event, d') ∧ d'.held = d.bytes.drop n ∧ d'.paste = false := by
  have hlen : d.bytes.length ≠ 1 := by
    intro hone
    have hnil : rest = [] := by
      rw [hbytes, List.length_cons] at hone
      exact List.length_eq_zero_iff.mp (by omega)
    rw [hbytes, hnil] at h
    have hsilent : escapeMeaning [0x1b] = none := by decide
    rw [hsilent] at h
    cases h
  unfold InputDecoder.escapeEvent
  rw [if_neg hlen]
  unfold escapeMeaning at h
  split at h
  · rename_i start hlookup
    obtain ⟨hmem, hstarting⟩ := lookup_some hlookup
    obtain rfl : start = PASTE_START := (codes_length hmem).2 rfl
    rw [escapeSequence_of_start hstarting]
    have hspec := pasteEvent_spec
      (d := { d with bytes := d.bytes.drop PASTE_START.length, paste := true }) rfl
    simp only [h] at hspec
    obtain ⟨d', hevent, hheld, hpaste'⟩ := hspec
    refine ⟨{ d' with escapeDeadline := none }, ?_, ?_, hpaste'⟩
    · simp only [hevent]
    · rw [held_deadline, hheld, held_of_paste rfl, start_append_drop hstarting]
  · rename_i sequence event' hlookup
    cases h
    rw [escapeSequence_of_key hlookup]
    refine ⟨_, rfl, ?_, hpaste⟩
    rw [held_deadline,
      held_of_not_paste (show (d.take sequence.length).paste = false from hpaste)]
    rfl
  · rename_i hlookup
    split at h
    · cases h
    · rename_i hbegun
      have hstarting : d.escapeSequencePrefix = false := by
        rw [← Bool.not_eq_true, escapeSequencePrefix_iff]
        exact hbegun
      rw [escapeSequence_of_none hlookup]
      simp only [hstarting, Bool.false_eq_true, if_false]
      rw [hbytes] at hbegun
      obtain ⟨byte, more, rfl⟩ := second_of_not_begun hbegun
      simp only [hbytes, List.getElem?_cons_succ, List.getElem?_cons_zero, Option.map_some,
        Option.some.injEq] at h
      have hloose := looseEscape_spec hpaste hbytes
      rw [h] at hloose
      exact hloose

/-- The escape branch waits when its bytes say nothing yet and it takes no start mark off. -/
theorem escapeEvent_begun (hearly : Early now d) (hbegun : Begun codes d.bytes) :
    d.escapeEvent now = (none, d.armed now) := by
  have hwaits := hearly.waits
  unfold InputDecoder.escapeEvent
  by_cases hlen : d.bytes.length = 1
  · rw [if_pos hlen, if_pos hwaits]
  · have hlookup := lookup_of_begun codes_prefixFree hbegun
    rw [if_neg hlen, escapeSequence_of_none hlookup]
    simp only [escapeSequencePrefix_iff.mpr hbegun, if_true, hwaits]

/-- What the escape branch does when it has taken the start mark off an open paste: it
    waits if the text begins a sequence, and takes the text for keys if not. -/
theorem escapeEvent_start {text : List UInt8} (hearly : Early now d)
    (hbytes : d.bytes = PASTE_START ++ text) (hopen : pasteMeaning text = none) :
    let inside := { d with bytes := text, paste := true : InputDecoder }
    d.escapeEvent now =
      if Begun codes text then (none, inside.armed now) else inside.looseEscape := by
  intro inside
  have hwaits : inside.waits now = true := hearly.waits
  have hlen : d.bytes.length ≠ 1 := by
    rw [hbytes, List.length_append]
    simp only [PASTE_START, List.length_cons, List.length_nil]
    omega
  have hspec := pasteEvent_spec (d := inside) rfl
  simp only [inside, hopen] at hspec
  have hsequence : d.escapeSequence = (none, inside) := by
    rw [escapeSequence_of_start ⟨text, hbytes.symm⟩, hbytes, List.drop_left]
    exact hspec
  unfold InputDecoder.escapeEvent
  rw [if_neg hlen, hsequence]
  by_cases hbegun : Begun codes text
  · rw [if_pos hbegun]
    simp only [escapeSequencePrefix_iff.mpr (show Begun codes inside.bytes from hbegun), if_true,
      hwaits]
  · have hstarting : inside.escapeSequencePrefix = false := by
      rw [← Bool.not_eq_true, escapeSequencePrefix_iff]
      exact hbegun
    rw [if_neg hbegun]
    simp only [hstarting, Bool.false_eq_true, if_false]

/-! ### One poll -/

/-- A poll delivers the first event of what the decoder holds. -/
theorem nextEvent_some (now : Nat) {event : TerminalEvent} {n : Nat}
    (h : meaning d.held = some (event, n)) :
    ∃ d', d.nextEvent now = (some event, d') ∧ d'.held = d.held.drop n ∧ d'.paste = false := by
  cases hpaste : d.paste with
  | true =>
    have hspec := pasteEvent_spec hpaste
    have hheld : d.held = PASTE_START ++ d.bytes := by simp [InputDecoder.held, hpaste]
    rw [hheld, meaning_paste] at h
    simp only [h] at hspec
    unfold InputDecoder.nextEvent
    rw [if_pos hpaste]
    exact hspec
  | false =>
    have hheld : d.held = d.bytes := by simp [InputDecoder.held, hpaste]
    rw [hheld] at h ⊢
    unfold InputDecoder.nextEvent
    rw [if_neg (by simp [hpaste])]
    cases hbytes : d.bytes with
    | nil => simp [hbytes, meaning] at h
    | cons first rest =>
      simp only [hbytes, meaning] at h
      simp only
      split_ifs at h ⊢ with hescape hascii
      · subst hescape
        rw [← hbytes] at h ⊢
        exact escapeEvent_some hpaste hbytes h
      · cases h
        refine ⟨_, rfl, ?_, hpaste⟩
        simp [InputDecoder.held, InputDecoder.popFront, hpaste, hbytes]
      · have hspec := nextUtf8_spec (d := { d with escapeDeadline := none }) (by simp [hbytes])
        simp only [hbytes, h] at hspec
        obtain ⟨d', hnext, hrest, hstill⟩ := hspec
        refine ⟨d', ?_, ?_, hstill.trans hpaste⟩
        · exact hnext
        · rw [InputDecoder.held, hstill, if_neg (by simp [hpaste]), hrest]

/-- A paste that a decoder would open although its text is not the beginning of an
    escape sequence: the end mark is missing, and so is a reason to wait. -/
def Torn (d : InputDecoder) : Prop :=
  d.paste = false ∧
    ∃ text, d.bytes = PASTE_START ++ text ∧ pasteMeaning text = none ∧ ¬ Begun codes text

theorem pasteMeaning_none {text : List UInt8} :
    pasteMeaning text = none ↔ ¬ PASTE_END <:+: text := by
  unfold pasteMeaning
  rw [Option.map_eq_none_iff, position_none (by simp [PASTE_END])]

theorem not_begun_of_silent {rest : List UInt8} (h : escapeMeaning (0x1b :: rest) = none)
    (hlookup : lookup codes (0x1b :: rest) = none) : Begun codes (0x1b :: rest) := by
  by_contra hbegun
  obtain ⟨byte, more, rfl⟩ := second_of_not_begun hbegun
  simp [escapeMeaning, hlookup, hbegun] at h

/-- A poll waits when what the decoder holds says nothing yet. -/
theorem nextEvent_none (hearly : Early now d) (h : meaning d.held = none) (hwhole : ¬ Torn d) :
    ∃ d', d.nextEvent now = (none, d') ∧ d'.held = d.held ∧
      d'.paste = PASTE_START.isPrefixOf d.held := by
  unfold InputDecoder.nextEvent
  cases hpaste : d.paste with
  | true =>
    have hspec := pasteEvent_spec hpaste
    rw [held_of_paste hpaste, meaning_paste] at h
    simp only [h] at hspec
    refine ⟨d, by simpa using hspec, rfl, ?_⟩
    rw [held_of_paste hpaste, hpaste, eq_comm, List.isPrefixOf_iff_prefix]
    exact List.prefix_append _ _
  | false =>
    have hheld := held_of_not_paste hpaste
    rw [hheld] at h
    simp only [Bool.false_eq_true, if_false]
    cases hbytes : d.bytes with
    | nil => exact ⟨d, rfl, rfl, by rw [hpaste, hheld, hbytes]; rfl⟩
    | cons first rest =>
      simp only [hbytes, meaning] at h
      simp only
      split_ifs at h ⊢ with hescape hascii
      · subst hescape
        by_cases hstart : PASTE_START <+: d.bytes
        · obtain ⟨text, htext⟩ := hstart
          have hopen : pasteMeaning text = none := by
            have hmeaning := meaning_paste text
            rw [htext, hbytes] at hmeaning
            exact hmeaning.symm.trans h
          have hbegun : Begun codes text := by
            by_contra hbegun
            exact hwhole ⟨hpaste, text, htext.symm, hopen, hbegun⟩
          rw [escapeEvent_start hearly htext.symm hopen, if_pos hbegun]
          refine ⟨_, rfl, ?_, ?_⟩
          · rw [held_armed, held_of_paste rfl, hheld, ← htext]
          · rw [hheld]
            exact (List.isPrefixOf_iff_prefix.mpr ⟨text, htext⟩).symm
        · have hsilent : lookup codes d.bytes = none := by
            cases hlookup : lookup codes d.bytes with
            | none => rfl
            | some code =>
              obtain ⟨sequence, event⟩ := code
              obtain ⟨hmem, hstarting⟩ := lookup_some hlookup
              cases event with
              | none =>
                obtain rfl : sequence = PASTE_START := (codes_length hmem).2 rfl
                exact absurd hstarting hstart
              | some event =>
                rw [hbytes] at hlookup
                simp [escapeMeaning, hlookup] at h
          rw [hbytes] at hsilent
          have hbegun := not_begun_of_silent h hsilent
          rw [← hbytes] at hbegun
          refine ⟨_, escapeEvent_begun hearly hbegun, held_armed, ?_⟩
          rw [hheld, eq_comm]
          have hfalse : PASTE_START.isPrefixOf d.bytes = false := by
            rw [← Bool.not_eq_true, List.isPrefixOf_iff_prefix]
            exact hstart
          rw [hfalse]
          exact hpaste.symm
      · have hspec := nextUtf8_spec (d := { d with escapeDeadline := none }) (by simp [hbytes])
        simp only [hbytes, h] at hspec
        refine ⟨{ d with escapeDeadline := none }, ?_, ?_, ?_⟩
        · rw [hpaste] at hspec
          rw [hbytes, hpaste]
          exact hspec
        · rw [hheld, hbytes, InputDecoder.held, if_neg (by simp [hpaste])]
        · rw [hheld, hbytes]
          have hne : (0x1b : UInt8) ≠ first := fun heq => hescape heq.symm
          simp [PASTE_START, List.isPrefixOf, hne, hpaste]

/-- The loose escape takes one byte or two, and never leaves a paste. -/
theorem looseEscape_key :
    ∃ event d' k, d.looseEscape = (some (.key event), d') ∧ d'.paste = d.paste ∧
      d'.bytes = d.bytes.drop k := by
  unfold InputDecoder.looseEscape
  split
  · rename_i byte rest hbytes
    split
    · exact ⟨_, _, 2, rfl, rfl, by simp [hbytes]⟩
    · exact ⟨_, _, 1, rfl, rfl, by simp [InputDecoder.popFront]⟩
  · exact ⟨_, _, 1, rfl, rfl, by simp [InputDecoder.popFront]⟩

/-- **A poll that tears a paste** takes the beginning of its text for a key, and leaves
    the rest of it inside the paste. -/
theorem nextEvent_torn (hearly : Early now d) (h : Torn d) :
    ∃ event d', d.nextEvent now = (some (.key event), d') ∧ d'.paste = true ∧
      meaning d'.held = none := by
  obtain ⟨hpaste, text, hbytes, hopen, hbegun⟩ := h
  obtain ⟨event, d', k, hloose, hinside, hrest⟩ :=
    looseEscape_key (d := { d with bytes := text, paste := true })
  refine ⟨event, d', ?_, hinside, ?_⟩
  · have hevent := escapeEvent_start hearly hbytes hopen
    simp only [if_neg hbegun] at hevent
    rw [← hloose, ← hevent]
    unfold InputDecoder.nextEvent
    rw [if_neg (by simp [hpaste]), hbytes]
    rfl
  · rw [held_of_paste hinside, meaning_paste, hrest, pasteMeaning_none]
    intro hwithin
    exact pasteMeaning_none.mp hopen (hwithin.trans (List.drop_suffix k text).isInfix)

end Tea.Terminal
