/-
  Tea/Contract/KeyRoundTrip.lean
  ==============================
  **Keys that are typed are the keys that are decoded**, in whatever order they follow each
  other, as long as none is Alt with a scalar outside of ASCII.  Of such a key the decoder
  takes the first byte for the whole scalar, and each byte behind it for a broken one.
-/
import Tea.Encoding.Utf8Runs
import Tea.Terminal.Reads

namespace Tea.Contract

open Tea.Encoding
open Tea.Terminal

/-! ### Keys -/

/-- The code of a letter whose control byte is not that of Backspace, Tab or Enter. -/
def FreeLetter (n : Nat) : Prop :=
  0x61 ≤ n ∧ n ≤ 0x7a ∧ n ≠ 0x68 ∧ n ≠ 0x69 ∧ n ≠ 0x6a ∧ n ≠ 0x6d

instance (n : Nat) : Decidable (FreeLetter n) := inferInstanceAs (Decidable (_ ∧ _))

/-- A key, with the encoding that the terminal chooses where it has a choice. -/
inductive TypedKey where
  | text (c : Char) (printable : 0x20 ≤ c.toNat ∧ c.toNat ≠ 0x7f)
  | enter (newline : Bool)
  | tab
  | backspace (shifted : Bool)
  | control (letter : Char) (free : FreeLetter letter.toNat)
  | special (sequence : List UInt8 × KeyEvent) (listed : sequence ∈ sequences)
  | alt (c : Char) (opensNone : 0x20 ≤ c.toNat ∧ c.toNat ≠ 0x5b ∧ c.toNat ≠ 0x4f ∧ c.toNat ≠ 0x7f)

namespace TypedKey

/-- The bytes that a terminal sends for the key. -/
def encode : TypedKey → List UInt8
  | .text c _ => String.utf8EncodeChar c
  | .enter newline => [if newline then 0x0a else 0x0d]
  | .tab => [0x09]
  | .backspace shifted => [if shifted then 0x08 else 0x7f]
  | .control letter _ => [UInt8.ofNat (letter.toNat - 0x60)]
  | .special sequence _ => sequence.1
  | .alt c _ => 0x1b :: String.utf8EncodeChar c

/-- The event that the key is. -/
def event : TypedKey → TerminalEvent
  | .text c _ => key (.char c)
  | .enter _ => key .enter
  | .tab => key .tab
  | .backspace _ => key .backspace
  | .control letter _ => .key { code := .char letter, modifiers := .CONTROL }
  | .special sequence _ => .key sequence.2
  | .alt c _ => .key { code := .char c, modifiers := .ALT }

/-- Alt with a scalar of more than one byte. -/
def WideAlt : TypedKey → Prop
  | .alt c _ => 0x80 ≤ c.toNat
  | _ => False

end TypedKey

/-! ### Polling -/

/-- Polls with one clock, until one of them delivers nothing. -/
inductive PollsAt (now : Nat) : InputDecoder → List TerminalEvent → InputDecoder → Prop
  | wait {d d' : InputDecoder} (poll : d.nextEvent now = (none, d')) : PollsAt now d [] d'
  | event {d d' d'' : InputDecoder} {event : TerminalEvent} {events : List TerminalEvent}
      (poll : d.nextEvent now = (some event, d')) (more : PollsAt now d' events d'') :
      PollsAt now d (event :: events) d''

/-- A decoder whose bytes all belong to events delivers these, and has no bytes left. -/
theorem pollsAt_of_rest (now : Nat) {d : InputDecoder} (h : rest meaning d.held = []) :
    ∃ d', PollsAt now d (delivered meaning d.held) d' ∧ d'.bytes = [] := by
  generalize hheld : d.held = held at h
  induction held using items_induction meaning_incremental generalizing d with
  | stop held hnone =>
    rw [rest_of_none hnone] at h
    subst h
    have hbytes : d.paste = false ∧ d.bytes = [] := by
      cases hpaste : d.paste with
      | true =>
        rw [held_of_paste hpaste] at hheld
        cases hheld
      | false => exact ⟨rfl, (held_of_not_paste hpaste).symm.trans hheld⟩
    refine ⟨d, ?_, hbytes.2⟩
    rw [delivered_of_none hnone]
    refine .wait ?_
    rw [InputDecoder.nextEvent, hbytes.1, hbytes.2]
    rfl
  | item held event n hsome ih =>
    subst hheld
    obtain ⟨d', hpoll, hheld', -⟩ := nextEvent_some now hsome
    rw [rest_of_some meaning_incremental hsome] at h
    obtain ⟨d'', hpolls, hbytes⟩ := ih hheld' h
    refine ⟨d'', ?_, hbytes⟩
    rw [delivered_of_some meaning_incremental hsome]
    exact .event hpoll hpolls

/-! ### One key -/

/-- What the decoder makes of the bytes, whatever follows them. -/
def ReadAs (bytes : List UInt8) (events : List TerminalEvent) : Prop :=
  ∀ more, delivered meaning (bytes ++ more) = events ++ delivered meaning more ∧
    rest meaning (bytes ++ more) = rest meaning more

theorem readAs_nil : ReadAs [] [] := fun _ => ⟨rfl, rfl⟩

theorem ReadAs.append {bytes bytes' : List UInt8} {events events' : List TerminalEvent}
    (h : ReadAs bytes events) (h' : ReadAs bytes' events') :
    ReadAs (bytes ++ bytes') (events ++ events') := by
  intro more
  rw [List.append_assoc, List.append_assoc, (h _).1, (h _).2, (h' _).1, (h' _).2]
  exact ⟨rfl, rfl⟩

/-- An event that is determined by its bytes. -/
theorem readAs_of_meaning {bytes : List UInt8} {event : TerminalEvent}
    (h : meaning bytes = some (event, bytes.length)) : ReadAs bytes [event] := by
  intro more
  have hmore := meaning_incremental.stable h more
  rw [delivered_of_some meaning_incremental hmore, rest_of_some meaning_incremental hmore,
    List.drop_left]
  exact ⟨rfl, rfl⟩

/-- A printable byte is its character. -/
theorem meaning_printable {n : Nat} (hascii : n < 0x80) (hprintable : 0x20 ≤ n ∧ n ≠ 0x7f) :
    meaning [UInt8.ofNat n] = some (key (.char (Char.ofNat n)), 1) := by
  have hvalue : (UInt8.ofNat n).toNat = n := by
    rw [UInt8.toNat_ofNat', Nat.mod_eq_of_lt (by omega)]
  have hne : ∀ byte : UInt8, byte.toNat ≠ n → UInt8.ofNat n ≠ byte := by
    rintro byte hbyte rfl
    exact hbyte hvalue
  have hescape : UInt8.ofNat n ≠ 0x1b := hne _ (by simp; omega)
  have hless : UInt8.ofNat n < 0x80 := by
    rw [UInt8.lt_iff_toNat_lt, hvalue]
    exact hascii
  have hcontrol : ¬ UInt8.ofNat n ≤ 0x1a := by
    rw [UInt8.le_iff_toNat_le, hvalue]
    simp
    omega
  rw [meaning, if_neg hescape, if_pos hless, InputDecoder.asciiKey, hvalue]
  rw [if_neg (not_or.mpr ⟨hne _ (by simp; omega), hne _ (by simp; omega)⟩),
    if_neg (hne _ (by simp; omega)),
    if_neg (not_or.mpr ⟨hne _ (by simp; omega), hne _ (by simp; omega)⟩), if_neg hcontrol]

/-- The byte behind the escape of a sequence. -/
theorem codes_second : ∀ code ∈ codes, code.1[1]? = some 0x5b ∨ code.1[1]? = some 0x4f := by
  decide

/-- A byte behind an escape that opens no sequence with it. -/
theorem meaning_loose {byte : UInt8} (hloose : 0x20 ≤ byte ∧ byte ≠ 0x5b ∧ byte ≠ 0x4f) :
    meaning [0x1b, byte] =
      some (.key { code := .char (Char.ofNat byte.toNat), modifiers := .ALT }, 2) := by
  have hsecond : ∀ code ∈ codes, code.1[1]? ≠ some byte := by
    intro code hcode heq
    rcases codes_second code hcode with h | h
    · exact hloose.2.1 (Option.some.inj (heq.symm.trans h))
    · exact hloose.2.2 (Option.some.inj (heq.symm.trans h))
  have hlookup : lookup codes [0x1b, byte] = none := by
    rw [lookup_none]
    rintro code hcode ⟨more, hmore⟩
    have hbyte : code.1[1]? = some byte := by
      rcases codes_second code hcode with h | h
      · obtain ⟨hlt, -⟩ := List.getElem?_eq_some_iff.mp h
        have hget : (code.1 ++ more)[1]? = code.1[1]? := List.getElem?_append_left hlt
        rw [← hget, hmore]
        rfl
      · obtain ⟨hlt, -⟩ := List.getElem?_eq_some_iff.mp h
        have hget : (code.1 ++ more)[1]? = code.1[1]? := List.getElem?_append_left hlt
        rw [← hget, hmore]
        rfl
    exact hsecond code hcode hbyte
  have hbegun : ¬ Encoding.Begun codes [0x1b, byte] := by
    rintro ⟨code, hcode, ⟨more, hmore⟩, -⟩
    refine hsecond code hcode ?_
    rw [← hmore]
    rfl
  have hmeaning : meaning [0x1b, byte] = escapeMeaning [0x1b, byte] := rfl
  rw [hmeaning, escapeMeaning, hlookup]
  simp only [if_neg hbegun, List.getElem?_cons_succ, List.getElem?_cons_zero, Option.map_some,
    looseMeaning, if_pos hloose]

theorem meaning_special : ∀ sequence ∈ sequences,
    meaning sequence.1 = some (.key sequence.2, sequence.1.length) := by
  decide

theorem meaning_control : ∀ k < 26, FreeLetter (0x61 + k) →
    meaning [UInt8.ofNat (k + 1)] =
      some (.key { code := .char (Char.ofNat (0x61 + k)), modifiers := .CONTROL }, 1) := by
  decide

/-- A byte that continues a scalar, where none has begun. -/
theorem meaning_continuation {byte : UInt8} (h : isContinuation byte = true) :
    meaning [byte] = some (key (.char '\ufffd'), 1) := by
  rw [isContinuation, Bool.and_eq_true, decide_eq_true_eq, decide_eq_true_eq] at h
  have hescape : byte ≠ 0x1b := by
    rintro rfl
    exact absurd h.1 (by decide)
  have hascii : ¬ byte < 0x80 := by
    rw [UInt8.lt_iff_toNat_lt]
    exact Nat.not_lt.mpr h.1
  have hwidth : utf8CharWidth byte = 0 := by
    rw [utf8CharWidth, if_neg (Nat.not_lt.mpr h.1), if_pos (by omega)]
  rw [meaning, if_neg hescape, if_neg hascii, utf8Meaning, firstScalar, hwidth]
  rfl

/-- A scalar outside of ASCII is read from its bytes. -/
theorem meaning_wide {c : Char} (hwide : 0x80 ≤ c.toNat) :
    meaning (String.utf8EncodeChar c) =
      some (key (.char c), (String.utf8EncodeChar c).length) := by
  have hscalar := firstScalar_encode c []
  rw [List.append_nil] at hscalar
  rw [String.length_utf8EncodeChar]
  have hlarge := utf8EncodeChar_large hwide
  obtain ⟨first, tail, hfirst, -, -⟩ := utf8EncodeChar_bytes c
  rw [hfirst] at hscalar hlarge ⊢
  have hbyte : 128 ≤ first.toNat := hlarge first List.mem_cons_self
  have hescape : first ≠ 0x1b := by
    rintro rfl
    exact absurd hbyte (by decide)
  have hascii : ¬ first < 0x80 := by
    rw [UInt8.lt_iff_toNat_lt]
    exact Nat.not_lt.mpr hbyte
  rw [meaning, if_neg hescape, if_neg hascii, utf8Meaning, hscalar]

theorem readAs_text {c : Char} (hprintable : 0x20 ≤ c.toNat ∧ c.toNat ≠ 0x7f) :
    ReadAs (String.utf8EncodeChar c) [key (.char c)] := by
  by_cases hascii : c.toNat < 0x80
  · rw [utf8EncodeChar_ascii hascii]
    have hmeaning := meaning_printable hascii hprintable
    rw [Char.ofNat_toNat] at hmeaning
    exact readAs_of_meaning hmeaning
  · exact readAs_of_meaning (meaning_wide (Nat.le_of_not_lt hascii))

theorem readAs_alt {c : Char} (hascii : c.toNat < 0x80)
    (hopens : 0x20 ≤ c.toNat ∧ c.toNat ≠ 0x5b ∧ c.toNat ≠ 0x4f) :
    ReadAs (0x1b :: String.utf8EncodeChar c) [.key { code := .char c, modifiers := .ALT }] := by
  rw [utf8EncodeChar_ascii hascii]
  have hvalue : (UInt8.ofNat c.toNat).toNat = c.toNat := by
    rw [UInt8.toNat_ofNat', Nat.mod_eq_of_lt (by omega)]
  have hloose : 0x20 ≤ UInt8.ofNat c.toNat ∧ UInt8.ofNat c.toNat ≠ 0x5b ∧
      UInt8.ofNat c.toNat ≠ 0x4f := by
    rw [UInt8.le_iff_toNat_le, ne_eq, ne_eq, ← UInt8.toNat_inj, ← UInt8.toNat_inj, hvalue]
    exact hopens
  have hmeaning := meaning_loose hloose
  rw [hvalue, Char.ofNat_toNat] at hmeaning
  exact readAs_of_meaning hmeaning

theorem readAs_continuations {bytes : List UInt8} (h : Continues bytes) :
    ReadAs bytes (bytes.map fun _ => key (.char '\ufffd')) := by
  induction bytes with
  | nil => exact readAs_nil
  | cons byte bytes ih =>
    obtain ⟨hbyte, hrest⟩ := List.forall_mem_cons.mp h
    exact (readAs_of_meaning (meaning_continuation hbyte)).append (ih hrest)

/-- Alt with a scalar of several bytes is read as Alt with the first of them, and as one
    more event for each of the others. -/
theorem readAs_wideAlt {c : Char} (hwide : 0x80 ≤ c.toNat) :
    ∃ first later, ReadAs (0x1b :: String.utf8EncodeChar c) (first :: later) ∧ later ≠ [] := by
  have hlarge := utf8EncodeChar_large hwide
  obtain ⟨first, tail, hfirst, hstarts, htail⟩ := utf8EncodeChar_bytes c
  rw [hfirst] at hlarge ⊢
  have hbyte : 128 ≤ first.toNat := hlarge first List.mem_cons_self
  have hloose : 0x20 ≤ first ∧ first ≠ 0x5b ∧ first ≠ 0x4f := by
    rw [UInt8.le_iff_toNat_le, ne_eq, ne_eq, ← UInt8.toNat_inj, ← UInt8.toNat_inj]
    simp only [UInt8.reduceToNat]
    omega
  refine ⟨_, _, (readAs_of_meaning (meaning_loose hloose)).append (readAs_continuations htail), ?_⟩
  intro hnil
  have htail' : tail = [] := List.map_eq_nil_iff.mp hnil
  have hsize : c.utf8Size = 1 := by
    rw [← String.length_utf8EncodeChar, hfirst, htail']
    rfl
  have hle : c.toNat ≤ 127 := UInt32.le_iff_toNat_le.mp (Char.utf8Size_eq_one_iff.mp hsize)
  omega

/-- A key that is not a wide Alt is read as its event. -/
theorem readAs_event {k : TypedKey} (h : ¬ k.WideAlt) : ReadAs k.encode [k.event] := by
  cases k with
  | text c printable => exact readAs_text printable
  | enter newline => exact readAs_of_meaning (by cases newline <;> decide)
  | tab => exact readAs_of_meaning (by decide)
  | backspace shifted => exact readAs_of_meaning (by cases shifted <;> decide)
  | control letter free =>
    obtain ⟨k, hk⟩ := Nat.exists_eq_add_of_le free.1
    have hcode : letter.toNat - 0x60 = k + 1 := by omega
    have hmeaning := meaning_control k (by have hle := free.2.1; omega) (hk ▸ free)
    rw [← hk, Char.ofNat_toNat] at hmeaning
    rw [TypedKey.encode, hcode]
    exact readAs_of_meaning hmeaning
  | special sequence listed => exact readAs_of_meaning (meaning_special sequence listed)
  | alt c opensNone =>
    exact readAs_alt (Nat.lt_of_not_le h) ⟨opensNone.1, opensNone.2.1, opensNone.2.2.1⟩

/-! ### Lists of keys -/

/-- The bytes of keys that are typed one after another. -/
def encodeKeys (keys : List TypedKey) : List UInt8 := keys.flatMap TypedKey.encode

/-- Without a wide Alt the keys are read as their events. -/
theorem readAs_keys {keys : List TypedKey} (h : ∀ k ∈ keys, ¬ k.WideAlt) :
    ReadAs (encodeKeys keys) (keys.map TypedKey.event) := by
  induction keys with
  | nil => exact readAs_nil
  | cons k keys ih =>
    obtain ⟨hk, hkeys⟩ := List.forall_mem_cons.mp h
    exact (readAs_event hk).append (ih hkeys)

/-- Every key is read as an event at least, and a wide Alt as one more. -/
theorem readAs_some (k : TypedKey) : ∃ first later, ReadAs k.encode (first :: later) ∧
    (k.WideAlt → later ≠ []) := by
  by_cases hwide : k.WideAlt
  · cases k with
    | alt c opensNone =>
      obtain ⟨first, later, hread, hmore⟩ := readAs_wideAlt hwide
      exact ⟨first, later, hread, fun _ => hmore⟩
    | _ => exact hwide.elim
  · exact ⟨k.event, [], readAs_event hwide, fun h => absurd h hwide⟩

/-- With a wide Alt there are more events than keys. -/
theorem readAs_more (keys : List TypedKey) : ∃ events, ReadAs (encodeKeys keys) events ∧
    keys.length ≤ events.length ∧ ((∃ k ∈ keys, k.WideAlt) → keys.length < events.length) := by
  induction keys with
  | nil => exact ⟨[], readAs_nil, Nat.le_refl _, fun ⟨_, h, _⟩ => absurd h List.not_mem_nil⟩
  | cons k keys ih =>
    obtain ⟨events, hevents, hle, hlt⟩ := ih
    obtain ⟨first, later, hfirst, hlater⟩ := readAs_some k
    refine ⟨_, hfirst.append hevents, ?_, ?_⟩
    · simp only [List.length_cons, List.length_append]
      omega
    · rintro ⟨wide, hmem, hwide⟩
      simp only [List.length_cons, List.length_append]
      rcases List.mem_cons.mp hmem with rfl | hmem
      · have hpos := List.length_pos_of_ne_nil (hlater hwide)
        omega
      · have hmore := hlt ⟨wide, hmem, hwide⟩
        omega

theorem delivered_of_readAs {bytes : List UInt8} {events : List TerminalEvent}
    (h : ReadAs bytes events) : delivered meaning bytes = events ∧ rest meaning bytes = [] := by
  have hend := h []
  have hnil : meaning [] = none := rfl
  rw [List.append_nil, delivered_of_none hnil, rest_of_none hnil, List.append_nil] at hend
  exact hend

/-- **Keys come back** from the bytes of their encodings, each as one event and with no bytes
    left, just when none of them is Alt with a scalar outside of ASCII. -/
theorem typed_keys_decoded (keys : List TypedKey) (now : Nat) :
    ∃ events d', PollsAt now (({} : InputDecoder).push (encodeKeys keys)) events d' ∧
      (events = keys.map TypedKey.event ∧ d'.bytes = [] ↔ ∀ k ∈ keys, ¬ k.WideAlt) := by
  obtain ⟨events, hread, -, hlt⟩ := readAs_more keys
  obtain ⟨hdelivered, hrest⟩ := delivered_of_readAs hread
  obtain ⟨d', hpolls, hbytes⟩ :=
    pollsAt_of_rest now (d := ({} : InputDecoder).push (encodeKeys keys)) hrest
  refine ⟨_, d', hpolls, ?_⟩
  constructor
  · rintro ⟨hevents, -⟩ k hk hwide
    have hmore := hlt ⟨k, hk, hwide⟩
    have hlen := congrArg List.length (hdelivered.symm.trans hevents)
    rw [List.length_map] at hlen
    omega
  · intro hnone
    exact ⟨(delivered_of_readAs (readAs_keys hnone)).1, hbytes⟩

/-- Alt with é. -/
def altEAcute : TypedKey := .alt 'é' (by decide)

/-- It is read as two events. -/
theorem alt_e_acute_not_decoded :
    ∃ events d', PollsAt 0 (({} : InputDecoder).push (encodeKeys [altEAcute])) events d' ∧
      events ≠ [altEAcute].map TypedKey.event := by
  have hlead : (({} : InputDecoder).push (encodeKeys [altEAcute])).nextEvent 0 =
      (some (.key { code := .char 'Ã', modifiers := .ALT }), { bytes := [0xa9] }) := by
    decide +kernel
  have hbehind : ({ bytes := [0xa9] } : InputDecoder).nextEvent 0 =
      (some (key (.char '\ufffd')), {}) := by decide +kernel
  refine ⟨_, {}, .event hlead (.event hbehind (.wait rfl)), ?_⟩
  decide +kernel

end Tea.Contract
