/-
  Tea/Terminal/Meaning.lean
  =========================
  **What terminal bytes mean**, whatever the reads that bring them: the first event of
  a byte string and the number of bytes that make it (`meaning`).  A paste is one event
  from its start mark to its end mark, and nothing is said of it before the end mark is
  there.  An event once determined does not change with the bytes that follow
  (`meaning_incremental`), so a whole input has its events and its undecoded rest.
-/

import Tea.Encoding.Incremental
import Tea.Terminal.InputDecoder

namespace Tea.Terminal

open Tea.Encoding

/-! ### Finding the end mark -/

theorem position_some {needle bytes : List UInt8} {i : Nat} (h : position needle bytes = some i) :
    needle <+: bytes.drop i := by
  induction bytes generalizing i with
  | nil => cases h
  | cons byte rest ih =>
    simp only [position] at h
    split at h
    · rename_i hstarting
      cases h
      exact List.isPrefixOf_iff_prefix.mp hstarting
    · cases hrest : position needle rest with
      | none => simp [hrest] at h
      | some j =>
        simp only [hrest, Option.map_some, Option.some.injEq] at h
        subst h
        exact ih hrest

theorem position_none {needle bytes : List UInt8} (hne : needle ≠ []) :
    position needle bytes = none ↔ ¬ needle <:+: bytes := by
  induction bytes with
  | nil => simp [position, hne]
  | cons byte rest ih =>
    rw [List.infix_cons_iff, not_or, ← ih]
    by_cases hstarting : needle.isPrefixOf (byte :: rest)
    · simp [position, hstarting, List.isPrefixOf_iff_prefix.mp hstarting]
    · have hnot : ¬ needle <+: byte :: rest := by
        intro hp
        exact hstarting (List.isPrefixOf_iff_prefix.mpr hp)
      simp [position, hstarting, hnot]

theorem position_append {needle bytes : List UInt8} {i : Nat}
    (h : position needle bytes = some i) (more : List UInt8) :
    position needle (bytes ++ more) = some i := by
  induction bytes generalizing i with
  | nil => cases h
  | cons byte rest ih =>
    simp only [position, List.cons_append] at h ⊢
    by_cases hstarting : needle.isPrefixOf (byte :: rest)
    · have hmore : needle.isPrefixOf (byte :: (rest ++ more)) :=
        List.isPrefixOf_iff_prefix.mpr ((List.isPrefixOf_iff_prefix.mp hstarting).trans
          (List.prefix_append (byte :: rest) more))
      rw [if_pos hstarting] at h
      rw [if_pos hmore, h]
    · rw [if_neg hstarting] at h
      cases hrest : position needle rest with
      | none => simp [hrest] at h
      | some j =>
        simp only [hrest, Option.map_some, Option.some.injEq] at h
        have hfound := (position_some hrest).length_le
        have hmore : ¬ needle.isPrefixOf (byte :: (rest ++ more)) := by
          intro hp
          apply hstarting
          have hwhole := List.isPrefixOf_iff_prefix.mp hp
          apply List.isPrefixOf_iff_prefix.mpr
          apply List.prefix_of_prefix_length_le hwhole (List.prefix_append (byte :: rest) more)
          rw [List.length_drop] at hfound
          rw [List.length_cons]
          omega
        rw [if_neg hmore, ih hrest, Option.map_some, h]

theorem findSubslice_end (bytes : List UInt8) :
    findSubslice bytes PASTE_END = position PASTE_END bytes := by
  unfold findSubslice
  split
  · rename_i hshort
    cases hposition : position PASTE_END bytes with
    | none => rfl
    | some i =>
      have hfound := (position_some hposition).length_le
      have hempty : PASTE_END.isEmpty = false := rfl
      simp only [hempty, Bool.false_or, decide_eq_true_eq] at hshort
      rw [List.length_drop] at hfound
      omega
  · rfl

/-- The end mark is found right behind a text that does not contain it. -/
theorem position_text {text : List UInt8} (htext : ¬ PASTE_END <:+: text) (more : List UInt8) :
    position PASTE_END (text ++ (PASTE_END ++ more)) = some text.length := by
  induction text with
  | nil => rfl
  | cons byte text ih =>
    have hrest : ¬ PASTE_END <:+: text := fun h => htext (List.infix_cons h)
    have hhead : ¬ PASTE_END.isPrefixOf (byte :: (text ++ (PASTE_END ++ more))) := by
      intro hp
      have hstarting : PASTE_END <+: (byte :: text) ++ (PASTE_END ++ more) :=
        List.isPrefixOf_iff_prefix.mp hp
      rcases Nat.lt_or_ge (byte :: text).length 6 with hshort | hlong
      · -- the mark would have to begin inside itself, and its escape byte is the first only
        have hdrop := hstarting.drop (byte :: text).length
        rw [List.drop_left] at hdrop
        generalize hlen : (byte :: text).length = n at hdrop hshort
        have hpos : 0 < n := by
          rw [← hlen]
          simp
        obtain rfl | rfl | rfl | rfl | rfl : n = 1 ∨ n = 2 ∨ n = 3 ∨ n = 4 ∨ n = 5 := by omega
        all_goals simp [PASTE_END] at hdrop
      · apply htext
        exact (List.prefix_of_prefix_length_le hstarting (List.prefix_append _ _) hlong).isInfix
    simp only [List.cons_append, position, if_neg hhead, ih hrest, Option.map_some,
      List.length_cons]

/-! ### The first event -/

/-- The sequences with what they stand for: the start of a paste, or a key. -/
def codes : List (List UInt8 × Option KeyEvent) :=
  (PASTE_START, none) :: sequences.map fun sequence => (sequence.1, some sequence.2)

/-- No sequence begins another. -/
theorem codes_prefixFree : PrefixFree codes := by decide

/-- The event of a byte behind an escape that opens no sequence. -/
def looseMeaning (byte : UInt8) : TerminalEvent × Nat :=
  if 0x20 ≤ byte ∧ byte ≠ 0x5b ∧ byte ≠ 0x4f then
    (.key { code := .char (Char.ofNat byte.toNat), modifiers := .ALT }, 2)
  else (key .esc, 1)

/-- A whole paste behind its start mark. -/
def pasteMeaning (text : List UInt8) : Option (TerminalEvent × Nat) :=
  (position PASTE_END text).map fun stop =>
    (.paste (String.ofList (fromUtf8Lossy (text.take stop))),
      PASTE_START.length + (stop + PASTE_END.length))

def escapeMeaning (bytes : List UInt8) : Option (TerminalEvent × Nat) :=
  match lookup codes bytes with
  | some (start, none) => pasteMeaning (bytes.drop start.length)
  | some (sequence, some event) => some (.key event, sequence.length)
  | none => if Begun codes bytes then none else (bytes[1]?).map looseMeaning

def utf8Meaning (bytes : List UInt8) : Option (TerminalEvent × Nat) :=
  match firstScalar bytes with
  | .scalar character => some (key (.char character), character.utf8Size)
  | .invalid _ => some (key (.char '\ufffd'), 1)
  | .incomplete => none

/-- The first event of an input, when the input determines it, and its length. -/
def meaning : Front UInt8 TerminalEvent
  | [] => none
  | first :: rest =>
      if first = 0x1b then escapeMeaning (first :: rest)
      else if first < 0x80 then some (InputDecoder.asciiKey first, 1)
      else utf8Meaning (first :: rest)

section

-- The equations are generated here, once for the proofs below.
attribute [local simp] codes looseMeaning pasteMeaning escapeMeaning utf8Meaning meaning

end

/-! ### An event stays what it is -/

/-- A begun sequence begins with an escape byte; one byte alone is a begun sequence. -/
theorem begun_escape : Begun codes [0x1b] := by decide

theorem pasteMeaning_bounds {text : List UInt8} {event : TerminalEvent} {n : Nat}
    (h : pasteMeaning text = some (event, n)) :
    PASTE_START.length < n ∧ n ≤ PASTE_START.length + text.length := by
  unfold pasteMeaning at h
  cases hposition : position PASTE_END text with
  | none => simp [hposition] at h
  | some stop =>
    simp only [hposition, Option.map_some, Option.some.injEq, Prod.mk.injEq] at h
    have hfound := (position_some hposition).length_le
    have hlen : PASTE_END.length = 6 := rfl
    rw [List.length_drop] at hfound
    omega

theorem pasteMeaning_append {text : List UInt8} {event : TerminalEvent} {n : Nat}
    (h : pasteMeaning text = some (event, n)) (more : List UInt8) :
    pasteMeaning (text ++ more) = some (event, n) := by
  unfold pasteMeaning at h ⊢
  cases hposition : position PASTE_END text with
  | none => simp [hposition] at h
  | some stop =>
    have hfound := (position_some hposition).length_le
    have hlen : PASTE_END.length = 6 := rfl
    rw [List.length_drop] at hfound
    rw [position_append hposition more, Option.map_some, List.take_append_of_le_length (by omega)]
    rw [hposition, Option.map_some] at h
    exact h

/-- An input that opens with an escape byte and is no begun sequence has another byte. -/
theorem second_of_not_begun {rest : List UInt8} (h : ¬ Begun codes (0x1b :: rest)) :
    ∃ byte more, rest = byte :: more := by
  cases rest with
  | nil => exact absurd begun_escape h
  | cons byte more => exact ⟨byte, more, rfl⟩

theorem codes_length {code : List UInt8 × Option KeyEvent} (h : code ∈ codes) :
    0 < code.1.length ∧ (code.2 = none → code.1 = PASTE_START) := by
  have hall : ∀ code ∈ codes, 0 < code.1.length ∧ (code.2 = none → code.1 = PASTE_START) := by
    decide
  exact hall code h

theorem escapeMeaning_bounds {rest : List UInt8} {event : TerminalEvent} {n : Nat}
    (h : escapeMeaning (0x1b :: rest) = some (event, n)) :
    0 < n ∧ n ≤ (0x1b :: rest).length := by
  unfold escapeMeaning at h
  split at h
  · rename_i start hlookup
    obtain ⟨hmem, hstarting⟩ := lookup_some hlookup
    have hstart := (codes_length hmem).2 rfl
    have hbounds := pasteMeaning_bounds h
    have hle := hstarting.length_le
    rw [List.length_drop] at hbounds
    simp only at hstart
    subst hstart
    simp only at hle hbounds
    omega
  · rename_i sequence event' hlookup
    obtain ⟨hmem, hstarting⟩ := lookup_some hlookup
    cases h
    exact ⟨(codes_length hmem).1, hstarting.length_le⟩
  · split at h
    · cases h
    · rename_i hbegun
      obtain ⟨byte, more, rfl⟩ := second_of_not_begun hbegun
      simp only [List.getElem?_cons_succ, List.getElem?_cons_zero, Option.map_some,
        Option.some.injEq] at h
      unfold looseMeaning at h
      split at h
      · cases h
        simp
      · cases h
        simp

theorem escapeMeaning_append {rest : List UInt8} {event : TerminalEvent} {n : Nat}
    (h : escapeMeaning (0x1b :: rest) = some (event, n)) (more : List UInt8) :
    escapeMeaning (0x1b :: rest ++ more) = some (event, n) := by
  unfold escapeMeaning at h ⊢
  split at h
  · rename_i start hlookup
    have hle := (lookup_some hlookup).2.length_le
    simp only [lookup_some_append codes_prefixFree hlookup more]
    rw [List.drop_append_of_le_length hle]
    exact pasteMeaning_append h more
  · rename_i sequence event' hlookup
    simp only [lookup_some_append codes_prefixFree hlookup more]
    exact h
  · rename_i hlookup
    split at h
    · cases h
    · rename_i hbegun
      have hstill : ¬ Begun codes (0x1b :: rest ++ more) := by
        rintro ⟨code, hmem, hstarting, hlt⟩
        apply hbegun
        refine ⟨code, hmem, (List.prefix_append _ _).trans hstarting, ?_⟩
        rw [List.length_append] at hlt
        omega
      simp only [lookup_none_append hlookup hbegun more, if_neg hstill]
      obtain ⟨byte, tail, rfl⟩ := second_of_not_begun hbegun
      exact h

/-- **Events are determined from the front.** -/
theorem meaning_incremental : Incremental meaning where
  consumes := by
    intro input event n h
    match input with
    | [] => cases h
    | first :: rest =>
      simp only [meaning] at h
      split at h
      · rename_i hescape
        subst hescape
        exact escapeMeaning_bounds h
      · split at h
        · cases h
          simp
        · unfold utf8Meaning at h
          split at h
          · rename_i c hscalar
            cases h
            exact ⟨Char.utf8Size_pos c, utf8Size_le_of_scalar hscalar⟩
          · cases h
            simp
          · cases h
  stable := by
    intro input event n h more
    match input with
    | [] => cases h
    | first :: rest =>
      simp only [meaning, List.cons_append] at h ⊢
      split at h
      · rename_i hescape
        subst hescape
        rw [if_pos rfl]
        exact escapeMeaning_append h more
      · rename_i hescape
        rw [if_neg hescape]
        split at h
        · rename_i hascii
          rw [if_pos hascii]
          exact h
        · rename_i hascii
          rw [if_neg hascii]
          unfold utf8Meaning at h ⊢
          have hdetermined : firstScalar (first :: rest) ≠ .incomplete := by
            intro hnone
            simp [hnone] at h
          rw [← List.cons_append, firstScalar_append hdetermined]
          exact h

end Tea.Terminal
