/-
  Tea/Terminal/InputDecoder.lean
  ==============================
  **The terminal's input decoder**, `InputDecoder` of `terminal.rs`.  Bytes are pushed
  as they are read from the terminal, and `nextEvent` is polled for the events they
  make: keys, escape sequences, UTF-8 characters and bracketed pastes.  An escape byte
  that may still open a sequence is held back until a deadline.  Instants are
  milliseconds.
-/

import Tea.Encoding.Utf8

namespace Tea.Terminal

open Tea.Encoding

/-! ### Events -/

/-- A terminal key code understood by the application input surface. -/
inductive KeyCode where
  | backspace | delete | down | «end» | enter | esc | home | left | pageDown | pageUp | right
  | tab | up
  | char (character : Char)
deriving DecidableEq

/-- Modifier flags attached to a terminal key. -/
structure KeyModifiers where
  bits : UInt8 := 0
deriving DecidableEq

def KeyModifiers.SHIFT : KeyModifiers := ⟨1⟩
def KeyModifiers.CONTROL : KeyModifiers := ⟨2⟩
def KeyModifiers.ALT : KeyModifiers := ⟨4⟩

inductive KeyEventKind where
  | press | repeat | release
deriving DecidableEq

structure KeyEvent where
  code : KeyCode
  modifiers : KeyModifiers := {}
  kind : KeyEventKind := .press
deriving DecidableEq

/-- Events delivered by the terminal host to the application. -/
inductive TerminalEvent where
  | key (event : KeyEvent)
  | paste (text : String)
  | resize (width height : UInt16)
  | focusGained | focusLost | mouse
deriving DecidableEq

def key (code : KeyCode) : TerminalEvent := .key { code }

/-! ### The decoder -/

def PASTE_START : List UInt8 := [0x1b, 0x5b, 0x32, 0x30, 0x30, 0x7e]
def PASTE_END : List UInt8 := [0x1b, 0x5b, 0x32, 0x30, 0x31, 0x7e]

structure InputDecoder where
  bytes : List UInt8 := []
  paste : Bool := false
  escapeDeadline : Option Nat := none
deriving DecidableEq

/-- The first window of `bytes` that equals `needle`. -/
def position (needle : List UInt8) : List UInt8 → Option Nat
  | [] => none
  | byte :: rest =>
      if needle.isPrefixOf (byte :: rest) then some 0 else (position needle rest).map (· + 1)

def findSubslice (bytes needle : List UInt8) : Option Nat :=
  if needle.isEmpty || bytes.length < needle.length then none else position needle bytes

/-- The sequences that stand for a key. -/
def sequences : List (List UInt8 × KeyEvent) :=
  [([0x1b, 0x5b, 0x41], { code := .up }),
   ([0x1b, 0x5b, 0x42], { code := .down }),
   ([0x1b, 0x5b, 0x43], { code := .right }),
   ([0x1b, 0x5b, 0x44], { code := .left }),
   ([0x1b, 0x5b, 0x48], { code := .home }),
   ([0x1b, 0x5b, 0x46], { code := .end }),
   ([0x1b, 0x5b, 0x31, 0x7e], { code := .home }),
   ([0x1b, 0x5b, 0x34, 0x7e], { code := .end }),
   ([0x1b, 0x5b, 0x33, 0x7e], { code := .delete }),
   ([0x1b, 0x5b, 0x35, 0x7e], { code := .pageUp }),
   ([0x1b, 0x5b, 0x36, 0x7e], { code := .pageDown }),
   ([0x1b, 0x5b, 0x5a], { code := .tab, modifiers := .SHIFT }),
   ([0x1b, 0x4f, 0x41], { code := .up }),
   ([0x1b, 0x4f, 0x42], { code := .down }),
   ([0x1b, 0x4f, 0x43], { code := .right }),
   ([0x1b, 0x4f, 0x44], { code := .left })]

/-- The candidates of `escape_sequence_prefix`. -/
def candidates : List (List UInt8) := PASTE_START :: sequences.map (·.1)

namespace InputDecoder

variable (d : InputDecoder)

def push (bytes : List UInt8) : InputDecoder := { d with bytes := d.bytes ++ bytes }

def startsWith (expected : List UInt8) : Bool := expected.isPrefixOf d.bytes

def take (count : Nat) : InputDecoder := { d with bytes := d.bytes.drop count }

def popFront : InputDecoder := { d with bytes := d.bytes.tail }

/-- The branch of `next_event` inside a paste: the paste ends, or the bytes wait. -/
def pasteEvent : Option TerminalEvent × InputDecoder :=
  match findSubslice d.bytes PASTE_END with
  | some stop =>
      (some (.paste (String.ofList (fromUtf8Lossy (d.bytes.take stop)))),
        { (d.take stop).take PASTE_END.length with paste := false })
  | none => (none, d)

/-- `escape_sequence`.  The start of a paste is taken off before it is known whether the
    paste ends: the nested call of `next_event`, which answers from the branch inside a
    paste and never reads the clock, may return nothing. -/
def escapeSequence : Option TerminalEvent × InputDecoder :=
  if d.startsWith PASTE_START then
    { d.take PASTE_START.length with paste := true }.pasteEvent
  else
    match sequences.find? (fun sequence => d.startsWith sequence.1) with
    | some (sequence, event) => (some (.key event), d.take sequence.length)
    | none => (none, d)

def escapeSequencePrefix : Bool :=
  candidates.any fun candidate =>
    d.bytes.length < candidate.length && d.bytes == candidate.take d.bytes.length

/-- `escape_deadline.get_or_insert_with(|| now + 30 ms)`. -/
def armed (now : Nat) : InputDecoder :=
  { d with escapeDeadline := some (d.escapeDeadline.getD (now + 30)) }

/-- `now < *deadline`. -/
def waits (now : Nat) : Bool := now < d.escapeDeadline.getD (now + 30)

/-- The end of the escape branch: a byte behind the escape is a key with ALT, and
    otherwise the escape is a key of its own. -/
def looseEscape : Option TerminalEvent × InputDecoder :=
  match d.bytes with
  | _ :: byte :: rest =>
      if 0x20 ≤ byte ∧ byte ≠ 0x5b ∧ byte ≠ 0x4f then
        (some (.key { code := .char (Char.ofNat byte.toNat), modifiers := .ALT }),
          { d with bytes := rest })
      else (some (key .esc), { d.popFront with escapeDeadline := none })
  | _ => (some (key .esc), { d.popFront with escapeDeadline := none })

/-- The branch of `next_event` on an escape byte. -/
def escapeEvent (now : Nat) : Option TerminalEvent × InputDecoder :=
  if d.bytes.length = 1 then
    if d.waits now then (none, d.armed now)
    else (some (key .esc), { d.popFront with escapeDeadline := none })
  else
    match d.escapeSequence with
    | (some event, d) => (some event, { d with escapeDeadline := none })
    | (none, d) =>
        if d.escapeSequencePrefix then
          if d.waits now then (none, d.armed now) else (d.armed now).looseEscape
        else d.looseEscape

/-- The first character is read from the valid part of the buffer; an input that ends
    inside a character waits, and an invalid byte is replaced. -/
def nextUtf8 : Option TerminalEvent × InputDecoder :=
  match fromUtf8 d.bytes with
  | .ok [] => (none, d)
  | .ok (character :: _) => (some (key (.char character)), d.take character.utf8Size)
  | .error error =>
      if error.validUpTo ≠ 0 then
        match fromUtf8 (d.bytes.take error.validUpTo) with
        | .ok (character :: _) => (some (key (.char character)), d.take character.utf8Size)
        | _ => (none, d)
      else if error.errorLen.isNone then (none, d)
      else (some (key (.char '\ufffd')), d.popFront)

/-- The arms of `next_event` that take one byte. -/
def asciiKey (first : UInt8) : TerminalEvent :=
  if first = 0x0d ∨ first = 0x0a then key .enter
  else if first = 0x09 then key .tab
  else if first = 0x7f ∨ first = 0x08 then key .backspace
  else if first ≤ 0x1a then
    .key {
      code := .char (if first = 0 then '@' else Char.ofNat (first + 0x61 - 1).toNat)
      modifiers := .CONTROL }
  else key (.char (Char.ofNat first.toNat))

def nextEvent (now : Nat) : Option TerminalEvent × InputDecoder :=
  if d.paste then d.pasteEvent
  else
    match d.bytes with
    | [] => (none, d)
    | first :: _ =>
        if first = 0x1b then d.escapeEvent now
        else if first < 0x80 then
          (some (asciiKey first), { d.popFront with escapeDeadline := none })
        else { d with escapeDeadline := none }.nextUtf8

end InputDecoder

section

-- The equations are generated here, once for the proofs below.
attribute [local simp] InputDecoder.pasteEvent InputDecoder.escapeSequence
  InputDecoder.escapeSequencePrefix InputDecoder.looseEscape InputDecoder.escapeEvent
  InputDecoder.nextUtf8 InputDecoder.nextEvent

end

/-- Decoder tests of `terminal.rs`. -/
example :
    ({ : InputDecoder }.push (PASTE_START ++ [0x61, 0x0a] ++ PASTE_END)).nextEvent 0 =
      (some (.paste "a\n"), {}) := by
  decide

end Tea.Terminal
