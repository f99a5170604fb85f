/-
  Tea/Encoding/Cbor.lean
  ======================
  **Data items of definite length** in the concise binary object representation: the head of an
  item with its major type and its argument in the shortest form (`head`), and texts.
-/
import Tea.Encoding.Codes
import Tea.Encoding.Framing
import Tea.Encoding.Utf8

namespace Tea.Encoding.Cbor

/-! ### Heads -/

def initial (major info : Nat) : UInt8 := UInt8.ofNat (32 * major + info)

/-- A number with its highest byte first. -/
def beBytes (count n : Nat) : List UInt8 := (leBytes count n).reverse

def head (major argument : Nat) : List UInt8 :=
  if argument < 24 then [initial major argument]
  else if argument < 256 then initial major 24 :: beBytes 1 argument
  else if argument < 65536 then initial major 25 :: beBytes 2 argument
  else if argument < 4294967296 then initial major 26 :: beBytes 4 argument
  else initial major 27 :: beBytes 8 argument

def number (count : Nat) : Front UInt8 Nat :=
  (Front.taking count).keep fun bytes => some (ofLeBytes bytes.reverse)

/-- The argument behind an initial byte. -/
def argument (info : Nat) : Front UInt8 Nat :=
  if info < 24 then Front.done info
  else if info = 24 then number 1
  else if info = 25 then number 2
  else if info = 26 then number 4
  else if info = 27 then number 8
  else fun _ => none

/-- The argument of an item of the major type. -/
def headOf (major : Nat) : Front UInt8 Nat :=
  Front.next.andThen fun byte =>
    if byte.toNat / 32 = major then argument (byte.toNat % 32) else fun _ => none

theorem steady_none {α β : Type} : Steady (fun _ => none : Front α β) where
  within := fun h => by cases h
  stable := fun h => by cases h

theorem steady_number (count : Nat) : Steady (number count) := (steady_taking count).keep _

theorem steady_argument (info : Nat) : Steady (argument info) := by
  unfold argument
  split_ifs
  · exact steady_done info
  · exact steady_number 1
  · exact steady_number 2
  · exact steady_number 4
  · exact steady_number 8
  · exact steady_none

theorem steady_headOf (major : Nat) : Steady (headOf major) := by
  refine steady_next.andThen ?_
  intro byte
  split_ifs
  · exact steady_argument _
  · exact steady_none

theorem taking_headOf (major : Nat) : Taking (headOf major) := taking_next.andThen _

theorem reads_number {count n : Nat} (h : n < byteRange count) :
    Reads (number count) n (beBytes count n) := by
  have hlength : (beBytes count n).length = count := by simp [beBytes]
  have htaking := reads_taking (beBytes count n)
  rw [hlength] at htaking
  refine htaking.keep ?_
  rw [beBytes, List.reverse_reverse, ofLeBytes_leBytes h]

theorem toNat_initial {major info : Nat} (hmajor : major < 8) (hinfo : info < 32) :
    (initial major info).toNat = 32 * major + info := by
  rw [initial, UInt8.toNat_ofNat']
  omega

theorem reads_initial {major info n : Nat} {code : List UInt8} (hmajor : major < 8)
    (hinfo : info < 32) (h : Reads (argument info) n code) :
    Reads (headOf major) n (initial major info :: code) := by
  have hbyte := toNat_initial hmajor hinfo
  have hargument : Reads (if (initial major info).toNat / 32 = major then
      argument ((initial major info).toNat % 32) else fun _ => none) n code := by
    rw [if_pos (by omega), show (initial major info).toNat % 32 = info by omega]
    exact h
  exact (reads_next _).andThen hargument

/-- **A head is read back** with its argument. -/
theorem reads_head {major n : Nat} (hmajor : major < 8) (hn : n < byteRange 8) :
    Reads (headOf major) n (head major n) := by
  unfold head
  split_ifs with hsmall hbyte hshort hword
  · refine reads_initial hmajor (by omega) ?_
    rw [argument, if_pos hsmall]
    exact reads_done n
  · exact reads_initial hmajor (by omega) (reads_number hbyte)
  · exact reads_initial hmajor (by omega) (reads_number hshort)
  · exact reads_initial hmajor (by omega) (reads_number hword)
  · exact reads_initial hmajor (by omega) (reads_number hn)

theorem head_cons {major : Nat} (hmajor : major < 8) (n : Nat) :
    ∃ byte rest, head major n = byte :: rest ∧ byte.toNat / 32 = major ∧ byte.toNat % 32 < 28 := by
  have hinitial : ∀ info < 28, (initial major info).toNat / 32 = major ∧
      (initial major info).toNat % 32 < 28 := by
    intro info hinfo
    rw [toNat_initial hmajor (by omega)]
    omega
  unfold head
  split_ifs with hsmall
  · exact ⟨_, _, rfl, hinitial n (by omega)⟩
  · exact ⟨_, _, rfl, hinitial 24 (by omega)⟩
  · exact ⟨_, _, rfl, hinitial 25 (by omega)⟩
  · exact ⟨_, _, rfl, hinitial 26 (by omega)⟩
  · exact ⟨_, _, rfl, hinitial 27 (by omega)⟩

/-! ### Texts -/

def text (s : String) : List UInt8 :=
  head 3 (encodeUtf8 s.toList).length ++ encodeUtf8 s.toList

def readText : Front UInt8 String :=
  (headOf 3).andThen fun length =>
    (Front.taking length).keep fun bytes => (fromUtf8 bytes).toOption.map String.ofList

/-- The length of the text has a head. -/
def Sized (s : String) : Prop := (encodeUtf8 s.toList).length < byteRange 8

instance (s : String) : Decidable (Sized s) := inferInstanceAs (Decidable (_ < _))

theorem steady_readText : Steady readText :=
  (steady_headOf 3).andThen fun length => (steady_taking length).keep _

/-- **A text is read back.** -/
theorem reads_text {s : String} (h : Sized s) : Reads readText s (text s) := by
  refine (reads_head (by decide) h).andThen ((reads_taking _).keep ?_)
  rw [fromUtf8_encode]
  simp [Except.toOption]

end Tea.Encoding.Cbor
