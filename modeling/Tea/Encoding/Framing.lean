/-
  Tea/Encoding/Framing.lean
  =========================
  **Length-prefixed fields.**  A sequence of byte fields, each behind its length, is read
  back from the bytes: two sequences with the same bytes are the same.
-/
import Mathlib.Data.List.Basic

namespace Tea.Encoding

/-- The lowest bytes of a number, the lowest first. -/
def leBytes : Nat → Nat → List UInt8
  | 0, _ => []
  | count + 1, n => UInt8.ofNat (n % 256) :: leBytes count (n / 256)

/-- A field behind its length. -/
def frame (field : List UInt8) : List UInt8 := leBytes 8 field.length ++ field

/-- Fields, one behind the other. -/
def frames (fields : List (List UInt8)) : List UInt8 := fields.flatMap frame

/-- How many numbers a count of bytes has. -/
def byteRange : Nat → Nat
  | 0 => 1
  | count + 1 => byteRange count * 256

@[simp] theorem leBytes_length (count n : Nat) : (leBytes count n).length = count := by
  induction count generalizing n with
  | zero => rfl
  | succ count ih => rw [leBytes, List.length_cons, ih]

/-- The number that bytes are the lowest ones of. -/
def ofLeBytes : List UInt8 → Nat
  | [] => 0
  | byte :: bytes => byte.toNat + 256 * ofLeBytes bytes

theorem ofLeBytes_leBytes {count n : Nat} (h : n < byteRange count) :
    ofLeBytes (leBytes count n) = n := by
  induction count generalizing n with
  | zero =>
    rw [byteRange, Nat.lt_one_iff] at h
    rw [leBytes, ofLeBytes, h]
  | succ count ih =>
    have hrest : n / 256 < byteRange count := by
      rw [byteRange] at h
      exact (Nat.div_lt_iff_lt_mul (by decide)).mpr h
    rw [leBytes, ofLeBytes, ih hrest, UInt8.toNat_ofNat', Nat.mod_eq_of_lt (by omega)]
    omega

theorem leBytes_inj {count m n : Nat} (hm : m < byteRange count) (hn : n < byteRange count)
    (h : leBytes count m = leBytes count n) : m = n := by
  rw [← ofLeBytes_leBytes hm, h, ofLeBytes_leBytes hn]

/-- The length in front of a field is the length of the field. -/
def Framed (field : List UInt8) : Prop := field.length < byteRange 8

theorem frame_append_inj {field field' rest rest' : List UInt8} (h : Framed field)
    (h' : Framed field') (heq : frame field ++ rest = frame field' ++ rest') :
    field = field' ∧ rest = rest' := by
  rw [frame, frame, List.append_assoc, List.append_assoc] at heq
  obtain ⟨hlength, heq⟩ := List.append_inj heq (by simp)
  exact List.append_inj heq (leBytes_inj h h' hlength)

/-- **Framed fields are read back.** -/
theorem frames_inj {fields fields' : List (List UInt8)} (h : ∀ field ∈ fields, Framed field)
    (h' : ∀ field ∈ fields', Framed field) (heq : frames fields = frames fields') :
    fields = fields' := by
  induction fields generalizing fields' with
  | nil =>
    cases fields' with
    | nil => rfl
    | cons field' fields' =>
      have hlength := congrArg List.length heq
      simp [frames, frame] at hlength
      omega
  | cons field fields ih =>
    cases fields' with
    | nil =>
      have hlength := congrArg List.length heq
      simp [frames, frame] at hlength
    | cons field' fields' =>
      obtain ⟨hfield, hfields⟩ := List.forall_mem_cons.mp h
      obtain ⟨hfield', hfields'⟩ := List.forall_mem_cons.mp h'
      obtain ⟨rfl, hrest⟩ := frame_append_inj hfield hfield' heq
      rw [ih hfields hfields' hrest]

end Tea.Encoding
