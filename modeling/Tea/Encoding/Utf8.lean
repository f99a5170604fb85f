/-
  Tea/Encoding/Utf8.lean
  ======================
  **UTF-8 as `std::str` reads it**: the validation behind `from_utf8`, with the place
  and length of the first error, and the lossy decoding of `from_utf8_lossy`.  The
  first scalar of an input decides both (`firstScalar`); it is stable under more input
  (`firstScalar_append`), and decoding an encoded text gives it back
  (`fromUtf8Lossy_encode`).
-/

import Mathlib.Data.List.Infix

namespace Tea.Encoding

/-! ### The first scalar -/

/-- What an input begins with: a scalar, `width` bytes that begin none, or bytes that
    may still begin one. -/
inductive FirstScalar where
  | scalar (character : Char)
  | invalid (width : Nat)
  | incomplete
deriving DecidableEq

/-- `UTF8_CHAR_WIDTH`: the length of the sequence that a byte opens, `0` for none. -/
def utf8CharWidth (byte : UInt8) : Nat :=
  if byte.toNat < 0x80 then 1
  else if byte.toNat < 0xc2 then 0
  else if byte.toNat < 0xe0 then 2
  else if byte.toNat < 0xf0 then 3
  else if byte.toNat < 0xf5 then 4
  else 0

def isContinuation (byte : UInt8) : Bool := 0x80 ≤ byte.toNat && byte.toNat < 0xc0

/-- The second bytes that a sequence of three bytes allows. -/
def isSecondOfThree (first second : UInt8) : Bool :=
  (if first.toNat = 0xe0 then 0xa0 else 0x80) ≤ second.toNat &&
    second.toNat < if first.toNat = 0xed then 0xa0 else 0xc0

/-- The second bytes that a sequence of four bytes allows. -/
def isSecondOfFour (first second : UInt8) : Bool :=
  (if first.toNat = 0xf0 then 0x90 else 0x80) ≤ second.toNat &&
    second.toNat < if first.toNat = 0xf4 then 0x90 else 0xc0

/-- The payload of a continuation byte. -/
def payload (byte : UInt8) : Nat := byte.toNat % 64

def secondOfTwo (first : UInt8) : List UInt8 → FirstScalar
  | [] => .incomplete
  | second :: _ =>
      if isContinuation second then
        .scalar (Char.ofNat (first.toNat % 32 * 64 + payload second))
      else .invalid 1

def secondOfThree (first : UInt8) : List UInt8 → FirstScalar
  | [] => .incomplete
  | [second] => if isSecondOfThree first second then .incomplete else .invalid 1
  | second :: third :: _ =>
      if isSecondOfThree first second then
        if isContinuation third then
          .scalar (Char.ofNat
            (first.toNat % 16 * 4096 + payload second * 64 + payload third))
        else .invalid 2
      else .invalid 1

def secondOfFour (first : UInt8) : List UInt8 → FirstScalar
  | [] => .incomplete
  | [second] => if isSecondOfFour first second then .incomplete else .invalid 1
  | [second, third] =>
      if isSecondOfFour first second then
        if isContinuation third then .incomplete else .invalid 2
      else .invalid 1
  | second :: third :: fourth :: _ =>
      if isSecondOfFour first second then
        if isContinuation third then
          if isContinuation fourth then
            .scalar (Char.ofNat (first.toNat % 8 * 262144 + payload second * 4096 +
              payload third * 64 + payload fourth))
          else .invalid 3
        else .invalid 2
      else .invalid 1

/-- One turn of the loop of `run_utf8_validation`, with the scalar that it accepts. -/
def firstScalar : List UInt8 → FirstScalar
  | [] => .incomplete
  | first :: rest =>
      match utf8CharWidth first with
      | 1 => .scalar (Char.ofNat first.toNat)
      | 2 => secondOfTwo first rest
      | 3 => secondOfThree first rest
      | 4 => secondOfFour first rest
      | _ => .invalid 1

/-- A scalar or an error stays when more input follows. -/
theorem firstScalar_append {bytes : List UInt8} (h : firstScalar bytes ≠ .incomplete)
    (more : List UInt8) : firstScalar (bytes ++ more) = firstScalar bytes := by
  cases bytes with
  | nil => exact absurd rfl h
  | cons first rest =>
    simp only [firstScalar, List.cons_append] at h ⊢
    split at h
    · rfl
    · cases rest with
      | nil => exact absurd rfl h
      | cons second rest => rfl
    · cases rest with
      | nil => exact absurd rfl h
      | cons second rest =>
        cases rest with
        | nil =>
          simp only [secondOfThree] at h
          split at h
          · exact absurd rfl h
          · rename_i hsecond
            cases more <;> simp [secondOfThree, hsecond]
        | cons third rest => rfl
    · cases rest with
      | nil => exact absurd rfl h
      | cons second rest =>
        cases rest with
        | nil =>
          simp only [secondOfFour] at h
          split at h
          · exact absurd rfl h
          · rename_i hsecond
            cases more with
            | nil => rfl
            | cons third more => cases more <;> simp [secondOfFour, hsecond]
        | cons third rest =>
          cases rest with
          | nil =>
            cases hsecond : isSecondOfFour first second with
            | false => cases more <;> simp [secondOfFour, hsecond]
            | true =>
              cases hthird : isContinuation third with
              | false => cases more <;> simp [secondOfFour, hsecond, hthird]
              | true => exact absurd (by simp [secondOfFour, hsecond, hthird]) h
          | cons fourth rest => rfl
    · rfl

/-! ### Encoded text -/

/-- The byte that carries `bits` under the mark `mark`. -/
private theorem toNat_marked {n : Nat} (h : n < 256) : (UInt8.ofNat n).toNat = n := by
  rw [UInt8.toNat_ofNat']
  omega

private theorem firstScalar_one {v : Nat} (h : v ≤ 0x7f) (more : List UInt8) :
    firstScalar (UInt8.ofNat v :: more) = .scalar (Char.ofNat v) := by
  have hfirst := toNat_marked (n := v) (by omega)
  have hwidth : utf8CharWidth (UInt8.ofNat v) = 1 := by
    simp only [utf8CharWidth, hfirst]
    rw [if_pos (by omega)]
  simp only [firstScalar, hwidth, hfirst]

private theorem isContinuation_tail (n : Nat) :
    isContinuation (UInt8.ofNat (n % 0x40 + 0x80)) = true := by
  have hbyte := toNat_marked (n := n % 0x40 + 0x80) (by omega)
  simp only [isContinuation, hbyte, Bool.and_eq_true, decide_eq_true_eq]
  omega

private theorem payload_tail (n : Nat) :
    payload (UInt8.ofNat (n % 0x40 + 0x80)) = n % 0x40 := by
  have hbyte := toNat_marked (n := n % 0x40 + 0x80) (by omega)
  simp only [payload, hbyte]
  omega

private theorem firstScalar_two {v : Nat} (hlow : 0x7f < v) (hhigh : v ≤ 0x7ff)
    (more : List UInt8) :
    firstScalar (UInt8.ofNat (v / 64 % 0x20 + 0xc0) :: UInt8.ofNat (v % 0x40 + 0x80) :: more) =
      .scalar (Char.ofNat v) := by
  have hfirst := toNat_marked (n := v / 64 % 0x20 + 0xc0) (by omega)
  have hwidth : utf8CharWidth (UInt8.ofNat (v / 64 % 0x20 + 0xc0)) = 2 := by
    simp only [utf8CharWidth, hfirst]
    rw [if_neg (by omega), if_neg (by omega), if_pos (by omega)]
  have hvalue : (v / 64 % 0x20 + 0xc0) % 32 * 64 + v % 0x40 = v := by omega
  simp only [firstScalar, hwidth, secondOfTwo, isContinuation_tail, if_true, payload_tail,
    hfirst, hvalue]

private theorem firstScalar_three {v : Nat} (hlow : 0x7ff < v) (hhigh : v ≤ 0xffff)
    (hvalid : v < 0xd800 ∨ 0xdfff < v) (more : List UInt8) :
    firstScalar (UInt8.ofNat (v / 4096 % 0x10 + 0xe0) :: UInt8.ofNat (v / 64 % 0x40 + 0x80) ::
      UInt8.ofNat (v % 0x40 + 0x80) :: more) = .scalar (Char.ofNat v) := by
  have hfirst := toNat_marked (n := v / 4096 % 0x10 + 0xe0) (by omega)
  have hsecond := toNat_marked (n := v / 64 % 0x40 + 0x80) (by omega)
  have hwidth : utf8CharWidth (UInt8.ofNat (v / 4096 % 0x10 + 0xe0)) = 3 := by
    simp only [utf8CharWidth, hfirst]
    rw [if_neg (by omega), if_neg (by omega), if_neg (by omega), if_pos (by omega)]
  have hallowed : isSecondOfThree (UInt8.ofNat (v / 4096 % 0x10 + 0xe0))
      (UInt8.ofNat (v / 64 % 0x40 + 0x80)) = true := by
    simp only [isSecondOfThree, hfirst, hsecond, Bool.and_eq_true, decide_eq_true_eq]
    constructor
    · split <;> omega
    · split <;> omega
  have hvalue : (v / 4096 % 0x10 + 0xe0) % 16 * 4096 + v / 64 % 0x40 * 64 + v % 0x40 = v := by
    omega
  simp only [firstScalar, hwidth, secondOfThree, hallowed, isContinuation_tail, if_true,
    payload_tail, hfirst, hvalue]

private theorem firstScalar_four {v : Nat} (hlow : 0xffff < v) (hhigh : v < 0x110000)
    (more : List UInt8) :
    firstScalar (UInt8.ofNat (v / 262144 % 0x08 + 0xf0) ::
      UInt8.ofNat (v / 4096 % 0x40 + 0x80) :: UInt8.ofNat (v / 64 % 0x40 + 0x80) ::
        UInt8.ofNat (v % 0x40 + 0x80) :: more) = .scalar (Char.ofNat v) := by
  have hfirst := toNat_marked (n := v / 262144 % 0x08 + 0xf0) (by omega)
  have hsecond := toNat_marked (n := v / 4096 % 0x40 + 0x80) (by omega)
  have hwidth : utf8CharWidth (UInt8.ofNat (v / 262144 % 0x08 + 0xf0)) = 4 := by
    simp only [utf8CharWidth, hfirst]
    rw [if_neg (by omega), if_neg (by omega), if_neg (by omega), if_neg (by omega),
      if_pos (by omega)]
  have hallowed : isSecondOfFour (UInt8.ofNat (v / 262144 % 0x08 + 0xf0))
      (UInt8.ofNat (v / 4096 % 0x40 + 0x80)) = true := by
    simp only [isSecondOfFour, hfirst, hsecond, Bool.and_eq_true, decide_eq_true_eq]
    constructor
    · split <;> omega
    · split <;> omega
  have hvalue : (v / 262144 % 0x08 + 0xf0) % 8 * 262144 + v / 4096 % 0x40 * 4096 +
      v / 64 % 0x40 * 64 + v % 0x40 = v := by omega
  simp only [firstScalar, hwidth, secondOfFour, hallowed, isContinuation_tail, if_true,
    payload_tail, hfirst, hvalue]

/-- The first scalar of an encoded text is its first character. -/
theorem firstScalar_encode (c : Char) (more : List UInt8) :
    firstScalar (String.utf8EncodeChar c ++ more) = .scalar c := by
  have hvalid := c.valid
  simp only [UInt32.isValidChar, Nat.isValidChar] at hvalid
  have hc : FirstScalar.scalar c = .scalar (Char.ofNat c.val.toNat) :=
    congrArg FirstScalar.scalar (Char.ofNat_toNat c).symm
  rw [hc]
  simp only [String.utf8EncodeChar]
  generalize c.val.toNat = v at hvalid ⊢
  by_cases hone : v ≤ 0x7f
  · rw [if_pos hone]
    exact firstScalar_one hone more
  rw [if_neg hone]
  by_cases htwo : v ≤ 0x7ff
  · rw [if_pos htwo]
    exact firstScalar_two (by omega) htwo more
  rw [if_neg htwo]
  by_cases hthree : v ≤ 0xffff
  · rw [if_pos hthree]
    exact firstScalar_three (by omega) hthree (by omega) more
  rw [if_neg hthree]
  exact firstScalar_four (by omega) (by omega) more

/-! ### The bytes of an item -/

private theorem toNat_ofNat {n : Nat} (h : n.isValidChar) : (Char.ofNat n).val.toNat = n := by
  unfold Char.ofNat
  rw [dif_pos h]
  rfl

private theorem ofNat_byte (byte : UInt8) {n : Nat} (h : n = byte.toNat) :
    UInt8.ofNat n = byte := by
  rw [h, UInt8.ofNat_toNat]

private theorem width_bounds (byte : UInt8) :
    (utf8CharWidth byte = 1 → byte.toNat < 0x80) ∧
      (utf8CharWidth byte = 2 → 0xc2 ≤ byte.toNat ∧ byte.toNat < 0xe0) ∧
      (utf8CharWidth byte = 3 → 0xe0 ≤ byte.toNat ∧ byte.toNat < 0xf0) ∧
      (utf8CharWidth byte = 4 → 0xf0 ≤ byte.toNat ∧ byte.toNat < 0xf5) := by
  unfold utf8CharWidth
  refine ⟨?_, ?_, ?_, ?_⟩ <;> intro hwidth <;> split_ifs at hwidth <;> omega

private theorem continuation_bounds {byte : UInt8} (h : isContinuation byte = true) :
    0x80 ≤ byte.toNat ∧ byte.toNat < 0xc0 := by
  simpa [isContinuation] using h

private theorem encode_two {first second : UInt8} (hfirst : utf8CharWidth first = 2)
    (hsecond : isContinuation second = true) :
    String.utf8EncodeChar (Char.ofNat (first.toNat % 32 * 64 + payload second)) =
      [first, second] := by
  have hrange := (width_bounds first).2.1 hfirst
  have htail := continuation_bounds hsecond
  unfold String.utf8EncodeChar payload
  rw [toNat_ofNat (by simp only [Nat.isValidChar]; omega)]
  simp only
  rw [if_neg (by omega), if_pos (by omega), ofNat_byte first (by omega),
    ofNat_byte second (by omega)]

private theorem encode_three {first second third : UInt8} (hfirst : utf8CharWidth first = 3)
    (hsecond : isSecondOfThree first second = true) (hthird : isContinuation third = true) :
    String.utf8EncodeChar (Char.ofNat (first.toNat % 16 * 4096 + payload second * 64 +
      payload third)) = [first, second, third] := by
  have hrange := (width_bounds first).2.2.1 hfirst
  have htail := continuation_bounds hthird
  simp only [isSecondOfThree, Bool.and_eq_true, decide_eq_true_eq] at hsecond
  unfold String.utf8EncodeChar payload
  rw [toNat_ofNat (by
    simp only [Nat.isValidChar]
    split_ifs at hsecond <;> omega)]
  simp only
  rw [if_neg (by split_ifs at hsecond <;> omega), if_neg (by split_ifs at hsecond <;> omega),
    if_pos (by omega), ofNat_byte first (by split_ifs at hsecond <;> omega),
    ofNat_byte second (by split_ifs at hsecond <;> omega),
    ofNat_byte third (by omega)]

private theorem encode_four {first second third fourth : UInt8}
    (hfirst : utf8CharWidth first = 4) (hsecond : isSecondOfFour first second = true)
    (hthird : isContinuation third = true) (hfourth : isContinuation fourth = true) :
    String.utf8EncodeChar (Char.ofNat (first.toNat % 8 * 262144 + payload second * 4096 +
      payload third * 64 + payload fourth)) = [first, second, third, fourth] := by
  have hrange := (width_bounds first).2.2.2 hfirst
  have htail := continuation_bounds hthird
  have hlast := continuation_bounds hfourth
  simp only [isSecondOfFour, Bool.and_eq_true, decide_eq_true_eq] at hsecond
  unfold String.utf8EncodeChar payload
  rw [toNat_ofNat (by
    simp only [Nat.isValidChar]
    split_ifs at hsecond <;> omega)]
  simp only
  rw [if_neg (by split_ifs at hsecond <;> omega), if_neg (by split_ifs at hsecond <;> omega),
    if_neg (by split_ifs at hsecond <;> omega),
    ofNat_byte first (by split_ifs at hsecond <;> omega),
    ofNat_byte second (by split_ifs at hsecond <;> omega),
    ofNat_byte third (by omega), ofNat_byte fourth (by omega)]

/-- A scalar is read from the bytes that encode it. -/
theorem encode_prefix_of_scalar {bytes : List UInt8} {c : Char}
    (h : firstScalar bytes = .scalar c) : String.utf8EncodeChar c <+: bytes := by
  unfold firstScalar at h
  split at h
  · cases h
  rename_i first rest
  split at h
  · rename_i hwidth
    have hascii := (width_bounds first).1 hwidth
    cases h
    unfold String.utf8EncodeChar
    rw [toNat_ofNat (by simp only [Nat.isValidChar]; omega)]
    simp only
    rw [if_pos (by omega), ofNat_byte _ rfl]
    exact ⟨rest, rfl⟩
  · rename_i hwidth
    unfold secondOfTwo at h
    split at h
    · cases h
    split at h
    · rename_i second rest hsecond
      cases h
      rw [encode_two hwidth hsecond]
      exact ⟨rest, rfl⟩
    · cases h
  · rename_i hwidth
    unfold secondOfThree at h
    split at h
    · cases h
    · split at h <;> cases h
    split at h
    · rename_i hsecond
      split at h
      · rename_i second third rest hthird
        cases h
        rw [encode_three hwidth hsecond hthird]
        exact ⟨rest, rfl⟩
      · cases h
    · cases h
  · rename_i hwidth
    unfold secondOfFour at h
    split at h
    · cases h
    · split at h <;> cases h
    · split at h
      · split at h <;> cases h
      · cases h
    split at h
    · rename_i hsecond
      split at h
      · rename_i hthird
        split at h
        · rename_i second third fourth rest hfourth
          cases h
          rw [encode_four hwidth hsecond hthird hfourth]
          exact ⟨rest, rfl⟩
        · cases h
      · cases h
    · cases h
  · cases h

/-- The length of the first scalar. -/
theorem utf8Size_le_of_scalar {bytes : List UInt8} {c : Char}
    (h : firstScalar bytes = .scalar c) : c.utf8Size ≤ bytes.length := by
  have hstarting := (encode_prefix_of_scalar h).length_le
  rwa [String.length_utf8EncodeChar] at hstarting

theorem width_le_of_invalid {bytes : List UInt8} {width : Nat}
    (h : firstScalar bytes = .invalid width) : 0 < width ∧ width ≤ bytes.length := by
  unfold firstScalar at h
  split at h
  · cases h
  · rename_i first rest
    split at h
    · cases h
    · unfold secondOfTwo at h
      grind
    · unfold secondOfThree at h
      grind
    · unfold secondOfFour at h
      grind
    · cases h
      simp

/-! ### Whole inputs -/

/-- `Utf8Error`: where the valid part of an input ends, and how long the error is; no
    length when the input ends inside a sequence. -/
structure Utf8Error where
  validUpTo : Nat
  errorLen : Option Nat
deriving DecidableEq

/-- The loop of `run_utf8_validation` from position `index`, with the text it accepts.
    Every turn takes a byte, so the length of the input is fuel enough. -/
def runUtf8Validation : Nat → Nat → List UInt8 → Except Utf8Error (List Char)
  | 0, _, _ => .ok []
  | fuel + 1, index, bytes =>
      if bytes = [] then .ok []
      else
        match firstScalar bytes with
        | .scalar c =>
            (runUtf8Validation fuel (index + c.utf8Size) (bytes.drop c.utf8Size)).map (c :: ·)
        | .invalid width => .error { validUpTo := index, errorLen := some width }
        | .incomplete => .error { validUpTo := index, errorLen := none }

/-- `std::str::from_utf8`. -/
def fromUtf8 (bytes : List UInt8) : Except Utf8Error (List Char) :=
  runUtf8Validation bytes.length 0 bytes

/-- `String::from_utf8_lossy`, a replacement character for every maximal invalid part. -/
def lossy : Nat → List UInt8 → List Char
  | 0, _ => []
  | fuel + 1, bytes =>
      if bytes = [] then []
      else
        match firstScalar bytes with
        | .scalar c => c :: lossy fuel (bytes.drop c.utf8Size)
        | .invalid width => '\ufffd' :: lossy fuel (bytes.drop width)
        | .incomplete => ['\ufffd']

def fromUtf8Lossy (bytes : List UInt8) : List Char := lossy bytes.length bytes

/-- The bytes of a text. -/
def encodeUtf8 (text : List Char) : List UInt8 := text.flatMap String.utf8EncodeChar

theorem lossy_encode {fuel : Nat} {text : List Char} (h : (encodeUtf8 text).length ≤ fuel) :
    lossy fuel (encodeUtf8 text) = text := by
  induction text generalizing fuel with
  | nil => cases fuel <;> simp [lossy, encodeUtf8]
  | cons c text ih =>
    have hsplit : encodeUtf8 (c :: text) = String.utf8EncodeChar c ++ encodeUtf8 text := rfl
    have hsize := String.length_utf8EncodeChar c
    have hpos := Char.utf8Size_pos c
    rw [hsplit] at h ⊢
    rw [List.length_append] at h
    obtain ⟨fuel, rfl⟩ : ∃ k, fuel = k + 1 := ⟨fuel - 1, by omega⟩
    have hne : String.utf8EncodeChar c ++ encodeUtf8 text ≠ [] := by
      intro hnil
      have hlen := congrArg List.length hnil
      simp only [List.length_append, List.length_nil] at hlen
      omega
    simp only [lossy, if_neg hne, firstScalar_encode]
    rw [← hsize, List.drop_left, ih (by omega)]

/-- **Decoding an encoded text gives it back.** -/
theorem fromUtf8Lossy_encode (text : List Char) : fromUtf8Lossy (encodeUtf8 text) = text :=
  lossy_encode (Nat.le_refl _)

private theorem ne_nil_of_scalar {bytes : List UInt8} {c : Char}
    (h : firstScalar bytes = .scalar c) : bytes ≠ [] := by
  intro hnil
  rw [hnil] at h
  cases h

/-- One turn of the validation on an input that begins with a scalar. -/
private theorem runUtf8Validation_scalar {fuel index : Nat} {bytes : List UInt8} {c : Char}
    (h : firstScalar bytes = .scalar c) :
    runUtf8Validation (fuel + 1) index bytes =
      (runUtf8Validation fuel (index + c.utf8Size) (bytes.drop c.utf8Size)).map (c :: ·) := by
  simp only [runUtf8Validation, if_neg (ne_nil_of_scalar h), h]

theorem runUtf8Validation_encode {fuel index : Nat} {text : List Char}
    (h : (encodeUtf8 text).length ≤ fuel) :
    runUtf8Validation fuel index (encodeUtf8 text) = .ok text := by
  induction text generalizing fuel index with
  | nil => cases fuel <;> rfl
  | cons c text ih =>
    have hsplit : encodeUtf8 (c :: text) = String.utf8EncodeChar c ++ encodeUtf8 text := rfl
    have hsize := String.length_utf8EncodeChar c
    have hpos := Char.utf8Size_pos c
    rw [hsplit] at h ⊢
    rw [List.length_append] at h
    obtain ⟨fuel, rfl⟩ : ∃ k, fuel = k + 1 := ⟨fuel - 1, by omega⟩
    rw [runUtf8Validation_scalar (firstScalar_encode c _), ← hsize, List.drop_left,
      ih (by omega)]
    rfl

/-- An encoded text is valid. -/
theorem fromUtf8_encode (text : List Char) : fromUtf8 (encodeUtf8 text) = .ok text :=
  runUtf8Validation_encode (Nat.le_refl _)

/-- A scalar is read from its own bytes alone. -/
private theorem firstScalar_take {bytes : List UInt8} {c : Char} {n : Nat}
    (h : firstScalar bytes = .scalar c) (hn : c.utf8Size ≤ n) :
    firstScalar (bytes.take n) = .scalar c := by
  obtain ⟨more, rfl⟩ := encode_prefix_of_scalar h
  rw [List.take_append, List.take_of_length_le (by rwa [String.length_utf8EncodeChar])]
  exact firstScalar_encode c _

/-- An error is reported behind a valid part. -/
theorem runUtf8Validation_error {fuel index : Nat} {bytes : List UInt8} {e : Utf8Error}
    (h : runUtf8Validation fuel index bytes = .error e) :
    index ≤ e.validUpTo ∧ e.validUpTo ≤ index + bytes.length ∧
      ∀ k j, ∃ text, runUtf8Validation k j (bytes.take (e.validUpTo - index)) = .ok text := by
  induction fuel generalizing index bytes with
  | zero => cases h
  | succ fuel ih =>
    have hstop : ∀ k j, ∃ text, runUtf8Validation k j (bytes.take (index - index)) =
        .ok text := by
      intro k j
      cases k <;> exact ⟨[], by simp [runUtf8Validation]⟩
    cases hfirst : firstScalar bytes with
    | scalar c =>
      have hsize := utf8Size_le_of_scalar hfirst
      rw [runUtf8Validation_scalar hfirst] at h
      cases hmore : runUtf8Validation fuel (index + c.utf8Size) (bytes.drop c.utf8Size) with
      | ok text => rw [hmore] at h; cases h
      | error e' =>
        rw [hmore] at h
        cases h
        obtain ⟨hlow, hhigh, hvalid⟩ := ih hmore
        rw [List.length_drop] at hhigh
        refine ⟨by omega, by omega, ?_⟩
        intro k j
        cases k with
        | zero => exact ⟨[], rfl⟩
        | succ k =>
          have htake := firstScalar_take (n := e.validUpTo - index) hfirst (by omega)
          rw [runUtf8Validation_scalar htake, List.drop_take]
          obtain ⟨text, htext⟩ := hvalid k (j + c.utf8Size)
          have hlen : e.validUpTo - index - c.utf8Size = e.validUpTo - (index + c.utf8Size) := by
            omega
          rw [hlen, htext]
          exact ⟨c :: text, rfl⟩
    | invalid width =>
      by_cases hnil : bytes = []
      · simp [runUtf8Validation, hnil] at h
      · simp only [runUtf8Validation, if_neg hnil, hfirst] at h
        cases h
        exact ⟨Nat.le_refl _, Nat.le_add_right _ _, hstop⟩
    | incomplete =>
      by_cases hnil : bytes = []
      · simp [runUtf8Validation, hnil] at h
      · simp only [runUtf8Validation, if_neg hnil, hfirst] at h
        cases h
        exact ⟨Nat.le_refl _, Nat.le_add_right _ _, hstop⟩

/-- The validation of an input that begins with a scalar, by its remaining part. -/
private theorem fromUtf8_scalar {bytes : List UInt8} {c : Char}
    (h : firstScalar bytes = .scalar c) :
    (∀ text, fromUtf8 bytes = .ok text → ∃ more, text = c :: more) ∧
      ∀ e, fromUtf8 bytes = .error e → c.utf8Size ≤ e.validUpTo ∧
        ∃ more, fromUtf8 (bytes.take e.validUpTo) = .ok (c :: more) := by
  have hsize := utf8Size_le_of_scalar h
  have hpos := Char.utf8Size_pos c
  unfold fromUtf8
  obtain ⟨fuel, hfuel⟩ : ∃ k, bytes.length = k + 1 := ⟨bytes.length - 1, by omega⟩
  rw [hfuel, runUtf8Validation_scalar h]
  cases hmore : runUtf8Validation fuel (0 + c.utf8Size) (bytes.drop c.utf8Size) with
  | ok text =>
    constructor
    · intro _ heq
      cases heq
      exact ⟨text, rfl⟩
    · intro _ heq
      cases heq
  | error e =>
    refine ⟨fun _ heq => (by cases heq), ?_⟩
    intro _ heq
    cases heq
    have hwhole : runUtf8Validation (fuel + 1) 0 bytes = .error e := by
      rw [runUtf8Validation_scalar h, hmore]
      rfl
    obtain ⟨hlow, -, -⟩ := runUtf8Validation_error hmore
    obtain ⟨-, hhigh, hvalid⟩ := runUtf8Validation_error hwhole
    refine ⟨by omega, ?_⟩
    obtain ⟨text, htext⟩ := hvalid (bytes.take e.validUpTo).length 0
    rw [Nat.sub_zero] at htext
    have htake := firstScalar_take (n := e.validUpTo) h (by omega)
    obtain ⟨k, hk⟩ : ∃ k, (bytes.take e.validUpTo).length = k + 1 :=
      ⟨(bytes.take e.validUpTo).length - 1, by rw [List.length_take]; omega⟩
    rw [hk, runUtf8Validation_scalar htake] at htext ⊢
    cases hrest : runUtf8Validation k (0 + c.utf8Size)
        ((bytes.take e.validUpTo).drop c.utf8Size) with
    | ok more => exact ⟨more, rfl⟩
    | error e' => rw [hrest] at htext; cases htext

/-- **What the validation says of an input is decided by its first scalar.** -/
theorem fromUtf8_first {bytes : List UInt8} (hne : bytes ≠ []) :
    match firstScalar bytes with
    | .scalar c => (∃ more, fromUtf8 bytes = .ok (c :: more)) ∨
        ∃ e more, fromUtf8 bytes = .error e ∧ e.validUpTo ≠ 0 ∧
          fromUtf8 (bytes.take e.validUpTo) = .ok (c :: more)
    | .invalid width => fromUtf8 bytes = .error { validUpTo := 0, errorLen := some width }
    | .incomplete => fromUtf8 bytes = .error { validUpTo := 0, errorLen := none } := by
  obtain ⟨fuel, hfuel⟩ : ∃ k, bytes.length = k + 1 :=
    ⟨bytes.length - 1, by have := List.length_pos_iff.mpr hne; omega⟩
  cases hfirst : firstScalar bytes with
  | scalar c =>
    obtain ⟨hok, herror⟩ := fromUtf8_scalar hfirst
    cases hresult : fromUtf8 bytes with
    | ok text =>
      obtain ⟨more, rfl⟩ := hok text hresult
      exact .inl ⟨more, rfl⟩
    | error e =>
      obtain ⟨hsize, more, hmore⟩ := herror e hresult
      have hpos := Char.utf8Size_pos c
      exact .inr ⟨e, more, rfl, by omega, hmore⟩
  | invalid width => simp only [fromUtf8, hfuel, runUtf8Validation, if_neg hne, hfirst]
  | incomplete => simp only [fromUtf8, hfuel, runUtf8Validation, if_neg hne, hfirst]

/-! ### Pieces of a text -/

/-- A character begins with a byte that continues none; all others do. -/
theorem utf8EncodeChar_bytes (c : Char) : ∃ first rest, String.utf8EncodeChar c = first :: rest ∧
    isContinuation first = false ∧ ∀ byte ∈ rest, isContinuation byte = true := by
  have hvalid := c.valid
  simp only [UInt32.isValidChar, Nat.isValidChar] at hvalid
  simp only [String.utf8EncodeChar]
  generalize c.val.toNat = v at hvalid ⊢
  have hfirst : ∀ n : Nat, (n < 0x80 ∨ 0xc0 ≤ n) → n < 256 →
      isContinuation (UInt8.ofNat n) = false := by
    intro n hn hlt
    rw [isContinuation, UInt8.toNat_ofNat', Bool.and_eq_false_iff, decide_eq_false_iff_not,
      decide_eq_false_iff_not]
    omega
  have hrest : ∀ n : Nat, 0x80 ≤ n → n < 0xc0 → isContinuation (UInt8.ofNat n) = true := by
    intro n hn hlt
    rw [isContinuation, UInt8.toNat_ofNat', Bool.and_eq_true, decide_eq_true_eq,
      decide_eq_true_eq]
    omega
  have hcontinues : ∀ n : Nat, isContinuation (UInt8.ofNat (n % 64 + 128)) = true := by
    intro n
    apply hrest
    · omega
    · omega
  split_ifs with hone htwo hthree
  · exact ⟨_, [], rfl, hfirst v (by omega) (by omega), by simp⟩
  · refine ⟨_, _, rfl, hfirst _ (by omega) (by omega), ?_⟩
    simp only [List.forall_mem_cons, hcontinues, true_and]
    simp
  · refine ⟨_, _, rfl, hfirst _ (by omega) (by omega), ?_⟩
    simp only [List.forall_mem_cons, hcontinues, true_and]
    simp
  · refine ⟨_, _, rfl, hfirst _ (by omega) (by omega), ?_⟩
    simp only [List.forall_mem_cons, hcontinues, true_and]
    simp

theorem encodeUtf8_append (xs ys : List Char) :
    encodeUtf8 (xs ++ ys) = encodeUtf8 xs ++ encodeUtf8 ys := List.flatMap_append

theorem encodeUtf8_cons (c : Char) (cs : List Char) :
    encodeUtf8 (c :: cs) = String.utf8EncodeChar c ++ encodeUtf8 cs := rfl

/-- The first character of an encoded text can be read off. -/
theorem encodeUtf8_cons_inj {c d : Char} {bytes more : List UInt8}
    (h : String.utf8EncodeChar c ++ bytes = String.utf8EncodeChar d ++ more) :
    c = d ∧ bytes = more := by
  have hfirst := congrArg firstScalar h
  rw [firstScalar_encode, firstScalar_encode, FirstScalar.scalar.injEq] at hfirst
  subst hfirst
  exact ⟨rfl, List.append_cancel_left h⟩

/-- **A text inside a text** is cut out between characters. -/
theorem encodeUtf8_cut {text : List Char} {d : Char} {ds : List Char} {before after : List UInt8}
    (h : encodeUtf8 text = before ++ encodeUtf8 (d :: ds) ++ after) :
    ∃ first last, before = encodeUtf8 first ∧ after = encodeUtf8 last := by
  induction text generalizing before d ds with
  | nil =>
    obtain ⟨byte, rest, hd, -, -⟩ := utf8EncodeChar_bytes d
    have hlength := congrArg List.length h
    rw [encodeUtf8_cons, hd] at hlength
    simp [encodeUtf8] at hlength
  | cons c text ih =>
    rw [encodeUtf8_cons, List.append_assoc] at h
    rcases List.append_eq_append_iff.mp h with ⟨rest, hbefore, htext⟩ | ⟨rest, hc, hrest⟩
    · rw [← List.append_assoc] at htext
      obtain ⟨first, last, hfirst, hlast⟩ := ih htext
      refine ⟨c :: first, last, ?_, hlast⟩
      rw [hbefore, hfirst, encodeUtf8_cons]
    · cases before with
      | nil =>
        -- the texts begin together
        rw [List.nil_append, encodeUtf8_cons, List.append_assoc] at h
        obtain ⟨rfl, hmore⟩ := encodeUtf8_cons_inj h
        cases ds with
        | nil => exact ⟨[], text, rfl, hmore.symm⟩
        | cons d ds =>
          have hinner : encodeUtf8 text = [] ++ encodeUtf8 (d :: ds) ++ after := by
            rw [List.nil_append]
            exact hmore
          obtain ⟨-, last, -, hlast⟩ := ih hinner
          exact ⟨[], last, rfl, hlast⟩
      | cons byte before =>
        cases rest with
        | nil =>
          rw [List.append_nil] at hc
          rw [List.nil_append] at hrest
          have hwhole : encodeUtf8 text = [] ++ encodeUtf8 (d :: ds) ++ after := by
            rw [List.nil_append]
            exact hrest.symm
          obtain ⟨-, last, -, hlast⟩ := ih hwhole
          refine ⟨[c], last, ?_, hlast⟩
          rw [← hc, encodeUtf8_cons, encodeUtf8, List.flatMap_nil, List.append_nil]
        | cons next rest =>
          -- the inner text would begin with a byte that continues a character
          obtain ⟨lead, tail, hlead, -, htail⟩ := utf8EncodeChar_bytes c
          obtain ⟨first, more, hfirst, hnot, -⟩ := utf8EncodeChar_bytes d
          rw [hlead, List.cons_append, List.cons.injEq] at hc
          rw [encodeUtf8_cons, hfirst, List.cons_append, List.cons_append, List.cons_append,
            List.cons.injEq] at hrest
          have hmem : next ∈ tail := by
            rw [hc.2]
            simp
          have hcontinues := htail next hmem
          rw [← hrest.1, hnot] at hcontinues
          cases hcontinues

theorem encode_of_runUtf8Validation {fuel index : Nat} {bytes : List UInt8} {text : List Char}
    (hfuel : bytes.length ≤ fuel) (h : runUtf8Validation fuel index bytes = .ok text) :
    encodeUtf8 text = bytes := by
  induction fuel generalizing index bytes text with
  | zero =>
    have hnil : bytes = [] := List.length_eq_zero_iff.mp (Nat.le_zero.mp hfuel)
    cases h
    rw [hnil]
    rfl
  | succ fuel ih =>
    rw [runUtf8Validation] at h
    split_ifs at h with hnil
    · cases h
      rw [hnil]
      rfl
    · cases hfirst : firstScalar bytes with
      | scalar c =>
        rw [hfirst] at h
        dsimp only at h
        cases hmore : runUtf8Validation fuel (index + c.utf8Size) (bytes.drop c.utf8Size) with
        | error e =>
          rw [hmore] at h
          cases h
        | ok more =>
          rw [hmore] at h
          cases h
          obtain ⟨rest, rfl⟩ := encode_prefix_of_scalar hfirst
          have hpos := Char.utf8Size_pos c
          have hsize := String.length_utf8EncodeChar c
          rw [List.length_append] at hfuel
          rw [← hsize, List.drop_left] at hmore
          rw [encodeUtf8_cons, ih (by omega) hmore]
      | invalid width =>
        rw [hfirst] at h
        cases h
      | incomplete =>
        rw [hfirst] at h
        cases h

/-- What is read from bytes encodes to them. -/
theorem encode_of_fromUtf8 {bytes : List UInt8} {text : List Char}
    (h : fromUtf8 bytes = .ok text) : encodeUtf8 text = bytes :=
  encode_of_runUtf8Validation (Nat.le_refl _) h

end Tea.Encoding
