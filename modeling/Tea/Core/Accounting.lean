/-
  Tea/Core/Accounting.lean
  ========================
  **Provider usage and decimal accounting** (`state/accounting.rs`, and the ledger of
  `provider/openrouter`, whose `decimal_add` has the same body).  `none` is a panic: a
  string longer than `isize::MAX` bytes, or an overflow of `i64` in a build that checks
  for it; other builds wrap around.
-/

import Tea.Core.State
import Tea.Encoding.Decimal

namespace Tea.Core

open Tea.Encoding

/-! ### Machine numbers -/

def i64Min : Int := -9223372036854775808
def i64Max : Int := 9223372036854775807

def isI64 (x : Int) : Bool := i64Min ≤ x && x ≤ i64Max

/-- `a - b` on `i64`. -/
def subI64 (checked : Bool) (a b : Int) : Option Int :=
  if isI64 (a - b) then some (a - b)
  else if checked then none
  else some ((a - b - i64Min) % 18446744073709551616 + i64Min)

/-- `parse::<i64>`: digits behind an optional sign, within the range. -/
def parseI64 (letters : List Char) : Option Int :=
  if isSigned letters && isI64 (signedValue letters) then some (signedValue letters) else none

/-- A string of these letters, which are all of one byte; a longer one is a panic. -/
def newString (letters : List Char) : Option (List Char) :=
  if letters.length ≤ 9223372036854775807 then some letters else none

/-! ### Decimal text -/

/-- `decimal_parts`: the digits without leading zeros, and the decimal places. -/
def decimalParts (checked : Bool) (value : List Char) : Option (List Char × Nat) :=
  let (coefficient, exponent) :=
    match splitOnce isExponentMark value with
    | some (coefficient, exponent) => (coefficient, (parseI64 exponent).getD 0)
    | none => (value, 0)
  let (whole, fraction) := splitFraction coefficient
  let digits := whole.dropWhile (· = '+') ++ fraction
  (subI64 checked fraction.length exponent).map fun scale => (trimZeros digits, scale.toNat)

/-- The digits with a dot, and a zero before it where they are all decimal places. -/
def withDot (scale : Nat) (digits : List Char) : List Char :=
  if digits.length ≤ scale then
    ['0', '.'] ++ List.replicate (scale - digits.length) '0' ++ digits
  else
    let position := digits.length - scale
    digits.take position ++ '.' :: digits.drop position

/-- Without the zeros at the end, and without the dot if it comes last. -/
def dropZeros (output : List Char) : List Char :=
  let output := output.rdropWhile (· = '0')
  if output.getLast? = some '.' then output.dropLast else output

/-- `decimal_normalize` -/
def decimalNormalize (checked : Bool) (value : List Char) : Option (List Char) :=
  (decimalParts checked value).bind fun (digits, scale) =>
    if scale = 0 then some digits else (newString (withDot scale digits)).map dropZeros

/-- The loop over the digits of both numbers, the least significant first; it ends with
    the shorter one. -/
def addDigits : List Char → List Char → Nat → List Char
  | l :: left, r :: right, carry =>
      let sum := l.toNat - 48 + (r.toNat - 48) + carry
      Nat.digitChar (sum % 10) :: addDigits left right (sum / 10)
  | _, _, carry => if carry ≠ 0 then [Nat.digitChar carry] else []

/-- Zeros in front of the digits, so that one stands before the dot. -/
def padZeros (scale : Nat) (output : List Char) : Option (List Char) :=
  if output.length ≤ scale then
    newString (List.replicate (scale + 1 - output.length) '0' ++ output)
  else some output

/-- A dot in front of the last `scale` digits. -/
def insertDot (scale : Nat) (output : List Char) : Option (List Char) :=
  if scale = 0 then some output
  else (padZeros scale output).bind fun output =>
    newString (output.take (output.length - scale) ++ '.' :: output.drop (output.length - scale))

/-- `decimal_add` -/
def decimalAdd (checked : Bool) (lhs rhs : List Char) : Option (List Char) := do
  let (leftDigits, leftScale) ← decimalParts checked lhs
  let (rightDigits, rightScale) ← decimalParts checked rhs
  let scale := max leftScale rightScale
  let left ← newString (leftDigits ++ List.replicate (scale - leftScale) '0')
  let right ← newString (rightDigits ++ List.replicate (scale - rightScale) '0')
  let output ← newString (addDigits left.reverse right.reverse 0).reverse
  let output ← insertDot scale output
  decimalNormalize checked output

/-! ### What the parts are -/

/-- The exponent as it is read: one that is no `i64` counts as zero. -/
def readExponent (n : NumberText) : Int := if isI64 n.exponentValue then n.exponentValue else 0

theorem dropPlus {digits : List Char} (h : digits.all Char.isDigit = true) :
    digits.dropWhile (· = '+') = digits := by
  cases digits with
  | nil => rfl
  | cons c digits =>
    rw [List.all_cons, Bool.and_eq_true] at h
    have hc : c ≠ '+' := by
      rintro rfl
      cases h.1
    rw [List.dropWhile_cons_of_neg (by simpa using hc)]

/-- **The parts of a number**: its digits without leading zeros, and its decimal places
    with the exponent as it is read. -/
theorem decimalParts_letters (checked : Bool) (n : NumberText) :
    decimalParts checked n.letters =
      (subI64 checked n.fraction.length (readExponent n)).map fun scale =>
        (trimZeros n.digits, scale.toNat) := by
  have hparts : (match splitOnce isExponentMark n.letters with
      | some (coefficient, exponent) => (coefficient, (parseI64 exponent).getD 0)
      | none => (n.letters, 0)) = (n.coefficient, readExponent n) := by
    rw [n.splitOnce_letters]
    cases hexponent : n.exponent with
    | none =>
      have hread : readExponent n = 0 := by
        simp [readExponent, NumberText.exponentValue, hexponent]
      simp [NumberText.letters, hexponent, hread]
    | some mark =>
      have hsigned := (n.exponent_signed mark hexponent).2
      have hread : (parseI64 mark.2).getD 0 = readExponent n := by
        have hvalue : n.exponentValue = signedValue mark.2 := by
          rw [NumberText.exponentValue, hexponent]
        unfold parseI64 readExponent
        rw [hsigned, hvalue, Bool.true_and]
        split_ifs
        · rfl
        · rfl
      rw [← hread]
      rfl
  unfold decimalParts
  rw [hparts]
  dsimp only
  rw [n.splitFraction_coefficient]
  dsimp only
  rw [dropPlus n.whole_digits]
  rfl

/-! ### Sums of digits -/

theorem digitChar_value {d : Nat} (h : d < 10) : (Nat.digitChar d).toNat - 48 = d :=
  Nat.toNat_digitChar_sub_48_of_lt_ten h

theorem digitsValue_cons_reverse (c : Char) (digits : List Char) :
    digitsValue (c :: digits).reverse = digitsValue digits.reverse * 10 + (c.toNat - 48) := by
  rw [List.reverse_cons, digitsValue_append, digitsValue_singleton, List.length_singleton,
    Nat.pow_one]

theorem carry_value {carry : Nat} (hcarry : carry ≤ 1) :
    digitsValue (if carry ≠ 0 then [Nat.digitChar carry] else []).reverse = carry := by
  split_ifs with hzero
  · rw [List.reverse_singleton, digitsValue_singleton, digitChar_value (by omega)]
  · rw [List.reverse_nil, digitsValue_nil]
    omega

/-- The loop ends with the shorter number. -/
theorem addDigits_end {left right : List Char} (h : left = [] ∨ right = []) (carry : Nat) :
    addDigits left right carry = if carry ≠ 0 then [Nat.digitChar carry] else [] := by
  rw [addDigits]
  rintro l ls r rs rfl rfl
  rcases h with h | h
  · cases h
  · cases h

/-- **The sum of digits** is that of the last digits of both numbers, as many as the
    shorter one has. -/
theorem addDigits_value {left right : List Char} (hleft : left.all Char.isDigit = true)
    (hright : right.all Char.isDigit = true) {carry : Nat} (hcarry : carry ≤ 1) :
    digitsValue (addDigits left right carry).reverse =
      digitsValue (left.take (min left.length right.length)).reverse +
        digitsValue (right.take (min left.length right.length)).reverse + carry := by
  induction left generalizing right carry with
  | nil =>
    rw [addDigits_end (.inl rfl), carry_value hcarry, List.length_nil, Nat.zero_min,
      List.take_zero, List.take_zero, List.reverse_nil, digitsValue_nil, Nat.zero_add]
  | cons l left ih =>
    cases right with
    | nil =>
      rw [addDigits_end (.inr rfl), carry_value hcarry, List.length_nil, Nat.min_zero,
        List.take_zero, List.take_zero, List.reverse_nil, digitsValue_nil, Nat.zero_add]
    | cons r right =>
      rw [List.all_cons, Bool.and_eq_true] at hleft hright
      have hl := digit_lt hleft.1
      have hr := digit_lt hright.1
      have hsum : (l.toNat - 48 + (r.toNat - 48) + carry) / 10 ≤ 1 := by omega
      have hih := ih hleft.2 hright.2 hsum
      have hdigit := digitChar_value (Nat.mod_lt (l.toNat - 48 + (r.toNat - 48) + carry)
        (Nat.succ_pos 9))
      have hmin : min (l :: left).length (r :: right).length =
          min left.length right.length + 1 := by
        simp only [List.length_cons]
        omega
      rw [addDigits, digitsValue_cons_reverse, hih, hdigit, hmin, List.take_succ_cons,
        List.take_succ_cons, digitsValue_cons_reverse, digitsValue_cons_reverse]
      omega

theorem addDigits_digits (left right : List Char) {carry : Nat} (hcarry : carry ≤ 1)
    (hleft : left.all Char.isDigit = true) (hright : right.all Char.isDigit = true) :
    (addDigits left right carry).all Char.isDigit = true := by
  have hdigit : ∀ d, d < 10 → (Nat.digitChar d).isDigit = true := by
    intro d hd
    rw [Nat.isDigit_digitChar]
    exact decide_eq_true hd
  fun_induction addDigits left right carry with
  | case1 l left r right carry sum ih =>
    rw [List.all_cons, Bool.and_eq_true] at hleft hright
    have hl := digit_lt hleft.1
    have hr := digit_lt hright.1
    rw [List.all_cons, Bool.and_eq_true]
    refine ⟨hdigit _ (Nat.mod_lt _ (Nat.succ_pos 9)), ih ?_ hleft.2 hright.2⟩
    omega
  | case2 left right carry hrest hzero =>
    rw [List.all_cons, hdigit carry (by omega)]
    rfl
  | case3 => rfl

theorem addDigits_length (left right : List Char) (carry : Nat) :
    min left.length right.length ≤ (addDigits left right carry).length ∧
      (addDigits left right carry).length ≤ min left.length right.length + 1 := by
  induction left generalizing right carry with
  | nil =>
    rw [addDigits_end (.inl rfl)]
    split_ifs
    · simp
    · simp
  | cons l left ih =>
    cases right with
    | nil =>
      rw [addDigits_end (.inr rfl)]
      split_ifs
      · simp
      · simp
    | cons r right =>
      have hih := ih right ((l.toNat - 48 + (r.toNat - 48) + carry) / 10)
      rw [addDigits]
      simp only [List.length_cons]
      omega

/-! ### Text of a number -/

/-- A dot between digits, without an exponent. -/
def plainNumber (whole fraction : List Char) (hne : whole ≠ [])
    (hwhole : whole.all Char.isDigit = true) (hfraction : fraction.all Char.isDigit = true) :
    NumberText where
  whole := whole
  fraction := fraction
  exponent := none
  whole_ne := hne
  whole_digits := hwhole
  fraction_digits := hfraction
  exponent_signed := by
    intro mark hmark
    cases hmark

theorem plainNumber_letters {whole fraction : List Char} (hne : whole ≠ [])
    (hwhole : whole.all Char.isDigit = true) (hfraction : fraction.all Char.isDigit = true) :
    (plainNumber whole fraction hne hwhole hfraction).letters =
      whole ++ if fraction = [] then [] else '.' :: fraction := List.append_nil _

theorem plainNumber_value {whole fraction : List Char} (hne : whole ≠ [])
    (hwhole : whole.all Char.isDigit = true) (hfraction : fraction.all Char.isDigit = true) :
    (plainNumber whole fraction hne hwhole hfraction).value =
      digitsValue (whole ++ fraction) / (10 : ℚ) ^ fraction.length := by
  simp [plainNumber, NumberText.value, NumberText.digits, NumberText.scale,
    NumberText.exponentValue, zpow_neg, div_eq_mul_inv]

theorem newString_eq {letters : List Char} (h : letters.length ≤ 9223372036854775807) :
    newString letters = some letters := by
  unfold newString
  rw [if_pos h]

theorem padZeros_digits {scale : Nat} {output : List Char}
    (hdigits : output.all Char.isDigit = true)
    (hfits : max output.length (scale + 1) ≤ 9223372036854775807) :
    ∃ padded, padZeros scale output = some padded ∧ padded.all Char.isDigit = true ∧
      digitsValue padded = digitsValue output ∧
      padded.length = max output.length (scale + 1) := by
  unfold padZeros
  split_ifs with hshort
  · refine ⟨_, newString_eq ?_, ?_, digitsValue_zeros_append _ output, ?_⟩
    · simp only [List.length_append, List.length_replicate]
      omega
    · rw [List.all_append, hdigits, Bool.and_true, List.all_eq_true]
      intro c hc
      rw [List.eq_of_mem_replicate hc]
      rfl
    · simp only [List.length_append, List.length_replicate]
      omega
  · refine ⟨output, rfl, hdigits, rfl, ?_⟩
    omega

/-- **A dot is put into some digits**: the text of a number with the decimal places. -/
theorem insertDot_number {scale : Nat} {output : List Char} (hne : output ≠ [])
    (hdigits : output.all Char.isDigit = true)
    (hfits : max output.length (scale + 1) + 1 ≤ 9223372036854775807) :
    ∃ n : NumberText, insertDot scale output = some n.letters ∧ n.exponent = none ∧
      digitsValue n.digits = digitsValue output ∧ n.fraction.length = scale ∧
      n.digits.length = max output.length (if scale = 0 then 0 else scale + 1) := by
  unfold insertDot
  by_cases hscale : scale = 0
  · refine ⟨plainNumber output [] hne hdigits List.all_nil, ?_, rfl, ?_, ?_, ?_⟩
    · rw [if_pos hscale, plainNumber_letters, if_pos rfl, List.append_nil]
    · simp [plainNumber, NumberText.digits]
    · rw [hscale]
      rfl
    · rw [if_pos hscale]
      simp [plainNumber, NumberText.digits]
  · rw [if_neg hscale, if_neg hscale]
    obtain ⟨padded, hpadded, hall, hvalue, hlength⟩ := padZeros_digits hdigits
      (show max output.length (scale + 1) ≤ 9223372036854775807 by omega)
    have hwhole : (padded.take (padded.length - scale)).all Char.isDigit = true := by
      rw [List.all_eq_true] at hall ⊢
      intro c hc
      exact hall c (List.mem_of_mem_take hc)
    have hfraction : (padded.drop (padded.length - scale)).all Char.isDigit = true := by
      rw [List.all_eq_true] at hall ⊢
      intro c hc
      exact hall c (List.mem_of_mem_drop hc)
    have hwholeNe : padded.take (padded.length - scale) ≠ [] := by
      rw [← List.length_pos_iff, List.length_take]
      omega
    have hfractionNe : padded.drop (padded.length - scale) ≠ [] := by
      rw [← List.length_pos_iff, List.length_drop]
      omega
    refine ⟨plainNumber _ _ hwholeNe hwhole hfraction, ?_, rfl, ?_, ?_, ?_⟩
    · rw [hpadded, Option.bind_some, plainNumber_letters, if_neg hfractionNe]
      apply newString_eq
      simp only [List.length_append, List.length_take, List.length_cons, List.length_drop]
      omega
    · rw [← hvalue]
      simp only [plainNumber, NumberText.digits, List.take_append_drop]
    · simp only [plainNumber, List.length_drop]
      omega
    · simp only [plainNumber, NumberText.digits, List.take_append_drop]
      exact hlength

/-! ### Normal form -/

theorem rdropWhile_dot (whole fraction : List Char) :
    (whole ++ '.' :: fraction).rdropWhile (· = '0') =
      whole ++ '.' :: fraction.rdropWhile (· = '0') := by
  unfold List.rdropWhile
  rw [List.reverse_append, List.reverse_cons, List.append_assoc, List.singleton_append,
    List.dropWhile_append]
  split_ifs with hempty
  · rw [List.isEmpty_iff] at hempty
    rw [hempty, List.dropWhile_cons_of_neg (by simp)]
    simp
  · simp

theorem dropZeros_dot {whole fraction : List Char}
    (hfraction : fraction.all Char.isDigit = true) :
    dropZeros (whole ++ '.' :: fraction) =
      whole ++ if fraction.rdropWhile (· = '0') = [] then []
        else '.' :: fraction.rdropWhile (· = '0') := by
  have hkept : ∀ c ∈ fraction.rdropWhile (· = '0'), c.isDigit = true := by
    intro c hc
    exact List.all_eq_true.mp hfraction c ((List.rdropWhile_prefix _ _).subset hc)
  unfold dropZeros
  rw [rdropWhile_dot]
  generalize fraction.rdropWhile (· = '0') = kept at hkept ⊢
  by_cases hnone : kept = []
  · rw [hnone, if_pos List.getLast?_concat, if_pos rfl, List.dropLast_concat, List.append_nil]
  · have hlast : (whole ++ '.' :: kept).getLast? ≠ some '.' := by
      rw [List.getLast?_append, List.getLast?_cons, List.getLast?_eq_some_getLast hnone]
      intro hdot
      have hmem := List.getLast_mem hnone
      rw [Option.getD_some, Option.some_or, Option.some.injEq] at hdot
      rw [hdot] at hmem
      cases hkept _ hmem
    rw [if_neg hlast, if_neg hnone]

/-- The zeros at the end of a fraction do not count. -/
theorem dropZeros_value (whole fraction : List Char) :
    (digitsValue (whole ++ fraction.rdropWhile (· = '0')) : ℚ) /
        10 ^ (fraction.rdropWhile (· = '0')).length =
      digitsValue (whole ++ fraction) / 10 ^ fraction.length := by
  obtain ⟨zeros, hzeros⟩ : ∃ k, fraction =
      fraction.rdropWhile (· = '0') ++ List.replicate k '0' := by
    refine ⟨(fraction.rtakeWhile (· = '0')).length, ?_⟩
    have hall : fraction.rtakeWhile (· = '0') =
        List.replicate (fraction.rtakeWhile (· = '0')).length '0' := by
      rw [List.eq_replicate_iff]
      refine ⟨rfl, ?_⟩
      intro c hc
      simpa using List.mem_rtakeWhile_imp hc
    rw [← hall]
    exact List.rdropWhile_append_rtakeWhile.symm
  generalize fraction.rdropWhile (· = '0') = kept at hzeros ⊢
  rw [hzeros, ← List.append_assoc, digitsValue_zeros, List.length_append, List.length_replicate,
    pow_add]
  push_cast
  field_simp

theorem withDot_parts {scale : Nat} {digits : List Char} (hne : digits ≠ [])
    (hdigits : digits.all Char.isDigit = true) :
    ∃ whole fraction, withDot scale digits = whole ++ '.' :: fraction ∧ whole ≠ [] ∧
      whole.all Char.isDigit = true ∧ fraction.all Char.isDigit = true ∧
      digitsValue (whole ++ fraction) = digitsValue digits ∧ fraction.length = scale ∧
      (whole ++ '.' :: fraction).length = max digits.length (scale + 1) + 1 := by
  have hlength := List.length_pos_of_ne_nil hne
  unfold withDot
  split_ifs with hshort
  · refine ⟨['0'], List.replicate (scale - digits.length) '0' ++ digits, rfl, by simp, rfl,
      ?_, ?_, ?_, ?_⟩
    · rw [List.all_append, hdigits, Bool.and_true, List.all_eq_true]
      intro c hc
      rw [List.eq_of_mem_replicate hc]
      rfl
    · rw [← List.append_assoc, digitsValue_append, digitsValue_append, digitsValue_replicate]
      simp [digitsValue_singleton]
    · simp only [List.length_append, List.length_replicate]
      omega
    · simp only [List.length_append, List.length_cons, List.length_nil, List.length_replicate]
      omega
  · rw [List.all_eq_true] at hdigits
    refine ⟨_, _, rfl, ?_, ?_, ?_, ?_, ?_, ?_⟩
    · rw [← List.length_pos_iff, List.length_take]
      omega
    · rw [List.all_eq_true]
      intro c hc
      exact hdigits c (List.mem_of_mem_take hc)
    · rw [List.all_eq_true]
      intro c hc
      exact hdigits c (List.mem_of_mem_drop hc)
    · rw [List.take_append_drop]
    · rw [List.length_drop]
      omega
    · simp only [List.length_append, List.length_take, List.length_cons, List.length_drop]
      omega

/-- **A text in normal form** is a number without an exponent, and is worth its digits
    scaled down by the decimal places. -/
theorem decimalNormalize_number {checked : Bool} {text digits : List Char} {scale : Nat}
    (hparts : decimalParts checked text = some (digits, scale)) (hne : digits ≠ [])
    (hdigits : digits.all Char.isDigit = true)
    (hfits : max digits.length (scale + 1) + 1 ≤ 9223372036854775807) :
    ∃ n : NumberText, decimalNormalize checked text = some n.letters ∧ n.exponent = none ∧
      n.value = digitsValue digits / (10 : ℚ) ^ scale ∧ n.fraction.length ≤ scale := by
  unfold decimalNormalize
  rw [hparts, Option.bind_some]
  dsimp only
  by_cases hscale : scale = 0
  · refine ⟨plainNumber digits [] hne hdigits List.all_nil, ?_, rfl, ?_, Nat.zero_le _⟩
    · rw [if_pos hscale, plainNumber_letters, if_pos rfl, List.append_nil]
    · rw [plainNumber_value, hscale, List.append_nil, List.length_nil]
  · obtain ⟨whole, fraction, houtput, hwholeNe, hwhole, hfraction, hvalue, hlength, hfit⟩ :=
      withDot_parts hne hdigits
    have hkept : (fraction.rdropWhile (· = '0')).all Char.isDigit = true := by
      rw [List.all_eq_true] at hfraction ⊢
      intro c hc
      exact hfraction c ((List.rdropWhile_prefix _ _).subset hc)
    refine ⟨plainNumber whole _ hwholeNe hwhole hkept, ?_, rfl, ?_, ?_⟩
    · rw [if_neg hscale, houtput, newString_eq (hfit ▸ hfits), Option.map_some,
        dropZeros_dot hfraction, plainNumber_letters]
    · rw [plainNumber_value, dropZeros_value, hvalue, hlength]
    · rw [← hlength]
      exact (List.rdropWhile_prefix _ _).length_le

/-! ### Sums -/

/-- The parts of a number without an exponent, whose decimal places fit. -/
theorem decimalParts_plain (checked : Bool) {n : NumberText} (hexponent : n.exponent = none)
    (hfits : n.fraction.length ≤ 9223372036854775807) :
    decimalParts checked n.letters = some (trimZeros n.digits, n.fraction.length) := by
  have hread : readExponent n = 0 := by
    simp [readExponent, NumberText.exponentValue, hexponent]
  have hrange : isI64 ((n.fraction.length : Int) - 0) = true := by
    unfold isI64 i64Min i64Max
    rw [Bool.and_eq_true, decide_eq_true_eq, decide_eq_true_eq]
    omega
  rw [decimalParts_letters, hread, subI64, if_pos hrange, Option.map_some]
  simp

/-- The last digits that the loop reads. -/
def lastDigits (width : Nat) (digits : List Char) : List Char :=
  digits.drop (digits.length - width)

/-- **The sum of two texts** is worth the last digits of both, as many as the shorter one
    has once they have the same decimal places. -/
theorem decimalAdd_number {checked : Bool} {lhs rhs left right : List Char}
    {leftScale rightScale : Nat} (hleft : decimalParts checked lhs = some (left, leftScale))
    (hright : decimalParts checked rhs = some (right, rightScale))
    (hleftNe : left ≠ []) (hrightNe : right ≠ [])
    (hleftDigits : left.all Char.isDigit = true) (hrightDigits : right.all Char.isDigit = true)
    {scale width : Nat} (hscale : scale = max leftScale rightScale)
    (hwidth : width = min (left.length + (scale - leftScale)) (right.length + (scale - rightScale)))
    (hfits : max (left.length + (scale - leftScale)) (right.length + (scale - rightScale)) +
      scale + 3 ≤ 9223372036854775807) :
    ∃ n : NumberText, decimalAdd checked lhs rhs = some n.letters ∧ n.exponent = none ∧
      n.fraction.length ≤ scale ∧ n.value =
        (digitsValue (lastDigits width (left ++ List.replicate (scale - leftScale) '0')) +
          digitsValue (lastDigits width (right ++ List.replicate (scale - rightScale) '0'))) /
          (10 : ℚ) ^ scale := by
  have hzeros : ∀ k, (List.replicate k '0').all Char.isDigit = true := by
    intro k
    rw [List.all_eq_true]
    intro c hc
    rw [List.eq_of_mem_replicate hc]
    rfl
  obtain ⟨leftAligned, hleftAligned⟩ :
      ∃ l, l = left ++ List.replicate (scale - leftScale) '0' := ⟨_, rfl⟩
  obtain ⟨rightAligned, hrightAligned⟩ :
      ∃ r, r = right ++ List.replicate (scale - rightScale) '0' := ⟨_, rfl⟩
  have hleftLength : leftAligned.length = left.length + (scale - leftScale) := by
    rw [hleftAligned, List.length_append, List.length_replicate]
  have hrightLength : rightAligned.length = right.length + (scale - rightScale) := by
    rw [hrightAligned, List.length_append, List.length_replicate]
  have hleftAll : leftAligned.reverse.all Char.isDigit = true := by
    rw [List.all_reverse, hleftAligned, List.all_append, hleftDigits, hzeros]
    rfl
  have hrightAll : rightAligned.reverse.all Char.isDigit = true := by
    rw [List.all_reverse, hrightAligned, List.all_append, hrightDigits, hzeros]
    rfl
  have hleftPos := List.length_pos_of_ne_nil hleftNe
  have hrightPos := List.length_pos_of_ne_nil hrightNe
  obtain ⟨output, houtput⟩ :
      ∃ o, o = (addDigits leftAligned.reverse rightAligned.reverse 0).reverse := ⟨_, rfl⟩
  have hoLength : output.length =
      (addDigits leftAligned.reverse rightAligned.reverse 0).length := by
    rw [houtput, List.length_reverse]
  have hlength := addDigits_length leftAligned.reverse rightAligned.reverse 0
  rw [List.length_reverse, List.length_reverse, ← hoLength] at hlength
  have hoValue : digitsValue output = digitsValue (lastDigits width leftAligned) +
      digitsValue (lastDigits width rightAligned) := by
    rw [houtput, addDigits_value hleftAll hrightAll (Nat.zero_le 1), List.length_reverse,
      List.length_reverse, hleftLength, hrightLength, ← hwidth, List.take_reverse,
      List.take_reverse, List.reverse_reverse, List.reverse_reverse, Nat.add_zero]
    rfl
  have hoDigits : output.all Char.isDigit = true := by
    rw [houtput, List.all_reverse]
    exact addDigits_digits _ _ (Nat.zero_le 1) hleftAll hrightAll
  have hoNe : output ≠ [] := by
    rw [← List.length_pos_iff]
    omega
  have hoFits : max output.length (scale + 1) + 1 ≤ 9223372036854775807 := by omega
  obtain ⟨dotted, hdotted, hexponent, hdValue, hdScale, hdLength⟩ :=
    insertDot_number hoNe hoDigits hoFits
  have hparts := decimalParts_plain checked hexponent (by omega)
  have htrim := trimZeros_length_le dotted.digits_ne
  have htrimPos := trimZeros_length_pos dotted.digits
  obtain ⟨n, hn, hnExponent, hnValue, hnFraction⟩ := decimalNormalize_number hparts
    (List.ne_nil_of_length_pos htrimPos) (trimZeros_digits dotted.digits_digits) (by
      split_ifs at hdLength
      · omega
      · omega)
  refine ⟨n, ?_, hnExponent, hdScale ▸ hnFraction, ?_⟩
  · unfold decimalAdd
    rw [hleft, hright]
    simp only [Option.bind_eq_bind, Option.bind_some, ← hscale, ← hleftAligned, ← hrightAligned]
    rw [newString_eq (by omega), newString_eq (by omega), Option.bind_some, Option.bind_some,
      ← houtput, newString_eq (by omega), Option.bind_some, hdotted, Option.bind_some, hn]
  · rw [hnValue, trimZeros_value, hdValue, hoValue, hdScale, ← hleftAligned, ← hrightAligned]
    push_cast
    rfl

/-! ### Aggregates -/

/-- `add_usage` -/
def addUsage (total value : Option Nat) : Option Nat :=
  match value with
  | some value => some (satAdd (total.getD 0) value)
  | none => total

/-- A cost is added to the ones before; the first one is kept as `first` makes it. -/
def addCost (checked : Bool) (first : List Char → Option (List Char))
    (total : Option String) (cost : String) : Option String :=
  (match total with
    | some previous => decimalAdd checked previous.toList cost.toList
    | none => first cost.toList).map String.ofList

structure ModelAccountingSnapshot where
  turns : List ModelTurnAccounting := []
  aggregate : Usage := {}

/-- `record` -/
def ModelAccountingSnapshot.record (checked : Bool) (s : ModelAccountingSnapshot)
    (accounting : ModelTurnAccounting) : Option ModelAccountingSnapshot := do
  let usage := accounting.usage
  let aggregate := { s.aggregate with
    inputTokens := addUsage s.aggregate.inputTokens usage.inputTokens
    outputTokens := addUsage s.aggregate.outputTokens usage.outputTokens
    reasoningTokens := addUsage s.aggregate.reasoningTokens usage.reasoningTokens
    cacheReadTokens := addUsage s.aggregate.cacheReadTokens usage.cacheReadTokens
    cacheWriteTokens := addUsage s.aggregate.cacheWriteTokens usage.cacheWriteTokens }
  let turns := s.turns ++ [accounting]
  match usage.cost with
  | some cost =>
      let total ← addCost checked some s.aggregate.cost cost
      return { turns, aggregate := { aggregate with cost := some total } }
  | none => return { turns, aggregate }

/-- The exact total of `cost_report`: `decimal_add` normalizes the first cost. -/
def ledgerTotal (checked : Bool) (costs : List String) : Option (Option String) :=
  costs.foldlM (fun total cost => (addCost checked (decimalNormalize checked) total cost).map some)
    none

end Tea.Core
