/-
  Tea/Encoding/Decimal.lean
  =========================
  **Decimal digits and numbers as text.**  What a string of digits is worth, and how that
  depends on its parts (`digitsValue_append`, `digitsValue_drop`); what a number with a
  fraction and an exponent is worth (`numberValue_letters`).
-/

import Mathlib.Algebra.Order.Field.Rat
import Mathlib.Data.List.DropRight
import Mathlib.Tactic.FieldSimp
import Mathlib.Tactic.Ring

namespace Tea.Encoding

/-! ### Digits -/

/-- The number that some digits stand for, the most significant first. -/
def digitsValue (digits : List Char) : Nat := Nat.ofDigitChars 10 digits 0

@[simp] theorem digitsValue_nil : digitsValue [] = 0 := Nat.ofDigitChars_nil

theorem digitsValue_append (xs ys : List Char) :
    digitsValue (xs ++ ys) = digitsValue xs * 10 ^ ys.length + digitsValue ys := by
  unfold digitsValue
  rw [Nat.ofDigitChars_append, Nat.ofDigitChars_eq_ofDigitChars_zero, Nat.mul_comm]

theorem digitsValue_singleton (c : Char) : digitsValue [c] = c.toNat - 48 := by
  unfold digitsValue
  rw [Nat.ofDigitChars_cons, Nat.ofDigitChars_nil, Nat.mul_zero, Nat.zero_add]
  rfl

theorem digitsValue_replicate (n : Nat) : digitsValue (List.replicate n '0') = 0 := by
  unfold digitsValue
  rw [Nat.ofDigitChars_replicate_zero, Nat.mul_zero]

/-- Zeros behind the digits scale them up. -/
theorem digitsValue_zeros (digits : List Char) (n : Nat) :
    digitsValue (digits ++ List.replicate n '0') = digitsValue digits * 10 ^ n := by
  rw [digitsValue_append, digitsValue_replicate, List.length_replicate, Nat.add_zero]

/-- Zeros in front of the digits do not count. -/
theorem digitsValue_zeros_append (n : Nat) (digits : List Char) :
    digitsValue (List.replicate n '0' ++ digits) = digitsValue digits := by
  rw [digitsValue_append, digitsValue_replicate, Nat.zero_mul, Nat.zero_add]

theorem digitsValue_dropZeros (digits : List Char) :
    digitsValue (digits.dropWhile (· = '0')) = digitsValue digits := by
  induction digits with
  | nil => simp
  | cons c digits ih =>
    by_cases hc : c = '0'
    · have hvalue : digitsValue (c :: digits) = digitsValue digits := by
        subst hc
        exact digitsValue_zeros_append 1 digits
      rw [List.dropWhile_cons_of_pos (by simpa using hc), ih, hvalue]
    · rw [List.dropWhile_cons_of_neg (by simpa using hc)]

theorem digit_lt {c : Char} (h : c.isDigit = true) : c.toNat - 48 < 10 := by
  have hrange : c.val ≥ 48 ∧ c.val ≤ 57 := by simpa [Char.isDigit] using h
  have hle : c.val.toNat ≤ 57 := hrange.2
  change c.val.toNat - 48 < 10
  omega

theorem digit_pos {c : Char} (h : c.isDigit = true) (hzero : c ≠ '0') : 0 < c.toNat - 48 := by
  have hrange : c.val ≥ 48 ∧ c.val ≤ 57 := by simpa [Char.isDigit] using h
  have hge : 48 ≤ c.val.toNat := hrange.1
  have hne : c.val.toNat ≠ 48 := by
    intro heq
    apply hzero
    apply Char.ext
    exact UInt32.toNat_inj.mp heq
  change 0 < c.val.toNat - 48
  omega

theorem digitsValue_lt {digits : List Char} (h : digits.all Char.isDigit = true) :
    digitsValue digits < 10 ^ digits.length := by
  induction digits with
  | nil => simp
  | cons c digits ih =>
    rw [List.all_cons, Bool.and_eq_true] at h
    have hrest := ih h.2
    have hfirst := digit_lt h.1
    have hcons : digitsValue (c :: digits) =
        (c.toNat - 48) * 10 ^ digits.length + digitsValue digits := by
      rw [← digitsValue_singleton]
      exact digitsValue_append [c] digits
    rw [hcons, List.length_cons, Nat.pow_succ]
    calc
      (c.toNat - 48) * 10 ^ digits.length + digitsValue digits
          < (c.toNat - 48) * 10 ^ digits.length + 10 ^ digits.length := by omega
      _ = (c.toNat - 48 + 1) * 10 ^ digits.length := by ring
      _ ≤ 10 * 10 ^ digits.length := Nat.mul_le_mul_right _ hfirst
      _ = 10 ^ digits.length * 10 := Nat.mul_comm _ _

/-- A digit in front that is no zero counts. -/
theorem le_digitsValue {c : Char} {digits : List Char} (h : c.isDigit = true) (hzero : c ≠ '0') :
    10 ^ digits.length ≤ digitsValue (c :: digits) := by
  have hcons : digitsValue (c :: digits) =
      (c.toNat - 48) * 10 ^ digits.length + digitsValue digits := by
    rw [← digitsValue_singleton]
    exact digitsValue_append [c] digits
  have hfirst := digit_pos h hzero
  have hle : 1 * 10 ^ digits.length ≤ (c.toNat - 48) * 10 ^ digits.length :=
    Nat.mul_le_mul_right _ hfirst
  omega

/-- The first digits, and the last ones. -/
theorem digitsValue_drop (digits : List Char) {n : Nat} (h : n ≤ digits.length) :
    digitsValue digits = digitsValue (digits.take (digits.length - n)) * 10 ^ n +
      digitsValue (digits.drop (digits.length - n)) := by
  have hlength : (digits.drop (digits.length - n)).length = n := by
    rw [List.length_drop]
    omega
  calc
    digitsValue digits = digitsValue (digits.take (digits.length - n) ++
        digits.drop (digits.length - n)) := by rw [List.take_append_drop]
    _ = _ := by rw [digitsValue_append, hlength]

/-- Digits without zeros in front; a lone zero stays. -/
def trimZeros (digits : List Char) : List Char :=
  if digits.dropWhile (· = '0') = [] then ['0'] else digits.dropWhile (· = '0')

theorem trimZeros_value (digits : List Char) :
    digitsValue (trimZeros digits) = digitsValue digits := by
  have hvalue := digitsValue_dropZeros digits
  unfold trimZeros
  split_ifs with h
  · rw [h, digitsValue_nil] at hvalue
    rw [← hvalue, digitsValue_singleton]
    rfl
  · exact hvalue

theorem trimZeros_digits {digits : List Char} (h : digits.all Char.isDigit = true) :
    (trimZeros digits).all Char.isDigit = true := by
  unfold trimZeros
  split_ifs
  · rfl
  · rw [List.all_eq_true] at h ⊢
    intro c hc
    exact h c ((List.dropWhile_sublist _).subset hc)

theorem trimZeros_length_pos (digits : List Char) : 0 < (trimZeros digits).length := by
  unfold trimZeros
  split_ifs with h
  · simp
  · exact List.length_pos_of_ne_nil h

theorem trimZeros_length_le {digits : List Char} (h : digits ≠ []) :
    (trimZeros digits).length ≤ digits.length := by
  unfold trimZeros
  split_ifs
  · exact List.length_pos_of_ne_nil h
  · exact (List.dropWhile_sublist _).length_le

/-- It is a lone zero, or as great as its length allows. -/
theorem trimZeros_eq_or {digits : List Char} (h : digits.all Char.isDigit = true) :
    trimZeros digits = ['0'] ∨
      10 ^ ((trimZeros digits).length - 1) ≤ digitsValue (trimZeros digits) := by
  have hall := trimZeros_digits h
  unfold trimZeros at hall ⊢
  split_ifs with hnil
  · exact .inl rfl
  · right
    rw [if_neg hnil] at hall
    obtain ⟨c, rest, hrest⟩ := List.exists_cons_of_ne_nil hnil
    have hzero : c ≠ '0' := by
      have hhead := List.head?_dropWhile_not (fun c : Char => decide (c = '0')) digits
      rw [hrest] at hhead
      simpa using hhead
    rw [hrest, List.all_cons, Bool.and_eq_true] at hall
    rw [hrest]
    exact le_digitsValue hall.1 hzero

/-! ### Numbers -/

/-- `split_once`: what stands before and behind the first letter of a kind. -/
def splitOnce (p : Char → Bool) (letters : List Char) : Option (List Char × List Char) :=
  match letters.dropWhile fun c => !p c with
  | [] => none
  | _ :: rest => some (letters.takeWhile fun c => !p c, rest)

theorem splitOnce_none {p : Char → Bool} {letters : List Char}
    (h : ∀ c ∈ letters, p c = false) : splitOnce p letters = none := by
  have hdrop : (letters.dropWhile fun c => !p c) = [] := by
    rw [List.dropWhile_eq_nil_iff]
    intro c hc
    simp [h c hc]
  unfold splitOnce
  rw [hdrop]

theorem splitOnce_some {p : Char → Bool} {before : List Char} {c : Char} (rest : List Char)
    (h : ∀ c ∈ before, p c = false) (hc : p c = true) :
    splitOnce p (before ++ c :: rest) = some (before, rest) := by
  have hbefore : ∀ c ∈ before, (!p c) = true := by
    intro c hc
    simp [h c hc]
  have hdrop : ((before ++ c :: rest).dropWhile fun c => !p c) = c :: rest := by
    rw [List.dropWhile_append_of_pos hbefore, List.dropWhile_cons_of_neg (by simp [hc])]
  have htake : ((before ++ c :: rest).takeWhile fun c => !p c) = before := by
    rw [List.takeWhile_append_of_pos hbefore, List.takeWhile_cons_of_neg (by simp [hc]),
      List.append_nil]
  unfold splitOnce
  rw [hdrop, htake]

def isExponentMark (c : Char) : Bool := c = 'e' || c = 'E'

def isDot (c : Char) : Bool := c = '.'

/-- Digits, perhaps behind a sign. -/
def isSigned (letters : List Char) : Bool :=
  match letters with
  | '+' :: digits => digits ≠ [] && digits.all Char.isDigit
  | '-' :: digits => digits ≠ [] && digits.all Char.isDigit
  | digits => digits ≠ [] && digits.all Char.isDigit

def signedValue (letters : List Char) : Int :=
  match letters with
  | '+' :: digits => digitsValue digits
  | '-' :: digits => -digitsValue digits
  | digits => digitsValue digits

/-- The digits before and behind the dot of a number, and its exponent with its mark. -/
structure NumberText where
  whole : List Char
  fraction : List Char
  exponent : Option (Char × List Char)
  whole_ne : whole ≠ []
  whole_digits : whole.all Char.isDigit = true
  fraction_digits : fraction.all Char.isDigit = true
  exponent_signed : ∀ mark ∈ exponent, isExponentMark mark.1 = true ∧ isSigned mark.2 = true

namespace NumberText

def coefficient (n : NumberText) : List Char :=
  n.whole ++ if n.fraction = [] then [] else '.' :: n.fraction

def letters (n : NumberText) : List Char :=
  n.coefficient ++ match n.exponent with
    | none => []
    | some (mark, letters) => mark :: letters

def digits (n : NumberText) : List Char := n.whole ++ n.fraction

def exponentValue (n : NumberText) : Int :=
  match n.exponent with
  | none => 0
  | some (_, letters) => signedValue letters

/-- The number of decimal places that the text gives. -/
def scale (n : NumberText) : Int := n.fraction.length - n.exponentValue

def value (n : NumberText) : ℚ := digitsValue n.digits * (10 : ℚ) ^ (-n.scale)

theorem digits_digits (n : NumberText) : n.digits.all Char.isDigit = true := by
  rw [digits, List.all_append, n.whole_digits, n.fraction_digits]
  rfl

theorem digits_ne (n : NumberText) : n.digits ≠ [] := by
  rw [digits, ne_eq, List.append_eq_nil_iff, not_and_or]
  exact .inl n.whole_ne

end NumberText

/-- The coefficient of a text and its exponent. -/
def splitExponent (letters : List Char) : List Char × Int :=
  match splitOnce isExponentMark letters with
  | some (coefficient, exponent) => (coefficient, signedValue exponent)
  | none => (letters, 0)

/-- The digits before and behind the dot. -/
def splitFraction (coefficient : List Char) : List Char × List Char :=
  (splitOnce isDot coefficient).getD (coefficient, [])

/-- What a text is worth, read as a decimal number. -/
def numberValue (letters : List Char) : ℚ :=
  let parts := splitFraction (splitExponent letters).1
  let exponent := (splitExponent letters).2
  digitsValue (parts.1 ++ parts.2) * (10 : ℚ) ^ (exponent - (parts.2.length : Int))

theorem not_mark_of_digit {c : Char} (h : c.isDigit = true) : isExponentMark c = false := by
  unfold isExponentMark
  rw [Bool.or_eq_false_iff, decide_eq_false_iff_not, decide_eq_false_iff_not]
  constructor
  · rintro rfl
    cases h
  · rintro rfl
    cases h

theorem not_dot_of_digit {c : Char} (h : c.isDigit = true) : isDot c = false := by
  unfold isDot
  rw [decide_eq_false_iff_not]
  rintro rfl
  cases h

namespace NumberText

theorem coefficient_not_mark (n : NumberText) : ∀ c ∈ n.coefficient, isExponentMark c = false := by
  have hwhole := List.all_eq_true.mp n.whole_digits
  have hfraction := List.all_eq_true.mp n.fraction_digits
  intro c hc
  rw [coefficient, List.mem_append] at hc
  rcases hc with hc | hc
  · exact not_mark_of_digit (hwhole c hc)
  · split_ifs at hc with hnone
    · cases hc
    · rcases List.mem_cons.mp hc with rfl | hc
      · rfl
      · exact not_mark_of_digit (hfraction c hc)

/-- The text falls apart at its exponent mark. -/
theorem splitOnce_letters (n : NumberText) :
    splitOnce isExponentMark n.letters = n.exponent.map fun mark => (n.coefficient, mark.2) := by
  unfold letters
  cases hexponent : n.exponent with
  | none =>
    rw [List.append_nil, splitOnce_none n.coefficient_not_mark]
    rfl
  | some mark =>
    have hmark := (n.exponent_signed mark hexponent).1
    exact splitOnce_some mark.2 n.coefficient_not_mark hmark

/-- The coefficient falls apart at its dot. -/
theorem splitFraction_coefficient (n : NumberText) :
    splitFraction n.coefficient = (n.whole, n.fraction) := by
  have hwhole : ∀ c ∈ n.whole, isDot c = false := fun c hc =>
    not_dot_of_digit (List.all_eq_true.mp n.whole_digits c hc)
  unfold splitFraction coefficient
  split_ifs with hnone
  · rw [List.append_nil, splitOnce_none hwhole, hnone]
    rfl
  · rw [splitOnce_some n.fraction hwhole rfl]
    rfl

theorem splitExponent_letters (n : NumberText) :
    splitExponent n.letters = (n.coefficient, n.exponentValue) := by
  rw [splitExponent, splitOnce_letters]
  unfold exponentValue letters
  cases n.exponent with
  | none => simp
  | some mark => rfl

/-- **What a number is worth**: its digits, scaled down by its decimal places. -/
theorem numberValue_letters (n : NumberText) : numberValue n.letters = n.value := by
  unfold numberValue
  rw [splitExponent_letters, splitFraction_coefficient, value, digits, scale, neg_sub]

end NumberText

end Tea.Encoding
