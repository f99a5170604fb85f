/-
  Tea/Contract/ExactCost.lean
  ===========================
  **Costs of a conversation**: the aggregate of the recorded costs is their exact sum as
  long as every cost is read exactly and, where two costs are added, their leading digits
  stand at the same place (`costs_exact`).  A sum of digits that are not so many is cut
  off (`cost_lost`).
-/

import Tea.Core.Accounting
import Tea.Provider.OpenRouterSse
import Mathlib.Tactic.Linarith

namespace Tea.Contract

open Tea.Core Tea.Encoding Tea.Provider

/-! ### Costs -/

/-- The texts that are costs. -/
def IsCost (text : List Char) : Prop :=
  OpenRouterSse.validNonnegativeJsonNumber text = true

instance (text : List Char) : Decidable (IsCost text) :=
  inferInstanceAs (Decidable (OpenRouterSse.validNonnegativeJsonNumber text = true))

theorem validExponent_mark {rest : List Char} (h : OpenRouterSse.validExponent rest = true) :
    ∃ exponent : Option (Char × List Char),
      (∀ mark ∈ exponent, isExponentMark mark.1 = true ∧ isSigned mark.2 = true) ∧
      rest = match exponent with
        | none => []
        | some (mark, letters) => mark :: letters := by
  cases rest with
  | nil =>
    refine ⟨none, ?_, rfl⟩
    intro mark hmark
    cases hmark
  | cons c rest =>
    unfold OpenRouterSse.validExponent at h
    dsimp only at h
    split_ifs at h with hc
    refine ⟨some (c, rest), ?_, rfl⟩
    rintro mark ⟨⟩
    refine ⟨by simpa [isExponentMark] using hc, ?_⟩
    dsimp only
    split at h
    · exact h
    · exact h
    · rename_i hplus hminus
      rw [isSigned.eq_3 _ hplus hminus]
      exact h

/-- What is behind the whole digits of a cost: a fraction and an exponent. -/
theorem behindWhole_parts {behind : List Char}
    (h : (match some behind with
      | none => false
      | some ('.' :: fraction) => fraction.takeWhile Char.isDigit ≠ [] &&
          OpenRouterSse.validExponent (fraction.dropWhile Char.isDigit)
      | some rest => OpenRouterSse.validExponent rest) = true) :
    ∃ fraction : List Char, ∃ exponent : Option (Char × List Char),
      fraction.all Char.isDigit = true ∧
      (∀ mark ∈ exponent, isExponentMark mark.1 = true ∧ isSigned mark.2 = true) ∧
      behind = (if fraction = [] then [] else '.' :: fraction) ++ match exponent with
        | none => []
        | some (mark, letters) => mark :: letters := by
  split at h
  · cases h
  · rename_i fraction heq
    cases heq
    rw [Bool.and_eq_true, decide_eq_true_eq] at h
    obtain ⟨exponent, hsigned, hrest⟩ := validExponent_mark h.2
    refine ⟨fraction.takeWhile Char.isDigit, exponent, List.all_takeWhile, hsigned, ?_⟩
    rw [if_neg h.1, ← hrest, List.cons_append, List.takeWhile_append_dropWhile]
  · rename_i rest hdot heq
    cases heq
    obtain ⟨exponent, hsigned, hrest⟩ := validExponent_mark h
    exact ⟨[], exponent, List.all_nil, hsigned, by rw [if_pos rfl, List.nil_append, ← hrest]⟩

/-- A cost is a number. -/
theorem IsCost.number {text : List Char} (h : IsCost text) :
    ∃ n : NumberText, n.letters = text := by
  unfold IsCost OpenRouterSse.validNonnegativeJsonNumber at h
  cases text with
  | nil => cases h
  | cons c rest =>
    obtain ⟨whole, behind, hbehind, hne, hwhole, htext⟩ :
        ∃ whole behind, (if c = '0' then some rest
          else if c.isDigit then some (rest.dropWhile Char.isDigit) else none) = some behind ∧
          whole ≠ [] ∧ whole.all Char.isDigit = true ∧ c :: rest = whole ++ behind := by
      dsimp only at h
      split_ifs at h ⊢ with hzero hdigit
      · exact ⟨['0'], rest, rfl, by simp, rfl, by rw [hzero]; rfl⟩
      · refine ⟨c :: rest.takeWhile Char.isDigit, _, rfl, by simp, ?_, ?_⟩
        · rw [List.all_cons, hdigit, List.all_takeWhile]
          rfl
        · rw [List.cons_append, List.takeWhile_append_dropWhile]
    dsimp only at h
    rw [hbehind] at h
    obtain ⟨fraction, exponent, hfraction, hsigned, hparts⟩ := behindWhole_parts h
    refine ⟨⟨whole, fraction, exponent, hne, hwhole, hfraction, hsigned⟩, ?_⟩
    rw [htext, hparts, ← List.append_assoc]
    rfl

/-! ### When a sum is exact -/

/-- The number of decimal places that a text gives: its digits behind the dot, less its
    exponent. -/
def decimalPlaces (text : List Char) : Int :=
  (splitFraction (splitExponent text).1).2.length - (splitExponent text).2

/-- The text is zero, or is read with the decimal places that it gives. -/
def readsExactly (text : List Char) (parts : List Char × Nat) : Bool :=
  parts.1 = ['0'] || decimalPlaces text = parts.2

/-- The leading digits stand at the same place; or one number is zero, and the other one
    has no digit in front of its zeros. -/
def sameLeadingPlace (left right : List Char × Nat) : Bool :=
  left.1.length + right.2 = right.1.length + left.2 ||
    (left.1 = ['0'] && right.1.length + left.2 ≤ 1 + right.2) ||
    (right.1 = ['0'] && left.1.length + right.2 ≤ 1 + left.2)

/-- The strings that the sum needs are short enough. -/
def fits (left right : List Char × Nat) : Bool :=
  max (left.1.length + (max left.2 right.2 - left.2))
    (right.1.length + (max left.2 right.2 - right.2)) + max left.2 right.2 + 3 ≤
      9223372036854775807

/-- Both costs are read exactly, and their leading digits stand at the same place. -/
def addsExactly (checked : Bool) (previous cost : List Char) : Bool :=
  match decimalParts checked previous, decimalParts checked cost with
  | some left, some right =>
      readsExactly previous left && readsExactly cost right && sameLeadingPlace left right &&
        fits left right
  | _, _ => false

/-! ### One sum -/

theorem decimalPlaces_letters (n : NumberText) : decimalPlaces n.letters = n.scale := by
  rw [decimalPlaces, n.splitExponent_letters, n.splitFraction_coefficient]
  rfl

/-- The digits that are read are those of the number. -/
theorem parts_digits {checked : Bool} {n : NumberText} {parts : List Char × Nat}
    (h : decimalParts checked n.letters = some parts) :
    parts.1 = trimZeros n.digits ∧ parts.1 ≠ [] ∧ parts.1.all Char.isDigit = true ∧
      digitsValue parts.1 = digitsValue n.digits := by
  rw [decimalParts_letters, Option.map_eq_some_iff] at h
  obtain ⟨scale, -, rfl⟩ := h
  exact ⟨rfl, List.ne_nil_of_length_pos (trimZeros_length_pos _),
    trimZeros_digits n.digits_digits, trimZeros_value _⟩

/-- What a text is read as. -/
def readValue (parts : List Char × Nat) : ℚ := digitsValue parts.1 / (10 : ℚ) ^ parts.2

theorem readsExactly_value {checked : Bool} {n : NumberText} {parts : List Char × Nat}
    (h : decimalParts checked n.letters = some parts)
    (hreads : readsExactly n.letters parts = true) : readValue parts = n.value := by
  have hvalue := (parts_digits h).2.2.2
  rw [readsExactly, Bool.or_eq_true, decide_eq_true_eq, decide_eq_true_eq,
    decimalPlaces_letters] at hreads
  unfold readValue NumberText.value
  rcases hreads with hzero | hplaces
  · have hdigits : digitsValue n.digits = 0 := by
      rw [← hvalue, hzero, digitsValue_singleton]
      rfl
    rw [hvalue, hdigits]
    simp
  · rw [hvalue, hplaces, zpow_neg, zpow_natCast, div_eq_mul_inv]

theorem lastDigits_le (digits : List Char) {width : Nat} (h : width ≤ digits.length) :
    digitsValue (lastDigits width digits) ≤ digitsValue digits := by
  have hsplit := digitsValue_drop digits h
  unfold lastDigits
  omega

theorem lastDigits_all (digits : List Char) : lastDigits digits.length digits = digits := by
  simp [lastDigits]

/-- A number that is zero, or no longer than the width, is read whole. -/
theorem lastDigits_value {digits : List Char} {width : Nat} (h : width ≤ digits.length)
    (hwhole : digitsValue digits = 0 ∨ width = digits.length) :
    digitsValue (lastDigits width digits) = digitsValue digits := by
  rcases hwhole with hzero | rfl
  · have hle := lastDigits_le digits h
    omega
  · rw [lastDigits_all]

/-- A sum scaled to the decimal places of the longer fraction. -/
theorem scaled_value (digits : List Char) {scale scale' : Nat} (h : scale ≤ scale') :
    (digitsValue (digits ++ List.replicate (scale' - scale) '0') : ℚ) / 10 ^ scale' =
      digitsValue digits / 10 ^ scale := by
  obtain ⟨k, rfl⟩ := Nat.exists_eq_add_of_le h
  rw [digitsValue_zeros, Nat.add_sub_cancel_left, pow_add]
  push_cast
  field_simp

/-- **One sum**: where it is exact by its operands, the text is worth what they are. -/
theorem decimalAdd_exact {checked : Bool} {l r : NumberText}
    (h : addsExactly checked l.letters r.letters = true) :
    ∃ n : NumberText, decimalAdd checked l.letters r.letters = some n.letters ∧
      n.value = l.value + r.value := by
  unfold addsExactly at h
  split at h
  · rename_i left right hleft hright
    rw [Bool.and_eq_true, Bool.and_eq_true, Bool.and_eq_true] at h
    obtain ⟨⟨⟨hreadsLeft, hreadsRight⟩, hplace⟩, hfits⟩ := h
    obtain ⟨-, hleftNe, hleftDigits, -⟩ := parts_digits hleft
    obtain ⟨-, hrightNe, hrightDigits, -⟩ := parts_digits hright
    rw [fits, decide_eq_true_eq] at hfits
    obtain ⟨n, hn, -, -, hvalue⟩ := decimalAdd_number hleft hright hleftNe hrightNe hleftDigits
      hrightDigits rfl rfl hfits
    refine ⟨n, hn, ?_⟩
    have hzero : ∀ k, digitsValue (['0'] ++ List.replicate k '0') = 0 := by
      intro k
      rw [digitsValue_zeros, digitsValue_singleton]
      simp
    simp only [sameLeadingPlace, Bool.or_eq_true, Bool.and_eq_true, decide_eq_true_eq] at hplace
    have hwholeLeft : digitsValue (left.1 ++
          List.replicate (max left.2 right.2 - left.2) '0') = 0 ∨
        min (left.1.length + (max left.2 right.2 - left.2))
          (right.1.length + (max left.2 right.2 - right.2)) =
            (left.1 ++ List.replicate (max left.2 right.2 - left.2) '0').length := by
      rw [List.length_append, List.length_replicate]
      rcases hplace with (hsame | ⟨hleftZero, -⟩) | ⟨hrightZero, hshort⟩
      · right
        omega
      · left
        rw [hleftZero]
        exact hzero _
      · right
        rw [hrightZero, List.length_singleton]
        omega
    have hwholeRight : digitsValue (right.1 ++
          List.replicate (max left.2 right.2 - right.2) '0') = 0 ∨
        min (left.1.length + (max left.2 right.2 - left.2))
          (right.1.length + (max left.2 right.2 - right.2)) =
            (right.1 ++ List.replicate (max left.2 right.2 - right.2) '0').length := by
      rw [List.length_append, List.length_replicate]
      rcases hplace with (hsame | ⟨hleftZero, hshort⟩) | ⟨hrightZero, -⟩
      · right
        omega
      · right
        rw [hleftZero, List.length_singleton]
        omega
      · left
        rw [hrightZero]
        exact hzero _
    rw [hvalue, lastDigits_value _ hwholeLeft, lastDigits_value _ hwholeRight, add_div,
      scaled_value _ (le_max_left _ _), scaled_value _ (le_max_right _ _),
      ← readsExactly_value hleft hreadsLeft, ← readsExactly_value hright hreadsRight]
    · rfl
    · rw [List.length_append, List.length_replicate]
      exact min_le_right _ _
    · rw [List.length_append, List.length_replicate]
      exact min_le_left _ _
  · cases h

/-! ### No other sum is exact -/

/-- A text whose decimal places are no more than an `i64` counts. -/
def isOrdinary (text : List Char) : Bool :=
  (splitFraction (splitExponent text).1).2.length ≤ 9223372036854775807 &&
    decimalPlaces text ≤ 9223372036854775807

/-- An ordinary text is read with at least the decimal places that it gives. -/
theorem ordinary_scale {checked : Bool} {n : NumberText} {parts : List Char × Nat}
    (h : decimalParts checked n.letters = some parts) (hordinary : isOrdinary n.letters = true) :
    n.scale ≤ parts.2 := by
  rw [isOrdinary, Bool.and_eq_true, decide_eq_true_eq, decide_eq_true_eq, decimalPlaces_letters,
    n.splitExponent_letters, n.splitFraction_coefficient] at hordinary
  obtain ⟨hlength, hplaces⟩ := hordinary
  rw [NumberText.scale] at hplaces ⊢
  have hrange : isI64 ((n.fraction.length : Int) - readExponent n) = true ∧
      (n.fraction.length : Int) - n.exponentValue ≤ n.fraction.length - readExponent n := by
    unfold readExponent isI64 i64Min i64Max
    split_ifs with hexponent
    · rw [Bool.and_eq_true, decide_eq_true_eq, decide_eq_true_eq] at hexponent ⊢
      omega
    · rw [Bool.and_eq_true, decide_eq_true_eq, decide_eq_true_eq] at hexponent ⊢
      dsimp only at hlength
      omega
  rw [decimalParts_letters, subI64, if_pos hrange.1, Option.map_some, Option.some.injEq] at h
  rw [← h]
  exact hrange.2.trans (Int.self_le_toNat _)

theorem ordinary_value {checked : Bool} {n : NumberText} {parts : List Char × Nat}
    (h : decimalParts checked n.letters = some parts) (hordinary : isOrdinary n.letters = true) :
    readValue parts ≤ n.value ∧
      (readValue parts = n.value → readsExactly n.letters parts = true) := by
  have hscale := ordinary_scale h hordinary
  obtain ⟨htrim, -, -, hvalue⟩ := parts_digits h
  have hread : readValue parts = digitsValue n.digits * (10 : ℚ) ^ (-(parts.2 : Int)) := by
    rw [readValue, hvalue, zpow_neg, zpow_natCast, div_eq_mul_inv]
  rw [hread, NumberText.value]
  constructor
  · apply mul_le_mul_of_nonneg_left _ (Nat.cast_nonneg _)
    exact zpow_le_zpow_right₀ (by norm_num) (by omega)
  · intro hequal
    rw [readsExactly, Bool.or_eq_true, decide_eq_true_eq, decide_eq_true_eq,
      decimalPlaces_letters]
    by_cases hzero : digitsValue n.digits = 0
    · left
      rw [htrim]
      rcases trimZeros_eq_or n.digits_digits with hlone | hgreat
      · exact hlone
      · rw [trimZeros_value, hzero] at hgreat
        have hpos : 0 < 10 ^ ((trimZeros n.digits).length - 1) := Nat.pow_pos (Nat.succ_pos 9)
        omega
    · right
      have hne : (digitsValue n.digits : ℚ) ≠ 0 := Nat.cast_ne_zero.mpr hzero
      have hpower := mul_left_cancel₀ hne hequal
      have hexponents := zpow_right_injective₀ (by norm_num : (0 : ℚ) < 10) (by norm_num) hpower
      omega

/-- Digits that are cut off count, unless there is only a zero. -/
theorem lastDigits_lt {digits : List Char} (hdigits : digits.all Char.isDigit = true)
    {k width : Nat} (hne : trimZeros digits ≠ ['0'])
    (hwidth : width < (trimZeros digits ++ List.replicate k '0').length) :
    digitsValue (lastDigits width (trimZeros digits ++ List.replicate k '0')) <
      digitsValue (trimZeros digits ++ List.replicate k '0') := by
  have hpos := trimZeros_length_pos digits
  have hgreat : 10 ^ ((trimZeros digits).length - 1) ≤ digitsValue (trimZeros digits) :=
    (trimZeros_eq_or hdigits).resolve_left hne
  have hall : (trimZeros digits ++ List.replicate k '0').all Char.isDigit = true := by
    rw [List.all_append, trimZeros_digits hdigits, Bool.true_and, List.all_eq_true]
    intro c hc
    rw [List.eq_of_mem_replicate hc]
    rfl
  have hlast : digitsValue (lastDigits width (trimZeros digits ++ List.replicate k '0')) <
      10 ^ width := by
    have hsub : (lastDigits width (trimZeros digits ++ List.replicate k '0')).all Char.isDigit =
        true := by
      rw [List.all_eq_true] at hall ⊢
      intro c hc
      exact hall c (List.mem_of_mem_drop hc)
    have hlt := digitsValue_lt hsub
    have hlength : (lastDigits width (trimZeros digits ++ List.replicate k '0')).length =
        width := by
      rw [lastDigits, List.length_drop]
      omega
    rwa [hlength] at hlt
  rw [List.length_append, List.length_replicate] at hwidth
  calc
    digitsValue (lastDigits width (trimZeros digits ++ List.replicate k '0')) < 10 ^ width := hlast
    _ ≤ 10 ^ ((trimZeros digits).length - 1 + k) :=
        Nat.pow_le_pow_right (Nat.succ_pos 9) (by omega)
    _ = 10 ^ ((trimZeros digits).length - 1) * 10 ^ k := Nat.pow_add _ _ _
    _ ≤ digitsValue (trimZeros digits) * 10 ^ k := Nat.mul_le_mul_right _ hgreat
    _ = digitsValue (trimZeros digits ++ List.replicate k '0') := (digitsValue_zeros _ _).symm

/-- The strings of a sum are short enough, where its operands are read at all. -/
def sumFits (checked : Bool) (previous cost : List Char) : Bool :=
  match decimalParts checked previous, decimalParts checked cost with
  | some left, some right => fits left right
  | _, _ => true

/-- **No other sum** of ordinary texts is exact. -/
theorem addsExactly_of_value {checked : Bool} {l r n : NumberText}
    (hl : isOrdinary l.letters = true) (hr : isOrdinary r.letters = true)
    (hfits : sumFits checked l.letters r.letters = true)
    (hn : decimalAdd checked l.letters r.letters = some n.letters)
    (hvalue : n.value = l.value + r.value) : addsExactly checked l.letters r.letters = true := by
  cases hleft : decimalParts checked l.letters with
  | none =>
    rw [decimalAdd, hleft] at hn
    cases hn
  | some left =>
    cases hright : decimalParts checked r.letters with
    | none =>
      rw [decimalAdd, hleft, hright] at hn
      cases hn
    | some right =>
      rw [sumFits, hleft, hright] at hfits
      dsimp only at hfits
      obtain ⟨hleftTrim, hleftNe, hleftDigits, -⟩ := parts_digits hleft
      obtain ⟨hrightTrim, hrightNe, hrightDigits, -⟩ := parts_digits hright
      have hfit := hfits
      rw [fits, decide_eq_true_eq] at hfit
      obtain ⟨n', hn', -, -, hvalue'⟩ := decimalAdd_number hleft hright hleftNe hrightNe
        hleftDigits hrightDigits rfl rfl hfit
      have hsame : n'.value = n.value := by
        rw [hn, Option.some.injEq] at hn'
        rw [← NumberText.numberValue_letters, ← NumberText.numberValue_letters, hn']
      obtain ⟨hleftLe, hleftExact⟩ := ordinary_value hleft hl
      obtain ⟨hrightLe, hrightExact⟩ := ordinary_value hright hr
      obtain ⟨scale, hscale⟩ : ∃ scale, scale = max left.2 right.2 := ⟨_, rfl⟩
      rw [← hscale] at hvalue'
      have hleftScaled : (digitsValue (left.1 ++ List.replicate (scale - left.2) '0') : ℚ) /
          10 ^ scale = readValue left := scaled_value _ (hscale ▸ le_max_left _ _)
      have hrightScaled : (digitsValue (right.1 ++ List.replicate (scale - right.2) '0') : ℚ) /
          10 ^ scale = readValue right := scaled_value _ (hscale ▸ le_max_right _ _)
      obtain ⟨width, hwidth⟩ : ∃ width, width = min (left.1.length + (scale - left.2))
        (right.1.length + (scale - right.2)) := ⟨_, rfl⟩
      rw [← hwidth] at hvalue'
      have hpositive : (0 : ℚ) < 10 ^ scale := by positivity
      have hleftLength : (left.1 ++ List.replicate (scale - left.2) '0').length =
          left.1.length + (scale - left.2) := by
        rw [List.length_append, List.length_replicate]
      have hrightLength : (right.1 ++ List.replicate (scale - right.2) '0').length =
          right.1.length + (scale - right.2) := by
        rw [List.length_append, List.length_replicate]
      have hleftKept : (digitsValue (lastDigits width
            (left.1 ++ List.replicate (scale - left.2) '0')) : ℚ) / 10 ^ scale ≤
          readValue left := by
        rw [← hleftScaled]
        apply div_le_div_of_nonneg_right _ hpositive.le
        exact_mod_cast lastDigits_le _ (by omega)
      have hrightKept : (digitsValue (lastDigits width
            (right.1 ++ List.replicate (scale - right.2) '0')) : ℚ) / 10 ^ scale ≤
          readValue right := by
        rw [← hrightScaled]
        apply div_le_div_of_nonneg_right _ hpositive.le
        exact_mod_cast lastDigits_le _ (by omega)
      rw [add_div] at hvalue'
      have hleftReads := hleftExact (by linarith)
      have hrightReads := hrightExact (by linarith)
      -- no digit that is cut off counts
      have hleftWhole : left.1 = ['0'] ∨ left.1.length + (scale - left.2) ≤ width := by
        by_contra hcut
        rw [not_or, not_le] at hcut
        have hlt := lastDigits_lt l.digits_digits (k := scale - left.2) (hleftTrim ▸ hcut.1)
          (by rw [← hleftTrim, hleftLength]; exact hcut.2)
        rw [← hleftTrim] at hlt
        have hltQ : (digitsValue (lastDigits width
              (left.1 ++ List.replicate (scale - left.2) '0')) : ℚ) / 10 ^ scale <
            readValue left := by
          rw [← hleftScaled]
          apply div_lt_div_of_pos_right _ hpositive
          exact_mod_cast hlt
        linarith
      have hrightWhole : right.1 = ['0'] ∨ right.1.length + (scale - right.2) ≤ width := by
        by_contra hcut
        rw [not_or, not_le] at hcut
        have hlt := lastDigits_lt r.digits_digits (k := scale - right.2) (hrightTrim ▸ hcut.1)
          (by rw [← hrightTrim, hrightLength]; exact hcut.2)
        rw [← hrightTrim] at hlt
        have hltQ : (digitsValue (lastDigits width
              (right.1 ++ List.replicate (scale - right.2) '0')) : ℚ) / 10 ^ scale <
            readValue right := by
          rw [← hrightScaled]
          apply div_lt_div_of_pos_right _ hpositive
          exact_mod_cast hlt
        linarith
      have hplace : sameLeadingPlace left right = true := by
        simp only [sameLeadingPlace, Bool.or_eq_true, Bool.and_eq_true, decide_eq_true_eq]
        rcases Nat.lt_trichotomy (left.1.length + (scale - left.2))
          (right.1.length + (scale - right.2)) with hshort | hequal | hlong
        · right
          have hzero := hrightWhole.resolve_right (by omega)
          rw [hzero, List.length_singleton] at hshort
          exact ⟨hzero, by omega⟩
        · left
          left
          omega
        · left
          right
          have hzero := hleftWhole.resolve_right (by omega)
          rw [hzero, List.length_singleton] at hlong
          exact ⟨hzero, by omega⟩
      unfold addsExactly
      rw [hleft, hright]
      simp only [hleftReads, hrightReads, hplace, hfits, Bool.and_true]

/-! ### Totals -/

/-- The exact sum of some costs. -/
def totalCost : List String → ℚ
  | [] => 0
  | cost :: costs => numberValue cost.toList + totalCost costs

theorem totalCost_append (costs costs' : List String) :
    totalCost (costs ++ costs') = totalCost costs + totalCost costs' := by
  induction costs with
  | nil => simp [totalCost]
  | cons cost costs ih =>
    rw [List.cons_append, totalCost, totalCost, ih, add_assoc]

theorem totalCost_perm {costs costs' : List String} (h : costs.Perm costs') :
    totalCost costs = totalCost costs' := by
  induction h with
  | nil => rfl
  | cons cost _ ih => rw [totalCost, totalCost, ih]
  | swap cost cost' costs =>
    simp only [totalCost]
    ring
  | trans _ _ ih ih' => rw [ih, ih']

/-- The aggregate is the exact sum, once there is a cost. -/
def IsTotal (total : Option String) (costs : List String) : Prop :=
  total.map (fun text => numberValue text.toList) =
    if costs = [] then none else some (totalCost costs)

/-- A condition on every aggregate and the cost that is added to it. -/
def everyStep (step : Option String → String → Bool) (checked : Bool)
    (first : List Char → Option (List Char)) : Option String → List String → Bool
  | _, [] => true
  | total, cost :: costs =>
      step total cost &&
        match addCost checked first total cost with
        | some text => everyStep step checked first (some text) costs
        | none => true

/-- The aggregate of some costs. -/
def totalOf (checked : Bool) (first : List Char → Option (List Char)) (total : Option String)
    (costs : List String) : Option (Option String) :=
  costs.foldlM (fun total cost => (addCost checked first total cost).map some) total

/-- The cost is added exactly; the first one is where `firstExactly` says so. -/
def stepExactly (checked : Bool) (firstExactly : List Char → Bool) (total : Option String)
    (cost : String) : Bool :=
  match total with
  | some previous => addsExactly checked previous.toList cost.toList
  | none => firstExactly cost.toList

section

variable {checked : Bool} {first : List Char → Option (List Char)}
  {firstExactly : List Char → Bool}

/-- The aggregate is a number, and the exact sum. -/
def Totals (total : Option String) (costs : List String) : Prop :=
  match total with
  | some text => costs ≠ [] ∧ ∃ n : NumberText, n.letters = text.toList ∧ n.value = totalCost costs
  | none => costs = []

theorem Totals.isTotal {total : Option String} {costs : List String} (h : Totals total costs) :
    IsTotal total costs := by
  unfold IsTotal
  cases total with
  | none =>
    have hnone : costs = [] := h
    rw [if_pos hnone, Option.map_none]
  | some text =>
    obtain ⟨hne, n, hletters, hvalue⟩ := h
    rw [if_neg hne, Option.map_some, ← hletters, n.numberValue_letters, hvalue]

/-- What is demanded of the first cost: it becomes a number of the same value. -/
def FirstExact (first : List Char → Option (List Char)) (firstExactly : List Char → Bool) :
    Prop :=
  ∀ n : NumberText, firstExactly n.letters = true →
    ∃ m : NumberText, first n.letters = some m.letters ∧ m.value = n.value

/-- **One cost more**, added exactly. -/
theorem addCost_exact (hfirst : FirstExact first firstExactly) {total : Option String}
    {costs : List String} {cost : String} (htotal : Totals total costs)
    (hcost : IsCost cost.toList) (h : stepExactly checked firstExactly total cost = true) :
    ∃ text, addCost checked first total cost = some text ∧
      Totals (some text) (costs ++ [cost]) := by
  obtain ⟨r, hr⟩ := hcost.number
  have hvalue : totalCost (costs ++ [cost]) = totalCost costs + r.value := by
    rw [totalCost_append, totalCost, totalCost, add_zero, ← hr, r.numberValue_letters]
  cases total with
  | none =>
    rw [stepExactly, ← hr] at h
    obtain ⟨m, hm, hmValue⟩ := hfirst r h
    have hnone : costs = [] := htotal
    refine ⟨String.ofList m.letters, ?_, by simp, m, ?_, ?_⟩
    · rw [addCost, ← hr, hm, Option.map_some]
    · rw [String.toList_ofList]
    · rw [hvalue, hmValue, hnone, totalCost, zero_add]
  | some previous =>
    obtain ⟨-, l, hl, hlValue⟩ := htotal
    rw [stepExactly, ← hr, ← hl] at h
    obtain ⟨n, hn, hnValue⟩ := decimalAdd_exact h
    refine ⟨String.ofList n.letters, ?_, by simp, n, ?_, ?_⟩
    · rw [addCost, ← hr, ← hl, hn, Option.map_some]
    · rw [String.toList_ofList]
    · rw [hvalue, hnValue, hlValue]

/-- **A run of exact steps**: every aggregate on the way is the exact sum. -/
theorem totals_exact (hfirst : FirstExact first firstExactly) {total : Option String}
    {done costs : List String} (htotal : Totals total done)
    (hcosts : ∀ cost ∈ costs, IsCost cost.toList)
    (h : everyStep (stepExactly checked firstExactly) checked first total costs = true)
    {before : List String} (hbefore : before <+: costs) :
    ∃ t, totalOf checked first total before = some t ∧ Totals t (done ++ before) := by
  induction costs generalizing total done before with
  | nil =>
    rw [List.prefix_nil] at hbefore
    subst hbefore
    refine ⟨total, rfl, ?_⟩
    rw [List.append_nil]
    exact htotal
  | cons cost costs ih =>
    rw [everyStep, Bool.and_eq_true] at h
    rw [List.forall_mem_cons] at hcosts
    cases before with
    | nil =>
      refine ⟨total, rfl, ?_⟩
      rw [List.append_nil]
      exact htotal
    | cons cost' before =>
      obtain ⟨rfl, hrest⟩ := List.cons_prefix_cons.mp hbefore
      obtain ⟨text, htext, hnext⟩ := addCost_exact hfirst htotal hcosts.1 h.1
      rw [htext] at h
      obtain ⟨t, ht, htotals⟩ := ih hnext hcosts.2 h.2 hrest
      refine ⟨t, ?_, ?_⟩
      · rw [totalOf, List.foldlM_cons, htext]
        exact ht
      · rw [List.append_assoc, List.singleton_append] at htotals
        exact htotals

end

/-! ### Runs that are exact -/

/-- The strings of a step are short enough. -/
def stepFits (checked : Bool) (firstFits : List Char → Bool) (total : Option String)
    (cost : String) : Bool :=
  match total with
  | some previous => sumFits checked previous.toList cost.toList
  | none => firstFits cost.toList

/-- The aggregate, if there is one, is an ordinary number. -/
def OrdinaryTotal (total : Option String) : Prop :=
  ∀ text ∈ total, ∃ n : NumberText, n.letters = text.toList ∧ isOrdinary n.letters = true

/-- What is demanded of the first cost: it becomes an ordinary number, of the same value
    only where `firstExactly` says so. -/
def FirstOnlyExact (first : List Char → Option (List Char))
    (firstFits firstExactly : List Char → Bool) : Prop :=
  ∀ (n : NumberText) text, isOrdinary n.letters = true → firstFits n.letters = true →
    first n.letters = some text →
    ∃ m : NumberText, m.letters = text ∧ isOrdinary m.letters = true ∧
      (m.value = n.value → firstExactly n.letters = true)

theorem plain_ordinary {n : NumberText} (hexponent : n.exponent = none)
    (hlength : n.fraction.length ≤ 9223372036854775807) : isOrdinary n.letters = true := by
  have hscale : n.scale = n.fraction.length := by
    rw [NumberText.scale, NumberText.exponentValue, hexponent, sub_zero]
  rw [isOrdinary, Bool.and_eq_true, decide_eq_true_eq, decide_eq_true_eq, decimalPlaces_letters,
    n.splitExponent_letters, n.splitFraction_coefficient, hscale]
  exact ⟨hlength, by exact_mod_cast hlength⟩

/-- A sum is an ordinary number. -/
theorem decimalAdd_ordinary {checked : Bool} {l r : NumberText} {text : List Char}
    (hfits : sumFits checked l.letters r.letters = true)
    (h : decimalAdd checked l.letters r.letters = some text) :
    ∃ n : NumberText, n.letters = text ∧ isOrdinary n.letters = true := by
  cases hleft : decimalParts checked l.letters with
  | none =>
    rw [decimalAdd, hleft] at h
    cases h
  | some left =>
    cases hright : decimalParts checked r.letters with
    | none =>
      rw [decimalAdd, hleft, hright] at h
      cases h
    | some right =>
      rw [sumFits, hleft, hright] at hfits
      dsimp only at hfits
      rw [fits, decide_eq_true_eq] at hfits
      obtain ⟨-, hleftNe, hleftDigits, -⟩ := parts_digits hleft
      obtain ⟨-, hrightNe, hrightDigits, -⟩ := parts_digits hright
      obtain ⟨n, hn, hexponent, hlength, -⟩ := decimalAdd_number hleft hright hleftNe hrightNe
        hleftDigits hrightDigits rfl rfl hfits
      rw [h, Option.some.injEq] at hn
      exact ⟨n, hn.symm, plain_ordinary hexponent (by omega)⟩

section

variable {checked : Bool} {first : List Char → Option (List Char)}
  {firstFits firstExactly : List Char → Bool}

/-- **One cost more**, where the aggregates before and behind it are exact. -/
theorem stepExactly_of_isTotal (hfirst : FirstOnlyExact first firstFits firstExactly)
    {total : Option String} {costs : List String} {cost text : String}
    (hordinary : OrdinaryTotal total) (htotal : IsTotal total costs)
    (hcost : IsCost cost.toList) (hcostOrdinary : isOrdinary cost.toList = true)
    (hfits : stepFits checked firstFits total cost = true)
    (htext : addCost checked first total cost = some text)
    (hnext : IsTotal (some text) (costs ++ [cost])) :
    stepExactly checked firstExactly total cost = true ∧ OrdinaryTotal (some text) := by
  obtain ⟨r, hr⟩ := hcost.number
  have hvalue : numberValue text.toList = totalCost costs + r.value := by
    have hlast : totalCost (costs ++ [cost]) = totalCost costs + r.value := by
      rw [totalCost_append, totalCost, totalCost, add_zero, ← hr, r.numberValue_letters]
    rw [IsTotal, if_neg (by simp), Option.map_some, Option.some.injEq, hlast] at hnext
    exact hnext
  rw [← hr] at hcostOrdinary
  cases total with
  | none =>
    have hnone : costs = [] := by
      by_contra hne
      rw [IsTotal, if_neg hne] at htotal
      cases htotal
    rw [addCost, Option.map_eq_some_iff] at htext
    obtain ⟨letters, hletters, rfl⟩ := htext
    rw [stepFits, ← hr] at hfits
    rw [← hr] at hletters
    obtain ⟨m, hm, hmOrdinary, hmExact⟩ := hfirst r letters hcostOrdinary hfits hletters
    rw [String.toList_ofList, ← hm, m.numberValue_letters, hnone, totalCost, zero_add] at hvalue
    constructor
    · rw [stepExactly, ← hr]
      exact hmExact hvalue
    · rintro text ⟨⟩
      exact ⟨m, by rw [String.toList_ofList, hm], hmOrdinary⟩
  | some previous =>
    obtain ⟨l, hl, hlOrdinary⟩ := hordinary previous rfl
    have hlValue : l.value = totalCost costs := by
      unfold IsTotal at htotal
      split_ifs at htotal with hnone
      · cases htotal
      · rw [Option.map_some, Option.some.injEq, ← hl, l.numberValue_letters] at htotal
        exact htotal
    rw [addCost, Option.map_eq_some_iff] at htext
    obtain ⟨letters, hletters, rfl⟩ := htext
    rw [stepFits, ← hr, ← hl] at hfits
    rw [← hr, ← hl] at hletters
    obtain ⟨n, hn, hnOrdinary⟩ := decimalAdd_ordinary hfits hletters
    rw [String.toList_ofList, ← hn, n.numberValue_letters, ← hlValue] at hvalue
    rw [← hn] at hletters
    constructor
    · rw [stepExactly, ← hr, ← hl]
      exact addsExactly_of_value hlOrdinary hcostOrdinary hfits hletters hvalue
    · rintro text ⟨⟩
      exact ⟨n, by rw [String.toList_ofList, hn], hnOrdinary⟩

/-- **A run of exact aggregates**: every step on the way is exact. -/
theorem everyStep_of_totals (hfirst : FirstOnlyExact first firstFits firstExactly)
    {total : Option String} (done : List String) {costs : List String}
    (hordinary : OrdinaryTotal total)
    (hcosts : ∀ cost ∈ costs, IsCost cost.toList ∧ isOrdinary cost.toList = true)
    (hfits : everyStep (stepFits checked firstFits) checked first total costs = true)
    (hexact : ∀ before, before <+: costs →
      ∃ t, totalOf checked first total before = some t ∧ IsTotal t (done ++ before)) :
    everyStep (stepExactly checked firstExactly) checked first total costs = true := by
  induction costs generalizing total done with
  | nil => rfl
  | cons cost costs ih =>
    rw [List.forall_mem_cons] at hcosts
    rw [everyStep, Bool.and_eq_true] at hfits
    obtain ⟨t, ht, hstart⟩ := hexact [] List.nil_prefix
    rw [totalOf, List.foldlM_nil] at ht
    cases ht
    rw [List.append_nil] at hstart
    obtain ⟨t, ht, hnext⟩ := hexact [cost] (by simp)
    rw [totalOf, List.foldlM_cons] at ht
    cases htext : addCost checked first total cost with
    | none =>
      rw [htext] at ht
      cases ht
    | some text =>
      rw [htext] at ht hfits
      cases ht
      obtain ⟨hstep, hnextOrdinary⟩ := stepExactly_of_isTotal hfirst hordinary hstart
        hcosts.1.1 hcosts.1.2 hfits.1 htext hnext
      rw [everyStep, Bool.and_eq_true, htext]
      refine ⟨hstep, ?_⟩
      refine @ih (some text) (done ++ [cost]) hnextOrdinary hcosts.2 hfits.2 ?_
      intro before hbefore
      obtain ⟨t, ht, htotal⟩ := hexact (cost :: before) (List.cons_prefix_cons.mpr ⟨rfl, hbefore⟩)
      refine ⟨t, ?_, ?_⟩
      · rw [totalOf, List.foldlM_cons, htext] at ht
        exact ht
      · rw [List.append_assoc, List.singleton_append]
        exact htotal

end

/-! ### Recorded turns -/

def turnCosts (turns : List ModelTurnAccounting) : List String :=
  turns.filterMap (·.usage.cost)

/-- The snapshot behind some recorded turns. -/
def recordAll (checked : Bool) (turns : List ModelTurnAccounting) :
    Option ModelAccountingSnapshot :=
  turns.foldlM (ModelAccountingSnapshot.record checked) {}

theorem record_cost (checked : Bool) (s : ModelAccountingSnapshot)
    (turn : ModelTurnAccounting) :
    (s.record checked turn).map (·.aggregate.cost) =
      match turn.usage.cost with
      | some cost => (addCost checked some s.aggregate.cost cost).map some
      | none => some s.aggregate.cost := by
  unfold ModelAccountingSnapshot.record
  dsimp only
  cases turn.usage.cost with
  | none => rfl
  | some cost =>
    dsimp only
    cases addCost checked some s.aggregate.cost cost with
    | none => rfl
    | some text => rfl

/-- The aggregate cost of a snapshot is that of the costs of its turns. -/
theorem recordAll_cost (checked : Bool) (turns : List ModelTurnAccounting)
    (s : ModelAccountingSnapshot) :
    (turns.foldlM (ModelAccountingSnapshot.record checked) s).map (·.aggregate.cost) =
      totalOf checked some s.aggregate.cost (turnCosts turns) := by
  induction turns generalizing s with
  | nil => rfl
  | cons turn turns ih =>
    have hturn := record_cost checked s turn
    rw [List.foldlM_cons, turnCosts, List.filterMap_cons]
    cases hcost : turn.usage.cost with
    | none =>
      rw [hcost] at hturn
      obtain ⟨s', hs', hsame⟩ := Option.map_eq_some_iff.mp hturn
      rw [hs', ← hsame]
      exact ih s'
    | some cost =>
      rw [hcost] at hturn
      dsimp only at hturn ⊢
      rw [totalOf, List.foldlM_cons]
      cases hs : s.record checked turn with
      | none =>
        rw [hs, Option.map_none] at hturn
        rw [← hturn]
        rfl
      | some s' =>
        rw [hs, Option.map_some] at hturn
        rw [← hturn]
        exact ih s'

/-! ### First costs -/

/-- A snapshot keeps the first cost as it is. -/
theorem kept_exact : FirstExact some fun _ => true := by
  intro n _
  exact ⟨n, rfl, rfl⟩

theorem kept_onlyExact : FirstOnlyExact some (fun _ => true) fun _ => true := by
  intro n text hordinary _ htext
  cases htext
  exact ⟨n, rfl, hordinary, fun _ => rfl⟩

/-- The normal form of a text fits. -/
def normalFits (checked : Bool) (text : List Char) : Bool :=
  match decimalParts checked text with
  | some parts => max parts.1.length (parts.2 + 1) + 1 ≤ 9223372036854775807
  | none => true

/-- The normal form of a text is worth the same. -/
def normalExactly (checked : Bool) (text : List Char) : Bool :=
  match decimalParts checked text with
  | some parts =>
      readsExactly text parts && max parts.1.length (parts.2 + 1) + 1 ≤ 9223372036854775807
  | none => false

/-- The ledger normalizes the first cost. -/
theorem normal_exact (checked : Bool) :
    FirstExact (decimalNormalize checked) (normalExactly checked) := by
  intro n h
  unfold normalExactly at h
  split at h
  · rename_i parts hparts
    rw [Bool.and_eq_true, decide_eq_true_eq] at h
    obtain ⟨-, hne, hdigits, -⟩ := parts_digits hparts
    obtain ⟨m, hm, -, hvalue, -⟩ := decimalNormalize_number hparts hne hdigits h.2
    exact ⟨m, hm, hvalue.trans (readsExactly_value hparts h.1)⟩
  · cases h

theorem normal_onlyExact (checked : Bool) :
    FirstOnlyExact (decimalNormalize checked) (normalFits checked) (normalExactly checked) := by
  intro n text hordinary hfits htext
  cases hparts : decimalParts checked n.letters with
  | none =>
    rw [decimalNormalize, hparts] at htext
    cases htext
  | some parts =>
    rw [normalFits, hparts] at hfits
    dsimp only at hfits
    have hfit := hfits
    rw [decide_eq_true_eq] at hfit
    obtain ⟨-, hne, hdigits, -⟩ := parts_digits hparts
    obtain ⟨m, hm, hexponent, hvalue, hlength⟩ := decimalNormalize_number hparts hne hdigits hfit
    rw [htext, Option.some.injEq] at hm
    refine ⟨m, hm.symm, plain_ordinary hexponent (by omega), ?_⟩
    intro hsame
    have hreads := (ordinary_value hparts hordinary).2 (hvalue.symm.trans hsame)
    rw [normalExactly, hparts]
    dsimp only
    rw [hreads, hfits]
    rfl

/-! ### The aggregate cost -/

/-- Every cost is added exactly to the ones before it. -/
def recordsExactly (checked : Bool) (costs : List String) : Bool :=
  everyStep (stepExactly checked fun _ => true) checked some none costs

/-- The ledger adds every cost exactly to the ones before it. -/
def ledgerExactly (checked : Bool) (costs : List String) : Bool :=
  everyStep (stepExactly checked (normalExactly checked)) checked (decimalNormalize checked) none
    costs

/-- The snapshots on the way, and their aggregates, are there and exact. -/
def RecordsTotal (checked : Bool) (turns : List ModelTurnAccounting) : Prop :=
  ∀ before, before <+: turns →
    ∃ s, recordAll checked before = some s ∧ IsTotal s.aggregate.cost (turnCosts before)

/-- The totals of the ledger on the way are there and exact. -/
def LedgerTotals (checked : Bool) (costs : List String) : Prop :=
  ∀ before, before <+: costs →
    ∃ total, ledgerTotal checked before = some total ∧ IsTotal total before

theorem recordsTotal_iff (checked : Bool) (turns : List ModelTurnAccounting) :
    RecordsTotal checked turns ↔ ∀ before, before <+: turnCosts turns →
      ∃ total, totalOf checked some none before = some total ∧ IsTotal total before := by
  constructor
  · intro h before hbefore
    obtain ⟨turns', hturns', rfl⟩ := List.prefix_filterMap_iff.mp hbefore
    obtain ⟨s, hs, htotal⟩ := h turns' hturns'
    refine ⟨s.aggregate.cost, ?_, htotal⟩
    have hcost := recordAll_cost checked turns' {}
    rw [show turns'.foldlM (ModelAccountingSnapshot.record checked) {} = some s from hs] at hcost
    exact hcost.symm
  · intro h before hbefore
    obtain ⟨total, htotal, hexact⟩ := h (turnCosts before) (hbefore.filterMap _)
    have hcost := (recordAll_cost checked before {}).trans htotal
    obtain ⟨s, hs, rfl⟩ := Option.map_eq_some_iff.mp hcost
    exact ⟨s, hs, hexact⟩

/-- **The aggregate cost**: if every cost is added exactly, recording never panics and
    every aggregate is the exact sum, whatever the order; and for ordinary costs only
    then.  The same holds of the ledger. -/
theorem costs_exact (checked : Bool) :
    (∀ turns : List ModelTurnAccounting, (∀ cost ∈ turnCosts turns, IsCost cost.toList) →
      (recordsExactly checked (turnCosts turns) = true → RecordsTotal checked turns) ∧
      ((∀ cost ∈ turnCosts turns, isOrdinary cost.toList = true) →
        everyStep (stepFits checked fun _ => true) checked some none (turnCosts turns) = true →
        RecordsTotal checked turns → recordsExactly checked (turnCosts turns) = true)) ∧
    (∀ costs : List String, (∀ cost ∈ costs, IsCost cost.toList) →
      (ledgerExactly checked costs = true → LedgerTotals checked costs) ∧
      ((∀ cost ∈ costs, isOrdinary cost.toList = true) →
        everyStep (stepFits checked (normalFits checked)) checked (decimalNormalize checked) none
          costs = true →
        LedgerTotals checked costs → ledgerExactly checked costs = true)) ∧
    ∀ (turns turns' : List ModelTurnAccounting) s s', turns'.Perm turns →
      RecordsTotal checked turns → RecordsTotal checked turns' →
      recordAll checked turns = some s → recordAll checked turns' = some s' →
      s'.aggregate.cost.map (fun text => numberValue text.toList) =
        s.aggregate.cost.map fun text => numberValue text.toList := by
  have hnone : OrdinaryTotal none := by
    intro text htext
    cases htext
  refine ⟨?_, ?_, ?_⟩
  · intro turns hcosts
    rw [recordsTotal_iff]
    constructor
    · intro h before hbefore
      obtain ⟨total, htotal, htotals⟩ :=
        totals_exact kept_exact (show Totals none [] from rfl) hcosts h hbefore
      exact ⟨total, htotal, htotals.isTotal⟩
    · intro hordinary hfits hexact
      exact everyStep_of_totals kept_onlyExact [] hnone
        (fun cost hcost => ⟨hcosts cost hcost, hordinary cost hcost⟩) hfits hexact
  · intro costs hcosts
    constructor
    · intro h before hbefore
      obtain ⟨total, htotal, htotals⟩ :=
        totals_exact (normal_exact checked) (show Totals none [] from rfl) hcosts h hbefore
      exact ⟨total, htotal, htotals.isTotal⟩
    · intro hordinary hfits hexact
      exact everyStep_of_totals (normal_onlyExact checked) [] hnone
        (fun cost hcost => ⟨hcosts cost hcost, hordinary cost hcost⟩) hfits hexact
  · intro turns turns' s s' hperm h h' hs hs'
    obtain ⟨s₁, hs₁, htotal⟩ := h turns List.prefix_rfl
    obtain ⟨s₂, hs₂, htotal'⟩ := h' turns' List.prefix_rfl
    rw [hs, Option.some.injEq] at hs₁
    rw [hs', Option.some.injEq] at hs₂
    subst hs₁ hs₂
    have hcosts : (turnCosts turns').Perm (turnCosts turns) := hperm.filterMap _
    unfold IsTotal at htotal htotal'
    rw [htotal, htotal', totalCost_perm hcosts]
    simp only [← List.length_eq_zero_iff, hcosts.length_eq]

/-! ### Costs that are lost -/

/-- A turn of which only the cost is known. -/
def costTurn (cost : String) : ModelTurnAccounting where
  runId := ⟨1⟩
  turnId := ⟨1⟩
  model := none
  usage := { cost := some cost }

/-- **A cost is lost**: ten and five make five, a free turn hides what comes behind it, and
    an exponent that an `i64` holds is a panic in a build with checks. -/
theorem cost_lost :
    (recordAll false [costTurn "10", costTurn "5"]).map (·.aggregate.cost) = some (some "5") ∧
      IsCost "10".toList ∧ IsCost "5".toList ∧ numberValue "5".toList = 5 ∧
      totalCost ["10", "5"] = 15 ∧
      (recordAll false [costTurn "0", costTurn "10"]).map (·.aggregate.cost) = some (some "0") ∧
      ledgerTotal false ["10", "5"] = some (some "5") ∧
      IsCost "1e-9223372036854775808".toList ∧
      (recordAll true [costTurn "0", costTurn "1e-9223372036854775808"]).isNone = true := by
  refine ⟨?_, ?_, ?_, ?_, ?_, ?_, ?_, ?_, ?_⟩
  all_goals decide +kernel

/-- What the theorem says of two costs with leading digits at the same place. -/
theorem costs_exact_two :
    RecordsTotal false [costTurn "0.10", costTurn "0.2"] ∧ LedgerTotals false ["0.10", "0.2"] := by
  have hcosts : ∀ cost ∈ ["0.10", "0.2"], IsCost cost.toList := by
    intro cost hcost
    rcases List.mem_pair.mp hcost with rfl | rfl
    · decide +kernel
    · decide +kernel
  obtain ⟨hrecords, hledger, -⟩ := costs_exact false
  refine ⟨(hrecords [costTurn "0.10", costTurn "0.2"] hcosts).1 ?_, (hledger _ hcosts).1 ?_⟩
  · decide +kernel
  · decide +kernel

end Tea.Contract
