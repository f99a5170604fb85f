/-
  Tea/Contract/SessionTimestamps.lean
  ===================================
  **The timestamps of sessions**: each denotes its instant in the Gregorian calendar, later
  instants have greater timestamps, and the names of files tell them apart.
-/
import Tea.Encoding.FixedWidth
import Tea.Session.Calendar
import Tea.Session.Store

namespace Tea.Contract

open Tea.Encoding Tea.Session

/-! ### Instants -/

/-- A date and a time of day. -/
structure CivilTime where
  date : CivilDate
  hour : Nat
  minute : Nat
  second : Nat
  millisecond : Nat
deriving DecidableEq, Repr

/-- The instant so many milliseconds behind the beginning of 1970. -/
structure Denotes (milliseconds : Nat) (t : CivilTime) : Prop where
  counted : ∃ days, t.date = dateOf days ∧ milliseconds =
    (((days * 24 + t.hour) * 60 + t.minute) * 60 + t.second) * 1000 + t.millisecond
  hour_lt : t.hour < 24
  minute_lt : t.minute < 60
  second_lt : t.second < 60
  millisecond_lt : t.millisecond < 1000

namespace CivilTime

/-- The fields behind the year. -/
def later (t : CivilTime) : List Nat :=
  [t.date.month, t.date.day, t.hour, t.minute, t.second, t.millisecond]

def fields (t : CivilTime) : List Nat := t.date.year :: t.later

/-- The widths of the fields behind the year, and the marks behind them. -/
def layout : List (Nat × Char) := [(2, '-'), (2, 'T'), (2, ':'), (2, ':'), (2, '.'), (3, 'Z')]

/-- The year with four digits at least. -/
def yearLetters (year : Nat) : List Char :=
  List.replicate (4 - (Nat.toDigits 10 year).length) '0' ++ Nat.toDigits 10 year

/-- The timestamp in the format of ISO 8601. -/
def letters (t : CivilTime) : List Char :=
  yearLetters t.date.year ++ '-' :: renderFields layout t.later

end CivilTime

/-! ### Arithmetic without overflow -/

/-- The range of `i64`. -/
def FitsI64 (n : Int) : Prop := -9223372036854775808 ≤ n ∧ n ≤ 9223372036854775807

/-- Every result of the arithmetic in `civil_from_days`, in its order. -/
def civilResults (days : Int) : List Int :=
  let z := days + 719468
  let front := if 0 ≤ z then z else z - 146096
  let era := front.tdiv 146097
  let doe := z - era * 146097
  let third := doe - doe.tdiv 1460 + doe.tdiv 36524 - doe.tdiv 146096
  let yoe := third.tdiv 365
  let year := yoe + era * 400
  let doy := doe - (365 * yoe + yoe.tdiv 4 - yoe.tdiv 100)
  let mp := (5 * doy + 2).tdiv 153
  let day := doy - (153 * mp + 2).tdiv 5 + 1
  let month := mp + if mp < 10 then 3 else -9
  [z, front, era, era * 146097, doe, doe.tdiv 1460, doe - doe.tdiv 1460, doe.tdiv 36524,
    doe - doe.tdiv 1460 + doe.tdiv 36524, doe.tdiv 146096, third, yoe, era * 400, year, 365 * yoe,
    yoe.tdiv 4, 365 * yoe + yoe.tdiv 4, yoe.tdiv 100, 365 * yoe + yoe.tdiv 4 - yoe.tdiv 100, doy,
    5 * doy, 5 * doy + 2, mp, 153 * mp, 153 * mp + 2, (153 * mp + 2).tdiv 5,
    doy - (153 * mp + 2).tdiv 5, day, month, year + if month ≤ 2 then 1 else 0]

/-- The results of `timestamp_iso`: the days as they are cast to `i64`, and what
    `civil_from_days` makes of them. -/
def timestampResults (milliseconds : UInt64) : List Int :=
  let days : Nat := milliseconds.toNat / 1000 / 86400
  days :: civilResults days

theorem tdiv_range {a b most : Int} (hb : 0 < b) (hlow : -most ≤ a) (hhigh : a ≤ most) :
    -most ≤ b * a.tdiv b ∧ b * a.tdiv b ≤ most := by
  rcases Int.le_total 0 a with hpos | hneg
  · have hle := Int.mul_ediv_self_le (x := a) (k := b) (by omega)
    have hnonneg : 0 ≤ b * (a / b) := Int.mul_nonneg (by omega) (Int.ediv_nonneg hpos (by omega))
    rw [Int.tdiv_eq_ediv_of_nonneg hpos]
    omega
  · have hle := Int.mul_ediv_self_le (x := -a) (k := b) (by omega)
    have hnonneg : 0 ≤ b * (-a / b) :=
      Int.mul_nonneg (by omega) (Int.ediv_nonneg (by omega) (by omega))
    have hflip : a.tdiv b = -((-a) / b) := by
      rw [← Int.tdiv_eq_ediv_of_nonneg (by omega), Int.neg_tdiv, Int.neg_neg]
    rw [hflip, Int.mul_neg]
    omega

/-- No result overflows for a number of days that a `u64` of milliseconds has. -/
theorem civilResults_fit {days : Int} (hlow : 0 ≤ days) (hhigh : days ≤ 300000000000) :
    ∀ result ∈ civilResults days, FitsI64 result := by
  unfold civilResults FitsI64
  dsimp only
  rw [if_pos (by omega)]
  -- each value is bounded before the next one is looked at
  obtain ⟨z, hz, hzlow, hzhigh⟩ : ∃ z : Int, days + 719468 = z ∧ 0 ≤ z ∧ z ≤ 400000000000 :=
    ⟨_, rfl, by omega, by omega⟩
  rw [hz]
  clear hz hlow hhigh
  have hera := @tdiv_range z 146097 400000000000 (by decide) (by omega) hzhigh
  generalize z.tdiv 146097 = era at *
  obtain ⟨doe, hdoe, hdoelow, hdoehigh⟩ : ∃ doe : Int, z - era * 146097 = doe ∧
      -1000000000000 ≤ doe ∧ doe ≤ 1000000000000 := ⟨_, rfl, by omega, by omega⟩
  rw [hdoe]
  clear hdoe
  have hfirst := @tdiv_range doe 1460 1000000000000 (by decide) hdoelow hdoehigh
  have hsecond := @tdiv_range doe 36524 1000000000000 (by decide) hdoelow hdoehigh
  have hthird := @tdiv_range doe 146096 1000000000000 (by decide) hdoelow hdoehigh
  generalize doe.tdiv 1460 = first at *
  generalize doe.tdiv 36524 = second at *
  generalize doe.tdiv 146096 = third at *
  obtain ⟨sum, hsum, hsumlow, hsumhigh⟩ : ∃ sum : Int, doe - first + second - third = sum ∧
      -4000000000000 ≤ sum ∧ sum ≤ 4000000000000 := ⟨_, rfl, by omega, by omega⟩
  rw [hsum]
  clear hsum
  have hyoe := @tdiv_range sum 365 4000000000000 (by decide) hsumlow hsumhigh
  generalize sum.tdiv 365 = yoe at *
  have hfour := @tdiv_range yoe 4 4000000000000 (by decide) (by omega) (by omega)
  have hhundred := @tdiv_range yoe 100 4000000000000 (by decide) (by omega) (by omega)
  generalize yoe.tdiv 4 = four at *
  generalize yoe.tdiv 100 = hundred at *
  obtain ⟨doy, hdoy, hdoylow, hdoyhigh⟩ : ∃ doy : Int,
      doe - (365 * yoe + four - hundred) = doy ∧ -10000000000000 ≤ doy ∧ doy ≤ 10000000000000 :=
    ⟨_, rfl, by omega, by omega⟩
  rw [hdoy]
  clear hdoy
  have hmp := @tdiv_range (5 * doy + 2) 153 100000000000000 (by decide) (by omega) (by omega)
  generalize (5 * doy + 2).tdiv 153 = mp at *
  have hday := @tdiv_range (153 * mp + 2) 5 200000000000000 (by decide) (by omega) (by omega)
  generalize (153 * mp + 2).tdiv 5 = before at *
  have hmonth : -200000000000000 ≤ mp + (if mp < 10 then 3 else -9) ∧
      mp + (if mp < 10 then 3 else -9) ≤ 200000000000000 := by
    split_ifs
    · omega
    · omega
  generalize mp + (if mp < 10 then 3 else -9) = month at *
  simp only [List.forall_mem_cons, List.not_mem_nil, false_implies, implies_true, and_true]
  refine ⟨?_, ?_, ?_, ?_, ?_, ?_, ?_, ?_, ?_, ?_, ?_, ?_, ?_, ?_, ?_, ?_, ?_, ?_, ?_, ?_, ?_, ?_,
    ?_, ?_, ?_, ?_, ?_, ?_, ?_, ?_⟩
  all_goals (constructor <;> omega)

theorem timestampResults_fit (milliseconds : UInt64) :
    ∀ result ∈ timestampResults milliseconds, FitsI64 result := by
  have hlt := milliseconds.toNat_lt
  have hdays : ((milliseconds.toNat / 1000 / 86400 : Nat) : Int) ≤ 300000000000 := by omega
  unfold timestampResults
  refine List.forall_mem_cons.mpr ⟨?_, civilResults_fit (by omega) hdays⟩
  unfold FitsI64
  omega

/-! ### The instant of a number of milliseconds -/

def timeAt (milliseconds : Nat) : CivilTime where
  date := dateOf (milliseconds / 86400000)
  hour := milliseconds / 3600000 % 24
  minute := milliseconds / 60000 % 60
  second := milliseconds / 1000 % 60
  millisecond := milliseconds % 1000

theorem denotes_timeAt (milliseconds : Nat) : Denotes milliseconds (timeAt milliseconds) where
  counted := by
    refine ⟨milliseconds / 86400000, rfl, ?_⟩
    have hminutes : milliseconds / 60000 = milliseconds / 1000 / 60 := by omega
    have hhours : milliseconds / 3600000 = milliseconds / 60000 / 60 := by omega
    have hdays : milliseconds / 86400000 = milliseconds / 3600000 / 24 := by omega
    have hmillis := Nat.div_add_mod milliseconds 1000
    have hseconds := Nat.div_add_mod (milliseconds / 1000) 60
    have hminute := Nat.div_add_mod (milliseconds / 60000) 60
    have hhour := Nat.div_add_mod (milliseconds / 3600000) 24
    unfold timeAt
    dsimp only
    rw [← hminutes] at hseconds
    rw [← hhours] at hminute
    rw [← hdays] at hhour
    omega
  hour_lt := Nat.mod_lt _ (by decide)
  minute_lt := Nat.mod_lt _ (by decide)
  second_lt := Nat.mod_lt _ (by decide)
  millisecond_lt := Nat.mod_lt _ (by decide)

theorem Denotes.eq_timeAt {milliseconds : Nat} {t : CivilTime} (h : Denotes milliseconds t) :
    t = timeAt milliseconds := by
  obtain ⟨⟨days, hdate, hcount⟩, hhour, hminute, hsecond, hmillisecond⟩ := h
  have hdays : milliseconds / 86400000 = days := by omega
  obtain ⟨date, hour, minute, second, millisecond⟩ := t
  dsimp only at *
  rw [timeAt, hdays, hdate, CivilTime.mk.injEq]
  refine ⟨rfl, ?_, ?_, ?_, ?_⟩
  all_goals omega

theorem fieldsFit_later (milliseconds : Nat) :
    FieldsFit CivilTime.layout (timeAt milliseconds).later := by
  have hproper := dateOf_proper (milliseconds / 86400000)
  have hmonth := hproper.month_le
  have hday := Nat.le_trans hproper.day_le (monthLength_le _ _)
  have hlimits : fieldLimit 2 = 100 ∧ fieldLimit 3 = 1000 := ⟨rfl, rfl⟩
  unfold FieldsFit CivilTime.layout CivilTime.later timeAt
  simp only [List.forall₂_cons, hlimits.1, hlimits.2, List.forall₂_nil_right_iff, and_true]
  refine ⟨?_, ?_, ?_, ?_, ?_, ?_⟩
  all_goals omega

/-! ### The text of a timestamp -/

theorem toList_pushn (c : Char) (n : Nat) : ("".pushn c n).toList = List.replicate n c := by
  rw [String.pushn_eq_repeat_push]
  induction n with
  | zero => rfl
  | succ n ih => rw [Nat.repeat, String.toList_push, ih, List.replicate_succ']

theorem toList_zeroPadded (width n : Nat) :
    (zeroPadded width n).toList =
      List.replicate (width - (Nat.toDigits 10 n).length) '0' ++ Nat.toDigits 10 n := by
  have hdigits : (toString n).toList = Nat.toDigits 10 n := by simp [Nat.repr]
  have hpositive : ¬ (n : Int) < 0 := by omega
  rw [zeroPadded]
  simp only [Int.natAbs_natCast, if_neg hpositive]
  rw [String.toList_append, toList_pushn, hdigits, ← String.length_toList, hdigits]

theorem toList_zeroPadded_of_fits {width n : Nat} (h : n < fieldLimit width) (hpos : 0 < width) :
    (zeroPadded width n).toList = fixedDigits width n := by
  rw [toList_zeroPadded, replicate_append_toDigits h hpos]

/-- The text of a timestamp is the one of its instant. -/
theorem timestampIso_letters (milliseconds : UInt64) :
    (timestampIso milliseconds).toList = (timeAt milliseconds.toNat).letters := by
  have hdays : milliseconds.toNat / 1000 / 86400 = milliseconds.toNat / 86400000 := by omega
  have hhour : milliseconds.toNat / 1000 % 86400 / 3600 = milliseconds.toNat / 3600000 % 24 := by
    omega
  have hminute : milliseconds.toNat / 1000 % 86400 / 60 % 60 =
      milliseconds.toNat / 60000 % 60 := by omega
  have hsecond : milliseconds.toNat / 1000 % 86400 % 60 = milliseconds.toNat / 1000 % 60 := by
    omega
  have hfit := fieldsFit_later milliseconds.toNat
  unfold FieldsFit CivilTime.layout CivilTime.later timeAt at hfit
  simp only [List.forall₂_cons, List.forall₂_nil_right_iff, and_true] at hfit
  obtain ⟨hmonth, hday, hhours, hminutes, hseconds, hmillis⟩ := hfit
  rw [timestampIso, hdays, civilFromDays_eq]
  dsimp only
  rw [hhour, hminute, hsecond]
  unfold CivilTime.letters CivilTime.yearLetters CivilTime.layout CivilTime.later timeAt
  simp only [String.toList_append, renderFields]
  rw [toList_zeroPadded, toList_zeroPadded_of_fits hmonth (by decide),
    toList_zeroPadded_of_fits hday (by decide), toList_zeroPadded_of_fits hhours (by decide),
    toList_zeroPadded_of_fits hminutes (by decide), toList_zeroPadded_of_fits hseconds (by decide),
    toList_zeroPadded_of_fits hmillis (by decide)]
  simp

/-! ### The order of timestamps -/

/-- Later instants have greater fields. -/
theorem Denotes.fields_lt {milliseconds milliseconds' : Nat} {t t' : CivilTime}
    (ht : Denotes milliseconds t) (ht' : Denotes milliseconds' t')
    (h : milliseconds < milliseconds') : t.fields < t'.fields := by
  obtain ⟨⟨days, hdate, hcount⟩, hhour, hminute, hsecond, hmillisecond⟩ := ht
  obtain ⟨⟨days', hdate', hcount'⟩, hhour', hminute', hsecond', hmillisecond'⟩ := ht'
  have hsplit : ∀ t : CivilTime, t.fields =
      t.date.fields ++ [t.hour, t.minute, t.second, t.millisecond] := fun _ => rfl
  rw [hsplit, hsplit, hdate, hdate']
  rcases Nat.lt_trichotomy days days' with hlt | rfl | hgt
  · exact append_lt_append rfl (dateOf_lt hlt)
  · refine List.append_left_lt ?_
    simp only [List.cons_lt_cons_iff, List.not_lt_nil, and_false, or_false]
    omega
  · omega

theorem fields_lt {milliseconds milliseconds' : Nat} (h : milliseconds < milliseconds') :
    (timeAt milliseconds).fields < (timeAt milliseconds').fields :=
  (denotes_timeAt milliseconds).fields_lt (denotes_timeAt milliseconds') h

theorem letters_of_four_digits {t : CivilTime} (h : t.date.year < 10000) :
    t.letters = renderFields ((4, '-') :: CivilTime.layout) t.fields := by
  have hyear : CivilTime.yearLetters t.date.year = fixedDigits 4 t.date.year :=
    replicate_append_toDigits h (by decide)
  rw [CivilTime.letters, hyear, CivilTime.fields, renderFields]

theorem letters_lt {milliseconds milliseconds' : Nat} (h : milliseconds < milliseconds')
    (hyear : (timeAt milliseconds').date.year < 10000) :
    (timeAt milliseconds).letters < (timeAt milliseconds').letters := by
  have hlt := fields_lt h
  have hyear' : (timeAt milliseconds).date.year < 10000 := by
    unfold CivilTime.fields at hlt
    rcases List.cons_lt_cons_iff.mp hlt with hless | ⟨hsame, -⟩
    · omega
    · omega
  rw [letters_of_four_digits hyear, letters_of_four_digits hyear']
  exact renderFields_lt (.cons hyear' (fieldsFit_later _)) (.cons hyear (fieldsFit_later _)) hlt

/-! ### Names of files -/

/-- The separators that are replaced. -/
def dash (c : Char) : Char := if c = ':' ∨ c = '.' then '-' else c

theorem toList_dashed (text : String) : (dashed text).toList = text.toList.map dash :=
  String.toList_ofList

theorem dash_digit {c : Char} (h : c.isDigit = true) : dash c = c := by
  unfold dash
  rw [if_neg]
  rintro (rfl | rfl)
  · exact absurd h (by decide)
  · exact absurd h (by decide)

theorem isDigit_yearLetters {year : Nat} {c : Char} (h : c ∈ CivilTime.yearLetters year) :
    c.isDigit = true := by
  rcases List.mem_append.mp h with hzero | hdigit
  · rw [List.eq_of_mem_replicate hzero]
    decide
  · exact Nat.isDigit_of_mem_toDigits (by omega) (by omega) hdigit

theorem map_dash_letters (t : CivilTime) :
    t.letters.map dash = CivilTime.yearLetters t.date.year ++
      '-' :: renderFields (CivilTime.layout.map fun field => (field.1, dash field.2)) t.later := by
  have hyear : (CivilTime.yearLetters t.date.year).map dash =
      CivilTime.yearLetters t.date.year := by
    rw [List.map_congr_left fun c hc => dash_digit (isDigit_yearLetters hc), List.map_id'']
    intro c
    rfl
  rw [CivilTime.letters, List.map_append, List.map_cons, hyear,
    map_renderFields (fun c hc => dash_digit hc)]
  rfl

/-- The timestamps with their separators replaced are names already. -/
theorem filenameTimestamp_timestampIso (milliseconds now : UInt64) :
    filenameTimestamp (timestampIso milliseconds) now = dashed (timestampIso milliseconds) := by
  have hletters : (dashed (timestampIso milliseconds)).toList =
      (timeAt milliseconds.toNat).letters.map dash := by
    rw [toList_dashed, timestampIso_letters]
  rw [filenameTimestamp, if_pos]
  constructor
  · intro hempty
    rw [hempty, map_dash_letters] at hletters
    exact List.append_ne_nil_of_right_ne_nil _ (List.cons_ne_nil _ _) hletters.symm
  · have hdigit : ∀ c : Char, c.isDigit = true → isAsciiAlphanumeric c = true := by
      intro c hc
      rw [Char.isDigit, Bool.and_eq_true, decide_eq_true_eq, decide_eq_true_eq] at hc
      rw [isAsciiAlphanumeric, Bool.or_eq_true, Bool.and_eq_true, decide_eq_true_eq,
        decide_eq_true_eq]
      exact .inr hc
    rw [hletters, map_dash_letters, List.all_eq_true]
    intro c hc
    rcases List.mem_append.mp hc with hc | hc
    · rw [hdigit c (isDigit_yearLetters hc)]
      rfl
    · rcases List.mem_cons.mp hc with rfl | hc
      · rfl
      · rcases mem_renderFields hc with hc | ⟨field, hfield, rfl⟩
        · rw [hdigit c hc]
          rfl
        · have hall : ∀ field ∈ CivilTime.layout.map fun field => (field.1, dash field.2),
              (isAsciiAlphanumeric field.2 || field.2 = '-' || field.2 = '_') = true := by decide
          exact hall field hfield

theorem yearLetters_inj {year year' : Nat}
    (h : CivilTime.yearLetters year = CivilTime.yearLetters year') : year = year' := by
  have hvalue := congrArg (Nat.ofDigitChars 10 · 0) h
  simpa only [CivilTime.yearLetters, Nat.ofDigitChars_append, Nat.ofDigitChars_replicate_zero,
    Nat.mul_zero, Nat.ofDigitChars_ten_toDigits] using hvalue

/-- Distinct instants have distinct names. -/
theorem dashed_inj {milliseconds milliseconds' : UInt64}
    (h : dashed (timestampIso milliseconds) = dashed (timestampIso milliseconds')) :
    milliseconds = milliseconds' := by
  have hletters := congrArg String.toList h
  rw [toList_dashed, toList_dashed, timestampIso_letters, timestampIso_letters, map_dash_letters,
    map_dash_letters] at hletters
  have hfit : ∀ n : Nat, FieldsFit (CivilTime.layout.map fun field => (field.1, dash field.2))
      (timeAt n).later := by
    intro n
    exact List.forall₂_map_left_iff.mpr (fieldsFit_later n)
  obtain ⟨hyear, hlater⟩ := List.append_inj' hletters (by
    rw [List.length_cons, List.length_cons, length_renderFields (hfit _) (hfit _)])
  have hfields : (timeAt milliseconds.toNat).fields = (timeAt milliseconds'.toNat).fields := by
    rw [CivilTime.fields, CivilTime.fields, yearLetters_inj hyear,
      renderFields_inj (hfit _) (hfit _) (List.cons.inj hlater).2]
  refine UInt64.toNat_inj.mp ?_
  rcases lt_trichotomy milliseconds.toNat milliseconds'.toNat with hlt | heq | hgt
  · exact absurd hfields (ne_of_lt (fields_lt hlt))
  · exact heq
  · exact absurd hfields.symm (ne_of_lt (fields_lt hgt))

/-! ### Session timestamps -/

/-- **The timestamps of sessions.**  The arithmetic does not overflow, and the text is the one
    of the instant; later instants have greater fields, and greater texts as long as the year
    has four digits; the names of files replace the separators and stay distinct. -/
theorem session_timestamps :
    (∀ milliseconds : UInt64, (∀ result ∈ timestampResults milliseconds, FitsI64 result) ∧
      ∃ t, Denotes milliseconds.toNat t ∧ (timestampIso milliseconds).toList = t.letters) ∧
    (∀ milliseconds milliseconds' : UInt64, milliseconds < milliseconds' →
      ∀ t t', Denotes milliseconds.toNat t → Denotes milliseconds'.toNat t' →
        t.fields < t'.fields ∧ (t'.date.year < 10000 →
          timestampIso milliseconds < timestampIso milliseconds')) ∧
    (∀ milliseconds now : UInt64, (filenameTimestamp (timestampIso milliseconds) now).toList =
      (timestampIso milliseconds).toList.map dash) ∧
    ∀ milliseconds milliseconds' now now' : UInt64,
      filenameTimestamp (timestampIso milliseconds) now =
        filenameTimestamp (timestampIso milliseconds') now' → milliseconds = milliseconds' := by
  refine ⟨?_, ?_, ?_, ?_⟩
  · intro milliseconds
    exact ⟨timestampResults_fit milliseconds, _, denotes_timeAt _,
      timestampIso_letters milliseconds⟩
  · intro milliseconds milliseconds' hlt t t' ht ht'
    have hnat : milliseconds.toNat < milliseconds'.toNat := hlt
    refine ⟨ht.fields_lt ht' hnat, ?_⟩
    intro hyear
    rw [ht'.eq_timeAt] at hyear
    rw [String.lt_iff_toList_lt, timestampIso_letters, timestampIso_letters]
    exact letters_lt hnat hyear
  · intro milliseconds now
    rw [filenameTimestamp_timestampIso, toList_dashed]
  · intro milliseconds milliseconds' now now' h
    rw [filenameTimestamp_timestampIso, filenameTimestamp_timestampIso] at h
    exact dashed_inj h

end Tea.Contract
