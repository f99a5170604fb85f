/-
  Tea/Session/Calendar.lean
  =========================
  **The Gregorian calendar**: the length of its months, the day behind a day, and the days
  counted from the first of January 1970.  `civil_from_days` finds each of them
  (`civilFromDays_eq`).
-/
import Tea.Session.Record
import Mathlib.Data.List.Lex
import Mathlib.Tactic.IntervalCases

namespace Tea.Session

/-! ### Days -/

/-- A day of the calendar. -/
structure CivilDate where
  year : Nat
  month : Nat
  day : Nat
deriving DecidableEq, Repr

/-- Every fourth year, but of the hundredth ones only every fourth. -/
def isLeapYear (year : Nat) : Bool := year % 4 = 0 && (year % 100 ≠ 0 || year % 400 = 0)

def monthLength (year month : Nat) : Nat :=
  if month = 2 then if isLeapYear year then 29 else 28
  else if month = 4 ∨ month = 6 ∨ month = 9 ∨ month = 11 then 30
  else 31

/-- The day behind a day. -/
def CivilDate.next (date : CivilDate) : CivilDate :=
  if date.day < monthLength date.year date.month then { date with day := date.day + 1 }
  else if date.month < 12 then ⟨date.year, date.month + 1, 1⟩
  else ⟨date.year + 1, 1, 1⟩

/-- The days counted from the first of January 1970. -/
def dateOf : Nat → CivilDate
  | 0 => ⟨1970, 1, 1⟩
  | days + 1 => (dateOf days).next

/-! ### Years that begin in March -/

/-- The days of an era before one of its years. -/
def yearStart (year : Nat) : Nat := 365 * year + year / 4 - year / 100

/-- A year that begins in March ends with the February of the next one. -/
def yearLength (year : Nat) : Nat := if isLeapYear (year + 1) then 366 else 365

/-- `yoe` of a day of the era. -/
def yearOfEra (doe : Nat) : Nat := (doe - doe / 1460 + doe / 36524 - doe / 146096) / 365

/-- `doy` of a day of the era. -/
def dayOfYear (doe : Nat) : Nat := doe - yearStart (yearOfEra doe)

theorem yearStart_succ {year : Nat} (h : year < 399) :
    yearStart (year + 1) = yearStart year + yearLength year := by
  unfold yearStart yearLength isLeapYear
  by_cases hleap : (year + 1) % 4 = 0
  · by_cases hhundred : (year + 1) % 100 = 0
    · have hfour : (year + 1) % 400 ≠ 0 := by omega
      simp only [hleap, hhundred, hfour, decide_true, decide_false, ne_eq, not_true_eq_false,
        Bool.or_false, Bool.and_false, Bool.false_eq_true, if_false]
      omega
    · simp only [hleap, hhundred, decide_true, ne_eq, not_false_eq_true, Bool.true_or,
        Bool.and_true, if_true]
      omega
  · simp only [hleap, decide_false, Bool.false_and, Bool.false_eq_true, if_false]
    omega

theorem yearLength_last : yearLength 399 = 366 := by decide

/-- A day of the era lies in one year. -/
theorem yearOfEra_of_day {year day : Nat} (hyear : year < 400) (hday : day < yearLength year) :
    yearOfEra (yearStart year + day) = year := by
  -- the year as hundreds, fours and the rest
  obtain ⟨hundreds, fours, rest, hhundreds, hfours, hrest, rfl⟩ :
      ∃ hundreds fours rest, hundreds < 4 ∧ fours < 25 ∧ rest < 4 ∧
        year = 100 * hundreds + 4 * fours + rest :=
    ⟨year / 100, year % 100 / 4, year % 4, by omega, by omega, by omega, by omega⟩
  have hstart : yearStart (100 * hundreds + 4 * fours + rest) =
      36524 * hundreds + 1461 * fours + 365 * rest := by
    unfold yearStart
    omega
  have hshort : day < 366 ∧ (rest < 3 → day < 365) ∧
      (fours = 24 → rest = 3 → hundreds < 3 → day < 365) := by
    unfold yearLength isLeapYear at hday
    refine ⟨?_, ?_, ?_⟩
    · split_ifs at hday
      · exact hday
      · omega
    · intro hlt
      have hno : (100 * hundreds + 4 * fours + rest + 1) % 4 ≠ 0 := by omega
      simpa [hno] using hday
    · rintro rfl rfl hlt
      have hhundred : (100 * hundreds + 4 * 24 + 3 + 1) % 100 = 0 := by omega
      have hno : (100 * hundreds + 4 * 24 + 3 + 1) % 400 ≠ 0 := by omega
      simpa [hhundred, hno] using hday
  obtain ⟨hday, hthree, hlast⟩ := hshort
  rw [hstart]
  unfold yearOfEra
  generalize hdoe : 36524 * hundreds + 1461 * fours + 365 * rest + day = doe
  rcases Nat.lt_or_ge doe 146096 with hlt | hge
  · have hfirst : doe / 36524 = hundreds := by omega
    have hnone : doe / 146096 = 0 := by omega
    rw [hfirst, hnone]
    have hsecond : doe / 1460 = 25 * hundreds + fours ∨
        doe / 1460 = 25 * hundreds + fours + 1 ∧ 1364 ≤ 365 * rest + day := by omega
    rcases hsecond with hsecond | ⟨hsecond, hlate⟩
    · rw [hsecond]
      omega
    · rw [hsecond]
      omega
  · have hdoe : doe = 146096 := by omega
    subst hdoe
    omega

theorem dayOfYear_of_day {year day : Nat} (hyear : year < 400) (hday : day < yearLength year) :
    dayOfYear (yearStart year + day) = day := by
  rw [dayOfYear, yearOfEra_of_day hyear hday, Nat.add_sub_cancel_left]

/-- Every day of an era lies in one of its years. -/
theorem day_split {doe : Nat} (h : doe < 146097) :
    ∃ year day, year < 400 ∧ day < yearLength year ∧ doe = yearStart year + day := by
  induction doe with
  | zero => exact ⟨0, 0, by decide, by decide, rfl⟩
  | succ doe ih =>
    obtain ⟨year, day, hyear, hday, hdoe⟩ := ih (by omega)
    by_cases hnext : day + 1 < yearLength year
    · exact ⟨year, day + 1, hyear, hnext, by omega⟩
    · have hlast : year ≠ 399 := by
        rintro rfl
        have hstart : yearStart 399 = 145731 := by decide
        rw [yearLength_last] at hday hnext
        omega
      have hsucc := @yearStart_succ year (by omega)
      refine ⟨year + 1, 0, by omega, ?_, by omega⟩
      unfold yearLength
      split_ifs
      · omega
      · omega

/-! ### Months of a year that begins in March -/

/-- `mp` of a day of the year. -/
def monthOfDay (doy : Nat) : Nat := (5 * doy + 2) / 153

/-- The day of the month, from zero. -/
def dayOfMonth (doy : Nat) : Nat := doy - (153 * monthOfDay doy + 2) / 5

/-- The months of a year from March to January; February ends it. -/
def shiftedLength (month : Nat) : Nat :=
  if month = 1 ∨ month = 3 ∨ month = 6 ∨ month = 8 then 30 else 31

/-- The day behind a day of the year. -/
theorem month_step {doy : Nat} (h : doy < 365) :
    (monthOfDay (doy + 1) = monthOfDay doy ∧ dayOfMonth (doy + 1) = dayOfMonth doy + 1 ∧
        (monthOfDay doy < 11 → dayOfMonth doy + 1 < shiftedLength (monthOfDay doy))) ∨
      (monthOfDay (doy + 1) = monthOfDay doy + 1 ∧ dayOfMonth (doy + 1) = 0 ∧
        monthOfDay doy < 11 ∧ dayOfMonth doy + 1 = shiftedLength (monthOfDay doy)) := by
  unfold dayOfMonth shiftedLength
  have hmost : monthOfDay doy < 12 := by
    unfold monthOfDay
    omega
  have hnext : monthOfDay (doy + 1) = monthOfDay doy ∨
      monthOfDay (doy + 1) = monthOfDay doy + 1 := by
    unfold monthOfDay
    omega
  have hlow : 153 * monthOfDay doy ≤ 5 * doy + 2 := Nat.mul_div_le _ _
  have hhigh : 5 * doy + 2 < 153 * monthOfDay doy + 153 := by
    unfold monthOfDay
    omega
  have hlow' : 153 * monthOfDay (doy + 1) ≤ 5 * (doy + 1) + 2 := Nat.mul_div_le _ _
  have hhigh' : 5 * (doy + 1) + 2 < 153 * monthOfDay (doy + 1) + 153 := by
    unfold monthOfDay
    omega
  generalize monthOfDay (doy + 1) = month' at *
  generalize monthOfDay doy = month at *
  rcases hnext with rfl | rfl
  · left
    refine ⟨rfl, by omega, ?_⟩
    intro hlt
    interval_cases month' <;> simp <;> omega
  · right
    interval_cases month <;> simp <;> omega

/-! ### Dates -/

/-- The date of a day of the year that begins in March. -/
def dateIn (year doy : Nat) : CivilDate where
  year := if monthOfDay doy < 10 then year else year + 1
  month := if monthOfDay doy < 10 then monthOfDay doy + 3 else monthOfDay doy - 9
  day := dayOfMonth doy + 1

theorem monthLength_shifted {year month : Nat} (h : month < 11) :
    monthLength year (if month < 10 then month + 3 else month - 9) = shiftedLength month := by
  unfold monthLength shiftedLength
  interval_cases month <;> rfl

theorem monthLength_february (year : Nat) : monthLength (year + 1) 2 + 337 = yearLength year := by
  rw [monthLength, if_pos rfl, yearLength]
  split_ifs
  · rfl
  · rfl

/-- The days of February follow those of the other months. -/
theorem dayOfMonth_february {doy : Nat} (h : monthOfDay doy = 11) (hmost : doy < 366) :
    dayOfMonth doy + 337 = doy := by
  unfold dayOfMonth
  rw [h]
  unfold monthOfDay at h
  omega

/-- The next day of the same year. -/
theorem dateIn_step {year doy : Nat} (h : doy + 1 < yearLength year) :
    (dateIn year doy).next = dateIn year (doy + 1) := by
  have hmost : yearLength year ≤ 366 := by
    unfold yearLength
    split_ifs
    · exact Nat.le_refl _
    · decide
  rcases month_step (show doy < 365 by omega) with
    ⟨hmonth, hday, hroom⟩ | ⟨hmonth, hday, hshort, hfull⟩
  · have hlt : (dateIn year doy).day <
        monthLength (dateIn year doy).year (dateIn year doy).month := by
      unfold dateIn
      dsimp only
      by_cases hlast : monthOfDay doy < 11
      · rw [monthLength_shifted hlast]
        exact hroom hlast
      · have helevens : monthOfDay doy = 11 := by
          have hle : monthOfDay doy ≤ 11 := by
            unfold monthOfDay
            omega
          omega
        have hfebruary := monthLength_february year
        have hdays := dayOfMonth_february helevens (by omega)
        rw [helevens]
        simp only [show ¬ (11 < 10) by decide, if_false, Nat.reduceSub]
        omega
    rw [CivilDate.next, if_pos hlt]
    unfold dateIn
    rw [hmonth, hday]
  · have hge : ¬ (dateIn year doy).day <
        monthLength (dateIn year doy).year (dateIn year doy).month := by
      unfold dateIn
      dsimp only
      rw [monthLength_shifted hshort, hfull]
      exact Nat.lt_irrefl _
    rw [CivilDate.next, if_neg hge]
    unfold dateIn
    rw [hmonth, hday]
    generalize monthOfDay doy = month at hshort
    interval_cases month <;> rfl

/-- The last day of a year, and the first one of the next. -/
theorem dateIn_last {year doy : Nat} (h : doy + 1 = yearLength year) :
    (dateIn year doy).next = dateIn (year + 1) 0 := by
  have hrange : doy = 364 ∨ doy = 365 := by
    unfold yearLength at h
    split_ifs at h
    · right
      omega
    · left
      omega
  have hmonth : monthOfDay doy = 11 := by
    rcases hrange with rfl | rfl
    · rfl
    · rfl
  have hdays := dayOfMonth_february hmonth (by omega)
  have hfebruary := monthLength_february year
  have hge : ¬ (dateIn year doy).day <
      monthLength (dateIn year doy).year (dateIn year doy).month := by
    unfold dateIn
    rw [hmonth]
    simp only [show ¬ (11 < 10) by decide, if_false, Nat.reduceSub]
    omega
  rw [CivilDate.next, if_neg hge]
  unfold dateIn
  rw [hmonth]
  rfl

/-! ### Days of all eras -/

/-- The date that `civil_from_days` finds. -/
def civilDate (days : Nat) : CivilDate :=
  let doe := (days + 719468) % 146097
  dateIn (yearOfEra doe + (days + 719468) / 146097 * 400) (dayOfYear doe)

theorem yearLength_era (year era : Nat) : yearLength (year + era * 400) = yearLength year := by
  have hfour : (year + era * 400 + 1) % 4 = (year + 1) % 4 := by omega
  have hhundred : (year + era * 400 + 1) % 100 = (year + 1) % 100 := by omega
  have hfourHundred : (year + era * 400 + 1) % 400 = (year + 1) % 400 := by omega
  rw [yearLength, yearLength, isLeapYear, isLeapYear, hfour, hhundred, hfourHundred]

theorem civilDate_of_day {days era year day : Nat} (hyear : year < 400)
    (hday : day < yearLength year)
    (hdays : days + 719468 = era * 146097 + (yearStart year + day))
    (hera : yearStart year + day < 146097) :
    civilDate days = dateIn (year + era * 400) day := by
  have hdiv : (days + 719468) / 146097 = era := by omega
  have hmod : (days + 719468) % 146097 = yearStart year + day := by omega
  rw [civilDate, hdiv, hmod, yearOfEra_of_day hyear hday, dayOfYear_of_day hyear hday]

theorem civilDate_succ (days : Nat) : civilDate (days + 1) = (civilDate days).next := by
  have hlt : (days + 719468) % 146097 < 146097 := Nat.mod_lt _ (by decide)
  obtain ⟨year, day, hyear, hday, hdoe⟩ := day_split hlt
  generalize hera : (days + 719468) / 146097 = era
  have hdays : days + 719468 = era * 146097 + (yearStart year + day) := by omega
  have hlength := yearLength_era year era
  rw [civilDate_of_day hyear hday hdays (by omega)]
  by_cases hnext : day + 1 < yearLength year
  · have hinside : yearStart year + (day + 1) < 146097 := by
      rcases Nat.lt_or_ge year 399 with hless | hlast
      · have hsucc := yearStart_succ hless
        have hend : yearStart (year + 1) < 146097 := by
          unfold yearStart
          omega
        omega
      · have heq : year = 399 := by omega
        subst heq
        have hstart : yearStart 399 = 145731 := by decide
        rw [yearLength_last] at hnext
        omega
    have hdays' : days + 1 + 719468 = era * 146097 + (yearStart year + (day + 1)) := by omega
    rw [civilDate_of_day hyear hnext hdays' hinside, dateIn_step (by rwa [hlength])]
  · have hlast : (dateIn (year + era * 400) day).next = dateIn (year + era * 400 + 1) 0 :=
      dateIn_last (by omega)
    rw [hlast]
    rcases Nat.lt_or_ge year 399 with hless | hend
    · have hsucc := yearStart_succ hless
      have hfirst : 0 < yearLength (year + 1) := by
        unfold yearLength
        split_ifs
        · decide
        · decide
      have hinside : yearStart (year + 1) + 0 < 146097 := by
        unfold yearStart
        omega
      have hdays' : days + 1 + 719468 = era * 146097 + (yearStart (year + 1) + 0) := by omega
      rw [civilDate_of_day (by omega) hfirst hdays' hinside, Nat.add_right_comm]
    · have heq : year = 399 := by omega
      subst heq
      have hstart : yearStart 399 = 145731 := by decide
      have hzero : yearStart 0 = 0 := rfl
      rw [yearLength_last] at hnext hday
      have hdays' : days + 1 + 719468 = (era + 1) * 146097 + (yearStart 0 + 0) := by omega
      have hfirst : 0 < yearLength 0 := by decide
      have hyears : 399 + era * 400 + 1 = 0 + (era + 1) * 400 := by omega
      rw [civilDate_of_day (by decide) hfirst hdays' (by omega), hyears]

/-- The days that are counted are the ones that are found. -/
theorem civilDate_eq (days : Nat) : civilDate days = dateOf days := by
  induction days with
  | zero => decide
  | succ days ih => rw [civilDate_succ, ih, dateOf]

theorem civilFromDays_eq (days : Nat) :
    civilFromDays days =
      (((dateOf days).year : Int), ((dateOf days).month : Int), ((dateOf days).day : Int)) := by
  rw [← civilDate_eq, civilDate]
  have hz : (0 : Int) ≤ days + 719468 := by omega
  have hera : ((days : Int) + 719468).tdiv 146097 = ((days + 719468) / 146097 : Nat) := by
    rw [Int.tdiv_eq_ediv_of_nonneg hz]
    omega
  have hdoe : (days : Int) + 719468 - ((days + 719468) / 146097 : Nat) * 146097 =
      ((days + 719468) % 146097 : Nat) := by omega
  have hyoe : ∀ doe : Nat, ((doe : Int) - (doe : Int).tdiv 1460 + (doe : Int).tdiv 36524 -
      (doe : Int).tdiv 146096).tdiv 365 = (yearOfEra doe : Nat) := by
    intro doe
    have hsum : (doe : Int) - (doe : Int).tdiv 1460 + (doe : Int).tdiv 36524 -
        (doe : Int).tdiv 146096 =
          ((doe - doe / 1460 + doe / 36524 - doe / 146096 : Nat) : Int) := by
      rw [Int.tdiv_eq_ediv_of_nonneg (by omega), Int.tdiv_eq_ediv_of_nonneg (by omega),
        Int.tdiv_eq_ediv_of_nonneg (by omega)]
      omega
    rw [hsum, yearOfEra, Int.tdiv_eq_ediv_of_nonneg (by omega)]
    omega
  have hmod : (days + 719468) % 146097 < 146097 := Nat.mod_lt _ (by decide)
  obtain ⟨year, day, hyear, hday, hsplit⟩ := day_split hmod
  rw [civilFromDays, if_pos hz, hera, hdoe, hyoe]
  generalize (days + 719468) / 146097 = era
  rw [hsplit, yearOfEra_of_day hyear hday, dayOfYear_of_day hyear hday]
  have hdoy : ((yearStart year + day : Nat) : Int) - (365 * (year : Int) + (year : Int).tdiv 4 -
      (year : Int).tdiv 100) = day := by
    rw [Int.tdiv_eq_ediv_of_nonneg (by omega), Int.tdiv_eq_ediv_of_nonneg (by omega)]
    unfold yearStart
    omega
  have hmonth : (5 * (day : Int) + 2).tdiv 153 = (monthOfDay day : Nat) := by
    rw [Int.tdiv_eq_ediv_of_nonneg (by omega), monthOfDay]
    omega
  have hbefore : (153 * ((monthOfDay day : Nat) : Int) + 2).tdiv 5 =
      ((153 * monthOfDay day + 2) / 5 : Nat) := by
    rw [Int.tdiv_eq_ediv_of_nonneg (by omega)]
    omega
  have hinside : (153 * monthOfDay day + 2) / 5 ≤ day := by
    unfold monthOfDay
    omega
  have hmost : monthOfDay day < 12 := by
    have hshort : yearLength year ≤ 366 := by
      unfold yearLength
      split_ifs
      · exact Nat.le_refl _
      · decide
    unfold monthOfDay
    omega
  rw [hdoy, hmonth, hbefore]
  unfold dateIn dayOfMonth
  generalize monthOfDay day = month at *
  have hcivil : (month : Int) + (if (month : Int) < 10 then 3 else -9) =
      ((if month < 10 then month + 3 else month - 9 : Nat) : Int) := by
    split_ifs
    · omega
    · omega
    · omega
    · omega
  rw [hcivil]
  refine Prod.ext ?_ (Prod.ext rfl ?_)
  · dsimp only
    split_ifs
    all_goals omega
  · dsimp only
    omega

/-! ### The order of days -/

def CivilDate.fields (date : CivilDate) : List Nat := [date.year, date.month, date.day]

theorem fields_lt_next (date : CivilDate) : date.fields < date.next.fields := by
  unfold CivilDate.next CivilDate.fields
  split_ifs
  · simp [List.cons_lt_cons_iff]
  · simp [List.cons_lt_cons_iff]
  · simp [List.cons_lt_cons_iff]

/-- Later days have later dates. -/
theorem dateOf_lt {days days' : Nat} (h : days < days') :
    (dateOf days).fields < (dateOf days').fields := by
  induction h with
  | refl => exact fields_lt_next _
  | step _ ih => exact lt_trans ih (fields_lt_next _)

/-- A month of the calendar, and a day of it. -/
structure CivilDate.Proper (date : CivilDate) : Prop where
  month_pos : 0 < date.month
  month_le : date.month ≤ 12
  day_pos : 0 < date.day
  day_le : date.day ≤ monthLength date.year date.month

theorem monthLength_pos (year month : Nat) : 0 < monthLength year month := by
  unfold monthLength
  split_ifs
  all_goals decide

theorem monthLength_le (year month : Nat) : monthLength year month ≤ 31 := by
  unfold monthLength
  split_ifs
  all_goals decide

theorem dateOf_proper (days : Nat) : (dateOf days).Proper := by
  induction days with
  | zero => exact ⟨by decide, by decide, by decide, by decide⟩
  | succ days ih =>
    rw [dateOf, CivilDate.next]
    split_ifs with hday hmonth
    · exact ⟨ih.month_pos, ih.month_le, Nat.succ_pos _, hday⟩
    · exact ⟨Nat.succ_pos _, hmonth, Nat.one_pos, monthLength_pos _ _⟩
    · exact ⟨Nat.one_pos, Nat.le_add_left 1 11, Nat.one_pos, monthLength_pos _ _⟩

end Tea.Session
