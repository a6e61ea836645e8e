import Kynos.Calendar.Gregorian
import Kynos.Http.Date
import Mathlib.Tactic.IntervalCases

/-!
# Civil dates and day numbers

The day number of a civil date, and the date a day number is read as. The two
are inverse from the epoch on, and a later date has a greater number.
-/

namespace Kynos.Http.Date

open Kynos.Calendar

/-- A date of the calendar. -/
structure CivilDate where
  year : Nat
  month : Nat
  day : Nat
  isMonth : 1 ≤ month ∧ month ≤ 12
  isDay : 1 ≤ day ∧ day ≤ daysInMonth year month

namespace CivilDate

@[ext]
theorem ext {date other : CivilDate} (year : date.year = other.year)
    (month : date.month = other.month) (day : date.day = other.day) : date = other := by
  cases date
  cases other
  cases year
  cases month
  cases day
  rfl

/-- One date is earlier than another. -/
def Before (date other : CivilDate) : Prop :=
  date.year < other.year ∨ (date.year = other.year ∧
    (date.month < other.month ∨ (date.month = other.month ∧ date.day < other.day)))

theorem before_trichotomy (date other : CivilDate) :
    date.Before other ∨ date = other ∨ other.Before date := by
  simp only [Before, CivilDate.ext_iff]
  omega

/-- The year that begins in March a date is in. -/
def marchYear (date : CivilDate) : Int :=
  date.year - (if date.month ≤ 2 then 1 else 0)

/-- The month of a date, counted from March. -/
def marchMonth (date : CivilDate) : Int :=
  date.month + (if 2 < date.month then -3 else 9)

/-- The day of the year that begins in March. -/
def marchDay (date : CivilDate) : Int :=
  daysBeforeMonth date.marchMonth + date.day - 1

/-- Days from 1970-01-01 to a date. -/
def number (date : CivilDate) : Int :=
  daysBefore date.marchYear + date.marchDay - 719468

theorem day_le (date : CivilDate) : date.day ≤ 31 := by
  refine date.isDay.2.trans ?_
  unfold daysInMonth
  split
  case h_12 => split <;> decide
  all_goals decide

/-- A date is a day of its March year, before the next month. -/
theorem marchDay_spec (date : CivilDate) :
    DayOfYear date.marchYear date.marchDay ∧
      date.marchDay < daysBeforeMonth (date.marchMonth + 1) := by
  obtain ⟨year, month, day, ⟨first, last⟩, positive, within⟩ := date
  simp only [DayOfYear, marchYear, marchDay, marchMonth, daysBeforeMonth, IsLeap]
  interval_cases month
  all_goals simp only [daysInMonth] at within
  all_goals try split at within
  all_goals norm_num
  all_goals omega

/-- Earlier dates have smaller numbers. -/
theorem number_lt {date other : CivilDate} (before : date.Before other) :
    date.number < other.number := by
  obtain ⟨ofYear, inMonth⟩ := date.marchDay_spec
  obtain ⟨ofOther, -⟩ := other.marchDay_spec
  have month := date.isMonth
  have otherMonth := other.isMonth
  have day := other.isDay.1
  by_cases sameYear : date.marchYear = other.marchYear
  · have sooner : date.marchDay < other.marchDay := by
      simp only [Before, marchYear, marchMonth, marchDay, daysBeforeMonth] at *
      split at sameYear <;> split at sameYear <;> split at inMonth <;> split <;> omega
    simp only [number, sameYear]
    omega
  · have soonerYear : date.marchYear < other.marchYear := by
      simp only [Before, marchYear] at *
      split at sameYear <;> split at sameYear <;> omega
    have less := daysBefore_lt ofYear ofOther soonerYear
    simp only [number]
    omega

/-- A number is the number of one date. -/
theorem number_injective {date other : CivilDate} (same : date.number = other.number) :
    date = other := by
  rcases before_trichotomy date other with before | equal | after
  · exact absurd same (number_lt before).ne
  · exact equal
  · exact absurd same (number_lt after).ne'

theorem number_lt_iff {date other : CivilDate} :
    date.number < other.number ↔ date.Before other := by
  refine ⟨fun less => ?_, number_lt⟩
  rcases before_trichotomy date other with before | equal | after
  · exact before
  · exact absurd (equal ▸ less) (lt_irrefl _)
  · exact absurd less (number_lt after).not_gt

end CivilDate

/-! ## The code's arithmetic -/

theorem daysFromCivil_eq (date : CivilDate) :
    daysFromCivil date.year date.month date.day = some date.number := by
  have isDate : ¬(date.month < 1 ∨ 12 < date.month ∨ date.day = 0 ∨
      daysInMonth date.year date.month < date.day) := by
    have month := date.isMonth
    have day := date.isDay
    omega
  have era := daysBefore_era date.marchYear
  simp only [daysInto, CivilDate.marchYear] at era
  simp only [daysFromCivil, if_neg isDate, CivilDate.number, CivilDate.marchYear,
    CivilDate.marchDay, CivilDate.marchMonth, daysBeforeMonth, ← era, Option.some.injEq]
  omega

/-- A day number is given to dates only. -/
theorem exists_of_daysFromCivil {year month day : Nat} {days : Int}
    (found : daysFromCivil year month day = some days) :
    ∃ date : CivilDate, date.year = year ∧ date.month = month ∧ date.day = day ∧
      date.number = days := by
  have isDate : ¬(month < 1 ∨ 12 < month ∨ day = 0 ∨ daysInMonth year month < day) := by
    intro outside
    rw [daysFromCivil, if_pos outside] at found
    cases found
  have number := daysFromCivil_eq ⟨year, month, day, by omega, by omega⟩
  exact ⟨⟨year, month, day, by omega, by omega⟩, rfl, rfl, rfl,
    Option.some.inj (number.symm.trans found)⟩

/-- Every day of a March year is a date. -/
theorem exists_marchDay {year month day : Int} (after : 0 ≤ year) (ofYear : DayOfYear year day)
    (isMonth : 0 ≤ month ∧ month ≤ 11) (starts : daysBeforeMonth month ≤ day)
    (ends : day < daysBeforeMonth (month + 1)) :
    ∃ date : CivilDate, date.number = daysBefore year + day - 719468 ∧
      (date.year : Int) = year + (if month + (if month < 10 then 3 else -9) ≤ 2 then 1 else 0) ∧
      date.month = (month + (if month < 10 then 3 else -9)).toNat ∧
      date.day = (day - daysBeforeMonth month + 1).toNat := by
  obtain ⟨first, last⟩ := isMonth
  obtain ⟨year, rfl⟩ := Int.eq_ofNat_of_zero_le after
  obtain ⟨nonneg, bounded, leap⟩ := ofYear
  obtain ⟨into, rfl⟩ : ∃ into : Nat, day = daysBeforeMonth month + into :=
    ⟨(day - daysBeforeMonth month).toNat, by omega⟩
  have intoDay : (daysBeforeMonth month + (into : Int) - daysBeforeMonth month + 1).toNat =
      into + 1 := by
    omega
  rw [intoDay]
  simp only [IsLeap, daysBeforeMonth] at leap ends bounded
  refine ⟨⟨year + (if month < 10 then 0 else 1), (month + (if month < 10 then 3 else -9)).toNat,
    into + 1, ?_, ?_⟩, ?_, ?_, rfl, rfl⟩
  · split <;> omega
  · interval_cases month
    all_goals simp only [daysInMonth, Int.reduceLT, Int.reduceAdd, Int.reduceToNat, if_true,
      if_false]
    all_goals try split
    all_goals omega
  · simp only [CivilDate.number, CivilDate.marchYear, CivilDate.marchDay, CivilDate.marchMonth]
    interval_cases month <;> norm_num <;> omega
  · interval_cases month <;> norm_num

/-- Every day number from the epoch on is read as the date it is the number
of. -/
theorem exists_civilFromDays {days : Int} (epoch : 0 ≤ days) :
    ∃ date : CivilDate, date.number = days ∧
      civilFromDays days = ((date.year : Int), date.month, date.day) := by
  generalize isEra : (days + 719468) / 146097 = era
  generalize isDayOfEra : days + 719468 - era * 146097 = dayOfEra
  have first : 0 ≤ dayOfEra := by omega
  have last : dayOfEra ≤ 146096 := by omega
  have ofYear := (dayOfYear_of_era first last era).2
  have number := daysBefore_yearOfEra first last era
  generalize isYear : yearOfEra dayOfEra + era * 400 = year at ofYear number
  generalize isDay : dayOfEra - daysInto (yearOfEra dayOfEra) = day at ofYear number
  obtain ⟨isMonth, starts, ends⟩ := monthOfDay_spec ⟨ofYear.1, ofYear.2.1⟩
  generalize isMonthOfDay : monthOfDay day = month at isMonth starts ends
  have after : 0 ≤ year := by
    have := ofYear.2.1
    simp only [daysBefore] at number
    omega
  have computed : civilFromDays days =
      (year + (if month + (if month < 10 then 3 else -9) ≤ 2 then 1 else 0),
        (month + (if month < 10 then 3 else -9)).toNat,
        (day - daysBeforeMonth month + 1).toNat) := by
    subst isMonthOfDay isDay isYear
    simp only [civilFromDays, isEra, isDayOfEra]
    rfl
  obtain ⟨date, isNumber, dateYear, dateMonth, dateDay⟩ :=
    exists_marchDay after ofYear isMonth starts ends
  refine ⟨date, by omega, ?_⟩
  rw [computed, dateYear, dateMonth, dateDay]

/-- A date from the epoch on is read back from its number. -/
theorem civilFromDays_number {date : CivilDate} (epoch : 0 ≤ date.number) :
    civilFromDays date.number = ((date.year : Int), date.month, date.day) := by
  obtain ⟨other, same, computed⟩ := exists_civilFromDays epoch
  rwa [CivilDate.number_injective same] at computed

/-! ## The range of the formats -/

/-- The date of the Unix epoch. -/
def epoch : CivilDate :=
  ⟨1970, 1, 1, by decide, by decide⟩

/-- The first date past the years that are spelled. -/
def afterLast : CivilDate :=
  ⟨10000, 1, 1, by decide, by decide⟩

theorem number_nonneg_iff {date : CivilDate} : 0 ≤ date.number ↔ 1970 ≤ date.year := by
  have isZero : epoch.number = 0 := by decide
  have month := date.isMonth
  have day := date.isDay
  rw [← not_lt, ← isZero, CivilDate.number_lt_iff]
  simp only [CivilDate.Before, epoch]
  omega

theorem number_lt_iff_year_le {date : CivilDate} : date.number < 2932897 ↔ date.year ≤ 9999 := by
  have isAfter : afterLast.number = 2932897 := by decide
  have month := date.isMonth
  have day := date.isDay
  rw [← isAfter, CivilDate.number_lt_iff]
  simp only [CivilDate.Before, afterLast]
  omega

end Kynos.Http.Date
