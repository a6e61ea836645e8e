import Mathlib.Data.Int.Notation
import Mathlib.Tactic.Common

/-!
# The Gregorian calendar in whole days

Years are counted from the first of March, so a leap day is the last of its
year. A day number is the days before a year and the days into it; 400 years
are one era of 146097 days, and within an era the year of a day is computed
without a table.
-/

namespace Kynos.Calendar

/-- The days before a year that begins in March. -/
def daysBefore (year : Int) : Int :=
  365 * year + year / 4 - year / 100 + year / 400

/-- Whether a calendar year, January to December, has a leap day. -/
def IsLeap (year : Int) : Prop :=
  year % 4 = 0 ∧ (year % 100 ≠ 0 ∨ year % 400 = 0)

/-- A day of a year that begins in March: the 366th is the leap day of the
calendar year that has begun by then. -/
def DayOfYear (year day : Int) : Prop :=
  0 ≤ day ∧ day ≤ 365 ∧ (day = 365 → IsLeap (year + 1))

/-- The days of an era before one of its years. -/
def daysInto (yearOfEra : Int) : Int :=
  365 * yearOfEra + yearOfEra / 4 - yearOfEra / 100

/-- The year of an era a day of the era is in. -/
def yearOfEra (dayOfEra : Int) : Int :=
  (dayOfEra - dayOfEra / 1460 + dayOfEra / 36524 - dayOfEra / 146096) / 365

/-- An era and a year of it. -/
theorem daysBefore_era (year : Int) :
    year / 400 * 146097 + daysInto (year - year / 400 * 400) = daysBefore year := by
  simp only [daysInto, daysBefore]
  omega

/-- A later day of a year, or a day of a later year, has a greater number. -/
theorem daysBefore_lt {year later day other : Int} (ofYear : DayOfYear year day)
    (ofLater : DayOfYear later other) (after : year < later) :
    daysBefore year + day < daysBefore later + other := by
  obtain ⟨-, below, leap⟩ := ofYear
  have start : 0 ≤ other := ofLater.1
  have next : daysBefore year + day < daysBefore (year + 1) := by
    simp only [daysBefore, IsLeap] at leap ⊢
    omega
  have grows : daysBefore (year + 1) ≤ daysBefore later := by
    simp only [daysBefore]
    omega
  omega

/-! ## Days of an era -/

/-- A year of an era: its century, the four-year cycle of the century, and the
year of the cycle. -/
structure Cycles (century cycle rest : Int) : Prop where
  isCentury : 0 ≤ century ∧ century ≤ 3
  isCycle : 0 ≤ cycle ∧ cycle ≤ 24
  isRest : 0 ≤ rest ∧ rest ≤ 3

/-- A day of a year of an era. The last day of a leap year is the leap day. -/
structure CycleDay (century cycle rest day : Int) : Prop extends Cycles century cycle rest where
  isDay : 0 ≤ day ∧ day ≤ 365
  leap : day = 365 → rest = 3 ∧ (cycle = 24 → century = 3)

variable {century cycle rest day : Int}

theorem daysInto_cycles (cycles : Cycles century cycle rest) :
    daysInto (100 * century + 4 * cycle + rest) = 36524 * century + 1461 * cycle + 365 * rest := by
  obtain ⟨⟨_, _⟩, ⟨_, _⟩, ⟨_, _⟩⟩ := cycles
  simp only [daysInto]
  omega

/-- The year of an era is computed from each of its days. -/
theorem yearOfEra_cycles (ofYear : CycleDay century cycle rest day) :
    yearOfEra (36524 * century + 1461 * cycle + 365 * rest + day) =
      100 * century + 4 * cycle + rest := by
  obtain ⟨⟨⟨_, _⟩, ⟨_, _⟩, ⟨_, _⟩⟩, ⟨_, _⟩, leap⟩ := ofYear
  generalize isDay : 36524 * century + 1461 * cycle + 365 * rest + day = dayOfEra
  have cycles : dayOfEra / 1460 =
      25 * century + cycle + (24 * century + cycle + 365 * rest + day) / 1460 := by
    omega
  have centuries : dayOfEra / 36524 = century + dayOfEra / 146096 := by
    by_cases last : dayOfEra = 146096
    · omega
    · omega
  rw [yearOfEra, cycles, centuries]
  omega

/-- Every day of an era is in a year of it. -/
theorem exists_cycleDay {dayOfEra : Int} (first : 0 ≤ dayOfEra) (last : dayOfEra ≤ 146096) :
    ∃ century cycle rest day, CycleDay century cycle rest day ∧
      dayOfEra = 36524 * century + 1461 * cycle + 365 * rest + day := by
  have centuries : ∃ century days, (0 ≤ century ∧ century ≤ 3) ∧ 0 ≤ days ∧ days ≤ 36524 ∧
      (days = 36524 → century = 3) ∧ dayOfEra = 36524 * century + days := by
    by_cases leapDay : dayOfEra = 146096
    · exact ⟨3, 36524, by omega⟩
    · exact ⟨dayOfEra / 36524, dayOfEra % 36524, by omega⟩
  obtain ⟨century, days, isCentury, _, _, lastOfCentury, rfl⟩ := centuries
  have cycles : ∃ cycle rest, (0 ≤ cycle ∧ cycle ≤ 24) ∧ 0 ≤ rest ∧ rest ≤ 1460 ∧
      (rest = 1460 → cycle = 24 → century = 3) ∧ days = 1461 * cycle + rest :=
    ⟨days / 1461, days % 1461, by omega⟩
  obtain ⟨cycle, days, isCycle, _, _, lastOfCycle, rfl⟩ := cycles
  have years : ∃ rest day, (0 ≤ rest ∧ rest ≤ 3) ∧ (0 ≤ day ∧ day ≤ 365) ∧
      (day = 365 → rest = 3 ∧ (cycle = 24 → century = 3)) ∧ days = 365 * rest + day := by
    by_cases leapDay : days = 1460
    · exact ⟨3, 365, by omega⟩
    · exact ⟨days / 365, days % 365, by omega⟩
  obtain ⟨rest, day, isRest, isDay, leap, rfl⟩ := years
  exact ⟨century, cycle, rest, day, ⟨⟨isCentury, isCycle, isRest⟩, isDay, leap⟩, by omega⟩

/-- The day of the year that a day of an era is, and that the two are in one
year: what is left after the days before the year. -/
theorem dayOfYear_of_era {dayOfEra : Int} (first : 0 ≤ dayOfEra) (last : dayOfEra ≤ 146096)
    (era : Int) :
    (0 ≤ yearOfEra dayOfEra ∧ yearOfEra dayOfEra < 400) ∧
      DayOfYear (yearOfEra dayOfEra + era * 400) (dayOfEra - daysInto (yearOfEra dayOfEra)) := by
  obtain ⟨century, cycle, rest, day, ofYear, rfl⟩ := exists_cycleDay first last
  rw [yearOfEra_cycles ofYear, daysInto_cycles ofYear.toCycles]
  obtain ⟨⟨⟨_, _⟩, ⟨_, _⟩, ⟨_, _⟩⟩, ⟨_, _⟩, leap⟩ := ofYear
  refine ⟨by omega, by omega, by omega, ?_⟩
  intro isLast
  simp only [IsLeap]
  omega

/-- The year of a day number and the day of that year determine the day
number. -/
theorem daysBefore_yearOfEra {dayOfEra : Int} (first : 0 ≤ dayOfEra) (last : dayOfEra ≤ 146096)
    (era : Int) :
    daysBefore (yearOfEra dayOfEra + era * 400) + (dayOfEra - daysInto (yearOfEra dayOfEra)) =
      era * 146097 + dayOfEra := by
  have year := (dayOfYear_of_era first last era).1
  rw [← daysBefore_era]
  have sameEra : (yearOfEra dayOfEra + era * 400) / 400 = era := by omega
  have sameYear : yearOfEra dayOfEra + era * 400 - era * 400 = yearOfEra dayOfEra := by omega
  rw [sameEra, sameYear]
  omega

/-! ## Months from March -/

/-- The days before a month of a year that begins in March, its months counted
from zero. -/
def daysBeforeMonth (month : Int) : Int :=
  (153 * month + 2) / 5

/-- The month a day of a year is in. -/
def monthOfDay (day : Int) : Int :=
  (5 * day + 2) / 153

/-- The month of a day is computed from every day before the next month. -/
theorem monthOfDay_eq {month day : Int}
    (within : 0 ≤ day ∧ daysBeforeMonth month + day < daysBeforeMonth (month + 1)) :
    monthOfDay (daysBeforeMonth month + day) = month := by
  simp only [daysBeforeMonth, monthOfDay] at *
  omega

/-- A day of a year is in a month, before the next one. -/
theorem monthOfDay_spec {day : Int} (isDay : 0 ≤ day ∧ day ≤ 365) :
    (0 ≤ monthOfDay day ∧ monthOfDay day ≤ 11) ∧ daysBeforeMonth (monthOfDay day) ≤ day ∧
      day < daysBeforeMonth (monthOfDay day + 1) := by
  simp only [daysBeforeMonth, monthOfDay]
  omega

end Kynos.Calendar
