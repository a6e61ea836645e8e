import Kynos.Http.Civil
import Kynos.Numeral.Fixed

/-!
# Spelled dates

The three spellings of a civil second, and that the readers accept exactly
these. A day name is not compared with the date it stands before.
-/

namespace Kynos.Http.Date

open Kynos.Numeral

/-! ## The pieces of a date -/

theorem splitAt_eq_some_iff {count : Nat} {text left right : Text} :
    splitAt count text = some (left, right) ↔ text = left ++ right ∧ left.length = count := by
  unfold splitAt
  constructor
  · intro cut
    split at cut
    · rename_i enough
      rw [Option.some.injEq, Prod.mk.injEq] at cut
      obtain ⟨rfl, rfl⟩ := cut
      exact ⟨(List.take_append_drop count text).symm, List.length_take_of_le enough⟩
    · cases cut
  · rintro ⟨rfl, rfl⟩
    rw [if_pos (by simp), List.take_left, List.drop_left]

theorem isDigit_iff_isAsciiDigit (character : Char) :
    character.isDigit = Text.isAsciiDigit character :=
  rfl

/-- A number is read from its spelling of the width alone. -/
theorem digits_eq_some_iff {text : Text} {width number : Nat} (positive : 0 < width) :
    digits text width = some number ↔ number < 10 ^ width ∧ text = padded width number := by
  unfold digits
  constructor
  · intro read
    split at read
    · rename_i isNumeral
      obtain ⟨rfl, allDigits⟩ := isNumeral
      rw [List.all_eq_true] at allDigits
      rw [Option.some.injEq] at read
      subst read
      exact ⟨ofDigitChars_lt allDigits, eq_fixed allDigits positive⟩
    · cases read
  · rintro ⟨fits, rfl⟩
    have isNumeral : (padded width number).length = width ∧
        (padded width number).all Text.isAsciiDigit = true :=
      ⟨length_fixed positive fits, List.all_eq_true.mpr fun _ => isDigit_of_mem_fixed⟩
    rw [if_pos isNumeral]
    exact congrArg some ofDigitChars_fixed

/-- The name a text begins with is found where no name begins another. -/
theorem dayName_eq_some_iff {names : List Text} {text name : Text}
    (apart : ∀ name ∈ names, ∀ other ∈ names, name <+: other → name = other) :
    dayName text names = some name ↔ name ∈ names ∧ name <+: text := by
  unfold dayName
  constructor
  · intro found
    have starts := List.find?_some found
    exact ⟨List.mem_of_find?_eq_some found, List.isPrefixOf_iff_prefix.mp starts⟩
  · rintro ⟨member, starts⟩
    obtain ⟨other, found⟩ : ∃ other, names.find? (fun name => name.isPrefixOf text) = some other :=
      Option.isSome_iff_exists.mp (List.find?_isSome.mpr
        ⟨name, member, List.isPrefixOf_iff_prefix.mpr starts⟩)
    have otherMember := List.mem_of_find?_eq_some found
    have otherStarts := List.find?_some found
    rw [found, Option.some.injEq]
    rcases List.prefix_or_prefix_of_prefix (List.isPrefixOf_iff_prefix.mp otherStarts) starts
      with before | after
    · exact apart other otherMember name member before
    · exact (apart name member other otherMember after).symm

theorem days_apart : ∀ name ∈ days, ∀ other ∈ days, name <+: other → name = other := by
  decide

theorem longDays_apart : ∀ name ∈ longDays, ∀ other ∈ longDays, name <+: other → name = other := by
  decide

/-- The name of a month. -/
def monthName (month : Nat) : Text :=
  months.getD (month - 1) []

theorem length_monthName {month : Nat} (isMonth : 1 ≤ month ∧ month ≤ 12) :
    (monthName month).length = 3 := by
  obtain ⟨first, last⟩ := isMonth
  interval_cases month <;> decide

theorem monthNumber_eq_some_iff {text : Text} {month : Nat} :
    monthNumber text = some month ↔ (1 ≤ month ∧ month ≤ 12) ∧ text = monthName month := by
  constructor
  · intro found
    obtain ⟨index, isIndex, rfl⟩ := Option.map_eq_some_iff.mp found
    obtain ⟨inMonths, isName, -⟩ := List.findIdx?_eq_some_iff_getElem.mp isIndex
    have last : index < 12 := inMonths
    refine ⟨⟨by omega, by omega⟩, ?_⟩
    rw [monthName, Nat.add_sub_cancel, List.getD_eq_getElem?_getD, List.getElem?_eq_getElem inMonths]
    exact (beq_iff_eq.mp isName).symm
  · rintro ⟨⟨first, last⟩, rfl⟩
    interval_cases month <;> decide

/-! ## The time of day -/

/-- A time of day, a leap second admitted. -/
structure Clock where
  hour : Nat
  minute : Nat
  second : Nat
  isHour : hour < 24
  isMinute : minute < 60
  isSecond : second ≤ 60

namespace Clock

/-- Seconds into the day. -/
def seconds (clock : Clock) : Nat :=
  clock.hour * 3600 + clock.minute * 60 + clock.second

/-- `HH:MM:SS` -/
def text (clock : Clock) : Text :=
  [':'].intercalate [padded 2 clock.hour, padded 2 clock.minute, padded 2 clock.second]

end Clock

theorem colon_notMem_padded (width number : Nat) : ':' ∉ padded width number := fun member => by
  have digit : Char.isDigit ':' = true := isDigit_of_mem_fixed member
  cases digit

theorem length_padded {width number : Nat} (positive : 0 < width) (fits : number < 10 ^ width) :
    (padded width number).length = width :=
  length_fixed positive fits

theorem timeOfDay_eq_some_iff {text : Text} {seconds : Nat} :
    timeOfDay text = some seconds ↔ ∃ clock : Clock, text = clock.text ∧ seconds = clock.seconds := by
  constructor
  · intro read
    unfold timeOfDay at read
    split at read
    · rename_i hours minutes seconds' cut
      simp only [Option.bind_eq_bind, Option.bind_eq_some_iff,
        digits_eq_some_iff (show 0 < 2 by decide)] at read
      obtain ⟨hour, ⟨-, rfl⟩, minute, ⟨-, rfl⟩, second, ⟨-, rfl⟩, read⟩ := read
      split at read
      · rename_i inDay
        obtain ⟨isHour, isMinute, isSecond⟩ := inDay
        refine ⟨⟨hour, minute, second, isHour, isMinute, isSecond⟩, ?_, ?_⟩
        · rw [Clock.text, ← cut, List.intercalate_splitOn]
        · rw [Option.some.injEq] at read
          exact read.symm
      · cases read
    · cases read
  · rintro ⟨⟨hour, minute, second, isHour, isMinute, isSecond⟩, rfl, rfl⟩
    have cut : (Clock.text ⟨hour, minute, second, isHour, isMinute, isSecond⟩).splitOn ':' =
        [padded 2 hour, padded 2 minute, padded 2 second] :=
      List.splitOn_intercalate ':' (by simp [colon_notMem_padded]) (by simp)
    have readHour : digits (padded 2 hour) 2 = some hour :=
      (digits_eq_some_iff (by decide)).mpr ⟨by omega, rfl⟩
    have readMinute : digits (padded 2 minute) 2 = some minute :=
      (digits_eq_some_iff (by decide)).mpr ⟨by omega, rfl⟩
    have readSecond : digits (padded 2 second) 2 = some second :=
      (digits_eq_some_iff (by decide)).mpr ⟨by omega, rfl⟩
    rw [timeOfDay, cut]
    simp only [readHour, readMinute, readSecond, Option.bind_eq_bind, Option.bind_some]
    rw [if_pos ⟨isHour, isMinute, isSecond⟩, Clock.seconds]

theorem Clock.length_text (clock : Clock) : clock.text.length = 8 := by
  have hour : (padded 2 clock.hour).length = 2 :=
    length_padded (by decide) (by have := clock.isHour; omega)
  have minute : (padded 2 clock.minute).length = 2 :=
    length_padded (by decide) (by have := clock.isMinute; omega)
  have second : (padded 2 clock.second).length = 2 :=
    length_padded (by decide) (by have := clock.isSecond; omega)
  simp [Clock.text, List.intercalate, hour, minute, second]

/-! ## Civil seconds -/

/-- A second of a date the formats can spell. -/
structure CivilSecond where
  date : CivilDate
  clock : Clock
  epoch : 1970 ≤ date.year
  spelled : date.year ≤ 9999

namespace CivilSecond

/-- Seconds from the epoch. -/
def seconds (civil : CivilSecond) : Nat :=
  civil.date.number.toNat * 86400 + civil.clock.seconds

/-- `Sun, 06 Nov 1994 08:49:37 GMT` -/
def fixdate (dayName : Text) (civil : CivilSecond) : Text :=
  dayName ++ (", ".toList ++ (padded 2 civil.date.day ++ ([' '] ++ (monthName civil.date.month ++
    ([' '] ++ (padded 4 civil.date.year ++ ([' '] ++ (civil.clock.text ++ " GMT".toList))))))))

/-- `Sunday, 06-Nov-94 08:49:37 GMT` -/
def rfc850 (dayName : Text) (civil : CivilSecond) : Text :=
  dayName ++ (", ".toList ++ (padded 2 civil.date.day ++ (['-'] ++ (monthName civil.date.month ++
    (['-'] ++ (padded 2 (civil.date.year % 100) ++ ([' '] ++ (civil.clock.text ++
      " GMT".toList))))))))

/-- `Sun Nov  6 08:49:37 1994`, the day of the month as it is spelled. -/
def asctime (dayName day : Text) (civil : CivilSecond) : Text :=
  dayName ++ ([' '] ++ (monthName civil.date.month ++ ([' '] ++ (day ++ ([' '] ++
    (civil.clock.text ++ ([' '] ++ padded 4 civil.date.year)))))))

/-- The day of the month in an asctime date: two digits, or a space and one. -/
inductive AsctimeDay (civil : CivilSecond) : Text → Prop
  | padded : AsctimeDay civil (padded 2 civil.date.day)
  | spaced (short : civil.date.day < 10) : AsctimeDay civil (' ' :: padded 1 civil.date.day)

/-- A text spells a civil second in one of the three formats, with any day
name. The short year of RFC 850 is one of 1970 to 2069. -/
inductive Spells (civil : CivilSecond) : Text → Prop
  | fixdate {name : Text} (isName : name ∈ days) : Spells civil (civil.fixdate name)
  | rfc850 {name : Text} (isName : name ∈ longDays) (pivot : civil.date.year ≤ 2069) :
      Spells civil (civil.rfc850 name)
  | asctime {name day : Text} (isName : name ∈ days) (isDay : AsctimeDay civil day) :
      Spells civil (civil.asctime name day)

end CivilSecond

theorem midnight_eq_some_iff {year month day seconds : Nat} :
    midnight year month day = some seconds ↔ ∃ date : CivilDate, (date.year = year ∧
      date.month = month ∧ date.day = day) ∧ 1970 ≤ date.year ∧
        seconds = date.number.toNat * 86400 := by
  simp only [midnight, Option.bind_eq_bind, Option.bind_eq_some_iff]
  constructor
  · rintro ⟨number, found, start⟩
    obtain ⟨date, rfl, rfl, rfl, rfl⟩ := exists_of_daysFromCivil found
    split at start
    · cases start
    · rename_i epoch
      rw [Option.some.injEq] at start
      exact ⟨date, ⟨rfl, rfl, rfl⟩, number_nonneg_iff.mp (not_lt.mp epoch), start.symm⟩
  · rintro ⟨date, ⟨rfl, rfl, rfl⟩, epoch, rfl⟩
    exact ⟨date.number, daysFromCivil_eq date, if_neg (not_lt.mpr (number_nonneg_iff.mpr epoch))⟩

theorem zoned_eq_some_iff {year month day seconds : Nat} {time : Text} (spelled : year ≤ 9999) :
    zoned year month day time = some seconds ↔ ∃ civil : CivilSecond, (civil.date.year = year ∧
      civil.date.month = month ∧ civil.date.day = day) ∧
        time = civil.clock.text ++ " GMT".toList ∧ seconds = civil.seconds := by
  simp only [zoned, Option.bind_eq_bind, Option.bind_eq_some_iff, stripSuffix_eq_some_iff,
    midnight_eq_some_iff, timeOfDay_eq_some_iff, Option.some.injEq]
  constructor
  · rintro ⟨_, rfl, _, ⟨date, ⟨rfl, rfl, rfl⟩, epoch, rfl⟩, _, ⟨clock, rfl, rfl⟩, rfl⟩
    exact ⟨⟨date, clock, epoch, spelled⟩, ⟨rfl, rfl, rfl⟩, rfl, rfl⟩
  · rintro ⟨civil, ⟨rfl, rfl, rfl⟩, rfl, rfl⟩
    exact ⟨_, rfl, _, ⟨civil.date, ⟨rfl, rfl, rfl⟩, civil.epoch, rfl⟩, _, ⟨civil.clock, rfl, rfl⟩,
      rfl⟩

/-! ## The three readers -/

variable {value : Text} {seconds : Nat}

theorem digits_two_iff {text : Text} {number : Nat} :
    digits text 2 = some number ↔ number < 100 ∧ text = padded 2 number :=
  digits_eq_some_iff (by decide)

theorem digits_four_iff {text : Text} {number : Nat} :
    digits text 4 = some number ↔ number < 10000 ∧ text = padded 4 number :=
  digits_eq_some_iff (by decide)

theorem imfFixdate_eq_some_iff :
    imfFixdate value = some seconds ↔ ∃ civil : CivilSecond, ∃ name ∈ days,
      value = civil.fixdate name ∧ seconds = civil.seconds := by
  simp only [imfFixdate, Option.bind_eq_bind, Option.bind_eq_some_iff, Prod.exists,
    dayName_eq_some_iff days_apart, stripPrefix_eq_some_iff, splitAt_eq_some_iff,
    monthNumber_eq_some_iff, digits_two_iff, digits_four_iff]
  constructor
  · rintro ⟨name, ⟨isName, -⟩, _, rfl, _, rfl, _, _, ⟨rfl, -⟩, _, rfl, _, _, ⟨rfl, -⟩, _, rfl, _, _,
      ⟨rfl, -⟩, year, ⟨spelled, rfl⟩, month, ⟨-, rfl⟩, day, ⟨-, rfl⟩, time, rfl, found⟩
    obtain ⟨civil, ⟨rfl, rfl, rfl⟩, rfl, rfl⟩ := (zoned_eq_some_iff (by omega)).mp found
    exact ⟨civil, name, isName, rfl, rfl⟩
  · rintro ⟨civil, name, isName, rfl, rfl⟩
    have day : civil.date.day < 100 := by have := civil.date.day_le; omega
    have year : civil.date.year < 10000 := by have := civil.spelled; omega
    exact ⟨name, ⟨isName, List.prefix_append _ _⟩, _, rfl, _, rfl, _, _,
      ⟨rfl, length_padded (by decide) day⟩, _, rfl, _, _, ⟨rfl, length_monthName civil.date.isMonth⟩,
      _, rfl, _, _, ⟨rfl, length_padded (by decide) year⟩, _, ⟨year, rfl⟩, _,
      ⟨civil.date.isMonth, rfl⟩, _, ⟨day, rfl⟩, _, rfl,
      (zoned_eq_some_iff civil.spelled).mpr ⟨civil, ⟨rfl, rfl, rfl⟩, rfl, rfl⟩⟩

/-- The year a short year stands for. -/
theorem pivot_iff {short year : Nat} :
    (short < 100 ∧ year = if 70 ≤ short then 1900 + short else 2000 + short) ↔
      (1970 ≤ year ∧ year ≤ 2069) ∧ short = year % 100 := by
  split <;> omega

theorem rfc850_eq_some_iff :
    rfc850 value = some seconds ↔ ∃ civil : CivilSecond, ∃ name ∈ longDays,
      civil.date.year ≤ 2069 ∧ value = civil.rfc850 name ∧ seconds = civil.seconds := by
  simp only [rfc850, Option.bind_eq_bind, Option.bind_eq_some_iff, Prod.exists,
    dayName_eq_some_iff longDays_apart, stripPrefix_eq_some_iff, splitAt_eq_some_iff,
    monthNumber_eq_some_iff, digits_two_iff]
  constructor
  · rintro ⟨name, ⟨isName, -⟩, _, rfl, _, rfl, _, _, ⟨rfl, -⟩, _, rfl, _, _, ⟨rfl, -⟩, _, rfl, _, _,
      ⟨rfl, -⟩, short, ⟨isShort, rfl⟩, month, ⟨-, rfl⟩, day, ⟨-, rfl⟩, time, rfl, found⟩
    generalize isYear : (if 70 ≤ short then 1900 + short else 2000 + short) = year at found
    obtain ⟨⟨-, pivot⟩, rfl⟩ := pivot_iff.mp ⟨isShort, isYear.symm⟩
    obtain ⟨civil, ⟨rfl, rfl, rfl⟩, rfl, rfl⟩ := (zoned_eq_some_iff (by omega)).mp found
    exact ⟨civil, name, isName, pivot, rfl, rfl⟩
  · rintro ⟨civil, name, isName, pivot, rfl, rfl⟩
    have day : civil.date.day < 100 := by have := civil.date.day_le; omega
    obtain ⟨short, isYear⟩ := pivot_iff.mpr ⟨⟨civil.epoch, pivot⟩, rfl⟩
    refine ⟨name, ⟨isName, List.prefix_append _ _⟩, _, rfl, _, rfl, _, _,
      ⟨rfl, length_padded (by decide) day⟩, _, rfl, _, _, ⟨rfl, length_monthName civil.date.isMonth⟩,
      _, rfl, _, _, ⟨rfl, length_padded (by decide) short⟩, _, ⟨short, rfl⟩, _,
      ⟨civil.date.isMonth, rfl⟩, _, ⟨day, rfl⟩, _, rfl, ?_⟩
    rw [← isYear]
    exact (zoned_eq_some_iff civil.spelled).mpr ⟨civil, ⟨rfl, rfl, rfl⟩, rfl, rfl⟩

/-- The day of the month of an asctime date: a space and a digit, or two
digits. -/
def asctimeDay (text : Text) : Option Nat :=
  match stripPrefix [' '] text with
  | some digit => digits digit 1
  | none => digits text 2

theorem asctime_eq (value : Text) :
    asctime value = (do
      let rest ← stripPrefix (← dayName value days) value
      let rest ← stripPrefix [' '] rest
      let (month, rest) ← splitAt 3 rest
      let rest ← stripPrefix [' '] rest
      let (day, rest) ← splitAt 2 rest
      let day ← asctimeDay day
      let rest ← stripPrefix [' '] rest
      let (time, rest) ← splitAt 8 rest
      let year ← stripPrefix [' '] rest
      let first ← midnight (← digits year 4) (← monthNumber month) day
      let seconds ← timeOfDay time
      some (first + seconds)) := by
  simp only [asctime, asctimeDay, Option.bind_eq_bind]
  iterate 6 refine Option.bind_congr fun _ _ => ?_
  split <;> simp only [*]

theorem asctimeDay_eq_some_iff {text : Text} {day : Nat} :
    asctimeDay text = some day ↔ (day < 100 ∧ text = padded 2 day) ∨
      (day < 10 ∧ text = ' ' :: padded 1 day) := by
  unfold asctimeDay
  cases stripped : stripPrefix [' '] text with
  | some digit =>
      obtain rfl := stripPrefix_eq_some_iff.mp stripped
      have notDigits : ∀ number, ' ' :: digit ≠ padded 2 number := fun number same => by
        have member : ' ' ∈ padded 2 number := same ▸ List.mem_cons_self
        have isDigit : Char.isDigit ' ' = true := isDigit_of_mem_fixed member
        cases isDigit
      simp [digits_eq_some_iff (show 0 < 1 by decide), notDigits]
  | none =>
      have notSpaced : ∀ rest, text ≠ ' ' :: rest := fun rest same => by
        rw [stripPrefix_eq_some_iff.mpr (show text = [' '] ++ rest from same)] at stripped
        cases stripped
      simp [digits_two_iff, notSpaced]

theorem asctime_eq_some_iff :
    asctime value = some seconds ↔ ∃ civil : CivilSecond, ∃ name ∈ days, ∃ day,
      civil.AsctimeDay day ∧ value = civil.asctime name day ∧ seconds = civil.seconds := by
  simp only [asctime_eq, Option.bind_eq_bind, Option.bind_eq_some_iff, Prod.exists,
    dayName_eq_some_iff days_apart, stripPrefix_eq_some_iff, splitAt_eq_some_iff,
    monthNumber_eq_some_iff, digits_four_iff, midnight_eq_some_iff, timeOfDay_eq_some_iff,
    asctimeDay_eq_some_iff, Option.some.injEq]
  constructor
  · rintro ⟨name, ⟨isName, -⟩, _, rfl, _, rfl, _, _, ⟨rfl, -⟩, _, rfl, _, _, ⟨rfl, -⟩, day, isDay, _,
      rfl, _, _, ⟨rfl, -⟩, _, rfl, year, ⟨spelled, rfl⟩, month, ⟨-, rfl⟩, start,
      ⟨date, ⟨rfl, rfl, rfl⟩, epoch, rfl⟩, _, ⟨clock, rfl, rfl⟩, rfl⟩
    refine ⟨⟨date, clock, epoch, by omega⟩, name, isName, _, ?_, rfl, rfl⟩
    rcases isDay with ⟨-, rfl⟩ | ⟨short, rfl⟩
    · exact .padded
    · exact .spaced short
  · rintro ⟨civil, name, isName, day, isDay, rfl, rfl⟩
    have year : civil.date.year < 10000 := by have := civil.spelled; omega
    have twoDigits : civil.date.day < 100 := by have := civil.date.day_le; omega
    have spelledDay : (civil.date.day < 100 ∧ day = padded 2 civil.date.day) ∨
        (civil.date.day < 10 ∧ day = ' ' :: padded 1 civil.date.day) := by
      cases isDay with
      | padded => exact .inl ⟨twoDigits, rfl⟩
      | spaced short => exact .inr ⟨short, rfl⟩
    have dayLength : day.length = 2 := by
      rcases spelledDay with ⟨-, rfl⟩ | ⟨short, rfl⟩
      · exact length_padded (by decide) twoDigits
      · rw [List.length_cons, length_padded (by decide) short]
    exact ⟨name, ⟨isName, List.prefix_append _ _⟩, _, rfl, _, rfl, _, _,
      ⟨rfl, length_monthName civil.date.isMonth⟩, _, rfl, _, _, ⟨rfl, dayLength⟩, _, spelledDay, _,
      rfl, _, _, ⟨rfl, civil.clock.length_text⟩, _, rfl, _, ⟨year, rfl⟩, _,
      ⟨civil.date.isMonth, rfl⟩, _, ⟨civil.date, ⟨rfl, rfl, rfl⟩, civil.epoch, rfl⟩, _,
      ⟨civil.clock, rfl, rfl⟩, rfl⟩

end Kynos.Http.Date
