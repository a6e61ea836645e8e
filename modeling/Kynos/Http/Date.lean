import Kynos.Text.Str
import Mathlib.Data.Int.Notation

/-!
# HTTP dates

RFC 9110 section 5.6.7: IMF-fixdate is the only format produced, and all three
formats are read. An instant is a count of nanoseconds from the Unix epoch,
negative before it.
-/

namespace Kynos.Http.Date

open Kynos.Word

/-- `std::time::SystemTime`: nanoseconds since the Unix epoch. -/
abbrev SystemTime := Int

/-- Nanoseconds in a second. -/
def nanosecond : Nat := 1000000000

/-- The instant a count of seconds after the epoch. -/
def ofSeconds (seconds : Nat) : SystemTime :=
  (seconds * nanosecond : Nat)

/-- The day names, Monday first. -/
def days : List Text :=
  ["Mon".toList, "Tue".toList, "Wed".toList, "Thu".toList, "Fri".toList, "Sat".toList,
    "Sun".toList]

/-- The long day names the obsolete RFC 850 form spells out. -/
def longDays : List Text :=
  ["Monday".toList, "Tuesday".toList, "Wednesday".toList, "Thursday".toList, "Friday".toList,
    "Saturday".toList, "Sunday".toList]

/-- The month names. -/
def months : List Text :=
  ["Jan".toList, "Feb".toList, "Mar".toList, "Apr".toList, "May".toList, "Jun".toList,
    "Jul".toList, "Aug".toList, "Sep".toList, "Oct".toList, "Nov".toList, "Dec".toList]

/-! ## The civil calendar -/

/-- How many days a month has in a year. -/
def daysInMonth (year month : Nat) : Nat :=
  match month with
  | 1 | 3 | 5 | 7 | 8 | 10 | 12 => 31
  | 4 | 6 | 9 | 11 => 30
  | 2 => if year % 4 = 0 ∧ (year % 100 ≠ 0 ∨ year % 400 = 0) then 29 else 28
  | _ => 0

/-- Days from 1970-01-01 to a civil date. -/
def daysFromCivil (year month day : Nat) : Option Int :=
  if month < 1 ∨ 12 < month ∨ day = 0 ∨ daysInMonth year month < day then
    none
  else
    let shifted : Int := year - (if month ≤ 2 then 1 else 0)
    let era := shifted / 400
    let yearOfEra := shifted - era * 400
    let dayOfYear : Int :=
      (153 * ((month : Int) + (if 2 < month then -3 else 9)) + 2) / 5 + day - 1
    let dayOfEra := yearOfEra * 365 + yearOfEra / 4 - yearOfEra / 100 + dayOfYear
    some (era * 146097 + dayOfEra - 719468)

/-- The civil date a count of days after 1970-01-01: its year, month and day. -/
def civilFromDays (days : Int) : Int × Nat × Nat :=
  let days := days + 719468
  let era := days / 146097
  let dayOfEra := days - era * 146097
  let yearOfEra := (dayOfEra - dayOfEra / 1460 + dayOfEra / 36524 - dayOfEra / 146096) / 365
  let year := yearOfEra + era * 400
  let dayOfYear := dayOfEra - (365 * yearOfEra + yearOfEra / 4 - yearOfEra / 100)
  let monthPrime := (5 * dayOfYear + 2) / 153
  let day := dayOfYear - (153 * monthPrime + 2) / 5 + 1
  let month := monthPrime + (if monthPrime < 10 then 3 else -9)
  (year + (if month ≤ 2 then 1 else 0), month.toNat, day.toNat)

/-! ## Writing -/

/-- A number of at least `width` digits, padded with zeros. -/
def padded (width number : Nat) : Text :=
  let digits := Text.decimal number
  List.replicate (width - digits.length) '0' ++ digits

/-- An instant as an IMF-fixdate, where the grammar can spell it. -/
def format (time : SystemTime) : Option Text :=
  if time < 0 then
    none
  else
    let seconds := time.toNat / nanosecond
    let dayCount := seconds / 86400
    let rest := seconds % 86400
    let (year, month, day) := civilFromDays dayCount
    if 9999 < year then
      none
    else
      some (days.getD ((dayCount % 7 + 3) % 7) [] ++ ", ".toList ++ padded 2 day ++ [' '] ++
        months.getD (month - 1) [] ++ [' '] ++ padded 4 year.toNat ++ [' '] ++
        padded 2 (rest / 3600) ++ [':'] ++ padded 2 (rest % 3600 / 60) ++ [':'] ++
        padded 2 (rest % 60) ++ " GMT".toList)

/-! ## Reading -/

/-- The text after a prefix. -/
def stripPrefix (expected text : Text) : Option Text :=
  if expected.isPrefixOf text then some (text.drop expected.length) else none

theorem stripPrefix_eq_some_iff {expected text rest : Text} :
    stripPrefix expected text = some rest ↔ text = expected ++ rest := by
  rw [stripPrefix, Option.ite_none_right_eq_some, List.isPrefixOf_iff_prefix]
  constructor
  · rintro ⟨⟨tail, rfl⟩, isRest⟩
    simpa using isRest
  · rintro rfl
    exact ⟨List.prefix_append _ _, by simp⟩

/-- The text before a suffix. -/
def stripSuffix (expected text : Text) : Option Text :=
  if expected.isSuffixOf text then some (text.take (text.length - expected.length)) else none

theorem stripSuffix_eq_some_iff {expected text rest : Text} :
    stripSuffix expected text = some rest ↔ text = rest ++ expected := by
  rw [stripSuffix, Option.ite_none_right_eq_some, List.isSuffixOf_iff_suffix]
  constructor
  · rintro ⟨⟨tail, rfl⟩, isRest⟩
    simpa using isRest
  · rintro rfl
    exact ⟨List.suffix_append _ _, by simp⟩

/-- The first `count` letters and the rest, where an offset in octets is one in
letters. -/
def splitAt (count : Nat) (text : Text) : Option (Text × Text) :=
  if count ≤ text.length then some (text.take count, text.drop count) else none

/-- The value of a text that is exactly `width` digits. -/
def digits (text : Text) (width : Nat) : Option Nat :=
  if text.length = width ∧ text.all Text.isAsciiDigit then
    some (Nat.ofDigitChars 10 text 0)
  else
    none

/-- The name at the start of a text, if it is one of `names`. -/
def dayName (text : Text) (names : List Text) : Option Text :=
  names.find? fun name => name.isPrefixOf text

/-- The one-indexed month a name encodes. -/
def monthNumber (name : Text) : Option Nat :=
  (months.findIdx? (· == name)).map (· + 1)

/-- Seconds into the day that `HH:MM:SS` names; a leap second is admitted. -/
def timeOfDay (time : Text) : Option Nat :=
  match time.splitOn ':' with
  | [hours, minutes, seconds] => do
      let hours ← digits hours 2
      let minutes ← digits minutes 2
      let seconds ← digits seconds 2
      if hours < 24 ∧ minutes < 60 ∧ seconds ≤ 60 then
        some (hours * 3600 + minutes * 60 + seconds)
      else
        none
  | _ => none

/-- Seconds since the epoch at the start of a civil date, none before it. -/
def midnight (year month day : Nat) : Option Nat := do
  let days ← daysFromCivil year month day
  if days < 0 then none else some (days.toNat * 86400)

/-- Seconds since the epoch for a civil date and an `HH:MM:SS GMT` remainder. -/
def zoned (year month day : Nat) (time : Text) : Option Nat := do
  let time ← stripSuffix " GMT".toList time
  let start ← midnight year month day
  let seconds ← timeOfDay time
  some (start + seconds)

/-- `Sun, 06 Nov 1994 08:49:37 GMT` -/
def imfFixdate (value : Text) : Option Nat := do
  let rest ← stripPrefix (← dayName value days) value
  let rest ← stripPrefix ", ".toList rest
  let (day, rest) ← splitAt 2 rest
  let rest ← stripPrefix [' '] rest
  let (month, rest) ← splitAt 3 rest
  let rest ← stripPrefix [' '] rest
  let (year, rest) ← splitAt 4 rest
  zoned (← digits year 4) (← monthNumber month) (← digits day 2) (← stripPrefix [' '] rest)

/-- `Sunday, 06-Nov-94 08:49:37 GMT`, the century by a fixed pivot. -/
def rfc850 (value : Text) : Option Nat := do
  let rest ← stripPrefix (← dayName value longDays) value
  let rest ← stripPrefix ", ".toList rest
  let (day, rest) ← splitAt 2 rest
  let rest ← stripPrefix ['-'] rest
  let (month, rest) ← splitAt 3 rest
  let rest ← stripPrefix ['-'] rest
  let (year, rest) ← splitAt 2 rest
  let year ← digits year 2
  let year := if 70 ≤ year then 1900 + year else 2000 + year
  zoned year (← monthNumber month) (← digits day 2) (← stripPrefix [' '] rest)

/-- `Sun Nov  6 08:49:37 1994`, the day padded with a space. -/
def asctime (value : Text) : Option Nat := do
  let rest ← stripPrefix (← dayName value days) value
  let rest ← stripPrefix [' '] rest
  let (month, rest) ← splitAt 3 rest
  let rest ← stripPrefix [' '] rest
  let (day, rest) ← splitAt 2 rest
  let day ←
    match stripPrefix [' '] day with
    | some digit => digits digit 1
    | none => digits day 2
  let rest ← stripPrefix [' '] rest
  let (time, rest) ← splitAt 8 rest
  let year ← stripPrefix [' '] rest
  let start ← midnight (← digits year 4) (← monthNumber month) day
  let seconds ← timeOfDay time
  some (start + seconds)

/-- Seconds since the epoch of a date in any of the three formats. -/
def parseSeconds (value : Text) : Option Nat :=
  let value := Text.trim value
  ((imfFixdate value).or (rfc850 value)).or (asctime value)

/-- The instant a date in any of the three formats names. -/
def parse (value : Text) : Option SystemTime :=
  (parseSeconds value).map ofSeconds

example : parse "Sun, 06 Nov 1994 08:49:37 GMT".toList = some (ofSeconds 784111777) := by
  decide +kernel

end Kynos.Http.Date
