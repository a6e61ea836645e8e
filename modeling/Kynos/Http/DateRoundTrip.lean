import Kynos.Http.DateText
import Kynos.Word.Padded

/-!
# HTTP dates round trip

Every second from the epoch to the end of year 9999 is written as an
IMF-fixdate that is read back, and no other instant is written. A text is read
exactly where it spells a civil second, as that second.
-/

namespace Kynos.Http.Date

open Kynos.Word

/-! ## Reading -/

/-- The letter after the first three tells the formats apart. -/
theorem mark_of_fixdate (civil : CivilSecond) {name : Text} (isName : name ∈ days) :
    (civil.fixdate name)[3]? = some ',' := by
  have length : ∀ name ∈ days, name.length = 3 := by decide
  rw [CivilSecond.fixdate, List.getElem?_append_right (length name isName).le, length name isName]
  rfl

theorem mark_of_asctime (civil : CivilSecond) {name : Text} (isName : name ∈ days) (day : Text) :
    (civil.asctime name day)[3]? = some ' ' := by
  have length : ∀ name ∈ days, name.length = 3 := by decide
  rw [CivilSecond.asctime, List.getElem?_append_right (length name isName).le, length name isName]
  rfl

theorem mark_of_rfc850 (civil : CivilSecond) {name : Text} (isName : name ∈ longDays) :
    (civil.rfc850 name)[3]? ≠ some ',' ∧ (civil.rfc850 name)[3]? ≠ some ' ' := by
  have letter : ∀ name ∈ longDays, 3 < name.length ∧ name[3]? ≠ some ',' ∧ name[3]? ≠ some ' ' := by
    decide
  obtain ⟨long, apart⟩ := letter name isName
  rw [CivilSecond.rfc850, List.getElem?_append_left long]
  exact apart

/-- A date is read exactly where it spells a civil second, as that second. -/
theorem parseSeconds_eq_some_iff {value : Text} {seconds : Nat} :
    parseSeconds value = some seconds ↔
      ∃ civil : CivilSecond, civil.Spells (Text.trim value) ∧ seconds = civil.seconds := by
  simp only [parseSeconds]
  generalize Text.trim value = value
  constructor
  · intro read
    rcases Option.or_eq_some_iff.mp read with read | ⟨-, read⟩
    · rcases Option.or_eq_some_iff.mp read with read | ⟨-, read⟩
      · obtain ⟨civil, name, isName, rfl, rfl⟩ := imfFixdate_eq_some_iff.mp read
        exact ⟨civil, .fixdate isName, rfl⟩
      · obtain ⟨civil, name, isName, pivot, rfl, rfl⟩ := rfc850_eq_some_iff.mp read
        exact ⟨civil, .rfc850 isName pivot, rfl⟩
    · obtain ⟨civil, name, isName, day, isDay, rfl, rfl⟩ := asctime_eq_some_iff.mp read
      exact ⟨civil, .asctime isName isDay, rfl⟩
  · rintro ⟨civil, spells, rfl⟩
    have notFixdate : value[3]? ≠ some ',' → imfFixdate value = none := fun mark => by
      rw [Option.eq_none_iff_forall_ne_some]
      intro seconds read
      obtain ⟨other, name, isName, rfl, -⟩ := imfFixdate_eq_some_iff.mp read
      exact mark (mark_of_fixdate other isName)
    have notRfc850 : value[3]? = some ' ' → rfc850 value = none := fun mark => by
      rw [Option.eq_none_iff_forall_ne_some]
      intro seconds read
      obtain ⟨other, name, isName, -, rfl, -⟩ := rfc850_eq_some_iff.mp read
      exact (mark_of_rfc850 other isName).2 mark
    cases spells with
    | fixdate isName =>
        rw [imfFixdate_eq_some_iff.mpr ⟨civil, _, isName, rfl, rfl⟩]
        rfl
    | rfc850 isName pivot =>
        rw [notFixdate (mark_of_rfc850 civil isName).1,
          rfc850_eq_some_iff.mpr ⟨civil, _, isName, pivot, rfl, rfl⟩]
        rfl
    | @asctime name day isName isDay =>
        have mark := mark_of_asctime civil isName day
        rw [notFixdate (by rw [mark]; decide), notRfc850 mark,
          asctime_eq_some_iff.mpr ⟨civil, _, isName, _, isDay, rfl, rfl⟩]
        rfl

/-! ## Spelled dates have no blanks around them -/

theorem isWhitespace_of_isDigit {character : Char} (isDigit : character.isDigit = true) :
    Text.isWhitespace character = false := by
  have range := Text.toNat_of_isAsciiDigit isDigit
  exact Text.isWhitespace_of_visible (by omega) (by omega)

/-- The words of a date stand between a name and a word that ends in a letter
or a digit. -/
theorem solid_of_spells {civil : CivilSecond} {text : Text} (spells : civil.Spells text) :
    Solid Text.isWhitespace text := by
  have short : ∀ name ∈ days, name ≠ [] ∧ ∀ letter ∈ name.head?, Text.isWhitespace letter = false := by
    simp [days, Text.isWhitespace]
  have long : ∀ name ∈ longDays, name ≠ [] ∧
      ∀ letter ∈ name.head?, Text.isWhitespace letter = false := by
    simp [longDays, Text.isWhitespace]
  have zone : ∀ letter ∈ " GMT".toList.getLast?, Text.isWhitespace letter = false := by
    simp [Text.isWhitespace]
  cases spells with
  | @fixdate name isName =>
      obtain ⟨nonempty, first⟩ := short name isName
      refine ⟨fun letter member => first letter ?_, fun letter member => ?_⟩
      · rwa [CivilSecond.fixdate, List.head?_append_of_ne_nil _ nonempty] at member
      · rw [CivilSecond.fixdate] at member
        iterate 9 rw [List.getLast?_append_of_ne_nil _ (by simp)] at member
        exact zone letter member
  | @rfc850 name isName pivot =>
      obtain ⟨nonempty, first⟩ := long name isName
      refine ⟨fun letter member => first letter ?_, fun letter member => ?_⟩
      · rwa [CivilSecond.rfc850, List.head?_append_of_ne_nil _ nonempty] at member
      · rw [CivilSecond.rfc850] at member
        iterate 9 rw [List.getLast?_append_of_ne_nil _ (by simp)] at member
        exact zone letter member
  | @asctime name day isName isDay =>
      obtain ⟨nonempty, first⟩ := short name isName
      have year : padded 4 civil.date.year ≠ [] := fun isNil => by
        have length := length_padded (show 0 < 4 by decide)
          (show civil.date.year < 10 ^ 4 by have := civil.spelled; omega)
        rw [isNil] at length
        cases length
      refine ⟨fun letter member => first letter ?_, fun letter member => ?_⟩
      · rwa [CivilSecond.asctime, List.head?_append_of_ne_nil _ nonempty] at member
      · rw [CivilSecond.asctime] at member
        iterate 7 rw [List.getLast?_append_of_ne_nil _ (by simp)] at member
        rw [List.getLast?_append_of_ne_nil _ year] at member
        exact isWhitespace_of_isDigit (Numeral.isDigit_of_mem_fixed (List.mem_of_mem_getLast? member))

theorem parse_of_spells {civil : CivilSecond} {text : Text} (spells : civil.Spells text) :
    parse text = some (ofSeconds civil.seconds) := by
  have read : parseSeconds text = some civil.seconds := by
    refine parseSeconds_eq_some_iff.mpr ⟨civil, ?_, rfl⟩
    rwa [Text.trim, trimBy_of_solid (solid_of_spells spells)]
  rw [parse, read]
  rfl

/-! ## Writing -/

/-- The first second past the years that are spelled. -/
def rangeEnd : Nat :=
  afterLast.number.toNat * 86400

theorem exists_civilSecond {seconds : Nat} (within : seconds < rangeEnd) :
    ∃ civil : CivilSecond, civil.seconds = seconds ∧ civil.clock.second < 60 := by
  obtain ⟨date, isNumber, -⟩ := exists_civilFromDays (Int.natCast_nonneg (seconds / 86400))
  have isEnd : rangeEnd = 2932897 * 86400 := by decide +kernel
  refine ⟨⟨date, ⟨seconds % 86400 / 3600, seconds % 86400 % 3600 / 60, seconds % 86400 % 60,
    by omega, by omega, by omega⟩, number_nonneg_iff.mp (by omega),
    number_lt_iff_year_le.mp (by omega)⟩, ?_, by simp only; omega⟩
  simp only [CivilSecond.seconds, Clock.seconds, isNumber]
  omega

theorem Clock.seconds_lt {clock : Clock} (short : clock.second < 60) : clock.seconds < 86400 := by
  have hour := clock.isHour
  have minute := clock.isMinute
  simp only [Clock.seconds]
  omega

/-- The seconds of a day are cut into hours, minutes and seconds. -/
theorem Clock.cut {clock : Clock} (short : clock.second < 60) :
    clock.seconds / 3600 = clock.hour ∧ clock.seconds % 3600 / 60 = clock.minute ∧
      clock.seconds % 60 = clock.second := by
  have minute := clock.isMinute
  simp only [Clock.seconds]
  omega

/-- An instant within a civil second is written as that second, unless it is a
leap second. -/
theorem exists_format {civil : CivilSecond} {time : SystemTime} (after : 0 ≤ time)
    (within : time.toNat / nanosecond = civil.seconds) (short : civil.clock.second < 60) :
    ∃ name ∈ days, format time = some (civil.fixdate name) := by
  have inDay := Clock.seconds_lt short
  have dayCount : civil.seconds / 86400 = civil.date.number.toNat := by
    rw [CivilSecond.seconds]
    omega
  have rest : civil.seconds % 86400 = civil.clock.seconds := by
    rw [CivilSecond.seconds]
    omega
  obtain ⟨hours, minutes, seconds⟩ := Clock.cut short
  have number := number_nonneg_iff.mpr civil.epoch
  have date := civilFromDays_number number
  rw [← Int.toNat_of_nonneg number] at date
  have notPast : ¬(9999 : Int) < civil.date.year := not_lt.mpr (Int.ofNat_le.mpr civil.spelled)
  have weekday : (civil.date.number.toNat % 7 + 3) % 7 < 7 := Nat.mod_lt _ (by decide)
  refine ⟨days.getD ((civil.date.number.toNat % 7 + 3) % 7) [], ?_, ?_⟩
  · generalize (civil.date.number.toNat % 7 + 3) % 7 = index at weekday
    interval_cases index <;> decide
  · simp only [format, if_neg (not_lt.mpr after), within, dayCount, rest, date, hours, minutes,
      seconds, if_neg notPast]
    simp [CivilSecond.fixdate, monthName, Clock.text, List.intercalate]

theorem rangeEnd_eq : rangeEnd = 253402300800 := by
  decide +kernel

theorem toNat_div_lt_iff {time : SystemTime} (after : 0 ≤ time) :
    time.toNat / nanosecond < rangeEnd ↔ time < ofSeconds rangeEnd := by
  have positive : 0 < nanosecond := by decide
  rw [Nat.div_lt_iff_lt_mul positive, ofSeconds, ← Int.ofNat_lt, Int.toNat_of_nonneg after]

/-- Only instants of the years that are spelled are written. -/
theorem format_of_outside {time : SystemTime} (outside : time < 0 ∨ ofSeconds rangeEnd ≤ time) :
    format time = none := by
  unfold format
  split
  · rfl
  · rename_i after
    rw [not_lt] at after
    have late : rangeEnd ≤ time.toNat / nanosecond := by
      rcases outside with before | late
      · exact absurd after (not_le.mpr before)
      · exact not_lt.mp fun within => absurd ((toNat_div_lt_iff after).mp within) (not_lt.mpr late)
    generalize time.toNat / nanosecond = seconds at late
    obtain ⟨date, number, computed⟩ := exists_civilFromDays (Int.natCast_nonneg (seconds / 86400))
    have past : (9999 : Int) < date.year := by
      by_contra spelled
      have below := number_lt_iff_year_le.mpr (Int.ofNat_le.mp (not_lt.mp spelled))
      rw [rangeEnd_eq] at late
      omega
    simp only [computed, if_pos past]

/-! ## Order -/

/-- One civil second is earlier than another. -/
def CivilSecond.Before (civil other : CivilSecond) : Prop :=
  civil.date.Before other.date ∨ (civil.date = other.date ∧
    civil.clock.seconds < other.clock.seconds)

/-- Earlier civil seconds are earlier instants. -/
theorem CivilSecond.seconds_lt {civil other : CivilSecond} (before : civil.Before other)
    (short : civil.clock.second < 60) : civil.seconds < other.seconds := by
  have inDay := Clock.seconds_lt short
  simp only [CivilSecond.seconds]
  rcases before with before | ⟨sameDate, before⟩
  · have less := CivilDate.number_lt before
    have first := number_nonneg_iff.mpr civil.epoch
    omega
  · rw [sameDate]
    omega

/-! ## The round trip -/

/-- Instants and HTTP dates. An instant is written exactly in the years from
1970 to 9999, and is read back cut to whole seconds. Every spelling of a civil
second is read as its instant, and a text that is read spells the civil second
that is written again, unless it is a leap second. Later dates have greater day
numbers, and later civil seconds are later instants. -/
theorem dates_round_trip :
    (∀ time : SystemTime, 0 ≤ time → time < ofSeconds rangeEnd → ∃ text, format time = some text ∧
      parse text = some (ofSeconds (time.toNat / nanosecond))) ∧
    (∀ time : SystemTime, time < 0 ∨ ofSeconds rangeEnd ≤ time → format time = none) ∧
    (∀ (civil : CivilSecond) (text : Text), civil.Spells text →
      parse text = some (ofSeconds civil.seconds)) ∧
    (∀ (value : Text) (time : SystemTime), parse value = some time →
      ∃ civil : CivilSecond, civil.Spells (Text.trim value) ∧ time = ofSeconds civil.seconds ∧
        (civil.clock.second < 60 → ∃ name ∈ days, format time = some (civil.fixdate name))) ∧
    (∀ (date other : CivilDate) (number otherNumber : Int),
      daysFromCivil date.year date.month date.day = some number →
      daysFromCivil other.year other.month other.day = some otherNumber →
      (number < otherNumber ↔ date.Before other)) ∧
    ∀ civil other : CivilSecond, civil.clock.second < 60 → civil.Before other →
      ofSeconds civil.seconds < ofSeconds other.seconds := by
  have whole : ∀ seconds : Nat, (ofSeconds seconds).toNat / nanosecond = seconds := fun seconds =>
    Nat.mul_div_cancel seconds (by decide)
  refine ⟨?_, fun time => format_of_outside, fun civil text => parse_of_spells, ?_, ?_, ?_⟩
  · intro time after within
    obtain ⟨civil, isSecond, short⟩ := exists_civilSecond ((toNat_div_lt_iff after).mpr within)
    obtain ⟨name, isName, written⟩ := exists_format after isSecond.symm short
    exact ⟨_, written, by rw [parse_of_spells (.fixdate isName), isSecond]⟩
  · intro value time read
    obtain ⟨seconds, readSeconds, rfl⟩ := Option.map_eq_some_iff.mp read
    obtain ⟨civil, spells, rfl⟩ := parseSeconds_eq_some_iff.mp readSeconds
    exact ⟨civil, spells, rfl, exists_format (Int.natCast_nonneg _) (whole _)⟩
  · intro date other number otherNumber isNumber isOther
    rw [daysFromCivil_eq, Option.some.injEq] at isNumber isOther
    rw [← isNumber, ← isOther]
    exact CivilDate.number_lt_iff
  · intro civil other short before
    have less := CivilSecond.seconds_lt before short
    exact Int.ofNat_lt.mpr (Nat.mul_lt_mul_of_pos_right less (by decide))

end Kynos.Http.Date
