import Mathlib.Computability.Language
import Mathlib.Data.List.ModifyLast

/-!
# Languages of words led by a separator

A list of words is spelled with a separator before each of them. Spelling
carries a language over words, whose letters are words, to a language over
letters: concatenation to concatenation, choice to choice, repetition to
repetition. A grammar that puts the separator before every word is so a grammar
of lists, and lists are read word by word.
-/

namespace Kynos.Word

open scoped Computability

universe u

variable {α : Type u}

/-! ## Letters, options and bounded repetition -/

/-- The words of one letter that satisfies a predicate. -/
def letters (accepts : α → Prop) : Language α :=
  { word | ∃ letter, accepts letter ∧ word = [letter] }

/-- A word of a language, or none. -/
def optional (words : Language α) : Language α :=
  1 + words

/-- At least `least` and at most `most` words of a language. -/
def repeated (least most : Nat) (words : Language α) : Language α :=
  { word | ∃ count, least ≤ count ∧ count ≤ most ∧ word ∈ words ^ count }

variable {accepts : α → Prop} {words rest : Language α} {letter : α} {word : List α}

theorem mem_letters_pow {count : Nat} :
    word ∈ letters accepts ^ count ↔ word.length = count ∧ ∀ letter ∈ word, accepts letter := by
  induction count generalizing word with
  | zero => simp +contextual [List.length_eq_zero_iff]
  | succ count ih =>
      rw [pow_succ', Language.mem_mul]
      constructor
      · rintro ⟨_, ⟨letter, isLetter, rfl⟩, word, member, rfl⟩
        obtain ⟨length, all⟩ := ih.mp member
        exact ⟨by simp [length], List.forall_mem_cons.mpr ⟨isLetter, all⟩⟩
      · rintro ⟨length, all⟩
        cases word with
        | nil => cases length
        | cons letter word =>
            obtain ⟨isLetter, others⟩ := List.forall_mem_cons.mp all
            exact ⟨[letter], ⟨letter, isLetter, rfl⟩, word,
              ih.mpr ⟨Nat.succ_injective length, others⟩, rfl⟩

/-- A bounded repetition of letters is a word of that length. -/
theorem mem_repeated_letters {least most : Nat} :
    word ∈ repeated least most (letters accepts) ↔
      (least ≤ word.length ∧ word.length ≤ most) ∧ ∀ letter ∈ word, accepts letter := by
  constructor
  · rintro ⟨count, above, below, member⟩
    obtain ⟨rfl, all⟩ := mem_letters_pow.mp member
    exact ⟨⟨above, below⟩, all⟩
  · rintro ⟨⟨above, below⟩, all⟩
    exact ⟨word.length, above, below, mem_letters_pow.mpr ⟨rfl, all⟩⟩

/-- Any number of letters is a word of such letters. -/
theorem mem_kstar_letters : word ∈ (letters accepts)∗ ↔ ∀ letter ∈ word, accepts letter := by
  rw [Language.kstar_eq_iSup_pow, Language.mem_iSup]
  simp only [mem_letters_pow]
  exact ⟨fun ⟨_, _, all⟩ => all, fun all => ⟨word.length, rfl, all⟩⟩

/-! ## Reading a language from the front -/

theorem nil_mem_mul : [] ∈ words * rest ↔ [] ∈ words ∧ [] ∈ rest := by
  simp only [Language.mem_mul, List.append_eq_nil_iff]
  exact ⟨fun ⟨_, inWords, _, inRest, isFirst, isSecond⟩ => ⟨isFirst ▸ inWords, isSecond ▸ inRest⟩,
    fun ⟨inWords, inRest⟩ => ⟨_, inWords, _, inRest, rfl, rfl⟩⟩

theorem nil_notMem_letters : [] ∉ letters accepts := by
  rintro ⟨letter, -, isNil⟩
  cases isNil

theorem cons_mem_letters_mul :
    letter :: word ∈ letters accepts * rest ↔ accepts letter ∧ word ∈ rest := by
  rw [Language.mem_mul]
  constructor
  · rintro ⟨_, ⟨other, accepted, rfl⟩, tail, inRest, joined⟩
    rw [List.singleton_append, List.cons.injEq] at joined
    obtain ⟨rfl, rfl⟩ := joined
    exact ⟨accepted, inRest⟩
  · rintro ⟨accepted, inRest⟩
    exact ⟨[letter], ⟨letter, accepted, rfl⟩, word, inRest, rfl⟩

theorem cons_mem_singleton_mul_iff {other : α} :
    letter :: word ∈ ({[other]} : Language α) * rest ↔ letter = other ∧ word ∈ rest := by
  rw [Language.mem_mul]
  constructor
  · rintro ⟨_, rfl, tail, inRest, joined⟩
    rw [List.singleton_append, List.cons.injEq] at joined
    obtain ⟨rfl, rfl⟩ := joined
    exact ⟨rfl, inRest⟩
  · rintro ⟨rfl, inRest⟩
    exact ⟨[letter], rfl, word, inRest, rfl⟩

theorem cons_mem_singleton_mul (member : word ∈ rest) :
    letter :: word ∈ ({[letter]} : Language α) * rest :=
  cons_mem_singleton_mul_iff.mpr ⟨rfl, member⟩

theorem mem_add_left (member : word ∈ words) (rest : Language α) : word ∈ words + rest :=
  .inl member

theorem mem_add_right (words : Language α) (member : word ∈ rest) : word ∈ words + rest :=
  .inr member

theorem optional_mul : optional words * rest = rest + words * rest := by
  rw [optional, add_mul, one_mul]

theorem kstar_mul : words∗ * rest = rest + words * (words∗ * rest) := by
  conv_lhs => rw [← Language.one_add_self_mul_kstar_eq_kstar, add_mul, one_mul, mul_assoc]

theorem mem_optional_mul : word ∈ optional words * rest ↔ word ∈ rest ∨ word ∈ words * rest := by
  rw [optional_mul, Language.mem_add]

theorem mem_kstar_mul :
    word ∈ words∗ * rest ↔ word ∈ rest ∨ word ∈ words * (words∗ * rest) := by
  rw [← Language.mem_add, ← kstar_mul]

/-- No repetition, or a first word and one repetition fewer. -/
theorem repeated_succ (most : Nat) :
    repeated 0 (most + 1) words = 1 + words * repeated 0 most words := by
  ext word
  rw [Language.mem_add, Language.mem_one, Language.mem_mul]
  constructor
  · rintro ⟨count, -, below, member⟩
    cases count with
    | zero => exact .inl (by simpa using member)
    | succ count =>
        rw [pow_succ', Language.mem_mul] at member
        obtain ⟨first, inWords, others, inOthers, joined⟩ := member
        exact .inr ⟨first, inWords, others, ⟨count, Nat.zero_le _, by omega, inOthers⟩, joined⟩
  · rintro (rfl | ⟨first, inWords, others, ⟨count, -, below, inOthers⟩, rfl⟩)
    · exact ⟨0, le_rfl, Nat.zero_le _, by simp⟩
    · refine ⟨count + 1, Nat.zero_le _, by omega, ?_⟩
      rw [pow_succ']
      exact Language.append_mem_mul inWords inOthers

theorem repeated_zero : repeated 0 0 words = 1 := by
  ext word
  constructor
  · rintro ⟨count, -, below, member⟩
    obtain rfl : count = 0 := Nat.le_zero.mp below
    simpa using member
  · intro isNil
    exact ⟨0, le_rfl, le_rfl, by simpa using isNil⟩

/-! ## The letters of a language -/

/-- Every letter of every word of a language satisfies a predicate. -/
def Over (holds : α → Prop) (words : Language α) : Prop :=
  ∀ word ∈ words, ∀ letter ∈ word, holds letter

variable {holds : α → Prop}

theorem Over.one : Over holds 1 := by
  rintro _ rfl letter member
  cases member

theorem Over.letters (each : ∀ letter, accepts letter → holds letter) : Over holds (letters accepts) := by
  rintro _ ⟨letter, accepted, rfl⟩ other member
  rw [List.mem_singleton.mp member]
  exact each letter accepted

theorem Over.add (first : Over holds words) (second : Over holds rest) : Over holds (words + rest) :=
  fun word member => member.elim (first word) (second word)

theorem Over.mul (first : Over holds words) (second : Over holds rest) : Over holds (words * rest) := by
  intro word member letter inWord
  obtain ⟨left, inWords, right, inRest, rfl⟩ := Language.mem_mul.mp member
  rcases List.mem_append.mp inWord with inLeft | inRight
  · exact first left inWords letter inLeft
  · exact second right inRest letter inRight

theorem Over.kstar (each : Over holds words) : Over holds words∗ := by
  intro word member letter inWord
  obtain ⟨list, rfl, all⟩ := Language.mem_kstar.mp member
  obtain ⟨part, inList, inPart⟩ := List.mem_flatten.mp inWord
  exact each part (all part inList) letter inPart

theorem Over.optional (each : Over holds words) : Over holds (optional words) :=
  .add .one each

theorem Over.repeated (each : Over holds words) (least most : Nat) :
    Over holds (repeated least most words) := by
  rintro word ⟨count, -, -, member⟩ letter inWord
  obtain ⟨list, rfl, -, all⟩ := Language.mem_pow.mp member
  obtain ⟨part, inList, inPart⟩ := List.mem_flatten.mp inWord
  exact each part (all part inList) letter inPart

/-! ## Spelling lists of words -/

/-- Each word of a list with a separator before it. -/
def led (separator : α) (list : List (List α)) : List α :=
  list.flatMap (separator :: ·)

/-- The spellings of a language over words. -/
def ledBy (separator : α) (lists : Language (List α)) : Language α :=
  { word | ∃ list ∈ lists, word = led separator list }

variable {separator : α} {lists others : Language (List α)}

theorem led_append (first second : List (List α)) :
    led separator (first ++ second) = led separator first ++ led separator second :=
  List.flatMap_append

theorem ledBy_one : ledBy separator 1 = 1 := by
  ext word
  constructor
  · rintro ⟨_, rfl, rfl⟩
    rfl
  · rintro rfl
    exact ⟨[], rfl, rfl⟩

theorem ledBy_add : ledBy separator (lists + others) = ledBy separator lists + ledBy separator others := by
  ext word
  constructor
  · rintro ⟨list, inLists | inOthers, rfl⟩
    · exact .inl ⟨list, inLists, rfl⟩
    · exact .inr ⟨list, inOthers, rfl⟩
  · rintro (⟨list, inLists, rfl⟩ | ⟨list, inOthers, rfl⟩)
    · exact ⟨list, .inl inLists, rfl⟩
    · exact ⟨list, .inr inOthers, rfl⟩

theorem ledBy_mul : ledBy separator (lists * others) = ledBy separator lists * ledBy separator others := by
  ext word
  rw [Language.mem_mul]
  constructor
  · rintro ⟨_, ⟨first, inLists, second, inOthers, rfl⟩, rfl⟩
    exact ⟨_, ⟨first, inLists, rfl⟩, _, ⟨second, inOthers, rfl⟩, (led_append first second).symm⟩
  · rintro ⟨_, ⟨first, inLists, rfl⟩, _, ⟨second, inOthers, rfl⟩, rfl⟩
    exact ⟨first ++ second, Language.append_mem_mul inLists inOthers,
      (led_append first second).symm⟩

theorem ledBy_pow (count : Nat) : ledBy separator (lists ^ count) = ledBy separator lists ^ count := by
  induction count with
  | zero => rw [pow_zero, pow_zero, ledBy_one]
  | succ count ih => rw [pow_succ, pow_succ, ledBy_mul, ih]

theorem ledBy_kstar : ledBy separator lists∗ = (ledBy separator lists)∗ := by
  ext word
  rw [Language.kstar_eq_iSup_pow, Language.kstar_eq_iSup_pow, Language.mem_iSup]
  simp only [← ledBy_pow]
  constructor
  · rintro ⟨list, inStar, rfl⟩
    obtain ⟨count, inPower⟩ := Language.mem_iSup.mp inStar
    exact ⟨count, list, inPower, rfl⟩
  · rintro ⟨count, list, inPower, rfl⟩
    exact ⟨list, Language.mem_iSup.mpr ⟨count, inPower⟩, rfl⟩

theorem ledBy_optional : ledBy separator (optional lists) = optional (ledBy separator lists) := by
  rw [optional, optional, ledBy_add, ledBy_one]

theorem ledBy_repeated (least most : Nat) :
    ledBy separator (repeated least most lists) = repeated least most (ledBy separator lists) := by
  ext word
  constructor
  · rintro ⟨list, ⟨count, above, below, inPower⟩, rfl⟩
    exact ⟨count, above, below, ledBy_pow count ▸ ⟨list, inPower, rfl⟩⟩
  · rintro ⟨count, above, below, inPower⟩
    rw [← ledBy_pow] at inPower
    obtain ⟨list, inLists, rfl⟩ := inPower
    exact ⟨list, ⟨count, above, below, inLists⟩, rfl⟩

/-- A separator before a word of a language. -/
theorem ledBy_letters (words : Language α) :
    ledBy separator (letters (· ∈ words)) = {[separator]} * words := by
  ext word
  rw [Language.mem_mul]
  constructor
  · rintro ⟨_, ⟨spelled, inWords, rfl⟩, rfl⟩
    exact ⟨[separator], rfl, spelled, inWords, by simp [led]⟩
  · rintro ⟨_, rfl, spelled, inWords, rfl⟩
    exact ⟨[spelled], ⟨spelled, inWords, rfl⟩, by simp [led]⟩

/-- A list without its first separator. -/
theorem intercalate_eq_led (first : List α) (list : List (List α)) :
    [separator].intercalate (first :: list) = first ++ led separator list := by
  induction list generalizing first with
  | nil => simp [led]
  | cons second list ih =>
      rw [List.intercalate_cons_of_ne_nil (by simp), ih, List.append_assoc]
      rfl

end Kynos.Word
