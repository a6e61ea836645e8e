import Kynos.LanguageTag.Abnf

/-!
# Well-formed language tags

The walk over the subtags accepts exactly the grammar. For each position of the
walk the grammar has a language of what may follow, and a subtag leads from the
language of one position to that of the next.
-/

namespace Kynos.LanguageTag

open Kynos.Word Abnf
open scoped Computability

/-! ## The classes of subtags -/

theorem toNat_of_isAsciiAlphabetic {character : Char} (isAlpha : isAsciiAlphabetic character = true) :
    (97 ≤ character.toNat ∧ character.toNat ≤ 122) ∨ (65 ≤ character.toNat ∧ character.toNat ≤ 90) := by
  simp only [isAsciiAlphabetic, Bool.or_eq_true, Bool.and_eq_true, decide_eq_true_eq] at isAlpha
  exact isAlpha

theorem toNat_of_isAsciiAlphanumeric {character : Char}
    (isAlphanum : isAsciiAlphanumeric character = true) :
    48 ≤ character.toNat ∧ character.toNat ≤ 122 := by
  rw [isAsciiAlphanumeric, Bool.or_eq_true] at isAlphanum
  rcases isAlphanum with isAlpha | isDigit
  · have range := toNat_of_isAsciiAlphabetic isAlpha
    omega
  · have range := Text.toNat_of_isAsciiDigit isDigit
    omega

theorem not_isAsciiDigit_of_isAsciiAlphabetic {character : Char}
    (isAlpha : isAsciiAlphabetic character = true) : Text.isAsciiDigit character = false := by
  rw [Bool.eq_false_iff]
  intro isDigit
  have alpha := toNat_of_isAsciiAlphabetic isAlpha
  have digit := Text.toNat_of_isAsciiDigit isDigit
  omega

theorem length_utf8EncodeChar {character : Char} (ascii : character.toNat ≤ 127) :
    (String.utf8EncodeChar character).length = 1 := by
  have low : character.val.toNat ≤ 127 := ascii
  simp only [String.utf8EncodeChar, if_pos low, List.length_singleton]

/-- ASCII text has one octet a character. -/
theorem len_eq_length {text : Text} (ascii : ∀ character ∈ text, character.toNat ≤ 127) :
    len text = text.length := by
  induction text with
  | nil => rfl
  | cons character rest ih =>
      obtain ⟨first, others⟩ := List.forall_mem_cons.mp ascii
      have tail := ih others
      simp only [len, Text.toOctets, List.flatMap_cons, List.length_append,
        length_utf8EncodeChar first] at tail ⊢
      rw [tail, List.length_cons, Nat.add_comm]

/-- The letter that opens private use is an `x` in either case. -/
theorem isPrivate_iff {subtag : Text} : isPrivate subtag = true ↔
    ∃ character, subtag = [character] ∧ (character.toNat = 88 ∨ character.toNat = 120) := by
  have small : ∀ character : Char, Text.toAsciiLower character = 'x' ↔
      (character.toNat = 88 ∨ character.toNat = 120) := fun character => by
    rw [← Char.toNat_inj, Text.toNat_toAsciiLower]
    have isX : 'x'.toNat = 120 := rfl
    split <;> omega
  rw [isPrivate, Text.eqIgnoreAsciiCase, beq_iff_eq]
  show Text.toAsciiLowercase subtag = ['x'] ↔ _
  simp only [Text.toAsciiLowercase, List.map_eq_singleton_iff, small]

/-- The shape every subtag has. -/
structure Shaped (subtag : Text) : Prop where
  length : 1 ≤ subtag.length ∧ subtag.length ≤ 8
  alphanum : ∀ character ∈ subtag, isAsciiAlphanumeric character = true

theorem Shaped.len_eq {subtag : Text} (shaped : Shaped subtag) : len subtag = subtag.length :=
  len_eq_length fun character member => by
    have range := toNat_of_isAsciiAlphanumeric (shaped.alphanum character member)
    omega

theorem isSubtag_iff {subtag : Text} : isSubtag subtag = true ↔ Shaped subtag := by
  simp only [isSubtag, allAlphanum, Bool.and_eq_true, decide_eq_true_eq,
    List.all_eq_true, ne_eq]
  constructor
  · rintro ⟨⟨nonempty, short⟩, alphanum⟩
    have length := len_eq_length fun character member => by
      have range := toNat_of_isAsciiAlphanumeric (alphanum character member)
      show character.toNat ≤ 127
      omega
    exact ⟨by omega, alphanum⟩
  · intro shaped
    have length := shaped.len_eq
    have bounds := shaped.length
    exact ⟨⟨by omega, by omega⟩, shaped.alphanum⟩

section Classes

variable {subtag : Text} (shaped : Shaped subtag)

theorem allAlpha_iff : allAlpha subtag = true ↔
    ∀ character ∈ subtag, isAsciiAlphabetic character = true :=
  List.all_eq_true

theorem mem_repeated_alpha {least most : Nat} : subtag ∈ repeated least most alpha ↔
    (least ≤ subtag.length ∧ subtag.length ≤ most) ∧ allAlpha subtag = true := by
  rw [alpha, mem_repeated_letters, allAlpha_iff]

include shaped

theorem mem_repeated_alphanum {least most : Nat} : subtag ∈ repeated least most alphanum ↔
    least ≤ subtag.length ∧ subtag.length ≤ most := by
  rw [alphanum, mem_repeated_letters, and_iff_left shaped.alphanum]

theorem mem_extlang_iff : subtag ∈ repeated 3 3 alpha ↔
    len subtag = 3 ∧ allAlpha subtag = true := by
  rw [mem_repeated_alpha, shaped.len_eq]
  exact and_congr_left' (by omega)

theorem mem_script_iff : subtag ∈ script ↔ len subtag = 4 ∧ allAlpha subtag = true := by
  rw [script, mem_repeated_alpha, shaped.len_eq]
  exact and_congr_left' (by omega)

theorem mem_region_iff : subtag ∈ region ↔ (len subtag = 2 ∧ allAlpha subtag = true) ∨
    (len subtag = 3 ∧ allDigit subtag = true) := by
  rw [region, Language.mem_add, mem_repeated_alpha, digit, mem_repeated_letters, shaped.len_eq,
    allDigit, List.all_eq_true]
  exact or_congr (and_congr_left' (by omega)) (and_congr_left' (by omega))

theorem mem_variant_iff : subtag ∈ variant ↔ 5 ≤ len subtag ∨
    (len subtag = 4 ∧ startsWithDigit subtag = true) := by
  have length := shaped.length
  rw [variant, Language.mem_add, mem_repeated_alphanum shaped, shaped.len_eq]
  refine or_congr (by omega) ?_
  cases subtag with
  | nil => simp [digit, nil_mem_mul, nil_notMem_letters]
  | cons first rest =>
      have tail : ∀ character ∈ rest, isAsciiAlphanumeric character = true :=
        fun character member => shaped.alphanum character (List.mem_cons_of_mem _ member)
      rw [digit, cons_mem_letters_mul, alphanum, mem_repeated_letters, and_iff_left tail]
      simp only [startsWithDigit, List.head?_cons, Option.any_some, List.length_cons]
      constructor
      · rintro ⟨isDigit, bounds⟩
        exact ⟨by omega, isDigit⟩
      · rintro ⟨four, isDigit⟩
        exact ⟨isDigit, by omega⟩

theorem mem_singleton_iff : subtag ∈ singleton ↔ len subtag = 1 ∧ isPrivate subtag = false := by
  have notX : isPrivate subtag = false ↔
      ∀ character, subtag = [character] → character.toNat ≠ 88 ∧ character.toNat ≠ 120 := by
    rw [Bool.eq_false_iff, ne_eq, isPrivate_iff]
    simp only [not_exists, not_and, not_or]
  rw [shaped.len_eq, List.length_eq_one_iff, notX]
  constructor
  · rintro ⟨character, inRange, rfl⟩
    have codes : (48 ≤ character.toNat ∧ character.toNat ≤ 57) ∨
        (65 ≤ character.toNat ∧ character.toNat ≤ 87) ∨
        (89 ≤ character.toNat ∧ character.toNat ≤ 90) ∨
        (97 ≤ character.toNat ∧ character.toNat ≤ 119) ∨
        (121 ≤ character.toNat ∧ character.toNat ≤ 122) := inRange
    refine ⟨⟨character, rfl⟩, fun other same => ?_⟩
    rw [List.singleton_inj] at same
    subst other
    omega
  · rintro ⟨⟨character, rfl⟩, notPrivate⟩
    obtain ⟨notUpper, notLower⟩ := notPrivate character rfl
    have alphanum := shaped.alphanum character List.mem_cons_self
    refine ⟨character, ?_, rfl⟩
    show (48 ≤ character.toNat ∧ character.toNat ≤ 57) ∨
      (65 ≤ character.toNat ∧ character.toNat ≤ 87) ∨
      (89 ≤ character.toNat ∧ character.toNat ≤ 90) ∨
      (97 ≤ character.toNat ∧ character.toNat ≤ 119) ∨
      (121 ≤ character.toNat ∧ character.toNat ≤ 122)
    rw [isAsciiAlphanumeric, Bool.or_eq_true] at alphanum
    rcases alphanum with isAlpha | isDigit
    · have range := toNat_of_isAsciiAlphabetic isAlpha
      omega
    · have range := Text.toNat_of_isAsciiDigit isDigit
      omega

/-- A first letter that is a digit is no letter. -/
theorem not_allAlpha_of_startsWithDigit (isDigit : startsWithDigit subtag = true) :
    allAlpha subtag = false := by
  cases subtag with
  | nil => cases isDigit
  | cons first rest =>
      rw [Bool.eq_false_iff, ne_eq, allAlpha_iff]
      intro alpha
      have digit := not_isAsciiDigit_of_isAsciiAlphabetic (alpha first List.mem_cons_self)
      rw [startsWithDigit, List.head?_cons, Option.any_some, digit] at isDigit
      cases isDigit

/-- Digits are no letters. -/
theorem not_allAlpha_of_allDigit (digits : allDigit subtag = true) : allAlpha subtag = false := by
  have length := shaped.length
  rw [allDigit, List.all_eq_true] at digits
  cases subtag with
  | nil => cases length.1
  | cons first rest =>
      refine not_allAlpha_of_startsWithDigit shaped ?_
      exact digits first List.mem_cons_self

/-- No subtag is of two classes. -/
theorem classes_apart :
    ((len subtag = 2 ∧ allAlpha subtag = true) ∨ (len subtag = 3 ∧ allDigit subtag = true) →
      ¬(5 ≤ len subtag ∨ (len subtag = 4 ∧ startsWithDigit subtag = true))) ∧
    (len subtag = 4 ∧ allAlpha subtag = true →
      ¬(5 ≤ len subtag ∨ (len subtag = 4 ∧ startsWithDigit subtag = true)) ∧
      ¬((len subtag = 2 ∧ allAlpha subtag = true) ∨ (len subtag = 3 ∧ allDigit subtag = true))) ∧
    (len subtag = 3 ∧ allAlpha subtag = true →
      ¬(5 ≤ len subtag ∨ (len subtag = 4 ∧ startsWithDigit subtag = true)) ∧
      ¬((len subtag = 2 ∧ allAlpha subtag = true) ∨ (len subtag = 3 ∧ allDigit subtag = true)) ∧
      ¬(len subtag = 4 ∧ allAlpha subtag = true)) := by
  have digitFirst := not_allAlpha_of_startsWithDigit shaped
  have digits := not_allAlpha_of_allDigit shaped
  refine ⟨by omega, ?_, ?_⟩
  · rintro ⟨four, alpha⟩
    refine ⟨?_, by omega⟩
    rintro (long | ⟨-, isDigit⟩)
    · omega
    · rw [digitFirst isDigit] at alpha
      cases alpha
  · rintro ⟨three, alpha⟩
    refine ⟨by omega, ?_, by omega⟩
    rintro (⟨two, -⟩ | ⟨-, isDigits⟩)
    · omega
    · rw [digits isDigits] at alpha
      cases alpha

end Classes

theorem len_of_isPrivate {subtag : Text} (opens : isPrivate subtag = true) : len subtag = 1 := by
  obtain ⟨character, rfl, isX⟩ := isPrivate_iff.mp opens
  exact len_eq_length (by simp only [List.mem_singleton, forall_eq]; omega)

theorem mem_literal_x_iff {subtag : Text} : subtag ∈ literal ['x'] ↔ isPrivate subtag = true :=
  Iff.rfl

/-! ## The grammar read from the front -/

theorem cons_mem_subtag_mul {word : Language Char} {next : Language Text} {first : Text}
    {rest : List Text} : first :: rest ∈ subtag word * next ↔ first ∈ word ∧ rest ∈ next :=
  cons_mem_letters_mul

/-- A run of subtags of a class is not empty. -/
theorem mem_run_iff {word : Language Char} {rest : List Text} (all : ∀ subtag ∈ rest, subtag ∈ word) :
    rest ∈ subtag word * (subtag word)∗ ↔ rest ≠ [] := by
  cases rest with
  | nil => simp [nil_mem_mul, Abnf.subtag, nil_notMem_letters]
  | cons first rest =>
      obtain ⟨isFirst, others⟩ := List.forall_mem_cons.mp all
      refine iff_of_true ?_ (List.cons_ne_nil first rest)
      refine cons_mem_subtag_mul.mpr ⟨isFirst, Language.mem_kstar.mpr
        ⟨rest.map fun subtag => [subtag], (List.flatMap_singleton' rest).symm, ?_⟩⟩
      intro word member
      obtain ⟨subtag, inRest, rfl⟩ := List.mem_map.mp member
      exact ⟨subtag, others subtag inRest, rfl⟩

theorem mem_optional_subtag_mul {word : Language Char} {next : Language Text} {first : Text}
    {rest : List Text} : first :: rest ∈ optional (subtag word) * next ↔
      first :: rest ∈ next ∨ (first ∈ word ∧ rest ∈ next) := by
  rw [mem_optional_mul, cons_mem_subtag_mul]

theorem mem_kstar_subtag_mul {word : Language Char} {next : Language Text} {first : Text}
    {rest : List Text} : first :: rest ∈ (subtag word)∗ * next ↔
      first :: rest ∈ next ∨ (first ∈ word ∧ rest ∈ (subtag word)∗ * next) := by
  rw [mem_kstar_mul, cons_mem_subtag_mul]

theorem mem_repeated_subtag_mul {word : Language Char} {next : Language Text} {first : Text}
    {rest : List Text} (most : Nat) : first :: rest ∈ repeated 0 (most + 1) (subtag word) * next ↔
      first :: rest ∈ next ∨ (first ∈ word ∧ rest ∈ repeated 0 most (subtag word) * next) := by
  rw [repeated_succ, add_mul, one_mul, Language.mem_add, mul_assoc, cons_mem_subtag_mul]

/-- The rest of an extension, and what follows it. -/
def withinExtension : Language Text :=
  (subtag (repeated 2 8 alphanum))∗ * afterVariants

theorem mem_afterVariants {first : Text} {rest : List Text} (shaped : ∀ subtag ∈ rest, Shaped subtag) :
    first :: rest ∈ afterVariants ↔ (isPrivate first = true ∧ rest ≠ []) ∨
      (first ∈ singleton ∧ rest ∈ subtag (repeated 2 8 alphanum) * withinExtension) := by
  have tails : rest ∈ subtag (repeated 1 8 alphanum) * (subtag (repeated 1 8 alphanum))∗ ↔
      rest ≠ [] :=
    mem_run_iff fun subtag member =>
      (mem_repeated_alphanum (shaped subtag member)).mpr (shaped subtag member).length
  have isPrivates : first :: rest ∈ optional privates ↔ isPrivate first = true ∧ rest ≠ [] := by
    rw [Word.optional, Language.mem_add, privates, cons_mem_subtag_mul, tails, mem_literal_x_iff,
      Language.mem_one, or_iff_right (by simp)]
  rw [afterVariants, mem_kstar_mul, isPrivates, extensions, mul_assoc, mul_assoc,
    cons_mem_subtag_mul]
  rfl

theorem nil_mem_afterVariants : [] ∈ afterVariants :=
  nil_mem_mul.mpr ⟨Language.nil_mem_kstar _, .inl rfl⟩

/-! ## The walk -/

/-- What the grammar admits after a position. -/
def Position.remaining (position : Position) : Language Text :=
  if position.inExtensions then
    withinExtension
  else if position.seenRegion then
    afterRegion
  else if position.seenScript then
    afterScript
  else if position.extlangAllowed then
    repeated 0 (3 - position.extlangs) (subtag (repeated 3 3 alpha)) * afterLanguage
  else
    afterLanguage

theorem Position.nil_mem_remaining (position : Position) : [] ∈ position.remaining := by
  have region : [] ∈ afterRegion :=
    nil_mem_mul.mpr ⟨Language.nil_mem_kstar _, nil_mem_afterVariants⟩
  have script : [] ∈ afterScript := nil_mem_mul.mpr ⟨.inl rfl, region⟩
  have language : [] ∈ afterLanguage := nil_mem_mul.mpr ⟨.inl rfl, script⟩
  unfold Position.remaining
  split
  · exact nil_mem_mul.mpr ⟨Language.nil_mem_kstar _, nil_mem_afterVariants⟩
  · split
    · exact region
    · split
      · exact script
      · split
        · exact nil_mem_mul.mpr ⟨⟨0, le_rfl, Nat.zero_le _, by simp⟩, language⟩
        · exact language

section Step

variable {first : Text} {rest : List Text} (shaped : Shaped first)

include shaped

theorem mem_afterRegion : first :: rest ∈ afterRegion ↔ first :: rest ∈ afterVariants ∨
    ((5 ≤ len first ∨ (len first = 4 ∧ startsWithDigit first = true)) ∧ rest ∈ afterRegion) := by
  rw [afterRegion, mem_kstar_subtag_mul, mem_variant_iff shaped]

theorem mem_afterScript : first :: rest ∈ afterScript ↔ first :: rest ∈ afterRegion ∨
    (((len first = 2 ∧ allAlpha first = true) ∨ (len first = 3 ∧ allDigit first = true)) ∧
      rest ∈ afterRegion) := by
  rw [afterScript, mem_optional_subtag_mul, mem_region_iff shaped]

theorem mem_afterLanguage : first :: rest ∈ afterLanguage ↔ first :: rest ∈ afterScript ∨
    ((len first = 4 ∧ allAlpha first = true) ∧ rest ∈ afterScript) := by
  rw [afterLanguage, mem_optional_subtag_mul, mem_script_iff shaped]

theorem mem_extlangs (most : Nat) :
    first :: rest ∈ repeated 0 (most + 1) (subtag (repeated 3 3 alpha)) * afterLanguage ↔
      first :: rest ∈ afterLanguage ∨ ((len first = 3 ∧ allAlpha first = true) ∧
        rest ∈ repeated 0 most (subtag (repeated 3 3 alpha)) * afterLanguage) := by
  rw [mem_repeated_subtag_mul, mem_extlang_iff shaped]

theorem mem_withinExtension : first :: rest ∈ withinExtension ↔ first :: rest ∈ afterVariants ∨
    (2 ≤ len first ∧ rest ∈ withinExtension) := by
  have length := shaped.length
  have long : first ∈ repeated 2 8 alphanum ↔ 2 ≤ len first := by
    rw [mem_repeated_alphanum shaped, shaped.len_eq]
    omega
  rw [withinExtension, mem_kstar_subtag_mul, long]

omit shaped in
/-- A longer subtag is not the start of an extension or of private use. -/
theorem notMem_afterVariants (shaped : Shaped first) (others : ∀ subtag ∈ rest, Shaped subtag)
    (long : len first ≠ 1) : first :: rest ∉ afterVariants := by
  rw [mem_afterVariants others, mem_singleton_iff shaped]
  rintro (⟨opens, -⟩ | ⟨⟨short, -⟩, -⟩)
  · exact long (len_of_isPrivate opens)
  · exact long short

/-- Before the script, three letters may be a further language where one is
left. -/
theorem remaining_of_start {extlangAllowed : Bool} {extlangs : Nat} : first :: rest ∈
    (⟨extlangAllowed, extlangs, false, false, false⟩ : Position).remaining ↔
      first :: rest ∈ afterLanguage ∨ (extlangAllowed = true ∧ extlangs < 3 ∧
        (len first = 3 ∧ allAlpha first = true) ∧
        rest ∈ (⟨extlangAllowed, extlangs + 1, false, false, false⟩ : Position).remaining) := by
  cases extlangAllowed with
  | false => exact (or_iff_left fun admitted => Bool.false_ne_true admitted.1).symm
  | true =>
      show first :: rest ∈ repeated 0 (3 - extlangs) (subtag (repeated 3 3 alpha)) * afterLanguage ↔
        first :: rest ∈ afterLanguage ∨ (true = true ∧ extlangs < 3 ∧
          (len first = 3 ∧ allAlpha first = true) ∧
          rest ∈ repeated 0 (3 - (extlangs + 1)) (subtag (repeated 3 3 alpha)) * afterLanguage)
      by_cases few : extlangs < 3
      · obtain ⟨left, isLeft⟩ : ∃ left, 3 - extlangs = left + 1 := ⟨2 - extlangs, by omega⟩
        have fewer : 3 - (extlangs + 1) = left := by omega
        rw [isLeft, fewer, mem_extlangs shaped, and_iff_right rfl, and_iff_right few]
      · have none : 3 - extlangs = 0 := by omega
        rw [none, repeated_zero, one_mul, or_iff_left fun admitted => few admitted.2.1]

/-- A subtag of one letter ends whatever came before it. -/
theorem Position.mem_remaining_of_len (position : Position) (short : len first = 1) :
    first :: rest ∈ position.remaining ↔ first :: rest ∈ afterVariants := by
  have region : first :: rest ∈ afterRegion ↔ first :: rest ∈ afterVariants := by
    simp [mem_afterRegion shaped, short]
  have script : first :: rest ∈ afterScript ↔ first :: rest ∈ afterVariants := by
    simp [mem_afterScript shaped, region, short]
  have language : first :: rest ∈ afterLanguage ↔ first :: rest ∈ afterVariants := by
    simp [mem_afterLanguage shaped, script, short]
  unfold Position.remaining
  split
  · simp [mem_withinExtension shaped, short]
  · split
    · exact region
    · split
      · exact script
      · split
        · cases 3 - position.extlangs with
          | zero => rw [repeated_zero, one_mul, language]
          | succ most => simp [mem_extlangs shaped, language, short]
        · exact language

end Step

theorem isOk_ok : (Except.ok () : Except TagDefect Unit).isOk = true :=
  rfl

theorem isOk_error (defect : TagDefect) : (Except.error defect : Except TagDefect Unit).isOk = false :=
  rfl

/-- Before the extensions, a longer subtag is read as the first class that has
room for it. No subtag is of two classes that have room at once. -/
theorem langtag_cons_of_long {first : Text} {rest : List Text} (shaped : Shaped first)
    (others : ∀ subtag ∈ rest, Shaped subtag) (long : len first ≠ 1)
    (walk : ∀ position : Position,
      (langtag position rest).isOk = true ↔ rest ∈ position.remaining)
    {extlangAllowed seenScript seenRegion : Bool} {extlangs : Nat} :
    (langtag ⟨extlangAllowed, extlangs, seenScript, seenRegion, false⟩ (first :: rest)).isOk = true ↔
      first :: rest ∈
        (⟨extlangAllowed, extlangs, seenScript, seenRegion, false⟩ : Position).remaining := by
  have notPrivate : isPrivate first = false :=
    Bool.eq_false_iff.mpr fun opens => long (len_of_isPrivate opens)
  have notEnd := notMem_afterVariants shaped others long
  have region : first :: rest ∈ afterRegion ↔ _ := mem_afterRegion shaped
  have script : first :: rest ∈ afterScript ↔ _ := mem_afterScript shaped
  have language : first :: rest ∈ afterLanguage ↔ _ := mem_afterLanguage shaped
  obtain ⟨notVariant, notRegion, notScript⟩ := classes_apart shaped
  rw [or_iff_right notEnd] at region
  have afterVariant : (langtag ⟨extlangAllowed, extlangs, true, true, false⟩ rest).isOk = true ↔
      rest ∈ afterRegion := walk _
  have readsVariant : (if 5 ≤ len first ∨ (len first = 4 ∧ startsWithDigit first = true) then
      langtag ⟨extlangAllowed, extlangs, true, true, false⟩ rest
        else .error .misplaced).isOk = true ↔ first :: rest ∈ afterRegion := by
    rw [region]
    split
    · rename_i isVariant
      rw [afterVariant, and_iff_right isVariant]
    · rename_i noVariant
      exact iff_of_false (by simp [isOk_error]) fun admitted => noVariant admitted.1
  have readsRegion : (if (len first = 2 ∧ allAlpha first = true) ∨
      (len first = 3 ∧ allDigit first = true) then
        langtag ⟨extlangAllowed, extlangs, true, true, false⟩ rest
      else if 5 ≤ len first ∨ (len first = 4 ∧ startsWithDigit first = true) then
        langtag ⟨extlangAllowed, extlangs, true, true, false⟩ rest
      else .error .misplaced).isOk = true ↔ first :: rest ∈ afterScript := by
    rw [script]
    split
    · rename_i isRegion
      have noVariant : first :: rest ∉ afterRegion := fun admitted =>
        notVariant isRegion (region.mp admitted).1
      rw [afterVariant, or_iff_right noVariant, and_iff_right isRegion]
    · rename_i noRegion
      have notRead : ¬(((len first = 2 ∧ allAlpha first = true) ∨
          (len first = 3 ∧ allDigit first = true)) ∧ rest ∈ afterRegion) :=
        fun admitted => noRegion admitted.1
      rw [or_iff_left notRead, readsVariant]
  rw [langtag.eq_def]
  simp only [notPrivate, long, Bool.false_eq_true, if_false]
  cases seenRegion with
  | true =>
      simp only [Bool.not_true, Bool.false_eq_true, false_and, and_false, if_false]
      exact readsVariant
  | false =>
      cases seenScript with
      | true =>
          simp only [Bool.not_true, Bool.not_false, Bool.false_eq_true, false_and, and_false,
            true_and, if_false]
          exact readsRegion
      | false =>
          have noScript : len first = 3 ∧ allAlpha first = true → first :: rest ∉ afterLanguage := by
            intro isExtlang admitted
            obtain ⟨noVariant, noRegion, noScript⟩ := notScript isExtlang
            rw [language, script, region] at admitted
            rcases admitted with (admitted | admitted) | admitted
            · exact noVariant admitted.1
            · exact noRegion admitted.1
            · exact noScript admitted.1
          simp only [Bool.not_false, true_and]
          rw [remaining_of_start shaped]
          split
          · rename_i isExtlang
            obtain ⟨allowed, few, isExtlang⟩ := isExtlang
            rw [walk, or_iff_right (noScript isExtlang)]
            simp only [allowed, few, isExtlang, true_and, and_self]
          · rename_i noExtlang
            have notRead : ¬(extlangAllowed = true ∧ extlangs < 3 ∧
                (len first = 3 ∧ allAlpha first = true) ∧
                rest ∈ (⟨extlangAllowed, extlangs + 1, false, false, false⟩ : Position).remaining) :=
              fun admitted => noExtlang ⟨admitted.1, admitted.2.1, admitted.2.2.1⟩
            rw [or_iff_left notRead, language]
            split
            · rename_i isScript
              obtain ⟨noVariant, noRegion⟩ := notRegion isScript
              have notEarlier : first :: rest ∉ afterScript := fun admitted =>
                (script.mp admitted).elim (fun admitted => noVariant (region.mp admitted).1)
                  fun admitted => noRegion admitted.1
              rw [walk, or_iff_right notEarlier, and_iff_right isScript]
              rfl
            · rename_i noScript
              have notRead : ¬((len first = 4 ∧ allAlpha first = true) ∧ rest ∈ afterScript) :=
                fun admitted => noScript admitted.1
              rw [or_iff_left notRead, readsRegion]

/-- The walk from a position accepts what the grammar admits after it. -/
theorem langtag_isOk_iff {subtags : List Text} (shaped : ∀ subtag ∈ subtags, Shaped subtag)
    (position : Position) :
    (langtag position subtags).isOk = true ↔ subtags ∈ position.remaining := by
  induction subtags generalizing position with
  | nil => exact iff_of_true rfl position.nil_mem_remaining
  | cons first rest ih =>
      obtain ⟨shape, others⟩ := List.forall_mem_cons.mp shaped
      have walk := ih others
      by_cases opens : isPrivate first = true
      · rw [langtag.eq_def, position.mem_remaining_of_len shape (len_of_isPrivate opens),
          mem_afterVariants others, mem_singleton_iff shape]
        simp only [opens, if_true]
        cases rest <;> simp [isOk_ok, isOk_error]
      · rw [Bool.not_eq_true] at opens
        by_cases short : len first = 1
        · rw [langtag.eq_def, position.mem_remaining_of_len shape short, mem_afterVariants others,
            mem_singleton_iff shape]
          simp only [opens, short, if_true, Bool.false_eq_true, if_false, false_and, and_self,
            true_and, false_or]
          cases rest with
          | nil => simp [isOk_error, nil_mem_mul, Abnf.subtag, nil_notMem_letters]
          | cons next rest =>
              obtain ⟨nextShape, afterNext⟩ := List.forall_mem_cons.mp others
              have bounds := nextShape.length
              have long : next ∈ repeated 2 8 alphanum ↔ 2 ≤ len next := by
                rw [mem_repeated_alphanum nextShape, nextShape.len_eq]
                omega
              rw [cons_mem_subtag_mul, long]
              dsimp only
              split
              · exact iff_of_false (by simp [isOk_error]) (by omega)
              · have enough : 2 ≤ len next := by omega
                rw [walk, and_iff_right enough]
                show next :: rest ∈ withinExtension ↔ _
                rw [mem_withinExtension nextShape, or_iff_right
                  (notMem_afterVariants nextShape afterNext (by omega)), and_iff_right enough]
        · have notEnd := notMem_afterVariants shape others short
          have length := shape.length
          rw [← shape.len_eq] at length
          obtain ⟨extlangAllowed, extlangs, seenScript, seenRegion, inExtensions⟩ := position
          cases inExtensions with
          | true =>
              rw [langtag.eq_def]
              simp only [opens, short, Bool.false_eq_true, if_false, if_true]
              rw [walk]
              show _ ↔ first :: rest ∈ withinExtension
              rw [mem_withinExtension shape, or_iff_right notEnd, and_iff_right (by omega)]
              rfl
          | false =>
              exact langtag_cons_of_long shape others short walk

end Kynos.LanguageTag
