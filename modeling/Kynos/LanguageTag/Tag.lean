import Kynos.LanguageTag.Case

/-!
# The strings that are language tags

A string is well formed exactly where the grammar generates it, and its stored
form is one more spelling of the same tag.
-/

namespace Kynos.LanguageTag

open Kynos.Word Abnf
open scoped Computability

/-! ## Lists of subtags the grammar generates -/

/-- A primary language and the subtags after it. -/
def Langtag (first : Text) (rest : List Text) : Prop :=
  (first ∈ repeated 2 3 alpha ∧ rest ∈ Word.optional extlangs * afterLanguage) ∨
    (first ∈ repeated 4 4 alpha + repeated 5 8 alpha ∧ rest ∈ afterLanguage)

/-- An `x` and subtags of private use. -/
def Privateuse (first : Text) (rest : List Text) : Prop :=
  first ∈ literal ['x'] ∧
    rest ∈ subtag (repeated 1 8 alphanum) * (subtag (repeated 1 8 alphanum))∗

theorem optional_extlangs :
    Word.optional extlangs = repeated 0 3 (subtag (repeated 3 3 alpha)) := by
  rw [repeated_succ 2]
  rfl

theorem mem_langtag_iff {text : Text} : text ∈ Abnf.langtag ↔
    ∃ first rest, text = first ++ led '-' rest ∧ Langtag first rest := by
  have productions : Abnf.langtag =
      repeated 2 3 alpha * ledBy '-' (Word.optional extlangs * afterLanguage) +
        (repeated 4 4 alpha + repeated 5 8 alpha) * ledBy '-' afterLanguage := by
    rw [Abnf.langtag, language, ← ledBy_afterLanguage, ledBy_mul, ledBy_optional, ledBy_extlangs,
      ← mul_assoc, ← add_mul, add_assoc]
  rw [productions, Language.mem_add, Language.mem_mul, Language.mem_mul]
  constructor
  · rintro (⟨first, isFirst, _, ⟨rest, isRest, rfl⟩, rfl⟩ | ⟨first, isFirst, _, ⟨rest, isRest, rfl⟩, rfl⟩)
    · exact ⟨first, rest, rfl, .inl ⟨isFirst, isRest⟩⟩
    · exact ⟨first, rest, rfl, .inr ⟨isFirst, isRest⟩⟩
  · rintro ⟨first, rest, rfl, ⟨isFirst, isRest⟩ | ⟨isFirst, isRest⟩⟩
    · exact .inl ⟨first, isFirst, _, ⟨rest, isRest, rfl⟩, rfl⟩
    · exact .inr ⟨first, isFirst, _, ⟨rest, isRest, rfl⟩, rfl⟩

theorem mem_privateuse_iff {text : Text} : text ∈ privateuse ↔
    ∃ first rest, text = first ++ led '-' rest ∧ Privateuse first rest := by
  have production : privateuse = literal ['x'] * ledBy '-'
      (subtag (repeated 1 8 alphanum) * (subtag (repeated 1 8 alphanum))∗) := by
    rw [privateuse, ledBy_mul, ledBy_kstar, ledBy_subtag]
  rw [production, Language.mem_mul]
  constructor
  · rintro ⟨first, isFirst, _, ⟨rest, isRest, rfl⟩, rfl⟩
    exact ⟨first, rest, rfl, isFirst, isRest⟩
  · rintro ⟨first, rest, rfl, isFirst, isRest⟩
    exact ⟨first, isFirst, _, ⟨rest, isRest, rfl⟩, rfl⟩

/-! ## Their shape -/

theorem shaped_of_alpha {least most : Nat} (bounds : 1 ≤ least ∧ most ≤ 8) {subtag : Text}
    (member : subtag ∈ repeated least most alpha) : Shaped subtag := by
  obtain ⟨length, alpha⟩ := mem_repeated_alpha.mp member
  refine ⟨by omega, fun character inSubtag => ?_⟩
  rw [isAsciiAlphanumeric, allAlpha_iff.mp alpha character inSubtag]
  rfl

theorem shaped_of_digit {least most : Nat} (bounds : 1 ≤ least ∧ most ≤ 8) {subtag : Text}
    (member : subtag ∈ repeated least most digit) : Shaped subtag := by
  obtain ⟨length, digits⟩ := mem_repeated_letters.mp member
  refine ⟨by omega, fun character inSubtag => ?_⟩
  rw [isAsciiAlphanumeric, digits character inSubtag, Bool.or_true]

theorem shaped_of_alphanum {least most : Nat} (bounds : 1 ≤ least ∧ most ≤ 8) {subtag : Text}
    (member : subtag ∈ repeated least most alphanum) : Shaped subtag := by
  obtain ⟨length, alphanum⟩ := mem_repeated_letters.mp member
  exact ⟨by omega, alphanum⟩

theorem shaped_of_variant {subtag : Text} (member : subtag ∈ variant) : Shaped subtag := by
  rcases member with long | ⟨_, ⟨first, isDigit, rfl⟩, rest, member, rfl⟩
  · exact shaped_of_alphanum (by decide) long
  · obtain ⟨length, alphanum⟩ := mem_repeated_letters.mp member
    have isAlphanum : isAsciiAlphanumeric first = true := by
      rw [isAsciiAlphanumeric, isDigit, Bool.or_true]
    exact ⟨by simp only [List.singleton_append, List.length_cons]; omega,
      List.forall_mem_cons.mpr ⟨isAlphanum, alphanum⟩⟩

/-- One letter or digit is a subtag. -/
theorem shaped_of_code {character : Char}
    (code : (48 ≤ character.toNat ∧ character.toNat ≤ 57) ∨
      (65 ≤ character.toNat ∧ character.toNat ≤ 90) ∨
        (97 ≤ character.toNat ∧ character.toNat ≤ 122)) : Shaped [character] := by
  refine ⟨⟨le_rfl, by simp⟩, fun other member => ?_⟩
  rw [List.mem_singleton.mp member]
  simp only [isAsciiAlphanumeric, isAsciiAlphabetic, Text.isAsciiDigit, Bool.or_eq_true,
    Bool.and_eq_true, decide_eq_true_eq]
  show ((97 ≤ character.toNat ∧ character.toNat ≤ 122) ∨
    (65 ≤ character.toNat ∧ character.toNat ≤ 90)) ∨ (48 ≤ character.toNat ∧ character.toNat ≤ 57)
  omega

theorem shaped_of_isPrivate {subtag : Text} (opens : isPrivate subtag = true) : Shaped subtag := by
  obtain ⟨character, rfl, isX⟩ := isPrivate_iff.mp opens
  exact shaped_of_code (by omega)

theorem shaped_of_singleton {subtag : Text} (member : subtag ∈ singleton) : Shaped subtag := by
  obtain ⟨character, inRange, rfl⟩ := member
  have codes : (48 ≤ character.toNat ∧ character.toNat ≤ 57) ∨
      (65 ≤ character.toNat ∧ character.toNat ≤ 87) ∨
      (89 ≤ character.toNat ∧ character.toNat ≤ 90) ∨
      (97 ≤ character.toNat ∧ character.toNat ≤ 119) ∨
      (121 ≤ character.toNat ∧ character.toNat ≤ 122) := inRange
  exact shaped_of_code (by omega)

theorem over_subtag {word : Language Char} (shaped : ∀ subtag ∈ word, Shaped subtag) :
    Over Shaped (subtag word) :=
  .letters shaped

theorem over_run : Over Shaped
    (subtag (repeated 1 8 alphanum) * (subtag (repeated 1 8 alphanum))∗) := by
  have each : Over Shaped (subtag (repeated 1 8 alphanum)) :=
    over_subtag fun _ => shaped_of_alphanum (by decide)
  exact each.mul each.kstar

theorem over_afterLanguage : Over Shaped afterLanguage := by
  have extensionSubtag : Over Shaped (subtag (repeated 2 8 alphanum)) :=
    over_subtag fun _ => shaped_of_alphanum (by decide)
  have extensions : Over Shaped extensions :=
    (over_subtag fun _ => shaped_of_singleton).mul (extensionSubtag.mul extensionSubtag.kstar)
  have privates : Over Shaped privates :=
    (over_subtag fun _ => shaped_of_isPrivate).mul over_run
  have scripts : Over Shaped (subtag script) := over_subtag fun _ => shaped_of_alpha (by decide)
  have regions : Over Shaped (subtag region) := over_subtag fun _ member =>
    member.elim (shaped_of_alpha (by decide)) (shaped_of_digit (by decide))
  have variants : Over Shaped (subtag variant) := over_subtag fun _ => shaped_of_variant
  exact scripts.optional.mul (regions.optional.mul (variants.kstar.mul
    (extensions.kstar.mul privates.optional)))

theorem over_extlangs : Over Shaped (Word.optional extlangs) := by
  have each : Over Shaped (subtag (repeated 3 3 alpha)) :=
    over_subtag fun _ => shaped_of_alpha (by decide)
  exact (each.mul (each.repeated 0 2)).optional

theorem Langtag.shaped {first : Text} {rest : List Text} (tag : Langtag first rest) :
    ∀ subtag ∈ first :: rest, Shaped subtag := by
  rcases tag with ⟨isFirst, isRest⟩ | ⟨isFirst | isFirst, isRest⟩
  · exact List.forall_mem_cons.mpr ⟨shaped_of_alpha (by decide) isFirst,
      (over_extlangs.mul over_afterLanguage) rest isRest⟩
  · exact List.forall_mem_cons.mpr ⟨shaped_of_alpha (by decide) isFirst,
      over_afterLanguage rest isRest⟩
  · exact List.forall_mem_cons.mpr ⟨shaped_of_alpha (by decide) isFirst,
      over_afterLanguage rest isRest⟩

theorem Privateuse.shaped {first : Text} {rest : List Text} (tag : Privateuse first rest) :
    ∀ subtag ∈ first :: rest, Shaped subtag :=
  List.forall_mem_cons.mpr ⟨shaped_of_isPrivate tag.1, over_run rest tag.2⟩

/-! ## The reader accepts the grammar -/

theorem Langtag.primary {first : Text} {rest : List Text} (tag : Langtag first rest) :
    (2 ≤ first.length ∧ first.length ≤ 8) ∧ allAlpha first = true := by
  rcases tag with ⟨isFirst, -⟩ | ⟨isFirst | isFirst, -⟩
  all_goals
    obtain ⟨bounds, alpha⟩ := mem_repeated_alpha.mp isFirst
    exact ⟨by omega, alpha⟩

/-- After a primary language the walk starts in the position of its length. -/
theorem langtag_iff_remaining {first : Text} {rest : List Text} (shaped : Shaped first)
    (bounds : 2 ≤ len first) (allLetters : allAlpha first = true) :
    Langtag first rest ↔ rest ∈ (Position.start (len first ≤ 3)).remaining := by
  have length := shaped.length
  rw [shaped.len_eq] at bounds ⊢
  simp only [Langtag, Language.mem_add, mem_repeated_alpha, allLetters, and_true]
  by_cases short : first.length ≤ 3
  · have allowed : decide (first.length ≤ 3) = true := decide_eq_true short
    rw [allowed, optional_extlangs]
    show _ ↔ rest ∈ repeated 0 (3 - 0) (subtag (repeated 3 3 alpha)) * afterLanguage
    rw [and_iff_right ⟨bounds, short⟩, or_iff_left fun other => by omega]
  · have notAllowed : decide (first.length ≤ 3) = false := decide_eq_false short
    rw [notAllowed]
    show _ ↔ rest ∈ afterLanguage
    rw [or_iff_right fun other => short other.1.2, and_iff_right (by omega)]

/-- Subtags are accepted exactly where they are shaped and the grammar
generates them. -/
theorem checkSubtags_isOk_iff {first : Text} {rest : List Text} :
    (checkSubtags (first :: rest)).isOk = true ↔ Langtag first rest ∨ Privateuse first rest := by
  by_cases shaped : ∀ subtag ∈ first :: rest, Shaped subtag
  · have shapes : (first :: rest).all isSubtag = true :=
      List.all_eq_true.mpr fun subtag member => isSubtag_iff.mpr (shaped subtag member)
    obtain ⟨shape, others⟩ := List.forall_mem_cons.mp shaped
    have run : rest ∈ subtag (repeated 1 8 alphanum) * (subtag (repeated 1 8 alphanum))∗ ↔
        rest ≠ [] :=
      mem_run_iff fun subtag member =>
        (mem_repeated_alphanum (others subtag member)).mpr (others subtag member).length
    rw [checkSubtags, shapes]
    simp only [Bool.not_true, Bool.false_eq_true, if_false]
    split
    · rename_i opens
      have notLanguage : ¬Langtag first rest := by
        have one := len_of_isPrivate opens
        rw [shape.len_eq] at one
        rintro (⟨isFirst, -⟩ | ⟨isFirst | isFirst, -⟩)
        all_goals
          have bounds := (mem_repeated_alpha.mp isFirst).1
          omega
      rw [or_iff_right notLanguage, Privateuse, mem_literal_x_iff, run, and_iff_right opens]
      cases rest <;> simp [isOk_ok, isOk_error]
    · rename_i notPrivate
      have notPrivateuse : ¬Privateuse first rest := fun tag => notPrivate tag.1
      rw [or_iff_left notPrivateuse]
      split
      · rename_i outside
        refine iff_of_false (by simp [isOk_error]) fun tag => ?_
        obtain ⟨bounds, alpha⟩ := tag.primary
        rw [← shape.len_eq] at bounds
        rw [alpha] at outside
        simp only [Bool.not_true, Bool.false_eq_true, or_false] at outside
        omega
      · rename_i primary
        simp only [not_or, Bool.not_eq_true', Bool.not_eq_false] at primary
        obtain ⟨above, below, alpha⟩ := primary
        rw [langtag_isOk_iff others, langtag_iff_remaining shape (by omega) alpha]
  · have shapes : (first :: rest).all isSubtag = false := by
      rw [Bool.eq_false_iff, ne_eq, List.all_eq_true]
      exact fun all => shaped fun subtag member => isSubtag_iff.mp (all subtag member)
    rw [checkSubtags, shapes]
    refine iff_of_false (by simp [isOk_error]) ?_
    rintro (tag | tag)
    · exact shaped tag.shaped
    · exact shaped tag.shaped

/-- The subtags of a tag are recovered by splitting it. -/
theorem splitOn_of_shaped {first : Text} {rest : List Text}
    (shaped : ∀ subtag ∈ first :: rest, Shaped subtag) :
    (first ++ led '-' rest).splitOn '-' = first :: rest := by
  rw [← intercalate_eq_led]
  refine List.splitOn_intercalate '-' (fun subtag member hyphen => ?_) (List.cons_ne_nil first rest)
  have alphanum := (shaped subtag member).alphanum '-' hyphen
  cases alphanum

theorem checkSubtags_splitOn_isOk_iff {value : Text} :
    (checkSubtags (value.splitOn '-')).isOk = true ↔ value ∈ Abnf.langtag ∨ value ∈ privateuse := by
  rw [mem_langtag_iff, mem_privateuse_iff]
  constructor
  · intro accepted
    have joined : ['-'].intercalate (value.splitOn '-') = value := List.intercalate_splitOn '-'
    cases subtags : value.splitOn '-' with
    | nil => exact absurd subtags (List.splitOn_ne_nil _ _)
    | cons first rest =>
        rw [subtags, intercalate_eq_led] at joined
        rw [subtags, checkSubtags_isOk_iff] at accepted
        exact accepted.imp (fun tag => ⟨first, rest, joined.symm, tag⟩)
          fun tag => ⟨first, rest, joined.symm, tag⟩
  · rintro (⟨first, rest, rfl, tag⟩ | ⟨first, rest, rfl, tag⟩)
    · rw [splitOn_of_shaped tag.shaped]
      exact checkSubtags_isOk_iff.mpr (.inl tag)
    · rw [splitOn_of_shaped tag.shaped]
      exact checkSubtags_isOk_iff.mpr (.inr tag)

/-- The tags registered before the grammar are accepted. -/
theorem check_grandfathered : ∀ word ∈ Abnf.irregular ++ Abnf.regular, (check word).isOk = true := by
  decide +kernel

/-- A string is well formed exactly where the grammar generates it. -/
theorem isWellFormed_iff {value : Text} : isWellFormed value = true ↔ value ∈ Abnf.languageTag := by
  rw [Abnf.languageTag, Language.mem_add, Language.mem_add, ← checkSubtags_splitOn_isOk_iff]
  constructor
  · intro accepted
    rw [isWellFormed, check] at accepted
    split at accepted
    · cases accepted
    · split at accepted
      · rename_i isIrregular
        obtain ⟨word, member, same⟩ := List.any_eq_true.mp isIrregular
        exact .inr ⟨word, List.mem_append_left _ member, same⟩
      · exact .inl accepted
  · rintro (accepted | ⟨word, member, same⟩)
    · rw [isWellFormed, check]
      split
      · rename_i isEmpty
        rw [List.isEmpty_iff.mp isEmpty] at accepted
        cases accepted
      · split
        · rfl
        · exact accepted
    · rw [isWellFormed, check_congr same]
      exact check_grandfathered word member

/-- Language tags. A string is well formed exactly where the grammar generates
it. The stored form of a tag is well formed, is the tag but for its case, is its
own stored form, and is the stored form of every string that is the tag but for
its case. -/
theorem tag_grammar (value : Text) :
    (isWellFormed value = true ↔ value ∈ Abnf.languageTag) ∧
      (isWellFormed value = true →
        parse value = .ok (normalize value) ∧ isWellFormed (normalize value) = true ∧
        Text.eqIgnoreAsciiCase (normalize value) value = true ∧
        normalize (normalize value) = normalize value ∧
        ∀ other, Text.eqIgnoreAsciiCase other value = true →
          isWellFormed other = true ∧ normalize other = normalize value) := by
  refine ⟨isWellFormed_iff, fun accepted => ⟨?_, ?_, normalize_eqIgnoreAsciiCase value,
    normalize_congr (normalize_eqIgnoreAsciiCase value), fun other same => ⟨?_, normalize_congr same⟩⟩⟩
  · rw [parse]
    cases checked : check value with
    | ok => rfl
    | error defect =>
        rw [isWellFormed, checked] at accepted
        cases accepted
  · rwa [isWellFormed, check_congr (normalize_eqIgnoreAsciiCase value)]
  · rwa [isWellFormed, check_congr same]

end Kynos.LanguageTag
