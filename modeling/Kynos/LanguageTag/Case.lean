import Kynos.LanguageTag.WellFormed

/-!
# Language tags in any case

Neither the reader nor the stored form depends on the case of the letters, and
the stored form is the tag it stores, in another case.
-/

namespace Kynos.LanguageTag

/-! ## Letters in either case -/

theorem toNat_toAsciiUpper (character : Char) : (toAsciiUpper character).toNat =
    if 97 ≤ character.toNat ∧ character.toNat ≤ 122 then character.toNat - 32 else character.toNat := by
  have lower : ('a' ≤ character ∧ character ≤ 'z') ↔
      (97 ≤ character.toNat ∧ character.toNat ≤ 122) := Iff.rfl
  rw [toAsciiUpper]
  simp only [lower]
  split
  · exact Text.toNat_ofNat (by omega)
  · rfl

theorem toAsciiLower_toAsciiLower (character : Char) :
    Text.toAsciiLower (Text.toAsciiLower character) = Text.toAsciiLower character := by
  rw [← Char.toNat_inj, Text.toNat_toAsciiLower, Text.toNat_toAsciiLower]
  split_ifs <;> omega

theorem toAsciiLower_toAsciiUpper (character : Char) :
    Text.toAsciiLower (toAsciiUpper character) = Text.toAsciiLower character := by
  rw [← Char.toNat_inj, Text.toNat_toAsciiLower, Text.toNat_toAsciiLower, toNat_toAsciiUpper]
  split_ifs <;> omega

theorem toAsciiUpper_toAsciiLower (character : Char) :
    toAsciiUpper (Text.toAsciiLower character) = toAsciiUpper character := by
  rw [← Char.toNat_inj, toNat_toAsciiUpper, toNat_toAsciiUpper, Text.toNat_toAsciiLower]
  split_ifs <;> omega

theorem isAsciiAlphabetic_toAsciiLower (character : Char) :
    isAsciiAlphabetic (Text.toAsciiLower character) = isAsciiAlphabetic character := by
  have codes : ∀ character : Char, isAsciiAlphabetic character = true ↔
      (97 ≤ character.toNat ∧ character.toNat ≤ 122) ∨
        (65 ≤ character.toNat ∧ character.toNat ≤ 90) := fun character => by
    simp only [isAsciiAlphabetic, Bool.or_eq_true, Bool.and_eq_true, decide_eq_true_eq]
    exact Iff.rfl
  rw [Bool.eq_iff_iff, codes, codes, Text.toNat_toAsciiLower]
  split <;> omega

theorem isAsciiDigit_toAsciiLower (character : Char) :
    Text.isAsciiDigit (Text.toAsciiLower character) = Text.isAsciiDigit character := by
  have codes : ∀ character : Char, Text.isAsciiDigit character = true ↔
      (48 ≤ character.toNat ∧ character.toNat ≤ 57) := fun character => by
    simp only [Text.isAsciiDigit, Bool.and_eq_true, decide_eq_true_eq]
    exact Iff.rfl
  rw [Bool.eq_iff_iff, codes, codes, Text.toNat_toAsciiLower]
  split <;> omega

/-- A letter has as many octets in either case. -/
theorem length_utf8EncodeChar_toAsciiLower (character : Char) :
    (String.utf8EncodeChar (Text.toAsciiLower character)).length =
      (String.utf8EncodeChar character).length := by
  by_cases upper : 65 ≤ character.toNat ∧ character.toNat ≤ 90
  · rw [length_utf8EncodeChar, length_utf8EncodeChar]
    · omega
    · rw [Text.toNat_toAsciiLower, if_pos upper]
      omega
  · have same : Text.toAsciiLower character = character := by
      rw [← Char.toNat_inj, Text.toNat_toAsciiLower, if_neg upper]
    rw [same]

/-! ## Subtags in either case -/

theorem len_toAsciiLowercase (text : Text) : len (Text.toAsciiLowercase text) = len text := by
  simp only [len, Text.toOctets, Text.toAsciiLowercase, List.flatMap_map, List.length_flatMap,
    length_utf8EncodeChar_toAsciiLower]

theorem all_toAsciiLowercase {accepts : Char → Bool}
    (kept : ∀ character, accepts (Text.toAsciiLower character) = accepts character) (text : Text) :
    (Text.toAsciiLowercase text).all accepts = text.all accepts := by
  rw [Text.toAsciiLowercase, List.all_map]
  exact congrArg text.all (funext kept)

theorem allAlpha_toAsciiLowercase (text : Text) :
    allAlpha (Text.toAsciiLowercase text) = allAlpha text :=
  all_toAsciiLowercase isAsciiAlphabetic_toAsciiLower text

theorem allDigit_toAsciiLowercase (text : Text) :
    allDigit (Text.toAsciiLowercase text) = allDigit text :=
  all_toAsciiLowercase isAsciiDigit_toAsciiLower text

theorem isSubtag_toAsciiLowercase (text : Text) :
    isSubtag (Text.toAsciiLowercase text) = isSubtag text := by
  have alphanum : allAlphanum (Text.toAsciiLowercase text) = allAlphanum text :=
    all_toAsciiLowercase (fun character => by
      simp only [isAsciiAlphanumeric, isAsciiAlphabetic_toAsciiLower, isAsciiDigit_toAsciiLower]) text
  rw [isSubtag, isSubtag, len_toAsciiLowercase, alphanum]

theorem startsWithDigit_toAsciiLowercase (text : Text) :
    startsWithDigit (Text.toAsciiLowercase text) = startsWithDigit text := by
  cases text with
  | nil => rfl
  | cons first rest => exact isAsciiDigit_toAsciiLower first

theorem toAsciiLowercase_toAsciiLowercase (text : Text) :
    Text.toAsciiLowercase (Text.toAsciiLowercase text) = Text.toAsciiLowercase text := by
  simp only [Text.toAsciiLowercase, List.map_map]
  exact List.map_congr_left fun character _ => toAsciiLower_toAsciiLower character

theorem eqIgnoreAsciiCase_toAsciiLowercase (text other : Text) :
    Text.eqIgnoreAsciiCase (Text.toAsciiLowercase text) other = Text.eqIgnoreAsciiCase text other := by
  rw [Text.eqIgnoreAsciiCase, Text.eqIgnoreAsciiCase, toAsciiLowercase_toAsciiLowercase]

theorem isPrivate_toAsciiLowercase (text : Text) :
    isPrivate (Text.toAsciiLowercase text) = isPrivate text :=
  eqIgnoreAsciiCase_toAsciiLowercase text ['x']

/-- The walk is the same in lower case. -/
theorem langtag_map_toAsciiLowercase (subtags : List Text) (position : Position) :
    langtag position (subtags.map Text.toAsciiLowercase) = langtag position subtags := by
  induction subtags generalizing position with
  | nil => rfl
  | cons first rest ih =>
      rw [List.map_cons, langtag.eq_def, langtag.eq_def position (first :: rest)]
      simp only [isPrivate_toAsciiLowercase, len_toAsciiLowercase, allAlpha_toAsciiLowercase,
        allDigit_toAsciiLowercase, startsWithDigit_toAsciiLowercase, ih]
      cases rest with
      | nil => rfl
      | cons next rest => simp only [List.map_cons, len_toAsciiLowercase, List.isEmpty_cons]

theorem checkSubtags_map_toAsciiLowercase (subtags : List Text) :
    checkSubtags (subtags.map Text.toAsciiLowercase) = checkSubtags subtags := by
  have shapes : (subtags.map Text.toAsciiLowercase).all isSubtag = subtags.all isSubtag := by
    rw [List.all_map]
    exact congrArg subtags.all (funext isSubtag_toAsciiLowercase)
  cases subtags with
  | nil => rfl
  | cons first rest =>
      rw [checkSubtags.eq_def, checkSubtags.eq_def (first :: rest), shapes]
      simp only [List.map_cons, isPrivate_toAsciiLowercase, len_toAsciiLowercase,
        allAlpha_toAsciiLowercase, langtag_map_toAsciiLowercase, List.isEmpty_map]

/-! ## Tags in either case -/

theorem toAsciiLower_eq_hyphen_iff (character : Char) :
    Text.toAsciiLower character = '-' ↔ character = '-' :=
  Text.toAsciiLower_eq_iff (by decide) character

/-- Splitting is the same where no letter becomes a separator or stops being
one. -/
theorem splitOn_map {each : Char → Char} {separator : Char}
    (kept : ∀ character, each character = separator ↔ character = separator) (value : Text) :
    List.splitOn separator (value.map each) = (value.splitOn separator).map (List.map each) := by
  induction value with
  | nil => rfl
  | cons character rest ih =>
      rw [List.map_cons, List.splitOn_cons_eq_if_modifyHead, List.splitOn_cons_eq_if_modifyHead, ih]
      simp only [beq_iff_eq, kept]
      split
      · rfl
      · cases rest.splitOn separator <;> rfl

/-- The subtags of a tag in lower case. -/
theorem splitOn_toAsciiLowercase (value : Text) :
    (Text.toAsciiLowercase value).splitOn '-' = (value.splitOn '-').map Text.toAsciiLowercase :=
  splitOn_map toAsciiLower_eq_hyphen_iff value

/-- The reader does not depend on the case. -/
theorem check_toAsciiLowercase (value : Text) : check (Text.toAsciiLowercase value) = check value := by
  have nonempty : (Text.toAsciiLowercase value).isEmpty = value.isEmpty := List.isEmpty_map
  simp only [check, nonempty, eqIgnoreAsciiCase_toAsciiLowercase, splitOn_toAsciiLowercase,
    checkSubtags_map_toAsciiLowercase]

theorem check_congr {value other : Text} (same : Text.eqIgnoreAsciiCase value other = true) :
    check value = check other := by
  rw [← check_toAsciiLowercase, ← check_toAsciiLowercase other, beq_iff_eq.mp same]

/-! ## The stored form -/

theorem titlecase_toAsciiLowercase (subtag : Text) :
    titlecase (Text.toAsciiLowercase subtag) = titlecase subtag := by
  cases subtag with
  | nil => rfl
  | cons first rest =>
      show toAsciiUpper (Text.toAsciiLower first) :: Text.toAsciiLowercase (Text.toAsciiLowercase rest) =
        toAsciiUpper first :: Text.toAsciiLowercase rest
      rw [toAsciiUpper_toAsciiLower, toAsciiLowercase_toAsciiLowercase]

theorem uppercase_toAsciiLowercase (subtag : Text) :
    uppercase (Text.toAsciiLowercase subtag) = uppercase subtag := by
  rw [uppercase, Text.toAsciiLowercase, List.map_map]
  exact List.map_congr_left fun character _ => toAsciiUpper_toAsciiLower character

theorem toAsciiLowercase_titlecase (subtag : Text) :
    Text.toAsciiLowercase (titlecase subtag) = Text.toAsciiLowercase subtag := by
  cases subtag with
  | nil => rfl
  | cons first rest =>
      show Text.toAsciiLower (toAsciiUpper first) :: Text.toAsciiLowercase (Text.toAsciiLowercase rest) =
        Text.toAsciiLower first :: Text.toAsciiLowercase rest
      rw [toAsciiLower_toAsciiUpper, toAsciiLowercase_toAsciiLowercase]

theorem toAsciiLowercase_uppercase (subtag : Text) :
    Text.toAsciiLowercase (uppercase subtag) = Text.toAsciiLowercase subtag := by
  rw [uppercase, Text.toAsciiLowercase, List.map_map]
  exact List.map_congr_left fun character _ => toAsciiLower_toAsciiUpper character

theorem normalizeRest_map_toAsciiLowercase (afterSingleton : Bool) (subtags : List Text) :
    normalizeRest afterSingleton (subtags.map Text.toAsciiLowercase) =
      normalizeRest afterSingleton subtags := by
  induction subtags generalizing afterSingleton with
  | nil => rfl
  | cons subtag rest ih =>
      simp only [List.map_cons, normalizeRest, len_toAsciiLowercase, titlecase_toAsciiLowercase,
        uppercase_toAsciiLowercase, toAsciiLowercase_toAsciiLowercase, ih]

theorem map_toAsciiLowercase_normalizeRest (afterSingleton : Bool) (subtags : List Text) :
    (normalizeRest afterSingleton subtags).map Text.toAsciiLowercase =
      subtags.map Text.toAsciiLowercase := by
  induction subtags generalizing afterSingleton with
  | nil => rfl
  | cons subtag rest ih =>
      rw [normalizeRest, List.map_cons, List.map_cons, ih]
      congr 1
      split
      · exact toAsciiLowercase_titlecase subtag
      · split
        · exact toAsciiLowercase_uppercase subtag
        · exact toAsciiLowercase_toAsciiLowercase subtag

/-- The stored form does not depend on the case. -/
theorem normalize_toAsciiLowercase (value : Text) :
    normalize (Text.toAsciiLowercase value) = normalize value := by
  rw [normalize, normalize, splitOn_toAsciiLowercase]
  congr 1
  cases value.splitOn '-' with
  | nil => rfl
  | cons first rest =>
      simp only [List.map_cons, normalizeSubtags, len_toAsciiLowercase,
        toAsciiLowercase_toAsciiLowercase, normalizeRest_map_toAsciiLowercase]

theorem normalize_congr {value other : Text} (same : Text.eqIgnoreAsciiCase value other = true) :
    normalize value = normalize other := by
  rw [← normalize_toAsciiLowercase, ← normalize_toAsciiLowercase other, beq_iff_eq.mp same]

theorem toAsciiLowercase_intercalate (subtags : List Text) :
    Text.toAsciiLowercase (['-'].intercalate subtags) =
      ['-'].intercalate (subtags.map Text.toAsciiLowercase) := by
  induction subtags with
  | nil => rfl
  | cons first rest ih =>
      cases rest with
      | nil => simp only [List.map_cons, List.map_nil, List.intercalate_singleton]
      | cons second rest =>
          rw [List.map_cons, List.intercalate_cons_cons, List.map_cons, List.intercalate_cons_cons,
            ← List.map_cons, ← ih]
          simp only [Text.toAsciiLowercase, List.map_append]
          rfl

/-- The stored form is the tag it stores, in another case. -/
theorem normalize_eqIgnoreAsciiCase (value : Text) :
    Text.eqIgnoreAsciiCase (normalize value) value = true := by
  have subtags : (normalizeSubtags (value.splitOn '-')).map Text.toAsciiLowercase =
      (value.splitOn '-').map Text.toAsciiLowercase := by
    cases value.splitOn '-' with
    | nil => rfl
    | cons first rest =>
        rw [normalizeSubtags, List.map_cons, List.map_cons, map_toAsciiLowercase_normalizeRest,
          toAsciiLowercase_toAsciiLowercase]
  rw [Text.eqIgnoreAsciiCase, beq_iff_eq, normalize, toAsciiLowercase_intercalate, subtags,
    ← splitOn_toAsciiLowercase, List.intercalate_splitOn]

end Kynos.LanguageTag
