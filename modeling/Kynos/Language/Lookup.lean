import Kynos.Language.Selected
import Kynos.LanguageTag.Tag

/-!
# Lookup and Basic Filtering

What RFC 4647 says of a single language range: the tag Lookup finds (section
3.4), and the tags Basic Filtering finds (section 3.3.1).
-/

namespace Kynos.Language

open Kynos.Choice Kynos.Http Kynos.LanguageTag Kynos.LanguageTag.Abnf Kynos.Word OrderDual
open scoped Computability

/-! ## Language ranges -/

/-- `language-range = (1*8ALPHA *("-" 1*8alphanum)) / "*"` -/
def languageRange : Language Char :=
  repeated 1 8 alpha * (dashed (repeated 1 8 alphanum))∗ + {['*']}

/-- The subtags of a language range. -/
theorem mem_languageRange_iff {range : Text} :
    range ∈ languageRange ↔ range = ['*'] ∨ ∃ first rest, range.splitOn '-' = first :: rest ∧
      first ∈ repeated 1 8 alpha ∧ ∀ subtag ∈ rest, subtag ∈ repeated 1 8 alphanum := by
  have production : languageRange =
      repeated 1 8 alpha * ledBy '-' (subtag (repeated 1 8 alphanum))∗ + {['*']} := by
    rw [languageRange, ledBy_kstar, ledBy_subtag]
  rw [production, Language.mem_add, Language.mem_mul, or_comm]
  refine or_congr Iff.rfl ?_
  constructor
  · rintro ⟨first, isFirst, _, ⟨rest, isRest, rfl⟩, rfl⟩
    have each := mem_kstar_letters.mp isRest
    have shaped : ∀ subtag ∈ first :: rest, Shaped subtag := List.forall_mem_cons.mpr
      ⟨shaped_of_alpha (by decide) isFirst, fun subtag member =>
        shaped_of_alphanum (by decide) (each subtag member)⟩
    exact ⟨first, rest, splitOn_of_shaped shaped, isFirst, each⟩
  · rintro ⟨first, rest, split, isFirst, each⟩
    have joined : ['-'].intercalate (range.splitOn '-') = range := List.intercalate_splitOn '-'
    rw [split, intercalate_eq_led] at joined
    exact ⟨first, isFirst, _, ⟨rest, mem_kstar_letters.mpr each, rfl⟩, joined⟩

/-- A subtag is in the grammar exactly where the reader finds no defect. -/
theorem isDefective_eq_false_iff {allowed : Char → Bool}
    (ascii : ∀ character, allowed character = true → character.toNat ≤ 127) {subtag : Text} :
    isDefective (·.all allowed) subtag = false ↔
      subtag ∈ repeated 1 8 (letters fun character => allowed character = true) := by
  rw [mem_repeated_letters, ← List.all_eq_true]
  simp only [isDefective, Bool.or_eq_false_iff, Bool.not_eq_false', decide_eq_false_iff_not,
    List.isEmpty_eq_false_iff, ← List.length_pos_iff]
  refine and_congr_left fun all => ?_
  rw [len_eq_length fun character member => ascii character (List.all_eq_true.mp all _ member)]
  omega

/-- The reader finds no defect exactly in a language range. -/
theorem rangeDefect_eq_none_iff {range : Text} :
    rangeDefect range = none ↔ range ∈ languageRange := by
  have alphabetic : ∀ subtag, isDefective allAlpha subtag = false ↔ subtag ∈ repeated 1 8 alpha :=
    fun subtag => isDefective_eq_false_iff fun character isAlpha => by
      have range := toNat_of_isAsciiAlphabetic isAlpha
      omega
  have alphanumeric : ∀ subtag,
      isDefective allAlphanum subtag = false ↔ subtag ∈ repeated 1 8 alphanum :=
    fun subtag => isDefective_eq_false_iff fun character isAlphanum => by
      have range := toNat_of_isAsciiAlphanumeric isAlphanum
      omega
  rw [mem_languageRange_iff, rangeDefect]
  by_cases empty : range = []
  · subst empty
    refine iff_of_false (by simp) ?_
    rintro (wild | ⟨first, rest, split, isFirst, -⟩)
    · cases wild
    · cases split
      have length := (mem_repeated_letters.mp isFirst).1
      simp at length
  · rw [if_neg (by simpa using empty)]
    by_cases wild : range = ['*']
    · simp [wild]
    · rw [if_neg wild]
      cases split : range.splitOn '-' with
      | nil => exact absurd split (List.splitOn_ne_nil _ _)
      | cons first rest =>
          have parts : (∃ first' rest', first :: rest = first' :: rest' ∧
              first' ∈ repeated 1 8 alpha ∧ ∀ subtag ∈ rest', subtag ∈ repeated 1 8 alphanum) ↔
              isDefective allAlpha first = false ∧ rest.any (isDefective allAlphanum) = false := by
            rw [alphabetic, List.any_eq_false]
            simp only [Bool.not_eq_true, alphanumeric]
            constructor
            · rintro ⟨_, _, ⟨⟩, defined⟩
              exact defined
            · exact fun defined => ⟨first, rest, rfl, defined⟩
          rw [parts]
          change (if isDefective allAlpha first then some RangeDefect.primarySubtag
            else if rest.any (isDefective allAlphanum) then some RangeDefect.subtag
            else none) = none ↔ _
          split
          next defective => simp [wild, defective]
          next sound =>
            split
            next defective => simp [wild, defective]
            next others => simp [wild, sound, others]

theorem isDefective_toAsciiLowercase {allowed : Text → Bool}
    (kept : ∀ subtag, allowed (Text.toAsciiLowercase subtag) = allowed subtag) (subtag : Text) :
    isDefective allowed (Text.toAsciiLowercase subtag) = isDefective allowed subtag := by
  have empty : (Text.toAsciiLowercase subtag).isEmpty = subtag.isEmpty := List.isEmpty_map
  rw [isDefective, isDefective, empty, len_toAsciiLowercase, kept]

theorem allAlphanum_toAsciiLowercase (subtag : Text) :
    allAlphanum (Text.toAsciiLowercase subtag) = allAlphanum subtag := by
  refine all_toAsciiLowercase (fun character => ?_) subtag
  simp only [isAsciiAlphanumeric, isAsciiAlphabetic_toAsciiLower, isAsciiDigit_toAsciiLower]

/-- The reader does not depend on the case of a range. -/
theorem rangeDefect_toAsciiLowercase (range : Text) :
    rangeDefect (Text.toAsciiLowercase range) = rangeDefect range := by
  have empty : (Text.toAsciiLowercase range).isEmpty = range.isEmpty := List.isEmpty_map
  have wild : Text.toAsciiLowercase range = ['*'] ↔ range = ['*'] := by
    have star := Text.toAsciiLower_eq_iff (show '*'.toNat < 65 ∨ _ from .inl (by decide))
    simp only [Text.toAsciiLowercase, List.map_eq_singleton_iff, star, exists_eq_right]
  rw [rangeDefect, rangeDefect, empty]
  by_cases star : range = ['*']
  · rw [if_pos star, if_pos (wild.mpr star)]
  · rw [if_neg star, if_neg (mt wild.mp star), splitOn_toAsciiLowercase]
    cases range.splitOn '-' with
    | nil => rfl
    | cons first rest =>
        have head := isDefective_toAsciiLowercase allAlpha_toAsciiLowercase first
        have others : (rest.map Text.toAsciiLowercase).any (isDefective allAlphanum) =
            rest.any (isDefective allAlphanum) := by
          rw [List.any_map]
          exact congrArg rest.any
            (funext (isDefective_toAsciiLowercase allAlphanum_toAsciiLowercase))
        simp only [List.map_cons, List.headD_cons, List.tail_cons, others, head]
        rfl

/-- Every range of a field that is read is a language range. -/
theorem mem_languageRange_of_parse {entry : Text} {order : Nat} {preference : Preference}
    (parsed : Preference.parse entry order = .ok preference) :
    preference.range ∈ languageRange := by
  simp only [Preference.parse] at parsed
  split at parsed
  · cases parsed
  next sound =>
    split at parsed
    · cases parsed
    · cases parsed
      rw [← rangeDefect_eq_none_iff, rangeDefect_toAsciiLowercase]
      exact sound

/-- The subtags of a language range have the shape of subtags. -/
theorem shaped_of_languageRange {range : Text} (language : range ∈ languageRange)
    (notWild : range ≠ ['*']) : ∀ subtag ∈ range.splitOn '-', Shaped subtag := by
  obtain ⟨first, rest, split, isFirst, each⟩ :=
    (mem_languageRange_iff.mp language).resolve_left notWild
  rw [split]
  exact List.forall_mem_cons.mpr ⟨shaped_of_alpha (by decide) isFirst, fun subtag member =>
    shaped_of_alphanum (by decide) (each subtag member)⟩

/-! ## The schemes -/

/-- The subtags, read from the last, of what a range is truncated to, one after
another: a single letter or digit goes together with the subtag after it. -/
def fallbacks : List Text → List (List Text)
  | [] => []
  | [subtag] => [[subtag]]
  | last :: next :: before =>
      (last :: next :: before) ::
        if next.length = 1 then fallbacks before else fallbacks (next :: before)

example : (fallbacks ("zh-Hant-CN-x-private1-private2".toList.splitOn '-').reverse).map
    (fun stop => ['-'].intercalate stop.reverse) =
      ["zh-Hant-CN-x-private1-private2".toList, "zh-Hant-CN-x-private1".toList,
        "zh-Hant-CN".toList, "zh-Hant".toList, "zh".toList] := by
  decide

/-- Lookup: the first tag that equals, in any case, the longest truncation of
the range that equals one. The range `*` is not looked up. -/
def lookup (range : Text) (offered : List Text) : Option Nat :=
  if range = ['*'] then
    none
  else
    (fallbacks (range.splitOn '-').reverse).findSome? fun subtags =>
      offered.findIdx? fun tag =>
        Text.eqIgnoreAsciiCase tag (['-'].intercalate subtags.reverse)

/-- Basic Filtering: a tag equals the range in any case, or begins with it and a
hyphen after it. The range `*` matches any tag. -/
def filters (range tag : Text) : Bool :=
  range = ['*'] || Text.eqIgnoreAsciiCase tag range ||
    (Text.toAsciiLowercase range ++ ['-']).isPrefixOf (Text.toAsciiLowercase tag)

/-- The tag Lookup finds; where it finds none, the first one that Basic
Filtering finds. -/
def lookupOrFilter (range : Text) (offered : List Text) : Option Nat :=
  (lookup range offered).or (offered.findIdx? (filters range))

/-! ## Truncations -/

theorem truncated_le (subtags : List Text) (tagLength length : Nat) :
    truncated subtags tagLength length ≤ length := by
  induction length using Nat.strongRecOn with
  | ind length ih =>
      match length with
      | 0 => rfl
      | 1 => rfl
      | kept + 2 =>
          rw [truncated]
          split
          · split
            · exact (ih kept (by omega)).trans (by omega)
            · exact (ih (kept + 1) (by omega)).trans (by omega)
          · rfl

/-- Truncation stops at once at what is short enough. -/
theorem truncated_eq_self {subtags : List Text} {tagLength length : Nat}
    (short : length ≤ tagLength) : truncated subtags tagLength length = length := by
  match length with
  | 0 => rfl
  | 1 => rfl
  | kept + 2 => rw [truncated, if_neg (by omega)]

/-- No truncation is longer than the range. -/
theorem length_le_of_mem_fallbacks {reversed stop : List Text} (member : stop ∈ fallbacks reversed) :
    stop.length ≤ reversed.length := by
  fun_induction fallbacks reversed with
  | case1 => cases member
  | case2 subtag => simp_all
  | case3 last next before shorter longer =>
      rcases List.mem_cons.mp member with rfl | later
      · rfl
      · split at later
        · exact (shorter later).trans (by simp; omega)
        · exact (longer later).trans (by simp)

/-- Each truncation is shorter than the one before. -/
theorem pairwise_fallbacks (reversed : List Text) :
    (fallbacks reversed).Pairwise fun left right => right.length < left.length := by
  fun_induction fallbacks reversed with
  | case1 => exact .nil
  | case2 subtag => simp
  | case3 last next before shorter longer =>
      refine List.pairwise_cons.mpr ⟨fun stop member => ?_, ?_⟩
      · simp only [List.length_cons]
        split at member
        · have bound := length_le_of_mem_fallbacks member
          omega
        · have bound := length_le_of_mem_fallbacks member
          simp only [List.length_cons] at bound
          omega
      · split
        · exact shorter
        · exact longer

/-- A truncation is as many subtags of the range as truncation comes to. -/
theorem mem_fallbacks_iff {subtags : List Text} (ascii : ∀ subtag ∈ subtags, len subtag = subtag.length)
    {length : Nat} (within : length ≤ subtags.length) {stop : List Text} :
    stop ∈ fallbacks (subtags.take length).reverse ↔
      ∃ kept, 0 < kept ∧ kept ≤ length ∧ stop = (subtags.take kept).reverse ∧
        truncated subtags kept length = kept := by
  induction length using Nat.strongRecOn generalizing stop with
  | ind length ih =>
      match length with
      | 0 =>
          simp only [List.take_zero, List.reverse_nil, fallbacks]
          refine iff_of_false (by simp) ?_
          rintro ⟨kept, positive, short, -⟩
          omega
      | 1 =>
          obtain ⟨first, rest, rfl⟩ := List.exists_cons_of_length_pos (show 0 < subtags.length by omega)
          simp only [List.take_succ_cons, List.take_zero, List.reverse_singleton, fallbacks,
            List.mem_singleton]
          constructor
          · rintro rfl
            exact ⟨1, by decide, le_rfl, rfl, rfl⟩
          · rintro ⟨kept, positive, short, rfl, -⟩
            have one : kept = 1 := by omega
            rw [one]
            rfl
      | kept + 2 =>
          have split : (subtags.take (kept + 2)).reverse =
              subtags[kept + 1] :: subtags[kept] :: (subtags.take kept).reverse := by
            rw [List.take_succ_eq_append_getElem (by omega), List.reverse_append,
              List.take_succ_eq_append_getElem (by omega), List.reverse_append]
            rfl
          have shorter : (subtags.take (kept + 1)).reverse =
              subtags[kept] :: (subtags.take kept).reverse := by
            rw [List.take_succ_eq_append_getElem (by omega), List.reverse_append]
            rfl
          have octets : len (subtags.getD kept []) = subtags[kept].length := by
            rw [List.getD_eq_getElem?_getD, List.getElem?_eq_getElem (by omega), Option.getD_some]
            exact ascii _ (List.getElem_mem _)
          rw [split, fallbacks, List.mem_cons, ← split, ← shorter, ← octets]
          constructor
          · rintro (rfl | later)
            · exact ⟨kept + 2, by omega, le_rfl, rfl, truncated_eq_self le_rfl⟩
            · split at later
              next single =>
                obtain ⟨stop, positive, short, same, stops⟩ :=
                  (ih kept (by omega) (by omega)).mp later
                refine ⟨stop, positive, by omega, same, ?_⟩
                rw [truncated, if_pos (by omega), if_pos single, stops]
              next plural =>
                obtain ⟨stop, positive, short, same, stops⟩ :=
                  (ih (kept + 1) (by omega) (by omega)).mp later
                refine ⟨stop, positive, by omega, same, ?_⟩
                rw [truncated, if_pos (by omega), if_neg plural, stops]
          · rintro ⟨stop, positive, short, rfl, stops⟩
            rcases Nat.lt_or_ge stop (kept + 2) with shortened | whole
            · rw [truncated, if_pos shortened] at stops
              refine .inr ?_
              split at stops
              next single =>
                have bound := truncated_le subtags stop kept
                rw [if_pos single]
                exact (ih kept (by omega) (by omega)).mpr
                  ⟨stop, positive, by omega, rfl, stops⟩
              next plural =>
                rw [if_neg plural]
                exact (ih (kept + 1) (by omega) (by omega)).mpr
                  ⟨stop, positive, by omega, rfl, stops⟩
            · have same : stop = kept + 2 := by omega
              exact .inl (by rw [same])

/-! ## One range and one tag -/

/-- The subtags of a text, in lower case. -/
def folded (text : Text) : List Text :=
  (text.splitOn '-').map Text.toAsciiLowercase

theorem folded_ne_nil (text : Text) : folded text ≠ [] := by
  simp [folded, List.splitOn_ne_nil]

theorem folded_eq (text : Text) : folded text = (Text.toAsciiLowercase text).splitOn '-' :=
  (splitOn_toAsciiLowercase text).symm

theorem intercalate_folded (text : Text) :
    ['-'].intercalate (folded text) = Text.toAsciiLowercase text := by
  rw [folded_eq, List.intercalate_splitOn]

/-- Two lists agree on all of the shorter one exactly where, in one case, one is
a prefix of the other. -/
theorem agreed_eq_min_iff (subtags others : List Text) :
    agreed subtags others = min subtags.length others.length ↔
      subtags.map Text.toAsciiLowercase <+: others.map Text.toAsciiLowercase ∨
        others.map Text.toAsciiLowercase <+: subtags.map Text.toAsciiLowercase := by
  induction subtags generalizing others with
  | nil => simp [agreed]
  | cons subtag rest ih =>
      cases others with
      | nil => simp [agreed]
      | cons other others =>
          simp only [List.map_cons, List.cons_prefix_cons, List.length_cons, Nat.add_min_add_right]
          by_cases same : Text.toAsciiLowercase subtag = Text.toAsciiLowercase other
          · have equal : Text.eqIgnoreAsciiCase subtag other = true := beq_iff_eq.mpr same
            have step : agreed (subtag :: rest) (other :: others) = agreed rest others + 1 := by
              simp [agreed, equal]
            rw [step, Nat.add_left_inj, ih]
            simp [same]
          · have differs : Text.eqIgnoreAsciiCase subtag other = false :=
              beq_eq_false_iff_ne.mpr same
            have step : agreed (subtag :: rest) (other :: others) = 0 := by simp [agreed, differs]
            rw [step]
            simp [same, Ne.symm same]

theorem length_folded (text : Text) : (folded text).length = (text.splitOn '-').length :=
  List.length_map _

/-- A tag equals the first subtags of a range, in any case, where its own are
those. -/
theorem eqIgnoreAsciiCase_take_iff {range tag : Text} {kept : Nat} (positive : 0 < kept) :
    Text.eqIgnoreAsciiCase tag (['-'].intercalate ((range.splitOn '-').take kept)) = true ↔
      folded tag = (folded range).take kept := by
  have joined : Text.toAsciiLowercase (['-'].intercalate ((range.splitOn '-').take kept)) =
      ['-'].intercalate ((folded range).take kept) := by
    rw [toAsciiLowercase_intercalate, List.map_take, folded]
  rw [Text.eqIgnoreAsciiCase, beq_iff_eq, joined]
  constructor
  · intro same
    have hyphenFree : ∀ subtag ∈ (folded range).take kept, '-' ∉ subtag := by
      intro subtag member hyphen
      have isSubtag := List.mem_of_mem_take member
      rw [folded_eq] at isSubtag
      exact (mem_of_mem_splitOn isSubtag '-' hyphen).2 rfl
    have nonempty : (folded range).take kept ≠ [] := by
      rw [Ne, List.take_eq_nil_iff, not_or]
      exact ⟨positive.ne', folded_ne_nil range⟩
    rw [folded_eq, same, List.splitOn_intercalate '-' hyphenFree nonempty]
  · intro same
    rw [← intercalate_folded, same]

theorem eqIgnoreAsciiCase_iff {range tag : Text} :
    Text.eqIgnoreAsciiCase tag range = true ↔ folded tag = folded range := by
  rw [Text.eqIgnoreAsciiCase, beq_iff_eq]
  constructor
  · intro same
    rw [folded_eq, folded_eq, same]
  · intro same
    rw [← intercalate_folded, ← intercalate_folded, same]

/-- A tag begins with a range and a hyphen where its subtags begin with those of
the range and go on. -/
theorem prefix_hyphen_iff {range tag : Text} :
    Text.toAsciiLowercase range ++ ['-'] <+: Text.toAsciiLowercase tag ↔
      folded range <+: folded tag ∧ (folded range).length < (folded tag).length := by
  constructor
  · rintro ⟨rest, same⟩
    rw [List.append_assoc, List.singleton_append] at same
    have split : folded tag = folded range ++ rest.splitOn '-' := by
      rw [folded_eq, ← same, List.splitOn_append_cons_self, ← folded_eq]
    have others := List.length_pos_iff.mpr (List.splitOn_ne_nil '-' rest)
    rw [split]
    exact ⟨List.prefix_append _ _, by rw [List.length_append]; omega⟩
  · rintro ⟨⟨others, same⟩, shorter⟩
    rw [← same, List.length_append] at shorter
    obtain ⟨first, rest, split⟩ := List.exists_cons_of_ne_nil (folded_ne_nil range)
    obtain ⟨next, later, rfl⟩ := List.exists_cons_of_length_pos (show 0 < others.length by omega)
    rw [← intercalate_folded, ← intercalate_folded, ← same, split, List.cons_append,
      intercalate_eq_led, intercalate_eq_led, led_append]
    exact ⟨next ++ led '-' later, by simp [led]⟩

section

variable {range : Text} (notWild : range ≠ ['*'])

include notWild

/-- What relates a range that is not `*` to a tag. -/
theorem classify_eq_some_iff {tag : Text} {kind : MatchKind} {depth : Nat} :
    classify range tag = some (kind, depth) ↔
      (kind = .exact ∧ folded tag = folded range ∧ depth = (folded range).length) ∨
      (kind = .extends_ ∧ folded range <+: folded tag ∧
        (folded range).length < (folded tag).length ∧ depth = (folded range).length) ∨
      (kind = .truncates ∧ folded tag <+: folded range ∧
        (folded tag).length < (folded range).length ∧
        truncated (range.splitOn '-') (folded tag).length (folded range).length =
          (folded tag).length ∧ depth = (folded tag).length) := by
  have related := agreed_eq_min_iff (range.splitOn '-') (tag.splitOn '-')
  rw [← folded, ← folded, ← length_folded, ← length_folded] at related
  simp only [classify, if_neg notWild, ← length_folded]
  by_cases agree : agreed (range.splitOn '-') (tag.splitOn '-') =
      min (folded range).length (folded tag).length
  · have prefixes := related.mp agree
    rw [if_neg (not_not.mpr agree), agree]
    rcases lt_trichotomy (folded range).length (folded tag).length with shorter | same | longer
    · have isPrefix : folded range <+: folded tag := prefixes.resolve_right fun other =>
        absurd other.length_le (by omega)
      rw [if_neg (by omega), if_pos shorter, min_eq_left shorter.le]
      constructor
      · rintro ⟨⟩
        exact .inr (.inl ⟨rfl, isPrefix, shorter, rfl⟩)
      · rintro (⟨-, same, -⟩ | ⟨rfl, -, -, rfl⟩ | ⟨-, -, longer, -⟩)
        · rw [same] at shorter
          omega
        · rfl
        · omega
    · have equal : folded tag = folded range := by
        rcases prefixes with isPrefix | isPrefix
        · exact (isPrefix.eq_of_length same).symm
        · exact isPrefix.eq_of_length same.symm
      rw [if_pos same, min_eq_left same.le]
      constructor
      · rintro ⟨⟩
        exact .inl ⟨rfl, equal, rfl⟩
      · rintro (⟨rfl, -, rfl⟩ | ⟨-, -, shorter, -⟩ | ⟨-, -, longer, -⟩)
        · rfl
        · omega
        · omega
    · have isPrefix : folded tag <+: folded range := prefixes.resolve_left fun other =>
        absurd other.length_le (by omega)
      rw [if_neg (by omega), if_neg (by omega), min_eq_right longer.le]
      split
      next stops =>
        constructor
        · rintro ⟨⟩
          exact .inr (.inr ⟨rfl, isPrefix, longer, stops, rfl⟩)
        · rintro (⟨-, same, -⟩ | ⟨-, -, shorter, -⟩ | ⟨rfl, -, -, -, rfl⟩)
          · rw [same] at longer
            omega
          · omega
          · rfl
      next passes =>
        refine iff_of_false (by simp) ?_
        rintro (⟨-, same, -⟩ | ⟨-, -, shorter, -⟩ | ⟨-, -, -, stops, -⟩)
        · rw [same] at longer
          omega
        · omega
        · exact passes stops
  · rw [if_pos agree]
    refine iff_of_false (by simp) ?_
    rintro (⟨-, same, -⟩ | ⟨-, isPrefix, -⟩ | ⟨-, isPrefix, -⟩)
    · exact agree (related.mpr (.inl (same ▸ List.prefix_rfl)))
    · exact agree (related.mpr (.inl isPrefix))
    · exact agree (related.mpr (.inr isPrefix))

variable (shaped : ∀ subtag ∈ range.splitOn '-', Shaped subtag)

include shaped

/-- A tag is the range or truncates it exactly where it equals one of its
truncations. -/
theorem exists_fallback_iff {tag : Text} {depth : Nat} :
    (∃ stop ∈ fallbacks (range.splitOn '-').reverse, stop.length = depth ∧
      Text.eqIgnoreAsciiCase tag (['-'].intercalate stop.reverse) = true) ↔
      classify range tag = some (.exact, depth) ∨ classify range tag = some (.truncates, depth) := by
  have members := fun stop => @mem_fallbacks_iff (range.splitOn '-')
    (fun subtag member => (shaped subtag member).len_eq) _ le_rfl stop
  rw [List.take_length] at members
  rw [classify_eq_some_iff notWild, classify_eq_some_iff notWild]
  constructor
  · rintro ⟨stop, member, rfl, same⟩
    obtain ⟨kept, positive, short, rfl, stops⟩ := (members stop).mp member
    rw [List.reverse_reverse, eqIgnoreAsciiCase_take_iff positive] at same
    rw [List.length_reverse, List.length_take, min_eq_left short]
    rw [← length_folded] at short stops
    have length : (folded tag).length = kept := by
      rw [same, List.length_take, min_eq_left short]
    rcases Nat.lt_or_ge kept (folded range).length with shorter | whole
    · refine .inr (.inr (.inr ⟨rfl, ?_, by omega, by rw [length, stops], length.symm⟩))
      rw [same]
      exact List.take_prefix _ _
    · rw [List.take_of_length_le whole] at same
      exact .inl (.inl ⟨rfl, same, by omega⟩)
  · rintro (found | found)
    · rcases found with ⟨-, same, rfl⟩ | ⟨impossible, -⟩ | ⟨impossible, -⟩
      · have positive := List.length_pos_iff.mpr (folded_ne_nil range)
        have whole : (range.splitOn '-').length = (folded range).length := (length_folded range).symm
        refine ⟨(range.splitOn '-').reverse, (members _).mpr ⟨(folded range).length, positive,
          whole.ge, ?_, ?_⟩, by rw [List.length_reverse, whole], ?_⟩
        · rw [← whole, List.take_length]
        · exact (truncated_eq_self whole.le).trans whole
        · rw [List.reverse_reverse, List.intercalate_splitOn, eqIgnoreAsciiCase_iff]
          exact same
      · cases impossible
      · cases impossible
    · rcases found with ⟨impossible, -⟩ | ⟨impossible, -⟩ | ⟨-, isPrefix, shorter, stops, rfl⟩
      · cases impossible
      · cases impossible
      · have positive := List.length_pos_iff.mpr (folded_ne_nil tag)
        rw [length_folded range] at shorter stops
        refine ⟨((range.splitOn '-').take (folded tag).length).reverse,
          (members _).mpr ⟨(folded tag).length, positive, shorter.le, rfl, stops⟩, ?_, ?_⟩
        · rw [List.length_reverse, List.length_take, min_eq_left shorter.le]
        · rw [List.reverse_reverse, eqIgnoreAsciiCase_take_iff positive]
          exact List.prefix_iff_eq_take.mp isPrefix

omit shaped in
/-- Basic Filtering finds the tag that is the range and those it extends to. -/
theorem filters_iff {tag : Text} :
    filters range tag = true ↔
      (∃ depth, classify range tag = some (.exact, depth)) ∨
        ∃ depth, classify range tag = some (.extends_, depth) := by
  simp only [filters, Bool.or_eq_true, decide_eq_true_eq, notWild, false_or,
    List.isPrefixOf_iff_prefix, eqIgnoreAsciiCase_iff, prefix_hyphen_iff,
    classify_eq_some_iff notWild]
  simp

end

/-! ## One range alone -/

/-- What a tag is worth where there is one range. -/
theorem score_singleton {preference : Preference} (weighed : preference.quality ≠ 0) (tag : Text) :
    score [preference] tag = (classify preference.range tag).map fun found =>
      toLex (preference.quality, toLex (toDual preference.order, toLex (found.1, found.2))) := by
  rw [score]
  cases found : classify preference.range tag with
  | none => simp [found]
  | some related => simp [found, greatestBy, weighed]

theorem select_singleton_eq_none_iff {preference : Preference} (weighed : preference.quality ≠ 0)
    {offered : List Text} :
    select [preference] offered = none ↔ ∀ tag ∈ offered, classify preference.range tag = none := by
  rw [select_eq, Scheme.choose_eq_none_iff_score]
  simp only [← score_eq, score_singleton weighed, Option.map_eq_none_iff]

/-- A tag is related to a range no worse than any other, and no earlier one is
as well. -/
structure Foremost (range : Text) (offered : List Text) (index : Nat) (tag : Text)
    (kind : MatchKind) (depth : Nat) : Prop where
  placed : offered[index]? = some tag
  related : classify range tag = some (kind, depth)
  best : ∀ otherIndex other otherKind otherDepth, offered[otherIndex]? = some other →
    classify range other = some (otherKind, otherDepth) →
      otherKind < kind ∨ otherKind = kind ∧ (otherDepth < depth ∨ otherDepth = depth ∧
        index ≤ otherIndex)

/-- The tag that is selected is the foremost one. -/
theorem select_singleton_eq_some {preference : Preference} (weighed : preference.quality ≠ 0)
    {offered : List Text} {index : Nat} {tag : Text} {kind : MatchKind} {depth : Nat}
    (foremost : Foremost preference.range offered index tag kind depth) :
    select [preference] offered = some index := by
  cases selected : select [preference] offered with
  | none =>
      have unrelated := (select_singleton_eq_none_iff weighed).mp selected tag
        (List.mem_of_getElem? foremost.placed)
      rw [foremost.related] at unrelated
      cases unrelated
  | some other =>
      rw [select_eq] at selected
      obtain ⟨otherTag, rank, placed, scored, best⟩ := Scheme.choose_spec selected
      simp only [← score_eq, score_singleton weighed] at scored best
      obtain ⟨⟨otherKind, otherDepth⟩, related, rfl⟩ := Option.map_eq_some_iff.mp scored
      have above := best tag index _ foremost.placed (by rw [foremost.related]; rfl)
      have below := foremost.best other otherTag otherKind otherDepth placed related
      simp only [Prod.Lex.toLex_lt_toLex, toLex_inj, Prod.mk.injEq, lt_irrefl, false_or,
        true_and] at above
      rcases above with ((lower | ⟨rfl, lower⟩) | ⟨⟨rfl, rfl⟩, after⟩)
      · rcases below with lower' | ⟨same, -⟩
        · exact absurd lower' lower.asymm
        · exact absurd lower (same ▸ lt_irrefl _)
      · rcases below with lower' | ⟨-, lower' | ⟨same, -⟩⟩
        · exact absurd lower' (lt_irrefl _)
        · omega
        · omega
      · rcases below with lower' | ⟨-, lower' | ⟨-, before⟩⟩
        · exact absurd lower' (lt_irrefl _)
        · omega
        · rw [after.antisymm before]

section

variable {range : Text} (notWild : range ≠ ['*'])
  (shaped : ∀ subtag ∈ range.splitOn '-', Shaped subtag)

include notWild

/-- A range that is not `*` relates to a tag in one of three ways, two of them
told apart by the depth. -/
theorem kind_of_classify {tag : Text} {kind : MatchKind} {depth : Nat}
    (related : classify range tag = some (kind, depth)) :
    (kind = .exact ∧ depth = (folded range).length) ∨
      (kind = .extends_ ∧ depth = (folded range).length) ∨
        (kind = .truncates ∧ depth < (folded range).length) := by
  rcases (classify_eq_some_iff notWild).mp related with
    ⟨same, -, deep⟩ | ⟨same, -, -, deep⟩ | ⟨same, -, shorter, -, deep⟩
  · exact .inl ⟨same, deep⟩
  · exact .inr (.inl ⟨same, deep⟩)
  · exact .inr (.inr ⟨same, deep ▸ shorter⟩)

include shaped

/-- The tag Lookup finds is the foremost one. -/
theorem foremost_of_lookup {offered : List Text} {index : Nat}
    (found : lookup range offered = some index) :
    ∃ tag kind depth, Foremost range offered index tag kind depth := by
  rw [lookup, if_neg notWild] at found
  obtain ⟨longer, stop, shorter, split, atStop, unfound⟩ := List.findSome?_eq_some_iff.mp found
  obtain ⟨within, equal, first⟩ := List.findIdx?_eq_some_iff_getElem.mp atStop
  have member : stop ∈ fallbacks (range.splitOn '-').reverse :=
    split ▸ List.mem_append_right _ List.mem_cons_self
  have related := (exists_fallback_iff notWild shaped).mp ⟨stop, member, rfl, equal⟩
  obtain ⟨kind, kinds, related⟩ : ∃ kind, (kind = .exact ∨ kind = .truncates) ∧
      classify range offered[index] = some (kind, stop.length) := by
    rcases related with exactly | truncates
    · exact ⟨.exact, .inl rfl, exactly⟩
    · exact ⟨.truncates, .inr rfl, truncates⟩
  refine ⟨offered[index], kind, stop.length, List.getElem?_eq_getElem within, related, ?_⟩
  intro otherIndex other otherKind otherDepth placed otherRelated
  have depths := kind_of_classify notWild related
  have otherDepths := kind_of_classify notWild otherRelated
  by_cases extending : otherKind = .extends_
  · rcases kinds with rfl | rfl <;> exact .inl (extending ▸ by decide)
  · have looked : classify range other = some (.exact, otherDepth) ∨
        classify range other = some (.truncates, otherDepth) := by
      rcases otherDepths with ⟨rfl, -⟩ | ⟨impossible, -⟩ | ⟨rfl, -⟩
      · exact .inl otherRelated
      · exact absurd impossible extending
      · exact .inr otherRelated
    obtain ⟨otherStop, otherMember, rfl, otherEqual⟩ :=
      (exists_fallback_iff notWild shaped).mpr looked
    have decreasing := pairwise_fallbacks (range.splitOn '-').reverse
    rw [split] at otherMember decreasing
    rcases List.mem_append.mp otherMember with early | late
    · have unequal := List.findIdx?_eq_none_iff.mp (unfound otherStop early) other
        (List.mem_of_getElem? placed)
      rw [otherEqual] at unequal
      cases unequal
    · rcases List.mem_cons.mp late with rfl | later
      · have sameKind : otherKind = kind := by
          rcases kinds with rfl | rfl <;>
            rcases otherDepths with ⟨rfl, deep⟩ | ⟨rfl, deep⟩ | ⟨rfl, deep⟩ <;>
              simp_all
        refine .inr ⟨sameKind, .inr ⟨rfl, ?_⟩⟩
        by_contra before
        obtain ⟨otherWithin, atOther⟩ := List.getElem?_eq_some_iff.mp placed
        have unequal := first otherIndex (by omega)
        rw [atOther, otherEqual] at unequal
        exact unequal rfl
      · have deeper : otherStop.length < stop.length :=
          (List.pairwise_cons.mp (List.pairwise_append.mp decreasing).2.1).1 otherStop later
        have truncates : otherKind = .truncates := by
          rcases otherDepths with ⟨rfl, deep⟩ | ⟨rfl, deep⟩ | ⟨rfl, deep⟩
          · rcases depths with ⟨-, whole⟩ | ⟨-, whole⟩ | ⟨-, whole⟩ <;> omega
          · exact absurd rfl extending
          · rfl
        rcases kinds with rfl | rfl
        · exact .inl (truncates ▸ by decide)
        · exact .inr ⟨truncates, .inl deeper⟩

/-- Where Lookup finds no tag, a range relates only to tags it extends to. -/
theorem extends_of_lookup_eq_none {offered : List Text} (unfound : lookup range offered = none)
    {tag : Text} (member : tag ∈ offered) {kind : MatchKind} {depth : Nat}
    (related : classify range tag = some (kind, depth)) :
    kind = .extends_ ∧ depth = (folded range).length := by
  have unlooked : ¬(classify range tag = some (.exact, depth) ∨
      classify range tag = some (.truncates, depth)) := by
    intro looked
    obtain ⟨stop, isStop, -, equal⟩ := (exists_fallback_iff notWild shaped).mpr looked
    rw [lookup, if_neg notWild, List.findSome?_eq_none_iff] at unfound
    have unequal := List.findIdx?_eq_none_iff.mp (unfound stop isStop) tag member
    rw [equal] at unequal
    cases unequal
  rcases kind_of_classify notWild related with ⟨rfl, -⟩ | extending | ⟨rfl, -⟩
  · exact absurd (.inl related) unlooked
  · exact extending
  · exact absurd (.inr related) unlooked

end

/-- A single range selects the tag Lookup finds, or else the first one Basic
Filtering finds. -/
theorem select_singleton_eq_lookupOrFilter {preference : Preference}
    (language : preference.range ∈ languageRange) (weighed : preference.quality ≠ 0)
    (offered : List Text) :
    select [preference] offered = lookupOrFilter preference.range offered := by
  by_cases wild : preference.range = ['*']
  · have related : ∀ tag, classify preference.range tag = some (.wildcard, 0) :=
      fun tag => if_pos wild
    cases offered with
    | nil => simp [lookupOrFilter, lookup, wild, select]
    | cons tag rest =>
        have foremost : Foremost preference.range (tag :: rest) 0 tag .wildcard 0 := by
          refine ⟨rfl, related tag, fun otherIndex other otherKind otherDepth _ found => ?_⟩
          rw [related] at found
          cases found
          exact .inr ⟨rfl, .inr ⟨rfl, otherIndex.zero_le⟩⟩
        rw [select_singleton_eq_some weighed foremost]
        simp [lookupOrFilter, lookup, wild, filters, List.findIdx?_cons]
  · have shaped := shaped_of_languageRange language wild
    rw [lookupOrFilter]
    cases looked : lookup preference.range offered with
    | some index =>
        obtain ⟨tag, kind, depth, foremost⟩ := foremost_of_lookup wild shaped looked
        exact select_singleton_eq_some weighed foremost
    | none =>
        rw [Option.none_or]
        have extending := fun tag member kind depth =>
          @extends_of_lookup_eq_none _ wild shaped _ looked tag member kind depth
        cases filtered : offered.findIdx? (filters preference.range) with
        | none =>
            rw [select_singleton_eq_none_iff weighed]
            intro tag member
            by_contra related
            obtain ⟨⟨kind, depth⟩, found⟩ := Option.ne_none_iff_exists'.mp related
            obtain ⟨rfl, -⟩ := extending tag member kind depth found
            have unfiltered := List.findIdx?_eq_none_iff.mp filtered tag member
            rw [(filters_iff wild).mpr (.inr ⟨depth, found⟩)] at unfiltered
            cases unfiltered
        | some index =>
            obtain ⟨within, passes, first⟩ := List.findIdx?_eq_some_iff_getElem.mp filtered
            have related : classify preference.range offered[index] =
                some (.extends_, (folded preference.range).length) := by
              rcases (filters_iff wild).mp passes with ⟨depth, found⟩ | ⟨depth, found⟩
              · have impossible := (extending _ (List.getElem_mem within) _ _ found).1
                cases impossible
              · rw [found, (extending _ (List.getElem_mem within) _ _ found).2]
            refine select_singleton_eq_some weighed
              ⟨List.getElem?_eq_getElem within, related, ?_⟩
            intro otherIndex other otherKind otherDepth placed otherRelated
            obtain ⟨otherWithin, atOther⟩ := List.getElem?_eq_some_iff.mp placed
            obtain ⟨rfl, rfl⟩ :=
              extending other (List.mem_of_getElem? placed) _ _ otherRelated
            refine .inr ⟨rfl, .inr ⟨rfl, ?_⟩⟩
            by_contra before
            have unfiltered := first otherIndex (by omega)
            rw [atOther, (filters_iff wild).mpr (.inr ⟨_, otherRelated⟩)] at unfiltered
            exact unfiltered rfl

/-- A truncation of the range is found before a tag it extends to. -/
theorem select_singleton_eq_lookupOrFilter_truncated :
    select [⟨"zh-hant-cn-x-private1".toList, 1000, 0⟩]
        ["zh-Hant-CN-x-private1-private2".toList, "zh".toList, "zh-Hant-CN".toList] =
      lookupOrFilter "zh-hant-cn-x-private1".toList
        ["zh-Hant-CN-x-private1-private2".toList, "zh".toList, "zh-Hant-CN".toList] :=
  select_singleton_eq_lookupOrFilter (rangeDefect_eq_none_iff.mp (by decide)) (by decide) _

end Kynos.Language
