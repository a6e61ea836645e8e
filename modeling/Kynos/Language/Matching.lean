import Kynos.Choice.Offers
import Kynos.Http.Quality
import Kynos.LanguageTag.Grammar

/-!
# Matching language ranges

A language range against the tags a service offers, by RFC 4647 Lookup (section
3.4) and Basic Filtering (section 3.3.1) together, and the tag a priority list
selects. Lengths are counted in octets, as the reader counts them.
-/

namespace Kynos.Language

open Kynos.Choice Kynos.Http Kynos.LanguageTag OrderDual

/-! ## One range and one tag -/

/-- How a range and an offered tag relate, the better the greater. -/
inductive MatchKind where
  | wildcard
  | extends_
  | truncates
  | exact
  deriving DecidableEq, Repr

/-- The place of a kind among them. -/
def MatchKind.place : MatchKind → Nat
  | .wildcard => 0
  | .extends_ => 1
  | .truncates => 2
  | .exact => 3

theorem MatchKind.place_injective : Function.Injective MatchKind.place := by
  intro left right same
  cases left <;> cases right <;> first | rfl | cases same

instance : LinearOrder MatchKind :=
  LinearOrder.lift' MatchKind.place MatchKind.place_injective

/-- The loop of `classify`: how many subtags are left of `length` of them once
they are truncated to no more than `tagLength`. A tag has a subtag, so `length`
is two or more while it runs. -/
def truncated (subtags : List Text) (tagLength : Nat) : Nat → Nat
  | kept + 2 =>
      if kept + 2 > tagLength then
        if len (subtags.getD kept []) = 1 then
          truncated subtags tagLength kept
        else
          truncated subtags tagLength (kept + 1)
      else
        kept + 2
  | length => length

/-- How many subtags two lists agree on from the start, in any case. -/
def agreed (rangeSubtags tagSubtags : List Text) : Nat :=
  ((rangeSubtags.zip tagSubtags).takeWhile fun pair => Text.eqIgnoreAsciiCase pair.1 pair.2).length

/-- How a range relates to a tag, and how many subtags they share; `none` when
they match under neither scheme. -/
def classify (range tag : Text) : Option (MatchKind × Nat) :=
  if range = ['*'] then
    some (.wildcard, 0)
  else
    let rangeSubtags := range.splitOn '-'
    let tagSubtags := tag.splitOn '-'
    let shared := agreed rangeSubtags tagSubtags
    if shared ≠ min rangeSubtags.length tagSubtags.length then
      none
    else if rangeSubtags.length = tagSubtags.length then
      some (.exact, shared)
    else if rangeSubtags.length < tagSubtags.length then
      some (.extends_, shared)
    else if truncated rangeSubtags tagSubtags.length rangeSubtags.length = tagSubtags.length then
      some (.truncates, shared)
    else
      none

/-! ## The field -/

/-- Why a range in an `Accept-Language` field was dropped. -/
inductive RangeDefect where
  | empty
  | primarySubtag
  | subtag
  | weight
  deriving DecidableEq, Repr

/-- One `language-range` of the field, in lowercase, its weight in thousandths,
and its place in the field. -/
structure Preference where
  range : Text
  quality : Nat
  order : Nat
  deriving DecidableEq, Repr

/-- Whether a subtag of a range is out of the grammar. -/
def isDefective (allowed : Text → Bool) (subtag : Text) : Bool :=
  subtag.isEmpty || len subtag > 8 || !allowed subtag

/-- What keeps a text from being a `language-range`. -/
def rangeDefect (range : Text) : Option RangeDefect :=
  if range.isEmpty then
    some .empty
  else if range = ['*'] then
    none
  else
    let subtags := range.splitOn '-'
    if isDefective allAlpha (subtags.headD []) then
      some .primarySubtag
    else if subtags.tail.any (isDefective allAlphanum) then
      some .subtag
    else
      none

/-- Reads one entry between commas. -/
def Preference.parse (entry : Text) (order : Nat) : Except RangeDefect Preference :=
  let segments := (Text.trim entry).splitOn ';'
  let range := Text.trim (segments.headD [])
  match rangeDefect range with
  | some defect => .error defect
  | none =>
      match Quality.weight segments.tail with
      | none => .error .weight
      | some quality => .ok ⟨Text.toAsciiLowercase range, quality, order⟩

/-- The ranges of entries numbered from `start` on; an entry that is no weighted
range is dropped. -/
def parseFrom (start : Nat) (entries : List Text) : List Preference :=
  (entries.zipIdx start).filterMap fun entry => (Preference.parse entry.1 entry.2).toOption

/-- `AcceptLanguage::parse`. -/
def parse (value : Text) : List Preference :=
  parseFrom 0 (value.splitOn ',')

/-! ## The selection -/

/-- What an offered tag is worth: the weight of its range, the place of the
range in the field, the earlier the more, and how the two match. -/
abbrev Score :=
  Nat ×ₗ Natᵒᵈ ×ₗ MatchKind ×ₗ Nat

/-- What a tag is worth, through the most specific range that matches it. -/
def score (preferences : List Preference) (tag : Text) : Option Score :=
  let matching := preferences.filterMap fun preference =>
    (classify preference.range tag).map fun found => (found.1, found.2, preference)
  (greatestBy (fun range => toLex (range.1, toLex ((range.2.2.range.splitOn '-').length,
    toDual range.2.2.order))) matching).bind fun range =>
      if range.2.2.quality = 0 then
        none
      else
        some (toLex (range.2.2.quality,
          toLex (toDual range.2.2.order, toLex (range.1, range.2.1))))

/-- The place of the offered tag a priority list selects, if it selects one. -/
def select (preferences : List Preference) (offered : List Text) : Option Nat :=
  let scored := offered.zipIdx.filterMap fun tag =>
    (score preferences tag.1).map fun score => (score, tag.2)
  (greatestBy (fun score => toLex (score.1, toDual score.2)) scored).map Prod.snd

end Kynos.Language
