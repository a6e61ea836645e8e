import Kynos.Choice.Offers
import Kynos.Negotiate.MediaType

/-!
# Choosing a representation

The media type that is chosen of those on offer, as `Accept` asks: each offer
competes through the most specific range that matches it.
-/

namespace Kynos.Negotiate

open Kynos.Choice Kynos.Word OrderDual

/-! ## The source -/

/-- `representation::type_and_subtype`: an offer's type and subtype, each
trimmed, where it has a slash. -/
def offeredTypeAndSubtype (mediaType : Text) : Option (Text × Text) :=
  (splitOnce '/' (splitEssence mediaType).1).map fun halves => (trimAscii halves.1, trimAscii halves.2)

/-- How specifically a media range matches a type and subtype, where it does. -/
def specificity (range offer : Text × Text) : Option Nat :=
  if range.1 = ['*'] ∧ range.2 = ['*'] then
    some 0
  else if Text.eqIgnoreAsciiCase range.1 offer.1 ∧ range.2 = ['*'] then
    some 1
  else if Text.eqIgnoreAsciiCase range.1 offer.1 ∧ Text.eqIgnoreAsciiCase range.2 offer.2 then
    some 2
  else
    none

/-- What an offer is worth: the weight of its range, how specific the range is,
and its place in the field, the earlier the more. -/
abbrev Score :=
  Nat ×ₗ Nat ×ₗ Natᵒᵈ

/-- `Accept::score`. -/
def score (preferences : List Preference) (mediaType : Text) : Option Score :=
  match offeredTypeAndSubtype mediaType with
  | none => none
  | some offer =>
      let matching := preferences.filterMap fun preference =>
        (specificity (preference.type_, preference.subtype) offer).map fun specificity =>
          (specificity, toDual preference.order, preference.quality)
      (greatestBy (fun range => toLex (range.1, range.2.1)) matching).bind fun range =>
        if range.2.2 = 0 then none else some (toLex (range.2.2, toLex (range.1, range.2.1)))

/-- `Accept::choose`: the place of the best alternative, or nothing where none
is acceptable. -/
def choose (preferences : List Preference) (offered : List Text) : Option Nat :=
  let scored := offered.zipIdx.filterMap fun mediaType =>
    (score preferences mediaType.1).map fun score => (score, mediaType.2)
  (greatestBy (fun score => toLex (score.1, toDual score.2)) scored).map Prod.snd

/-! ## What a field asks of an offer -/

/-- How specifically a range of the field matches a media type. -/
def Preference.matched (preference : Preference) (mediaType : Text) : Option Nat :=
  (offeredTypeAndSubtype mediaType).bind (specificity (preference.type_, preference.subtype))

/-- The most specific range that matches a media type, the earliest of those as
specific. -/
structure SpeaksFor (preferences : List Preference) (mediaType : Text) (preference : Preference)
    (specific : Nat) : Prop where
  listed : preference ∈ preferences
  matched : preference.matched mediaType = some specific
  foremost : ∀ other ∈ preferences, ∀ otherSpecific, other.matched mediaType = some otherSpecific →
    otherSpecific < specific ∨ otherSpecific = specific ∧ preference.order ≤ other.order

/-- The weight of the range is the greatest of any offer; of those as great, the
range is the most specific, then the earliest, then the offer is. -/
structure Chosen (preferences : List Preference) (offered : List Text) (index : Nat)
    (mediaType : Text) (preference : Preference) (specific : Nat) : Prop where
  placed : offered[index]? = some mediaType
  speaks : SpeaksFor preferences mediaType preference specific
  weighed : preference.quality ≠ 0
  best : ∀ otherIndex other otherPreference otherSpecific, offered[otherIndex]? = some other →
    SpeaksFor preferences other otherPreference otherSpecific →
      otherPreference.quality < preference.quality ∨
      otherPreference.quality = preference.quality ∧ (otherSpecific < specific ∨
      otherSpecific = specific ∧ (preference.order < otherPreference.order ∨
      preference.order = otherPreference.order ∧ index ≤ otherIndex))

/-! ## Media ranges as a scheme -/

/-- A range and its place in the field. -/
def Preference.numbered (preference : Preference) : ((Text × Text) × Nat) × Nat :=
  (((preference.type_, preference.subtype), preference.quality), preference.order)

/-- Media ranges as the ranges that offers compete through. -/
def mediaRanges : Scheme ((Text × Text) × Nat) Text Nat Nat Score where
  fit range mediaType := (offeredTypeAndSubtype mediaType).bind (specificity range.1)
  specificity _ specificity := specificity
  weight range := range.2
  rank range specificity order := toLex (range.2, toLex (specificity, toDual order))

theorem score_eq (preferences : List Preference) (mediaType : Text) :
    score preferences mediaType = mediaRanges.score (preferences.map Preference.numbered) mediaType := by
  rw [score, Scheme.score, Scheme.speaker, Scheme.fits, List.filterMap_map]
  cases offered : offeredTypeAndSubtype mediaType with
  | none => simp [mediaRanges, offered]
  | some offer =>
      have matching : (preferences.filterMap fun preference =>
          (specificity (preference.type_, preference.subtype) offer).map fun specificity =>
            (specificity, toDual preference.order, preference.quality)) =
          (preferences.filterMap ((fun range : ((Text × Text) × Nat) × Nat =>
            (mediaRanges.fit range.1 mediaType).map fun fit => (range.1, range.2, fit)) ∘
              Preference.numbered)).map fun fitting =>
                (fitting.2.2, toDual fitting.2.1, fitting.1.2) := by
        rw [List.map_filterMap]
        refine List.filterMap_congr fun preference _ => ?_
        simp [mediaRanges, Preference.numbered, offered, Option.map_map, Function.comp_def]
      dsimp only
      rw [matching, greatestBy_map, Option.bind_map]
      rfl

theorem choose_eq (preferences : List Preference) (offered : List Text) :
    choose preferences offered = mediaRanges.choose (preferences.map Preference.numbered) offered := by
  simp only [choose, score_eq]
  rfl

/-- The place of a range among those of equal weight and specificity is all its
number decides. -/
theorem respectsOrder_mediaRanges : mediaRanges.RespectsOrder := by
  intro range fit other otherFit number otherNumber image otherImage below above
  simp only [mediaRanges, Prod.Lex.toLex_le_toLex, toDual_le_toDual, above]

theorem speaks_iff {preferences : List Preference} {mediaType : Text} {preference : Preference}
    {specific : Nat} (listed : preference ∈ preferences) :
    mediaRanges.Speaks (preferences.map Preference.numbered) mediaType preference.numbered.1
      preference.numbered.2 specific ↔ SpeaksFor preferences mediaType preference specific := by
  constructor
  · intro speaks
    refine ⟨listed, speaks.fits, fun other member otherSpecific matched => ?_⟩
    exact speaks.foremost other.numbered.1 other.numbered.2 otherSpecific
      (List.mem_map_of_mem member) matched
  · intro speaks
    refine ⟨List.mem_map_of_mem listed, speaks.matched, ?_⟩
    intro range number otherSpecific member matched
    obtain ⟨other, otherListed, same⟩ := List.mem_map.mp member
    cases same
    exact speaks.foremost other otherListed otherSpecific matched

/-! ## The places of the ranges -/

theorem order_of_parseItem {order : Nat} {item : Text} {preference : Preference}
    (parsed : parseItem order item = .ok preference) : preference.order = order := by
  simp only [parseItem] at parsed
  split at parsed
  · cases parsed
  · split at parsed
    · cases parsed
    · split at parsed
      · cases parsed
      · cases parsed
        rfl

/-- The ranges of a list are numbered in order, from its first element on. -/
theorem order_of_parseItems {start : Nat} {items : List Text} {preferences : List Preference}
    (parsed : parseItems start items = .ok preferences) :
    (∀ preference ∈ preferences, start ≤ preference.order) ∧
      preferences.Pairwise fun left right => left.order < right.order := by
  induction items generalizing start preferences with
  | nil =>
      cases parsed
      simp
  | cons item rest ih =>
      rw [parseItems] at parsed
      split at parsed
      · obtain ⟨after, increasing⟩ := ih parsed
        exact ⟨fun preference member => Nat.le_of_succ_le (after preference member), increasing⟩
      · cases read : parseItem start (Text.trim item) with
        | error rejection => simp [read] at parsed
        | ok preference =>
            cases others : parseItems (start + 1) rest with
            | error rejection => simp [read, others, Except.map] at parsed
            | ok later =>
                simp only [read, others, Except.map, Except.ok.injEq] at parsed
                subst parsed
                obtain ⟨after, increasing⟩ := ih others
                have here : preference.order = start := order_of_parseItem read
                refine ⟨List.forall_mem_cons.mpr ⟨here.ge, fun other member =>
                  Nat.le_of_succ_le (after other member)⟩, List.pairwise_cons.mpr
                    ⟨fun other member => here ▸ after other member, increasing⟩⟩

/-- The ranges of a field that is read are numbered in order. -/
theorem pairwise_order_of_parse {value : Text} {preferences : List Preference}
    (parsed : parse value = .ok preferences) :
    preferences.Pairwise fun left right => left.order < right.order :=
  (order_of_parseItems parsed).2

/-- In order, ranges have increasing numbers. -/
theorem pairwise_numbered {preferences : List Preference}
    (increasing : preferences.Pairwise fun left right => left.order < right.order) :
    ((preferences.map Preference.numbered).map Prod.snd).Pairwise (· < ·) := by
  rw [List.map_map]
  exact List.pairwise_map.mpr increasing

/-! ## The choice -/

section

variable {preferences : List Preference} {offered : List Text}
  (increasing : preferences.Pairwise fun left right => left.order < right.order)

include increasing

theorem choose_eq_none_iff :
    choose preferences offered = none ↔
      ∀ mediaType ∈ offered, ∀ preference specific,
        SpeaksFor preferences mediaType preference specific → preference.quality = 0 := by
  rw [choose_eq, Scheme.choose_eq_none_iff (pairwise_numbered increasing)]
  refine forall₂_congr fun mediaType _ => ?_
  constructor
  · intro weightless preference specific speaks
    exact weightless _ _ _ ((speaks_iff speaks.listed).mpr speaks)
  · intro weightless range number specific speaks
    obtain ⟨preference, listed, same⟩ := List.mem_map.mp speaks.listed
    cases same
    exact weightless preference specific ((speaks_iff listed).mp speaks)

theorem score_eq_some_iff {mediaType : Text} {rank : Score} :
    score preferences mediaType = some rank ↔
      ∃ preference specific, SpeaksFor preferences mediaType preference specific ∧
        preference.quality ≠ 0 ∧
          toLex (preference.quality, toLex (specific, toDual preference.order)) = rank := by
  rw [score_eq, Scheme.score_eq_some_iff (pairwise_numbered increasing)]
  constructor
  · rintro ⟨range, number, specific, speaks, weighed, ranked⟩
    obtain ⟨preference, listed, same⟩ := List.mem_map.mp speaks.listed
    cases same
    exact ⟨preference, specific, (speaks_iff listed).mp speaks, weighed, ranked⟩
  · rintro ⟨preference, specific, speaks, weighed, ranked⟩
    exact ⟨_, _, specific, (speaks_iff speaks.listed).mpr speaks, weighed, ranked⟩

/-- What is chosen is the best of the offers that are not refused. -/
theorem exists_chosen {index : Nat} (found : choose preferences offered = some index) :
    ∃ mediaType preference specific,
      Chosen preferences offered index mediaType preference specific := by
  rw [choose_eq] at found
  obtain ⟨mediaType, rank, placed, scored, best⟩ := Scheme.choose_spec found
  rw [← score_eq, score_eq_some_iff increasing] at scored
  obtain ⟨preference, specific, speaks, weighed, rfl⟩ := scored
  refine ⟨mediaType, preference, specific, placed, speaks, weighed, ?_⟩
  intro otherIndex other otherPreference otherSpecific otherPlaced otherSpeaks
  by_cases otherWeighed : otherPreference.quality = 0
  · exact .inl (by omega)
  · have otherScored := (score_eq_some_iff increasing).mpr
      ⟨otherPreference, otherSpecific, otherSpeaks, otherWeighed, rfl⟩
    rw [score_eq] at otherScored
    have below := best other otherIndex _ otherPlaced otherScored
    simp only [Prod.Lex.toLex_lt_toLex, toLex_inj, Prod.mk.injEq, toDual_lt_toDual,
      toDual_inj] at below
    omega

end

/-- Ranges of equal weight, in one order, choose alike. -/
theorem choose_of_same_ranges {preferences kept : List Preference}
    (increasing : preferences.Pairwise fun left right => left.order < right.order)
    (keptIncreasing : kept.Pairwise fun left right => left.order < right.order)
    (same : kept.map (fun range => range.numbered.1) =
      preferences.map fun range => range.numbered.1)
    (offered : List Text) : choose kept offered = choose preferences offered := by
  rw [choose_eq, choose_eq]
  exact mediaRanges.choose_renumber (by simpa [List.map_map, Function.comp_def] using same)
    (pairwise_numbered keptIncreasing) (pairwise_numbered increasing) respectsOrder_mediaRanges
    offered

/-- A range that matches no offer is of no consequence. -/
theorem choose_append_cons {before after : List Preference} {dropped : Preference}
    {offered : List Text} (unmatched : ∀ mediaType ∈ offered, dropped.matched mediaType = none) :
    choose (before ++ dropped :: after) offered = choose (before ++ after) offered := by
  rw [choose_eq, choose_eq, List.map_append, List.map_append, List.map_cons]
  exact mediaRanges.choose_drop _ _ unmatched

/-- Of the media types on offer, the one is chosen whose most specific range has
the greatest weight, if any has a weight at all; and a range that matches none of
them can be dropped, whether the others are numbered anew or not. -/
theorem choose_exact {value : Text} {preferences : List Preference} (offered : List Text)
    (parsed : parse value = .ok preferences) :
    (choose preferences offered = none ↔ ∀ mediaType ∈ offered, ∀ preference specific,
      SpeaksFor preferences mediaType preference specific → preference.quality = 0) ∧
    (∀ index, choose preferences offered = some index → ∃ mediaType preference specific,
      Chosen preferences offered index mediaType preference specific) ∧
    ∀ before dropped after, preferences = before ++ dropped :: after →
      (∀ mediaType ∈ offered, dropped.matched mediaType = none) →
        ∀ kept : List Preference, (kept.Pairwise fun left right => left.order < right.order) →
          (kept.map fun range => range.numbered.1) =
            ((before ++ after).map fun range => range.numbered.1) →
            choose kept offered = choose preferences offered := by
  have increasing := pairwise_order_of_parse parsed
  refine ⟨choose_eq_none_iff increasing, fun index => exists_chosen increasing, ?_⟩
  rintro before dropped after rfl unmatched kept keptIncreasing same
  have remaining := increasing.sublist
    ((List.sublist_cons_self dropped after).append_left before)
  rw [choose_append_cons unmatched, choose_of_same_ranges remaining keptIncreasing same]

/-- A wildcard admits what no other range names, and a weight of zero refuses
what it names. -/
theorem choose_exact_refused :
    ∃ mediaType preference specific,
      Chosen [⟨"*".toList, "*".toList, 500, 0⟩, ⟨"text".toList, "plain".toList, 0, 1⟩]
        ["text/plain".toList, "text/html".toList] 1 mediaType preference specific :=
  (choose_exact ["text/plain".toList, "text/html".toList]
    (by decide : parse "*/*;q=0.5, text/plain;q=0".toList = _)).2.1 1 (by decide)

end Kynos.Negotiate
