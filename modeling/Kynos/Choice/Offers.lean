import Mathlib.Data.List.Forall2
import Mathlib.Data.List.Nodup
import Mathlib.Data.Prod.Lex
import Mathlib.Order.Basic

/-!
# Choosing among offers

Offers compete through the ranges of a list, each of which has its number. Of
the ranges that fit an offer the most specific speaks for it, the earliest of
those as specific; an offer it gives no weight is refused, and the others are
ranked. What the numbers are is of no consequence, only their order is, and
neither are the ranges that fit no offer. To be ranked is to have the greatest
key of a list, the last of those with one key.
-/

namespace Kynos.Choice

open OrderDual

/-! ## The greatest of several values -/

section Greatest

variable {α β κ ι : Type} [LinearOrder κ] [LinearOrder ι]

/-- The value with the greatest key, the last of those that share it. -/
def greatestBy (key : α → κ) : List α → Option α
  | [] => none
  | value :: rest =>
      match greatestBy key rest with
      | none => some value
      | some best => if key value ≤ key best then some best else some value

@[simp]
theorem greatestBy_nil (key : α → κ) : greatestBy key [] = none :=
  rfl

theorem greatestBy_cons_of_none {key : α → κ} {rest : List α} (value : α)
    (nothing : greatestBy key rest = none) : greatestBy key (value :: rest) = some value := by
  rw [greatestBy, nothing]

theorem greatestBy_cons_of_some {key : α → κ} {rest : List α} {best : α} (value : α)
    (found : greatestBy key rest = some best) :
    greatestBy key (value :: rest) = if key value ≤ key best then some best else some value := by
  rw [greatestBy, found]

/-- There is a greatest value of every list but the empty one. -/
theorem greatestBy_eq_none_iff {key : α → κ} {values : List α} :
    greatestBy key values = none ↔ values = [] := by
  cases values with
  | nil => simp
  | cons value rest =>
      refine iff_of_false ?_ (List.cons_ne_nil _ _)
      cases found : greatestBy key rest with
      | none => simp [greatestBy_cons_of_none value found]
      | some best =>
          rw [greatestBy_cons_of_some value found]
          split <;> simp

/-- The greatest value is one of the list, and no key of the list is greater. -/
theorem greatestBy_spec {key : α → κ} {values : List α} {best : α}
    (found : greatestBy key values = some best) :
    best ∈ values ∧ ∀ value ∈ values, key value ≤ key best := by
  induction values generalizing best with
  | nil => cases found
  | cons value rest ih =>
      cases later : greatestBy key rest with
      | none =>
          rw [greatestBy_cons_of_none value later, Option.some.injEq] at found
          rw [greatestBy_eq_none_iff.mp later]
          simp [found]
      | some candidate =>
          obtain ⟨member, greatest⟩ := ih later
          rw [greatestBy_cons_of_some value later] at found
          split at found
          next le =>
            cases found
            exact ⟨List.mem_cons_of_mem _ member, List.forall_mem_cons.mpr ⟨le, greatest⟩⟩
          next greater =>
            cases found
            have before := (not_le.mp greater).le
            exact ⟨List.mem_cons_self, List.forall_mem_cons.mpr
              ⟨le_rfl, fun other kept => (greatest other kept).trans before⟩⟩

/-- Values read through a function. -/
theorem greatestBy_map (key : β → κ) (read : α → β) (values : List α) :
    greatestBy key (values.map read) = (greatestBy (fun value => key (read value)) values).map read := by
  induction values with
  | nil => rfl
  | cons value rest ih =>
      cases later : greatestBy (fun value => key (read value)) rest with
      | none =>
          rw [later] at ih
          rw [List.map_cons, greatestBy_cons_of_none _ ih, greatestBy_cons_of_none value later]
          rfl
      | some best =>
          rw [later] at ih
          rw [List.map_cons, greatestBy_cons_of_some _ ih, greatestBy_cons_of_some value later]
          split <;> rfl

/-- Lists whose values answer to one another, their keys compared alike, have
greatest values that answer to one another. -/
theorem greatestBy_forall₂ {related : α → β → Prop} {key : α → κ} {key' : β → ι}
    (alike : ∀ value other image otherImage, related value image → related other otherImage →
      (key value ≤ key other ↔ key' image ≤ key' otherImage))
    {values : List α} {images : List β} (answers : List.Forall₂ related values images) :
    Option.Rel related (greatestBy key values) (greatestBy key' images) := by
  induction answers with
  | nil => exact .none
  | @cons value image rest restImages head _ ih =>
      cases later : greatestBy key rest with
      | none =>
          rw [later] at ih
          cases laterImage : greatestBy key' restImages with
          | some best =>
              rw [laterImage] at ih
              cases ih
          | none =>
              rw [greatestBy_cons_of_none value later, greatestBy_cons_of_none image laterImage]
              exact .some head
      | some best =>
          rw [later] at ih
          cases laterImage : greatestBy key' restImages with
          | none =>
              rw [laterImage] at ih
              cases ih
          | some bestImage =>
              rw [laterImage] at ih
              cases ih with
              | some same =>
                  have compared := alike value best image bestImage head same
                  rw [greatestBy_cons_of_some value later,
                    greatestBy_cons_of_some image laterImage]
                  by_cases le : key value ≤ key best
                  · rw [if_pos le, if_pos (compared.mp le)]
                    exact .some same
                  · rw [if_neg le, if_neg (mt compared.mpr le)]
                    exact .some head

/-- Keys in one order have one greatest value. -/
theorem greatestBy_congr {key : α → κ} {key' : α → ι}
    (alike : ∀ value other, key value ≤ key other ↔ key' value ≤ key' other) (values : List α) :
    greatestBy key values = greatestBy key' values := by
  have related : Option.Rel (fun value image => value = image) (greatestBy key values)
      (greatestBy key' values) := by
    refine greatestBy_forall₂ ?_ (List.forall₂_refl values)
    rintro value other _ _ rfl rfl
    exact alike value other
  generalize greatestBy key values = best at related ⊢
  generalize greatestBy key' values = bestImage at related ⊢
  cases related with
  | none => rfl
  | some same => rw [same]

end Greatest

/-! ## Schemes -/

/-- How ranges fit offers and rank them. -/
structure Scheme (Range Offer Fit Specificity Rank : Type) where
  fit : Range → Offer → Option Fit
  specificity : Range → Fit → Specificity
  weight : Range → Nat
  rank : Range → Fit → Nat → Rank

namespace Scheme

variable {Range Offer Fit Specificity Rank : Type} [LinearOrder Specificity] [LinearOrder Rank]
  (scheme : Scheme Range Offer Fit Specificity Rank)

/-- The ranges that fit an offer, with their numbers. -/
def fits (ranges : List (Range × Nat)) (offer : Offer) : List (Range × Nat × Fit) :=
  ranges.filterMap fun range => (scheme.fit range.1 offer).map fun fit => (range.1, range.2, fit)

/-- How specific a range that fits is, the earlier the more. -/
def specificityKey (fitting : Range × Nat × Fit) : Specificity ×ₗ Natᵒᵈ :=
  toLex (scheme.specificity fitting.1 fitting.2.2, toDual fitting.2.1)

/-- The range that speaks for an offer. -/
def speaker (ranges : List (Range × Nat)) (offer : Offer) : Option (Range × Nat × Fit) :=
  greatestBy scheme.specificityKey (scheme.fits ranges offer)

/-- The rank of an offer, unless it is refused. -/
def score (ranges : List (Range × Nat)) (offer : Offer) : Option Rank :=
  (scheme.speaker ranges offer).bind fun speaker =>
    if scheme.weight speaker.1 = 0 then none
    else some (scheme.rank speaker.1 speaker.2.2 speaker.2.1)

/-- The ranks of the offers that are not refused, with their places. -/
def scored (ranges : List (Range × Nat)) (offers : List Offer) : List (Rank × Nat) :=
  offers.zipIdx.filterMap fun offer =>
    (scheme.score ranges offer.1).map fun rank => (rank, offer.2)

/-- The rank, the earlier offer first. -/
def rankKey (scored : Rank × Nat) : Rank ×ₗ Natᵒᵈ :=
  toLex (scored.1, toDual scored.2)

/-- The place of the offer that is chosen. -/
def choose (ranges : List (Range × Nat)) (offers : List Offer) : Option Nat :=
  (greatestBy rankKey (scheme.scored ranges offers)).map Prod.snd

/-! ## What speaks for an offer -/

/-- A range is the most specific of those that fit an offer, and the earliest
of those as specific. -/
structure Speaks (ranges : List (Range × Nat)) (offer : Offer) (range : Range) (number : Nat)
    (fit : Fit) : Prop where
  listed : (range, number) ∈ ranges
  fits : scheme.fit range offer = some fit
  foremost : ∀ other otherNumber otherFit, (other, otherNumber) ∈ ranges →
    scheme.fit other offer = some otherFit →
      scheme.specificity other otherFit < scheme.specificity range fit ∨
        scheme.specificity other otherFit = scheme.specificity range fit ∧ number ≤ otherNumber

omit [LinearOrder Specificity] [LinearOrder Rank] in
theorem mem_fits_iff {ranges : List (Range × Nat)} {offer : Offer} {range : Range} {number : Nat}
    {fit : Fit} :
    (range, number, fit) ∈ scheme.fits ranges offer ↔
      (range, number) ∈ ranges ∧ scheme.fit range offer = some fit := by
  rw [fits, List.mem_filterMap]
  constructor
  · rintro ⟨⟨listed, number'⟩, member, found⟩
    obtain ⟨fitting, fits, same⟩ := Option.map_eq_some_iff.mp found
    cases same
    exact ⟨member, fits⟩
  · rintro ⟨member, fits⟩
    exact ⟨(range, number), member, by simp [fits]⟩

variable {scheme} {ranges : List (Range × Nat)} {offer : Offer}

omit [LinearOrder Rank] in
/-- What speaks for an offer is the most specific range that fits it. -/
theorem speaks_of_speaker {range : Range} {number : Nat} {fit : Fit}
    (found : scheme.speaker ranges offer = some (range, number, fit)) :
    scheme.Speaks ranges offer range number fit := by
  obtain ⟨member, greatest⟩ := greatestBy_spec found
  have listed := scheme.mem_fits_iff.mp member
  refine ⟨listed.1, listed.2, fun other otherNumber otherFit otherListed otherFits => ?_⟩
  have below := greatest _ (scheme.mem_fits_iff.mpr ⟨otherListed, otherFits⟩)
  simpa [specificityKey, Prod.Lex.toLex_le_toLex] using below

omit [LinearOrder Rank] in
/-- Nothing speaks for an offer exactly where no range fits it. -/
theorem speaker_eq_none_iff :
    scheme.speaker ranges offer = none ↔
      ∀ range number, (range, number) ∈ ranges → scheme.fit range offer = none := by
  rw [speaker, greatestBy_eq_none_iff, List.eq_nil_iff_forall_not_mem]
  constructor
  · intro nothing range number listed
    by_contra fitting
    obtain ⟨fit, fits⟩ := Option.ne_none_iff_exists'.mp fitting
    exact nothing (range, number, fit) (scheme.mem_fits_iff.mpr ⟨listed, fits⟩)
  · rintro nothing ⟨range, number, fit⟩ member
    have listed := scheme.mem_fits_iff.mp member
    rw [nothing range number listed.1] at listed
    cases listed.2

omit [LinearOrder Rank] in
/-- Two ranges that speak for an offer have one number. -/
theorem Speaks.agree {range other : Range} {number otherNumber : Nat} {fit otherFit : Fit}
    (speaks : scheme.Speaks ranges offer range number fit)
    (speaks' : scheme.Speaks ranges offer other otherNumber otherFit) : number = otherNumber := by
  have left := speaks.foremost other otherNumber otherFit speaks'.listed speaks'.fits
  have right := speaks'.foremost range number fit speaks.listed speaks.fits
  rcases left with lower | ⟨same, before⟩
  · rcases right with lower' | ⟨same', -⟩
    · exact absurd lower' lower.asymm
    · exact absurd lower (same' ▸ lt_irrefl _)
  · rcases right with lower' | ⟨-, after⟩
    · exact absurd lower' (same ▸ lt_irrefl _)
    · exact before.antisymm after

/-! ## What is chosen -/

/-- What was chosen outranks every other offer that is not refused, or is as
high in rank and earlier. -/
theorem choose_spec {offers : List Offer} {index : Nat}
    (chosen : scheme.choose ranges offers = some index) :
    ∃ offer rank, offers[index]? = some offer ∧ scheme.score ranges offer = some rank ∧
      ∀ other otherIndex otherRank, offers[otherIndex]? = some other →
        scheme.score ranges other = some otherRank →
          otherRank < rank ∨ otherRank = rank ∧ index ≤ otherIndex := by
  obtain ⟨⟨rank, place⟩, found, rfl⟩ := Option.map_eq_some_iff.mp chosen
  obtain ⟨member, greatest⟩ := greatestBy_spec found
  obtain ⟨⟨offer, place'⟩, numbered, scored⟩ := List.mem_filterMap.mp member
  obtain ⟨rank', score, same⟩ := Option.map_eq_some_iff.mp scored
  cases same
  refine ⟨offer, rank, List.mk_mem_zipIdx_iff_getElem?.mp numbered, score, ?_⟩
  intro other otherIndex otherRank placed otherScore
  have otherMember : (otherRank, otherIndex) ∈ scheme.scored ranges offers :=
    List.mem_filterMap.mpr ⟨(other, otherIndex), List.mk_mem_zipIdx_iff_getElem?.mpr placed,
      by simp [otherScore]⟩
  have below := greatest _ otherMember
  simpa [rankKey, Prod.Lex.toLex_le_toLex] using below

/-- Nothing is chosen exactly where every offer is refused. -/
theorem choose_eq_none_iff_score {offers : List Offer} :
    scheme.choose ranges offers = none ↔ ∀ offer ∈ offers, scheme.score ranges offer = none := by
  rw [choose, Option.map_eq_none_iff, greatestBy_eq_none_iff, scored, List.filterMap_eq_nil_iff]
  constructor
  · intro nothing offer member
    obtain ⟨index, placed⟩ := List.mem_iff_getElem?.mp member
    have refused := nothing (offer, index) (List.mk_mem_zipIdx_iff_getElem?.mpr placed)
    exact Option.map_eq_none_iff.mp refused
  · rintro nothing ⟨offer, index⟩ numbered
    have member := List.mem_of_getElem? (List.mk_mem_zipIdx_iff_getElem?.mp numbered)
    exact Option.map_eq_none_iff.mpr (nothing offer member)

section

variable (increasing : (ranges.map Prod.snd).Pairwise (· < ·))

include increasing

omit [LinearOrder Rank] in
/-- One range speaks for an offer, where the numbers are distinct. -/
theorem speaker_eq_some_iff {range : Range} {number : Nat} {fit : Fit} :
    scheme.speaker ranges offer = some (range, number, fit) ↔
      scheme.Speaks ranges offer range number fit := by
  refine ⟨speaks_of_speaker, fun speaks => ?_⟩
  cases found : scheme.speaker ranges offer with
  | none =>
      have unfit := speaker_eq_none_iff.mp found range number speaks.listed
      rw [speaks.fits] at unfit
      cases unfit
  | some speaker =>
      obtain ⟨other, otherNumber, otherFit⟩ := speaker
      have speaks' := speaks_of_speaker found
      have sameNumber := speaks.agree speaks'
      have distinct : (ranges.map Prod.snd).Nodup := increasing.imp Nat.ne_of_lt
      have same := List.inj_on_of_nodup_map distinct speaks.listed speaks'.listed sameNumber
      cases same
      have sameFit := speaks.fits.symm.trans speaks'.fits
      cases sameFit
      rfl

omit [LinearOrder Rank] in
/-- The rank of an offer that is not refused is the one the range that speaks
for it gives. -/
theorem score_eq_some_iff {rank : Rank} :
    scheme.score ranges offer = some rank ↔
      ∃ range number fit, scheme.Speaks ranges offer range number fit ∧
        scheme.weight range ≠ 0 ∧ scheme.rank range fit number = rank := by
  rw [score, Option.bind_eq_some_iff]
  constructor
  · rintro ⟨⟨range, number, fit⟩, found, ranked⟩
    by_cases weightless : scheme.weight range = 0
    · simp [weightless] at ranked
    · rw [if_neg weightless, Option.some.injEq] at ranked
      exact ⟨range, number, fit, speaks_of_speaker found, weightless, ranked⟩
  · rintro ⟨range, number, fit, speaks, weighed, rfl⟩
    exact ⟨(range, number, fit), (speaker_eq_some_iff increasing).mpr speaks, if_neg weighed⟩

omit [LinearOrder Rank] in
/-- An offer is refused where whatever speaks for it gives it no weight. -/
theorem score_eq_none_iff :
    scheme.score ranges offer = none ↔
      ∀ range number fit, scheme.Speaks ranges offer range number fit → scheme.weight range = 0 := by
  constructor
  · intro refused range number fit speaks
    by_contra weighed
    have ranked := (score_eq_some_iff increasing).mpr ⟨range, number, fit, speaks, weighed, rfl⟩
    rw [refused] at ranked
    cases ranked
  · intro weightless
    by_contra ranked
    obtain ⟨rank, scored⟩ := Option.ne_none_iff_exists'.mp ranked
    obtain ⟨range, number, fit, speaks, weighed, -⟩ := (score_eq_some_iff increasing).mp scored
    exact weighed (weightless range number fit speaks)

/-- Nothing is chosen exactly where whatever speaks for an offer gives it no
weight. -/
theorem choose_eq_none_iff {offers : List Offer} :
    scheme.choose ranges offers = none ↔
      ∀ offer ∈ offers, ∀ range number fit,
        scheme.Speaks ranges offer range number fit → scheme.weight range = 0 := by
  rw [choose_eq_none_iff_score]
  exact forall₂_congr fun _ _ => score_eq_none_iff increasing

end

/-! ## Numbers and ranges of no consequence -/

/-- Numbers that are in one order stand for one another in any rank. -/
def RespectsOrder (scheme : Scheme Range Offer Fit Specificity Rank) : Prop :=
  ∀ range fit other otherFit number otherNumber image otherImage,
    (number ≤ otherNumber ↔ image ≤ otherImage) → (otherNumber ≤ number ↔ otherImage ≤ image) →
      (scheme.rank range fit number ≤ scheme.rank other otherFit otherNumber ↔
        scheme.rank range fit image ≤ scheme.rank other otherFit otherImage)

/-- The numbers of one place of two increasing lists are in one order. -/
theorem le_iff_of_mem_zip {numbers images : List Nat} (increasing : numbers.Pairwise (· < ·))
    (imagesIncreasing : images.Pairwise (· < ·)) {number otherNumber image otherImage : Nat}
    (paired : (number, image) ∈ numbers.zip images)
    (otherPaired : (otherNumber, otherImage) ∈ numbers.zip images) :
    number ≤ otherNumber ↔ image ≤ otherImage := by
  induction numbers generalizing images with
  | nil => simp at paired
  | cons first rest ih =>
      cases images with
      | nil => simp at paired
      | cons firstImage restImages =>
          have later := List.pairwise_cons.mp increasing
          have laterImages := List.pairwise_cons.mp imagesIncreasing
          rw [List.zip_cons_cons, List.mem_cons] at paired otherPaired
          rcases paired with head | tail <;> rcases otherPaired with otherHead | otherTail
          · cases head
            cases otherHead
            simp
          · cases head
            have after := later.1 _ (List.of_mem_zip otherTail).1
            have afterImage := laterImages.1 _ (List.of_mem_zip otherTail).2
            exact iff_of_true after.le afterImage.le
          · cases otherHead
            have after := later.1 _ (List.of_mem_zip tail).1
            have afterImage := laterImages.1 _ (List.of_mem_zip tail).2
            exact iff_of_false after.not_ge afterImage.not_ge
          · exact ih later.2 laterImages.2 tail otherTail

/-- Lists of one range at each place answer to one another there. -/
theorem forall₂_of_map_fst {ranges images : List (Range × Nat)} (pairs : List (Nat × Nat))
    (same : ranges.map Prod.fst = images.map Prod.fst)
    (among : ∀ pair ∈ (ranges.map Prod.snd).zip (images.map Prod.snd), pair ∈ pairs) :
    List.Forall₂ (fun range image => range.1 = image.1 ∧ (range.2, image.2) ∈ pairs)
      ranges images := by
  induction ranges generalizing images with
  | nil =>
      cases images with
      | nil => exact .nil
      | cons image rest => cases same
  | cons range rest ih =>
      cases images with
      | nil => cases same
      | cons image restImages =>
          rw [List.map_cons, List.map_cons, List.cons.injEq] at same
          exact .cons ⟨same.1, among _ (by simp)⟩
            (ih same.2 fun pair member => among pair (by simp [member]))

/-- Two ranks that one range gives, under numbers that are paired. -/
def RankedAlike (scheme : Scheme Range Offer Fit Specificity Rank) (pairs : List (Nat × Nat))
    (rank image : Rank) : Prop :=
  ∃ range fit number other, (number, other) ∈ pairs ∧
    scheme.rank range fit number = rank ∧ scheme.rank range fit other = image

section

variable (scheme) {images : List (Range × Nat)}
  (same : ranges.map Prod.fst = images.map Prod.fst)
  (increasing : (ranges.map Prod.snd).Pairwise (· < ·))
  (imagesIncreasing : (images.map Prod.snd).Pairwise (· < ·))

include same increasing imagesIncreasing

omit [LinearOrder Rank] in
/-- What speaks for an offer is at one place in both lists. -/
theorem speaker_renumber (offer : Offer) :
    Option.Rel (fun fitting image => fitting.1 = image.1 ∧ fitting.2.2 = image.2.2 ∧
        (fitting.2.1, image.2.1) ∈ (ranges.map Prod.snd).zip (images.map Prod.snd))
      (scheme.speaker ranges offer) (scheme.speaker images offer) := by
  refine greatestBy_forall₂ ?_ ?_
  · rintro ⟨range, number, fit⟩ ⟨other, otherNumber, otherFit⟩ ⟨_, image, _⟩ ⟨_, otherImage, _⟩
      ⟨rfl, rfl, paired⟩ ⟨rfl, rfl, otherPaired⟩
    have order := le_iff_of_mem_zip increasing imagesIncreasing otherPaired paired
    simp [specificityKey, Prod.Lex.toLex_le_toLex, order]
  · refine List.rel_filterMap ?_ (forall₂_of_map_fst _ same fun _ member => member)
    rintro ⟨range, number⟩ ⟨_, image⟩ ⟨rfl, paired⟩
    dsimp only
    cases scheme.fit range offer with
    | none => exact .none
    | some fit => exact .some ⟨rfl, rfl, paired⟩

omit [LinearOrder Rank] in
/-- The ranks of an offer are those of one range, under numbers of one place. -/
theorem score_renumber (offer : Offer) :
    Option.Rel (scheme.RankedAlike ((ranges.map Prod.snd).zip (images.map Prod.snd)))
      (scheme.score ranges offer) (scheme.score images offer) := by
  have speakers := scheme.speaker_renumber same increasing imagesIncreasing offer
  rw [score, score]
  generalize scheme.speaker ranges offer = fitting at speakers ⊢
  generalize scheme.speaker images offer = image at speakers ⊢
  cases speakers with
  | none => exact .none
  | @some fitting image answers =>
      obtain ⟨range, number, fit⟩ := fitting
      obtain ⟨_, other, _⟩ := image
      obtain ⟨rfl, rfl, paired⟩ := answers
      simp only [Option.bind_some]
      split
      · exact .none
      · exact .some ⟨range, fit, number, other, paired, rfl, rfl⟩

omit [LinearOrder Rank] in
/-- So are the ranks of all offers. -/
theorem scored_renumber (offers : List Offer) :
    List.Forall₂ (fun rank image => rank.2 = image.2 ∧
        scheme.RankedAlike ((ranges.map Prod.snd).zip (images.map Prod.snd)) rank.1 image.1)
      (scheme.scored ranges offers) (scheme.scored images offers) := by
  refine List.rel_filterMap (R := Eq) ?_ (List.forall₂_refl offers.zipIdx)
  rintro ⟨offer, index⟩ _ rfl
  have scores := scheme.score_renumber same increasing imagesIncreasing offer
  dsimp only
  generalize scheme.score ranges offer = rank at scores ⊢
  generalize scheme.score images offer = image at scores ⊢
  cases scores with
  | none => exact .none
  | some answers => exact .some ⟨rfl, answers⟩

/-- What is chosen does not depend on the numbers, only on their order. -/
theorem choose_renumber (respects : scheme.RespectsOrder) (offers : List Offer) :
    scheme.choose ranges offers = scheme.choose images offers := by
  have alike : ∀ rank other image otherImage : Rank × Nat,
      (rank.2 = image.2 ∧ scheme.RankedAlike ((ranges.map Prod.snd).zip (images.map Prod.snd))
        rank.1 image.1) →
      (other.2 = otherImage.2 ∧ scheme.RankedAlike
        ((ranges.map Prod.snd).zip (images.map Prod.snd)) other.1 otherImage.1) →
      (rankKey rank ≤ rankKey other ↔ rankKey image ≤ rankKey otherImage) := by
    rintro ⟨_, index⟩ ⟨_, otherIndex⟩ ⟨_, _⟩ ⟨_, _⟩
      ⟨rfl, range, fit, number, image, paired, rfl, rfl⟩
      ⟨rfl, range', fit', number', image', paired', rfl, rfl⟩
    have below := le_iff_of_mem_zip increasing imagesIncreasing paired paired'
    have above := le_iff_of_mem_zip increasing imagesIncreasing paired' paired
    have ranked := respects range fit range' fit' number number' image image' below above
    have ranked' := respects range' fit' range fit number' number image' image above below
    simp only [rankKey, Prod.Lex.toLex_le_toLex, lt_iff_le_not_ge, le_antisymm_iff, ranked, ranked']
  have chosen := greatestBy_forall₂ alike
    (scheme.scored_renumber same increasing imagesIncreasing offers)
  rw [choose, choose]
  generalize greatestBy rankKey (scheme.scored ranges offers) = best at chosen ⊢
  generalize greatestBy rankKey (scheme.scored images offers) = bestImage at chosen ⊢
  cases chosen with
  | none => rfl
  | some answers => rw [Option.map_some, Option.map_some, answers.1]

end

/-- A range that fits no offer is of no consequence. -/
theorem choose_drop (before after : List (Range × Nat)) {dropped : Range × Nat} {offers : List Offer}
    (unfit : ∀ offer ∈ offers, scheme.fit dropped.1 offer = none) :
    scheme.choose (before ++ dropped :: after) offers = scheme.choose (before ++ after) offers := by
  have scores : ∀ offer ∈ offers,
      scheme.score (before ++ dropped :: after) offer = scheme.score (before ++ after) offer := by
    intro offer member
    simp only [score, speaker, fits, List.filterMap_append,
      List.filterMap_cons, unfit offer member, Option.map_none]
  have kept : scheme.scored (before ++ dropped :: after) offers =
      scheme.scored (before ++ after) offers := by
    refine List.filterMap_congr fun offer numbered => ?_
    rw [scores offer.1 (List.mem_of_getElem? (List.mem_zipIdx_iff_getElem?.mp numbered))]
  rw [choose, kept, choose]

end Scheme

end Kynos.Choice
