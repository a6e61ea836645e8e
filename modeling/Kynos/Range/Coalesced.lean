import Kynos.Interval.Merge
import Kynos.Range.Parts
import Kynos.Range.Precedence
import Mathlib.Algebra.Order.BigOperators.Group.List

/-!
# What merged ranges are

The ranges a `range-set` selects once they are merged: apart from one another,
within the representation, made of exactly the octets its specs name, and in
the order of the first specs that named them.
-/

namespace Kynos.Range

open Kynos.Interval Kynos.Numeral

/-- The octets of a range number as many as its last position is past the one
before its first. -/
def octets (range : Nat × Nat) : Nat :=
  range.2 + 1 - range.1

/-- The spec at a position names an octet of a range. -/
def Feeds (specs : List Spec) (completeLength position : Nat) (range : Nat × Nat) : Prop :=
  ∃ spec, specs[position]? = some spec ∧
    ∃ offset ∈ Unbounded.positions completeLength spec, offset ∈ Set.Icc range.1 range.2

/-- No octet of one range is, or is next to, an octet of the other. -/
def Disjoined (left right : Nat × Nat) : Prop :=
  left.2 + 1 < right.1 ∨ right.2 + 1 < left.1

/-- A last position reaches no further than the next one. -/
theorem saturatingAdd_one_le (last point : Nat) (past : last < point) :
    saturatingAdd u64Max last 1 ≤ point :=
  (min_le_left _ _).trans past

/-- A first position out of the reach of a last one is not next to it. -/
theorem succ_lt_of_saturatingAdd_lt {last first : Nat} (machine : first ≤ u64Max)
    (unreached : saturatingAdd u64Max last 1 < first) : last + 1 < first :=
  (min_lt_iff.mp unreached).resolve_right (not_lt.mpr machine)

/-! ## The ranges that are merged -/

section

variable {specs : List Spec} {completeLength : Nat} (nonempty : 0 < completeLength)

include nonempty

/-- The ranges to merge are those their positions' specs resolve to. -/
theorem mem_positioned_iff {part : Positioned Nat} :
    part ∈ positioned specs completeLength ↔
      ∃ spec, specs[part.2]? = some spec ∧ resolveOne spec completeLength = some part.1 := by
  rw [positioned_eq nonempty, positionedFrom, List.mem_filterMap]
  constructor
  · rintro ⟨⟨spec, position⟩, numbered, resolved⟩
    obtain ⟨range, found, rfl⟩ := Option.map_eq_some_iff.mp resolved
    exact ⟨spec, List.mk_mem_zipIdx_iff_getElem?.mp numbered, found⟩
  · rintro ⟨spec, placed, resolved⟩
    exact ⟨(spec, part.2), List.mk_mem_zipIdx_iff_getElem?.mpr placed, by simp [resolved]⟩

theorem nodup_positioned : ((positioned specs completeLength).map Prod.snd).Nodup := by
  rw [positioned_eq nonempty]
  exact nodup_positionedFrom completeLength 0 specs

variable (ordered : ∀ spec ∈ specs, spec.Ordered)

include ordered

/-- A range to merge is a nonempty one within the representation. -/
theorem positioned_bounds {part : Positioned Nat} (member : part ∈ positioned specs completeLength) :
    part.1.1 ≤ part.1.2 ∧ part.1.2 < completeLength := by
  obtain ⟨spec, placed, resolved⟩ := (mem_positioned_iff nonempty).mp member
  exact resolveOne_bounds (ordered spec (List.mem_of_getElem? placed)) nonempty resolved

theorem positioned_ordered (part : Positioned Nat)
    (member : part ∈ positioned specs completeLength) : part.1.1 ≤ part.1.2 :=
  (positioned_bounds nonempty ordered member).1

/-- A spec names an octet exactly where it resolves to a range that holds it. -/
theorem mem_positions_iff {spec : Spec} (member : spec ∈ specs) {offset : Nat} :
    offset ∈ Unbounded.positions completeLength spec ↔
      ∃ range, resolveOne spec completeLength = some range ∧ offset ∈ Set.Icc range.1 range.2 := by
  cases resolved : resolveOne spec completeLength with
  | none =>
      rw [(positions_eq_empty_iff nonempty (ordered spec member)).mpr resolved]
      simp
  | some range =>
      have bounds := resolveOne_bounds (ordered spec member) nonempty resolved
      rw [(positions_eq_Icc_iff nonempty (ordered spec member) bounds.1).mpr resolved]
      simp

/-- The spec at a position feeds a range where the range it resolves to holds a
common octet. -/
theorem feeds_iff {position : Nat} {range : Nat × Nat} :
    Feeds specs completeLength position range ↔
      ∃ part ∈ positioned specs completeLength, part.2 = position ∧
        ∃ offset, offset ∈ Set.Icc part.1.1 part.1.2 ∧ offset ∈ Set.Icc range.1 range.2 := by
  constructor
  · rintro ⟨spec, placed, offset, named, held⟩
    obtain ⟨part, resolved, within⟩ :=
      (mem_positions_iff nonempty ordered (List.mem_of_getElem? placed)).mp named
    exact ⟨(part, position), (mem_positioned_iff nonempty).mpr ⟨spec, placed, resolved⟩, rfl,
      offset, within, held⟩
  · rintro ⟨part, member, rfl, offset, within, held⟩
    obtain ⟨spec, placed, resolved⟩ := (mem_positioned_iff nonempty).mp member
    exact ⟨spec, placed, offset, (mem_positions_iff nonempty ordered
      (List.mem_of_getElem? placed)).mpr ⟨part.1, resolved, within⟩, held⟩

end

/-! ## The octets they enclose -/

/-- Ranges that end, latest first, before the next begins enclose no more octets
than there are up to the end of the first. -/
theorem sum_octets_le {ranges : List (Nat × Nat)} (bound : Nat)
    (apart : ranges.Pairwise fun later earlier => earlier.2 < later.1)
    (ordered : ∀ range ∈ ranges, range.1 ≤ range.2) (within : ∀ range ∈ ranges, range.2 < bound) :
    (ranges.map octets).sum ≤ bound := by
  induction ranges generalizing bound with
  | nil => simp
  | cons latest before ih =>
      have unreached := List.pairwise_cons.mp apart
      have rest := ih latest.1 unreached.2
        (fun range member => ordered range (List.mem_cons_of_mem _ member)) unreached.1
      have notInverted := ordered latest List.mem_cons_self
      have inside := within latest List.mem_cons_self
      simp only [List.map_cons, List.sum_cons, octets]
      omega

/-! ## The merged ranges -/

/-- What the ranges of a merged `range-set` are. -/
structure Coalesces (specs : List Spec) (completeLength : Nat) (ranges : List (Nat × Nat)) :
    Prop where
  within : ∀ range ∈ ranges, range.1 ≤ range.2 ∧ range.2 < completeLength
  disjoined : ranges.Pairwise Disjoined
  exactly : ∀ offset, (∃ range ∈ ranges, offset ∈ Set.Icc range.1 range.2) ↔
    ∃ spec ∈ specs, offset ∈ Unbounded.positions completeLength spec
  enclosed : (ranges.map octets).sum ≤ completeLength
  placed : ∃ earliest : List Nat, earliest.Pairwise (· < ·) ∧
    List.Forall₂ (fun range position =>
      IsLeast { fed | Feeds specs completeLength fed range } position) ranges earliest

section

variable {specs : List Spec} {completeLength : Nat} (nonempty : 0 < completeLength)
  (ordered : ∀ spec ∈ specs, spec.Ordered)

include nonempty ordered

/-- A merged range is a nonempty one within the representation. -/
theorem merge_bounds (whole : Positioned Nat)
    (kept : whole ∈ merge (fun last => saturatingAdd u64Max last 1)
      (positioned specs completeLength)) :
    whole.1.1 ≤ whole.1.2 ∧ whole.1.2 < completeLength := by
  have notInverted := positioned_ordered nonempty ordered
  obtain ⟨part, member, same⟩ := exists_last_merge saturatingAdd_one_le notInverted kept
  exact ⟨ordered_of_mem_merge saturatingAdd_one_le notInverted kept,
    same ▸ (positioned_bounds nonempty ordered member).2⟩

/-- The merged ranges hold exactly the octets the specs name. -/
theorem exists_mem_coalesce_iff {offset : Nat} :
    (∃ range ∈ coalesce specs completeLength, offset ∈ Set.Icc range.1 range.2) ↔
      ∃ spec ∈ specs, offset ∈ Unbounded.positions completeLength spec := by
  constructor
  · rintro ⟨range, member, held⟩
    obtain ⟨whole, kept, rfl⟩ := List.mem_map.mp member
    obtain ⟨part, resolvedPart, -, within⟩ :=
      exists_of_holds_merge saturatingAdd_one_le (positioned_ordered nonempty ordered) kept held
    obtain ⟨spec, placed, resolved⟩ := (mem_positioned_iff nonempty).mp resolvedPart
    have read := List.mem_of_getElem? placed
    exact ⟨spec, read, (mem_positions_iff nonempty ordered read).mpr ⟨part.1, resolved, within⟩⟩
  · rintro ⟨spec, read, named⟩
    obtain ⟨range, resolved, within⟩ := (mem_positions_iff nonempty ordered read).mp named
    obtain ⟨position, placed⟩ := List.mem_iff_getElem?.mp read
    have member : (range, position) ∈ positioned specs completeLength :=
      (mem_positioned_iff nonempty).mpr ⟨spec, placed, resolved⟩
    obtain ⟨whole, kept, covers⟩ := exists_covers_merge _ (nodup_positioned nonempty) member
    exact ⟨whole.1, List.mem_map_of_mem kept, covers.holds within⟩

variable (machine : completeLength ≤ u64Max)

include machine

/-- No merged range is next to another. -/
theorem pairwise_coalesce : (coalesce specs completeLength).Pairwise Disjoined := by
  have inside := merge_bounds nonempty ordered
  refine List.pairwise_map.mpr ((pairwise_apart_merge saturatingAdd_one_le
    (positioned_ordered nonempty ordered)).imp_of_mem fun leftKept rightKept apart => ?_)
  have left := inside _ leftKept
  have right := inside _ rightKept
  rcases apart with apart | apart
  · exact .inl (succ_lt_of_saturatingAdd_lt (by omega) apart)
  · exact .inr (succ_lt_of_saturatingAdd_lt (by omega) apart)

/-- The merged ranges enclose no more octets than the representation has. -/
theorem sum_octets_coalesce_le : ((coalesce specs completeLength).map octets).sum ≤ completeLength := by
  have gathered := fun whole kept => merge_bounds nonempty ordered whole (mem_merge.mpr kept)
  have permuted := (merge_perm (fun last => saturatingAdd u64Max last 1)
    (positioned specs completeLength)).map Prod.fst
  have separated :=
    separates_mergeSort saturatingAdd_one_le (positioned_ordered nonempty ordered)
  rw [coalesce, (permuted.map octets).sum_eq]
  refine sum_octets_le completeLength ?_ ?_ ?_
  · refine List.pairwise_map.mpr (separated.apart.imp_of_mem fun later _ unreached => ?_)
    have bounds := gathered _ later
    exact Nat.lt_of_succ_lt (succ_lt_of_saturatingAdd_lt (by omega) unreached)
  · exact List.forall_mem_map.mpr fun whole kept => (gathered whole kept).1
  · exact List.forall_mem_map.mpr fun whole kept => (gathered whole kept).2

/-- A merged range's position is that of the first spec that feeds it. -/
theorem isLeast_feeds (whole : Positioned Nat)
    (kept : whole ∈ merge (fun last => saturatingAdd u64Max last 1)
      (positioned specs completeLength)) :
    IsLeast { fed | Feeds specs completeLength fed whole.1 } whole.2 := by
  have extensive : ∀ part ∈ positioned specs completeLength,
      part.1.2 ≤ saturatingAdd u64Max part.1.2 1 := fun part member =>
    le_min (Nat.le_succ _) ((positioned_bounds nonempty ordered member).2.le.trans machine)
  have least := isLeast_position_merge saturatingAdd_one_le (positioned_ordered nonempty ordered)
    extensive (nodup_positioned nonempty) kept
  simp only [feeds_iff nonempty ordered]
  exact least

/-- Merging a `range-set` gives ranges apart from one another and within the
representation, which hold exactly the octets its specs name and stand in the
order of the first specs that named them. -/
theorem coalesces_coalesce : Coalesces specs completeLength (coalesce specs completeLength) where
  within := List.forall_mem_map.mpr (merge_bounds nonempty ordered)
  disjoined := pairwise_coalesce nonempty ordered machine
  exactly _ := exists_mem_coalesce_iff nonempty ordered
  enclosed := sum_octets_coalesce_le nonempty ordered machine
  placed := by
    refine ⟨(merge (fun last => saturatingAdd u64Max last 1)
      (positioned specs completeLength)).map Prod.snd, ?_, ?_⟩
    · exact List.pairwise_map.mpr (pairwise_position_merge _ (nodup_positioned nonempty))
    · rw [coalesce, List.forall₂_map_left_iff, List.forall₂_map_right_iff, List.forall₂_same]
      exact isLeast_feeds nonempty ordered machine

end

/-- Two adjacent ranges of ten octets, written after one apart from them. -/
theorem coalesces_coalesce_ten :
    Coalesces [.offsets 8 none, .offsets 2 (some 3), .offsets 0 (some 1)] 10
      (coalesce [.offsets 8 none, .offsets 2 (some 3), .offsets 0 (some 1)] 10) :=
  coalesces_coalesce (by decide) (by simp [Spec.Ordered]) (by decide)

end Kynos.Range
