import Mathlib.Data.List.Pairwise
import Mathlib.Data.List.Sort
import Mathlib.Order.Bounds.Defs
import Mathlib.Order.MinMax

/-!
# Merging positioned intervals

Closed intervals over a linear order, each carrying the position it was written
at.  Intervals read in the order of their first points are gathered into those
that reach one another; what is gathered keeps the least position that fed it,
and the results are put back in the order of these positions. Where an interval
reaches no further than the next point, these are intervals that do not reach one
another, made of exactly the points of those that were read.
-/

namespace Kynos.Interval

variable {α : Type} [LinearOrder α]

/-- A closed interval, by its first and last point, and its position. -/
abbrev Positioned (α : Type) := (α × α) × Nat

/-- The order of tuples: by first point, then last point, then position. -/
def tupleLe (left right : Positioned α) : Bool :=
  left.1.1 < right.1.1 || left.1.1 = right.1.1 &&
    (left.1.2 < right.1.2 || left.1.2 = right.1.2 && left.2 ≤ right.2)

/-- The order of the positions alone. -/
def positionLe (left right : Positioned α) : Bool :=
  left.2 ≤ right.2

/-- Adds an interval to those gathered, latest first: to the latest one when it
begins no later than that one reaches, on its own otherwise. -/
def absorb (reach : α → α) (merged : List (Positioned α)) (next : Positioned α) :
    List (Positioned α) :=
  match merged with
  | ((first, last), earliest) :: before =>
      if next.1.1 ≤ reach last then
        ((first, max last next.1.2), min earliest next.2) :: before
      else
        next :: merged
  | [] => [next]

/-- The intervals gathered from all that are given, in the order of the
positions. -/
def merge (reach : α → α) (intervals : List (Positioned α)) : List (Positioned α) :=
  (((intervals.mergeSort tupleLe).foldl (absorb reach) []).reverse).mergeSort positionLe

theorem tupleLe_first {left right : Positioned α} (ordered : tupleLe left right = true) :
    left.1.1 ≤ right.1.1 := by
  simp only [tupleLe, Bool.or_eq_true, Bool.and_eq_true, decide_eq_true_eq] at ordered
  rcases ordered with before | ⟨same, -⟩
  · exact before.le
  · exact same.le

theorem tupleLe_trans (left middle right : Positioned α) (first : tupleLe left middle = true)
    (second : tupleLe middle right = true) : tupleLe left right = true := by
  simp only [tupleLe, Bool.or_eq_true, Bool.and_eq_true, decide_eq_true_eq] at *
  rcases first with first | ⟨first, firstRest⟩ <;> rcases second with second | ⟨second, secondRest⟩
  · exact .inl (first.trans second)
  · exact .inl (second ▸ first)
  · exact .inl (first ▸ second)
  · refine .inr ⟨first.trans second, ?_⟩
    rcases firstRest with last | ⟨last, position⟩ <;>
      rcases secondRest with last' | ⟨last', position'⟩
    · exact .inl (last.trans last')
    · exact .inl (last' ▸ last)
    · exact .inl (last ▸ last')
    · exact .inr ⟨last.trans last', position.trans position'⟩

theorem tupleLe_total (left right : Positioned α) :
    (tupleLe left right || tupleLe right left) = true := by
  simp only [tupleLe, Bool.or_eq_true, Bool.and_eq_true, decide_eq_true_eq]
  rcases lt_trichotomy left.1.1 right.1.1 with first | first | first
  · exact .inl (.inl first)
  · rcases lt_trichotomy left.1.2 right.1.2 with last | last | last
    · exact .inl (.inr ⟨first, .inl last⟩)
    · rcases le_total left.2 right.2 with position | position
      · exact .inl (.inr ⟨first, .inr ⟨last, position⟩⟩)
      · exact .inr (.inr ⟨first.symm, .inr ⟨last.symm, position⟩⟩)
    · exact .inr (.inr ⟨first.symm, .inl last⟩)
  · exact .inr (.inl first)

omit [LinearOrder α] in
theorem positionLe_trans (left middle right : Positioned α) (first : positionLe left middle = true)
    (second : positionLe middle right = true) : positionLe left right = true := by
  simp only [positionLe, decide_eq_true_eq] at *
  exact first.trans second

omit [LinearOrder α] in
theorem positionLe_total (left right : Positioned α) :
    (positionLe left right || positionLe right left) = true := by
  simpa only [positionLe, Bool.or_eq_true, decide_eq_true_eq] using le_total left.2 right.2

/-- Sorted tuples begin in order. -/
theorem pairwise_first_mergeSort (intervals : List (Positioned α)) :
    (intervals.mergeSort tupleLe).Pairwise fun left right => left.1.1 ≤ right.1.1 :=
  (List.pairwise_mergeSort tupleLe_trans tupleLe_total intervals).imp tupleLe_first

/-- One interval contains another, and was written no later. -/
structure Covers (whole part : Positioned α) : Prop where
  first : whole.1.1 ≤ part.1.1
  last : part.1.2 ≤ whole.1.2
  earliest : whole.2 ≤ part.2

theorem Covers.refl (part : Positioned α) : Covers part part :=
  ⟨le_rfl, le_rfl, le_rfl⟩

/-- What has been gathered from the intervals read so far: each of these is
covered, and each gathered one begins where one of these does and keeps the
position of one, no two the same. -/
structure Gathers (read merged : List (Positioned α)) : Prop where
  covered : ∀ part ∈ read, ∃ whole ∈ merged, Covers whole part
  begins : ∀ whole ∈ merged, ∃ part ∈ read, part.1.1 = whole.1.1
  drawn : ∀ whole ∈ merged, whole.2 ∈ read.map Prod.snd
  distinct : (merged.map Prod.snd).Nodup

theorem Gathers.nil : Gathers ([] : List (Positioned α)) [] :=
  ⟨by simp, by simp, by simp, by simp⟩

/-- An interval kept on its own. -/
theorem Gathers.cons {read merged : List (Positioned α)} {next : Positioned α}
    (gathered : Gathers read merged) (fresh : next.2 ∉ read.map Prod.snd) :
    Gathers (read ++ [next]) (next :: merged) where
  covered part member := by
    rcases List.mem_append.mp member with earlier | latest
    · obtain ⟨whole, kept, covers⟩ := gathered.covered part earlier
      exact ⟨whole, List.mem_cons_of_mem _ kept, covers⟩
    · rw [List.mem_singleton] at latest
      exact ⟨next, List.mem_cons_self, latest ▸ Covers.refl next⟩
  begins whole member := by
    rcases List.mem_cons.mp member with rfl | kept
    · exact ⟨whole, by simp, rfl⟩
    · obtain ⟨part, earlier, same⟩ := gathered.begins whole kept
      exact ⟨part, List.mem_append_left _ earlier, same⟩
  drawn whole member := by
    rw [List.map_append, List.mem_append]
    rcases List.mem_cons.mp member with rfl | kept
    · exact .inr (by simp)
    · exact .inl (gathered.drawn whole kept)
  distinct := by
    rw [List.map_cons, List.nodup_cons]
    refine ⟨fun member => ?_, gathered.distinct⟩
    obtain ⟨whole, kept, same⟩ := List.mem_map.mp member
    exact fresh (same ▸ gathered.drawn whole kept)

/-- An interval that begins no earlier than those read joins the latest one. -/
theorem Gathers.join {read before : List (Positioned α)} {latest next : Positioned α}
    (gathered : Gathers read (latest :: before))
    (ordered : ∀ part ∈ read, part.1.1 ≤ next.1.1) (fresh : next.2 ∉ read.map Prod.snd) :
    Gathers (read ++ [next])
      (((latest.1.1, max latest.1.2 next.1.2), min latest.2 next.2) :: before) where
  covered part member := by
    rcases List.mem_append.mp member with earlier | added
    · obtain ⟨whole, kept, covers⟩ := gathered.covered part earlier
      rcases List.mem_cons.mp kept with rfl | kept
      · exact ⟨_, List.mem_cons_self, covers.first, covers.last.trans (le_max_left _ _),
          (min_le_left _ _).trans covers.earliest⟩
      · exact ⟨whole, List.mem_cons_of_mem _ kept, covers⟩
    · rw [List.mem_singleton] at added
      obtain ⟨part', earlier, same⟩ := gathered.begins latest List.mem_cons_self
      subst added
      exact ⟨_, List.mem_cons_self, same ▸ ordered part' earlier, le_max_right _ _,
        min_le_right _ _⟩
  begins whole member := by
    rcases List.mem_cons.mp member with rfl | kept
    · obtain ⟨part, earlier, same⟩ := gathered.begins latest List.mem_cons_self
      exact ⟨part, List.mem_append_left _ earlier, same⟩
    · obtain ⟨part, earlier, same⟩ := gathered.begins whole (List.mem_cons_of_mem _ kept)
      exact ⟨part, List.mem_append_left _ earlier, same⟩
  drawn whole member := by
    rw [List.map_append, List.mem_append]
    rcases List.mem_cons.mp member with rfl | kept
    · rcases min_choice latest.2 next.2 with least | least
      · exact .inl (by simpa only [least] using gathered.drawn latest List.mem_cons_self)
      · exact .inr (by simp [least])
    · exact .inl (gathered.drawn whole (List.mem_cons_of_mem _ kept))
  distinct := by
    have earlier := gathered.distinct
    rw [List.map_cons, List.nodup_cons] at earlier ⊢
    refine ⟨fun member => ?_, earlier.2⟩
    rcases min_choice latest.2 next.2 with least | least
    · exact earlier.1 (by simpa only [least] using member)
    · obtain ⟨whole, kept, same⟩ := List.mem_map.mp member
      have samePosition : whole.2 = next.2 := same.trans least
      exact fresh (samePosition ▸ gathered.drawn whole (List.mem_cons_of_mem _ kept))

/-- Gathering goes on with each interval that begins no earlier than those
read, at a position none of them has. -/
theorem Gathers.absorb {read merged : List (Positioned α)} {next : Positioned α}
    (reach : α → α) (gathered : Gathers read merged)
    (ordered : ∀ part ∈ read, part.1.1 ≤ next.1.1) (fresh : next.2 ∉ read.map Prod.snd) :
    Gathers (read ++ [next]) (absorb reach merged next) := by
  cases merged with
  | nil => exact gathered.cons fresh
  | cons latest before =>
      obtain ⟨⟨first, last⟩, earliest⟩ := latest
      simp only [Interval.absorb]
      split
      · exact gathered.join ordered fresh
      · exact gathered.cons fresh

/-- What is gathered from intervals in the order they begin, at distinct
positions. -/
theorem gathers_foldl (reach : α → α) (intervals read merged : List (Positioned α))
    (gathered : Gathers read merged)
    (ordered : (read ++ intervals).Pairwise fun left right => left.1.1 ≤ right.1.1)
    (distinct : ((read ++ intervals).map Prod.snd).Nodup) :
    Gathers (read ++ intervals) (intervals.foldl (absorb reach) merged) := by
  induction intervals generalizing read merged with
  | nil => simpa using gathered
  | cons next rest ih =>
      have before : ∀ part ∈ read, part.1.1 ≤ next.1.1 := fun part member =>
        (List.pairwise_append.mp ordered).2.2 part member next List.mem_cons_self
      have fresh : next.2 ∉ read.map Prod.snd := by
        intro member
        rw [List.map_append, List.map_cons] at distinct
        exact (List.nodup_append.mp distinct).2.2 _ member _ List.mem_cons_self rfl
      have step := gathered.absorb reach before fresh
      rw [List.append_cons] at ordered distinct ⊢
      exact ih (read ++ [next]) (Interval.absorb reach merged next) step ordered distinct

/-- What is gathered once the intervals are sorted. -/
theorem gathers_mergeSort (reach : α → α) {intervals : List (Positioned α)}
    (distinct : (intervals.map Prod.snd).Nodup) :
    Gathers (intervals.mergeSort tupleLe)
      ((intervals.mergeSort tupleLe).foldl (absorb reach) []) := by
  have permuted := (List.mergeSort_perm intervals tupleLe).map Prod.snd
  simpa using gathers_foldl reach (intervals.mergeSort tupleLe) [] [] Gathers.nil
    (by simpa using pairwise_first_mergeSort intervals)
    (by simpa using permuted.nodup_iff.mpr distinct)

theorem mem_merge {reach : α → α} {intervals : List (Positioned α)} {whole : Positioned α} :
    whole ∈ merge reach intervals ↔
      whole ∈ (intervals.mergeSort tupleLe).foldl (absorb reach) [] := by
  rw [merge, List.mem_mergeSort, List.mem_reverse]

/-- Nothing is merged of no interval, and something of any other. -/
theorem merge_eq_nil_iff {reach : α → α} {intervals : List (Positioned α)}
    (distinct : (intervals.map Prod.snd).Nodup) : merge reach intervals = [] ↔ intervals = [] := by
  constructor
  · intro nothing
    rw [List.eq_nil_iff_forall_not_mem]
    intro part member
    obtain ⟨whole, kept, -⟩ := (gathers_mergeSort reach distinct).covered part
      (List.mem_mergeSort.mpr member)
    rw [← mem_merge, nothing] at kept
    cases kept
  · rintro rfl
    simp [merge]

/-- The first of the merged intervals covers the one with the least position. -/
theorem merge_head_covers (reach : α → α) {intervals : List (Positioned α)}
    (distinct : (intervals.map Prod.snd).Nodup) {part : Positioned α} (member : part ∈ intervals)
    (least : ∀ other ∈ intervals, part.2 ≤ other.2) :
    ∃ whole rest, merge reach intervals = whole :: rest ∧ Covers whole part := by
  have gathered := gathers_mergeSort reach distinct
  obtain ⟨whole, kept, covers⟩ := gathered.covered part (List.mem_mergeSort.mpr member)
  have sorted : (merge reach intervals).Pairwise fun left right => positionLe left right = true :=
    List.pairwise_mergeSort positionLe_trans positionLe_total _
  cases merged : merge reach intervals with
  | nil =>
      rw [← mem_merge, merged] at kept
      cases kept
  | cons head rest =>
      have headKept : head ∈ (intervals.mergeSort tupleLe).foldl (absorb reach) [] :=
        mem_merge.mp (merged ▸ List.mem_cons_self)
      have headFirst : head.2 ≤ whole.2 := by
        rw [← mem_merge, merged] at kept
        rw [merged] at sorted
        rcases List.mem_cons.mp kept with same | later
        · exact same ▸ le_rfl
        · simpa [positionLe] using (List.pairwise_cons.mp sorted).1 whole later
      have headLeast : part.2 ≤ head.2 := by
        obtain ⟨other, read, same⟩ := List.mem_map.mp (gathered.drawn head headKept)
        exact same ▸ least other (List.mem_mergeSort.mp read)
      have samePosition : head.2 = whole.2 :=
        headFirst.antisymm (covers.earliest.trans headLeast)
      have same : head = whole :=
        List.inj_on_of_nodup_map gathered.distinct headKept kept samePosition
      exact ⟨head, rest, rfl, same ▸ covers⟩

end Kynos.Interval

namespace Kynos.Interval

variable {α : Type} [LinearOrder α] {reach : α → α}

/-- One interval holds a point. -/
def Holds (interval : Positioned α) (point : α) : Prop :=
  interval.1.1 ≤ point ∧ point ≤ interval.1.2

/-- A point that a part holds is held by what covers it. -/
theorem Covers.holds {whole part : Positioned α} (covers : Covers whole part) {point : α}
    (held : Holds part point) : Holds whole point :=
  ⟨covers.first.trans held.1, held.2.trans covers.last⟩

/-- What has been gathered, latest first, from intervals that are not inverted:
none is inverted or reaches a later one, each point of one is a point of an
interval it covers, and each has the position of an interval it covers. -/
structure Separates (reach : α → α) (read merged : List (Positioned α)) : Prop where
  ordered : ∀ whole ∈ merged, whole.1.1 ≤ whole.1.2
  apart : merged.Pairwise fun later earlier => reach earlier.1.2 < later.1.1
  filled : ∀ whole ∈ merged, ∀ point, Holds whole point →
    ∃ part ∈ read, Covers whole part ∧ Holds part point
  placed : ∀ whole ∈ merged, ∃ part ∈ read, Covers whole part ∧ part.2 = whole.2

theorem Separates.nil : Separates reach ([] : List (Positioned α)) [] :=
  ⟨by simp, .nil, by simp, by simp⟩

/-- The first point of what is gathered is no later than the first point of an
interval that no interval read so far begins after. -/
theorem Separates.first_le {read merged : List (Positioned α)} {next whole : Positioned α}
    (separated : Separates reach read merged) (begins : ∀ part ∈ read, part.1.1 ≤ next.1.1)
    (kept : whole ∈ merged) : whole.1.1 ≤ next.1.1 := by
  obtain ⟨part, member, covers, -⟩ := separated.placed whole kept
  exact covers.first.trans (begins part member)

/-- An interval out of the reach of the latest one. -/
theorem Separates.cons {read merged : List (Positioned α)} {next : Positioned α}
    (separated : Separates reach read merged) (ordered : next.1.1 ≤ next.1.2)
    (unreached : ∀ whole ∈ merged, reach whole.1.2 < next.1.1) :
    Separates reach (read ++ [next]) (next :: merged) where
  ordered := List.forall_mem_cons.mpr ⟨ordered, separated.ordered⟩
  apart := List.pairwise_cons.mpr ⟨unreached, separated.apart⟩
  filled := by
    refine List.forall_mem_cons.mpr ⟨fun point held => ?_, fun whole kept point held => ?_⟩
    · exact ⟨next, by simp, Covers.refl next, held⟩
    · obtain ⟨part, member, found⟩ := separated.filled whole kept point held
      exact ⟨part, List.mem_append_left _ member, found⟩
  placed := by
    refine List.forall_mem_cons.mpr ⟨⟨next, by simp, Covers.refl next, rfl⟩, fun whole kept => ?_⟩
    obtain ⟨part, member, found⟩ := separated.placed whole kept
    exact ⟨part, List.mem_append_left _ member, found⟩

/-- What the latest interval covers, it covers once it has grown. -/
theorem Covers.grow {latest part : Positioned α} (next : Positioned α)
    (covers : Covers latest part) :
    Covers ((latest.1.1, max latest.1.2 next.1.2), min latest.2 next.2) part :=
  ⟨covers.first, covers.last.trans (le_max_left _ _), (min_le_left _ _).trans covers.earliest⟩

/-- An interval within the reach of the latest one joins it. -/
theorem Separates.join (adjacent : ∀ last point, last < point → reach last ≤ point)
    {read before : List (Positioned α)} {latest next : Positioned α}
    (separated : Separates reach read (latest :: before))
    (begins : ∀ part ∈ read, part.1.1 ≤ next.1.1) (reached : next.1.1 ≤ reach latest.1.2) :
    Separates reach (read ++ [next])
      (((latest.1.1, max latest.1.2 next.1.2), min latest.2 next.2) :: before) := by
  have later : latest.1.1 ≤ next.1.1 := separated.first_le begins List.mem_cons_self
  have covers : Covers ((latest.1.1, max latest.1.2 next.1.2), min latest.2 next.2) next :=
    ⟨later, le_max_right _ _, min_le_right _ _⟩
  have ordered := List.forall_mem_cons.mp separated.ordered
  have filled := List.forall_mem_cons.mp separated.filled
  have placed := List.forall_mem_cons.mp separated.placed
  refine ⟨?_, ?_, ?_, ?_⟩
  · exact List.forall_mem_cons.mpr ⟨ordered.1.trans (le_max_left _ _), ordered.2⟩
  · exact List.pairwise_cons.mpr (List.pairwise_cons.mp separated.apart)
  · refine List.forall_mem_cons.mpr ⟨fun point held => ?_, fun whole kept point held => ?_⟩
    · rcases le_or_gt point latest.1.2 with within | past
      · obtain ⟨part, member, covered, found⟩ := filled.1 point ⟨held.1, within⟩
        exact ⟨part, List.mem_append_left _ member, covered.grow next, found⟩
      · have beyond : point ≤ next.1.2 := (le_max_iff.mp held.2).resolve_left (not_le.mpr past)
        exact ⟨next, by simp, covers, reached.trans (adjacent _ _ past), beyond⟩
    · obtain ⟨part, member, found⟩ := filled.2 whole kept point held
      exact ⟨part, List.mem_append_left _ member, found⟩
  · refine List.forall_mem_cons.mpr ⟨?_, fun whole kept => ?_⟩
    · rcases min_choice latest.2 next.2 with least | least
      · obtain ⟨part, member, covered, same⟩ := placed.1
        exact ⟨part, List.mem_append_left _ member, covered.grow next, same.trans least.symm⟩
      · exact ⟨next, by simp, covers, least.symm⟩
    · obtain ⟨part, member, found⟩ := placed.2 whole kept
      exact ⟨part, List.mem_append_left _ member, found⟩

/-- Gathering one more interval keeps the gathered ones apart. -/
theorem Separates.absorb (adjacent : ∀ last point, last < point → reach last ≤ point)
    {read merged : List (Positioned α)} {next : Positioned α}
    (separated : Separates reach read merged) (ordered : next.1.1 ≤ next.1.2)
    (begins : ∀ part ∈ read, part.1.1 ≤ next.1.1) :
    Separates reach (read ++ [next]) (absorb reach merged next) := by
  cases merged with
  | nil => exact separated.cons ordered (by simp)
  | cons latest before =>
      obtain ⟨⟨first, last⟩, earliest⟩ := latest
      simp only [Interval.absorb]
      split
      next reached => exact separated.join adjacent begins reached
      next unreached =>
        refine separated.cons ordered (List.forall_mem_cons.mpr ⟨not_le.mp unreached, ?_⟩)
        intro whole kept
        calc
          reach whole.1.2 < first := (List.pairwise_cons.mp separated.apart).1 whole kept
          _ ≤ next.1.1 := separated.first_le begins List.mem_cons_self

/-- Intervals gathered in the order they begin are kept apart. -/
theorem separates_foldl (adjacent : ∀ last point, last < point → reach last ≤ point)
    (intervals read merged : List (Positioned α)) (separated : Separates reach read merged)
    (ordered : ∀ part ∈ intervals, part.1.1 ≤ part.1.2)
    (sorted : (read ++ intervals).Pairwise fun left right => left.1.1 ≤ right.1.1) :
    Separates reach (read ++ intervals) (intervals.foldl (absorb reach) merged) := by
  induction intervals generalizing read merged with
  | nil => simpa using separated
  | cons next rest ih =>
      have begins : ∀ part ∈ read, part.1.1 ≤ next.1.1 := fun part member =>
        (List.pairwise_append.mp sorted).2.2 part member next List.mem_cons_self
      have step := separated.absorb adjacent (ordered next List.mem_cons_self) begins
      rw [List.append_cons] at sorted ⊢
      exact ih _ _ step (fun part member => ordered part (List.mem_cons_of_mem _ member)) sorted

/-- What is gathered once the intervals are sorted is kept apart. -/
theorem separates_mergeSort (adjacent : ∀ last point, last < point → reach last ≤ point)
    {intervals : List (Positioned α)} (ordered : ∀ part ∈ intervals, part.1.1 ≤ part.1.2) :
    Separates reach (intervals.mergeSort tupleLe)
      ((intervals.mergeSort tupleLe).foldl (absorb reach) []) := by
  simpa using separates_foldl adjacent (intervals.mergeSort tupleLe) [] [] Separates.nil
    (fun part member => ordered part (List.mem_mergeSort.mp member))
    (by simpa using pairwise_first_mergeSort intervals)

/-! ## Merged intervals -/

/-- Merging reorders what has been gathered. -/
theorem merge_perm (reach : α → α) (intervals : List (Positioned α)) :
    (merge reach intervals).Perm ((intervals.mergeSort tupleLe).foldl (absorb reach) []) :=
  (List.mergeSort_perm _ positionLe).trans (List.reverse_perm _)

/-- One of two intervals does not reach the other. -/
def Apart (reach : α → α) (left right : Positioned α) : Prop :=
  reach left.1.2 < right.1.1 ∨ reach right.1.2 < left.1.1

theorem Apart.symm {left right : Positioned α} (apart : Apart reach left right) :
    Apart reach right left :=
  Or.symm apart

instance : Std.Symm (Apart reach) :=
  ⟨fun _ _ => Apart.symm⟩

section

variable (adjacent : ∀ last point, last < point → reach last ≤ point)
  {intervals : List (Positioned α)} (ordered : ∀ part ∈ intervals, part.1.1 ≤ part.1.2)

include adjacent ordered

/-- Merged intervals do not reach one another. -/
theorem pairwise_apart_merge : (merge reach intervals).Pairwise (Apart reach) := by
  have apart := (separates_mergeSort adjacent ordered).apart
  have gathered : ((intervals.mergeSort tupleLe).foldl (absorb reach) []).Pairwise (Apart reach) :=
    apart.imp fun unreached => .inr unreached
  exact ((merge_perm reach intervals).pairwise_iff Apart.symm).mpr gathered

/-- A merged interval is not inverted. -/
theorem ordered_of_mem_merge {whole : Positioned α} (kept : whole ∈ merge reach intervals) :
    whole.1.1 ≤ whole.1.2 :=
  (separates_mergeSort adjacent ordered).ordered whole (mem_merge.mp kept)

/-- Each point of a merged interval is a point of a part of it. -/
theorem exists_of_holds_merge {whole : Positioned α} (kept : whole ∈ merge reach intervals)
    {point : α} (held : Holds whole point) :
    ∃ part ∈ intervals, Covers whole part ∧ Holds part point := by
  obtain ⟨part, member, found⟩ :=
    (separates_mergeSort adjacent ordered).filled whole (mem_merge.mp kept) point held
  exact ⟨part, List.mem_mergeSort.mp member, found⟩

/-- A merged interval ends where a part of it does. -/
theorem exists_last_merge {whole : Positioned α} (kept : whole ∈ merge reach intervals) :
    ∃ part ∈ intervals, part.1.2 = whole.1.2 := by
  obtain ⟨part, member, covers, held⟩ := exists_of_holds_merge adjacent ordered kept
    ⟨ordered_of_mem_merge adjacent ordered kept, le_rfl⟩
  exact ⟨part, member, covers.last.antisymm held.2⟩

/-- A merged interval has the position of a part of it. -/
theorem exists_placed_merge {whole : Positioned α} (kept : whole ∈ merge reach intervals) :
    ∃ part ∈ intervals, Covers whole part ∧ part.2 = whole.2 := by
  obtain ⟨part, member, found⟩ :=
    (separates_mergeSort adjacent ordered).placed whole (mem_merge.mp kept)
  exact ⟨part, List.mem_mergeSort.mp member, found⟩

end

/-- An interval is part of a merged one. -/
theorem exists_covers_merge (reach : α → α) {intervals : List (Positioned α)}
    (distinct : (intervals.map Prod.snd).Nodup) {part : Positioned α} (member : part ∈ intervals) :
    ∃ whole ∈ merge reach intervals, Covers whole part := by
  obtain ⟨whole, kept, covers⟩ :=
    (gathers_mergeSort reach distinct).covered part (List.mem_mergeSort.mpr member)
  exact ⟨whole, mem_merge.mpr kept, covers⟩

/-- Merged intervals stand in the order of their positions. -/
theorem pairwise_position_merge (reach : α → α) {intervals : List (Positioned α)}
    (distinct : (intervals.map Prod.snd).Nodup) :
    (merge reach intervals).Pairwise fun left right => left.2 < right.2 := by
  have sorted : (merge reach intervals).Pairwise fun left right => positionLe left right = true :=
    List.pairwise_mergeSort positionLe_trans positionLe_total _
  have different : (merge reach intervals).Pairwise fun left right => left.2 ≠ right.2 :=
    List.pairwise_map.mp (((merge_perm reach intervals).map Prod.snd).nodup_iff.mpr
      (gathers_mergeSort reach distinct).distinct)
  exact (sorted.and different).imp fun both => by
    simp only [positionLe, decide_eq_true_eq] at both
    exact lt_of_le_of_ne both.1 both.2

section

variable (adjacent : ∀ last point, last < point → reach last ≤ point)
  {intervals : List (Positioned α)} (ordered : ∀ part ∈ intervals, part.1.1 ≤ part.1.2)
  (extensive : ∀ part ∈ intervals, part.1.2 ≤ reach part.1.2)

include adjacent ordered extensive

/-- Two merged intervals with a common point are one. -/
theorem eq_of_holds_merge {left right : Positioned α} (leftKept : left ∈ merge reach intervals)
    (rightKept : right ∈ merge reach intervals) {point : α} (leftHolds : Holds left point)
    (rightHolds : Holds right point) : left = right := by
  have reaches : ∀ whole ∈ merge reach intervals, whole.1.2 ≤ reach whole.1.2 := by
    intro whole kept
    obtain ⟨part, member, same⟩ := exists_last_merge adjacent ordered kept
    exact same ▸ extensive part member
  by_contra different
  rcases (pairwise_apart_merge adjacent ordered).forall leftKept rightKept
    different with apart | apart
  · have before : left.1.2 < right.1.1 := (reaches left leftKept).trans_lt apart
    exact absurd (rightHolds.1.trans leftHolds.2) (not_le.mpr before)
  · have before : right.1.2 < left.1.1 := (reaches right rightKept).trans_lt apart
    exact absurd (leftHolds.1.trans rightHolds.2) (not_le.mpr before)

/-- The position of a merged interval is the least of the parts that share a
point with it. -/
theorem isLeast_position_merge (distinct : (intervals.map Prod.snd).Nodup)
    {whole : Positioned α} (kept : whole ∈ merge reach intervals) :
    IsLeast { position | ∃ part ∈ intervals, part.2 = position ∧
      ∃ point, Holds part point ∧ Holds whole point } whole.2 := by
  constructor
  · obtain ⟨part, member, covers, same⟩ := exists_placed_merge adjacent ordered kept
    have held : Holds part part.1.1 := ⟨le_rfl, ordered part member⟩
    exact ⟨part, member, same, part.1.1, held, covers.holds held⟩
  · rintro position ⟨part, member, rfl, point, held, shared⟩
    obtain ⟨other, otherKept, covers⟩ := exists_covers_merge reach distinct member
    have same := eq_of_holds_merge adjacent ordered extensive kept otherKept shared
      (covers.holds held)
    exact same ▸ covers.earliest

end

end Kynos.Interval
