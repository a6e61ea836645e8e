import Kynos.Collection.Sorted

/-!
# Items that are unique

Whether the items of a sequence are unique is decided by sorting those that
compare equal to themselves, and comparing neighbours. Where the comparison is
a total order on those, the answer is that of comparing every pair.
-/

namespace Kynos.Schema

open Kynos.Collection

/-- `PartialOrd` of a type, and the `PartialEq` it extends. -/
structure PartialOrd (α : Type*) where
  eq : α → α → Bool
  partialCmp : α → α → Option Ordering

namespace PartialOrd

variable {α : Type*} (order : PartialOrd α)

/-- Whether an item compares equal to itself. -/
def reflexive (item : α) : Bool :=
  order.partialCmp item item == some .eq

/-- The comparison that is sorted by. -/
def comparison (left right : α) : Ordering :=
  (order.partialCmp left right).getD .eq

/-- `distinct`. -/
def distinct (sort : UnstableSort α) (items : List α) : Bool :=
  let items := items.filter order.reflexive
  let items := sort.sortBy order.comparison items
  (items.zip items.tail).all fun pair => !order.eq pair.1 pair.2

/-- The comparison of some items is consistent with their equality, which is
a partial equivalence, and a total order on those comparable with themselves. -/
structure Total (items : List α) : Prop where
  symm : ∀ left ∈ items, ∀ right ∈ items, order.eq left right = true → order.eq right left = true
  trans : ∀ first ∈ items, ∀ second ∈ items, ∀ third ∈ items,
    order.eq first second = true → order.eq second third = true → order.eq first third = true
  consistent : ∀ left ∈ items, ∀ right ∈ items,
    order.partialCmp left right = some .eq ↔ order.eq left right = true
  comparable : ∀ left ∈ items, ∀ right ∈ items,
    order.reflexive left = true → order.reflexive right = true →
      (order.partialCmp left right).isSome ∧
        order.partialCmp right left = (order.partialCmp left right).map Ordering.swap
  ordered : ∀ first ∈ items, ∀ second ∈ items, ∀ third ∈ items,
    order.reflexive first = true → order.reflexive second = true → order.reflexive third = true →
      (order.comparison first second).isLE → (order.comparison second third).isLE →
        (order.comparison first third).isLE

variable {order} {items : List α}

namespace Total

variable (total : order.Total items)

include total

theorem of_subset {part : List α} (subset : part ⊆ items) : order.Total part where
  symm left inLeft right inRight := total.symm left (subset inLeft) right (subset inRight)
  trans first inFirst second inSecond third inThird :=
    total.trans first (subset inFirst) second (subset inSecond) third (subset inThird)
  consistent left inLeft right inRight :=
    total.consistent left (subset inLeft) right (subset inRight)
  comparable left inLeft right inRight :=
    total.comparable left (subset inLeft) right (subset inRight)
  ordered first inFirst second inSecond third inThird :=
    total.ordered first (subset inFirst) second (subset inSecond) third (subset inThird)

/-- An item set aside equals none. -/
theorem reflexive_of_eq {left right : α} (inLeft : left ∈ items) (inRight : right ∈ items)
    (same : order.eq left right = true) : order.reflexive left = true := by
  have back := total.symm left inLeft right inRight same
  exact beq_iff_eq.mpr ((total.consistent left inLeft left inLeft).mpr
    (total.trans left inLeft right inRight left inLeft same back))

/-- The items left are ordered by what they are sorted by. -/
theorem totalOn : TotalOn order.comparison (items.filter order.reflexive) := by
  constructor
  · intro left inLeft right inRight
    obtain ⟨inLeft, reflexiveLeft⟩ := List.mem_filter.mp inLeft
    obtain ⟨inRight, reflexiveRight⟩ := List.mem_filter.mp inRight
    obtain ⟨compared, swapped⟩ :=
      total.comparable left inLeft right inRight reflexiveLeft reflexiveRight
    obtain ⟨ordering, compares⟩ := Option.isSome_iff_exists.mp compared
    rw [comparison, comparison, swapped, compares, Option.map_some, Option.getD_some,
      Option.getD_some]
  · intro first inFirst second inSecond third inThird
    obtain ⟨inFirst, reflexiveFirst⟩ := List.mem_filter.mp inFirst
    obtain ⟨inSecond, reflexiveSecond⟩ := List.mem_filter.mp inSecond
    obtain ⟨inThird, reflexiveThird⟩ := List.mem_filter.mp inThird
    exact total.ordered first inFirst second inSecond third inThird reflexiveFirst
      reflexiveSecond reflexiveThird

/-- Two of the items left compare as equal where they are. -/
theorem comparison_eq_iff {left right : α} (inLeft : left ∈ items.filter order.reflexive)
    (inRight : right ∈ items.filter order.reflexive) :
    order.comparison left right = .eq ↔ order.eq left right = true := by
  obtain ⟨inLeft, reflexiveLeft⟩ := List.mem_filter.mp inLeft
  obtain ⟨inRight, reflexiveRight⟩ := List.mem_filter.mp inRight
  have compared := (total.comparable left inLeft right inRight reflexiveLeft reflexiveRight).1
  obtain ⟨ordering, compares⟩ := Option.isSome_iff_exists.mp compared
  rw [← total.consistent left inLeft right inRight, comparison, compares, Option.getD_some,
    Option.some_inj]

end Total

/-! ## Every pair -/

/-- No item equals a later one. -/
def Apart (order : PartialOrd α) (items : List α) : Prop :=
  items.Pairwise fun left right => order.eq left right = false

namespace Total

variable (total : order.Total items)

include total

/-- Items that are apart do not equal each other either way. -/
theorem apart_iff : order.Apart items ↔
    items.Pairwise fun left right => order.eq left right = false ∧ order.eq right left = false := by
  constructor
  · intro apart
    refine apart.imp_of_mem fun {left right} inLeft inRight other => ⟨other, ?_⟩
    exact Bool.eq_false_iff.mpr fun same =>
      Bool.eq_false_iff.mp other (total.symm right inRight left inLeft same)
  · exact fun apart => apart.imp fun {_ _} other => other.1

theorem apart_iff_of_perm {others : List α} (perm : others.Perm items) :
    order.Apart others ↔ order.Apart items := by
  rw [total.apart_iff, (total.of_subset perm.subset).apart_iff]
  exact perm.pairwise_iff fun {_ _} other => And.symm other

/-- Where an item is set aside it is apart from the others. -/
theorem apart_filter_iff : order.Apart (items.filter order.reflexive) ↔ order.Apart items := by
  rw [Apart, List.pairwise_filter]
  constructor
  · intro apart
    refine apart.imp_of_mem fun {left right} inLeft inRight other => ?_
    refine Bool.eq_false_iff.mpr fun same => ?_
    have back := total.symm left inLeft right inRight same
    exact Bool.eq_false_iff.mp (other (total.reflexive_of_eq inLeft inRight same)
      (total.reflexive_of_eq inRight inLeft back)) same
  · exact fun apart => apart.imp fun {_ _} other _ _ => other

/-- Among sorted items it is enough to compare neighbours. -/
theorem adjacent_iff {sorted : List α} (perm : sorted.Perm (items.filter order.reflexive))
    (ordered : sorted.Pairwise fun left right => (order.comparison left right).isLE) :
    (sorted.zip sorted.tail).all (fun pair => !order.eq pair.1 pair.2) = true ↔
      order.Apart sorted := by
  simp only [List.all_eq_true, Bool.not_eq_true']
  constructor
  · intro adjacent
    have apart := pairwise_of_adjacent (total.totalOn.of_subset perm.subset) ordered
      fun pair member compares => by
        have same := (total.comparison_eq_iff (perm.subset (List.of_mem_zip member).1)
          (perm.subset (List.mem_of_mem_tail (List.of_mem_zip member).2))).mp compares
        rw [adjacent pair member] at same
        cases same
    refine apart.imp_of_mem fun {left right} inLeft inRight before => ?_
    refine Bool.eq_false_iff.mpr fun same => ?_
    rw [(total.comparison_eq_iff (perm.subset inLeft) (perm.subset inRight)).mpr same] at before
    cases before
  · exact rel_of_mem_zip_tail

theorem distinct_iff (sort : UnstableSort α) :
    order.distinct sort items = true ↔ order.Apart items := by
  have perm := sort.perm total.totalOn
  have kept : order.Total (items.filter order.reflexive) :=
    total.of_subset (List.filter_subset_self items)
  rw [distinct, total.adjacent_iff perm (sort.sorted total.totalOn), kept.apart_iff_of_perm perm,
    total.apart_filter_iff]

/-- No two positions of items that are apart hold equal ones. -/
theorem apart_iff_get : order.Apart items ↔
    ∀ first second : Fin items.length, first ≠ second →
      order.eq (items.get first) (items.get second) = false := by
  rw [total.apart_iff, List.pairwise_iff_get]
  constructor
  · intro apart first second other
    rcases lt_or_gt_of_ne other with before | after
    · exact (apart first second before).1
    · exact (apart second first after).2
  · exact fun apart first second before => ⟨apart first second before.ne, apart second first before.ne'⟩

end Total

/-- `distinct` answers as comparing every pair does, in whatever order the
items come, and whatever a sort does with items that are equal. -/
theorem distinct_exact (sort : UnstableSort α) (total : order.Total items) :
    (order.distinct sort items = true ↔
      ∀ first second : Fin items.length, first ≠ second →
        order.eq (items.get first) (items.get second) = false) ∧
      ∀ others, others.Perm items → ∀ another : UnstableSort α,
        order.distinct another others = order.distinct sort items := by
  refine ⟨(total.distinct_iff sort).trans total.apart_iff_get, fun others perm another => ?_⟩
  rw [Bool.eq_iff_iff, total.distinct_iff sort, (total.of_subset perm.subset).distinct_iff another]
  exact total.apart_iff_of_perm perm

/-- Numbers, and one that is none. -/
def readings : PartialOrd (Option Nat) where
  eq left right := left.isSome && left == right
  partialCmp left right := left.bind fun number => right.map (compare number)

theorem total_readings : readings.Total [some 2, none, some 1, none, some 2] where
  symm := by decide
  trans := by decide
  consistent := by decide
  comparable := by decide
  ordered := by decide

theorem distinct_exact_readings :
    (readings.distinct .merge [some 2, none, some 1, none, some 2] = true ↔
      ∀ first second : Fin 5, first ≠ second →
        readings.eq ([some 2, none, some 1, none, some 2].get first)
          ([some 2, none, some 1, none, some 2].get second) = false) ∧
      ∀ others, others.Perm [some 2, none, some 1, none, some 2] →
        ∀ another : UnstableSort (Option Nat), readings.distinct another others =
          readings.distinct .merge [some 2, none, some 1, none, some 2] :=
  distinct_exact .merge total_readings

end PartialOrd

end Kynos.Schema
