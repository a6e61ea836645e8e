import Mathlib.Data.List.Sort

/-!
# Sorted lists

Sorting by a key of a linear order, where distinct keys leave one result, and
sorting by a comparison that is a total order on what is sorted, where nothing
is promised of the order of items that compare as equal.
-/

namespace Kynos.Collection

/-! ## By a key -/

section Key

variable {α Key : Type*} [LinearOrder Key] {key : α → Key} {le : α → α → Bool}

theorem pairwise_key_mergeSort (reads : ∀ left right, le left right = true ↔ key left ≤ key right)
    (items : List α) : (items.mergeSort le).Pairwise fun left right => key left ≤ key right := by
  refine (List.pairwise_mergeSort ?_ ?_ items).imp fun ordered => (reads _ _).mp ordered
  · intro first second third before after
    rw [reads] at before after ⊢
    exact before.trans after
  · intro left right
    rw [Bool.or_eq_true, reads, reads]
    exact le_total _ _

/-- Items of distinct keys are sorted strictly. -/
theorem pairwise_lt_mergeSort (reads : ∀ left right, le left right = true ↔ key left ≤ key right)
    {items : List α} (distinct : (items.map key).Nodup) :
    (items.mergeSort le).Pairwise fun left right => key left < key right := by
  have apart : (items.mergeSort le).Pairwise fun left right => key left ≠ key right :=
    List.pairwise_map.mp (((List.mergeSort_perm items le).map key).nodup_iff.mpr distinct)
  exact (pairwise_key_mergeSort reads items).imp₂ (fun _ _ ordered => lt_of_le_of_ne ordered) apart

/-- Items of distinct keys are sorted to one list, however they are listed. -/
theorem mergeSort_eq_of_perm (reads : ∀ left right, le left right = true ↔ key left ≤ key right)
    {items others : List α} (distinct : (items.map key).Nodup) (perm : others.Perm items) :
    others.mergeSort le = items.mergeSort le := by
  have distinctOthers : (others.map key).Nodup := (perm.map key).nodup_iff.mpr distinct
  have same : (others.mergeSort le).Perm (items.mergeSort le) :=
    ((List.mergeSort_perm others le).trans perm).trans (List.mergeSort_perm items le).symm
  refine same.eq_of_pairwise (fun left right _ _ before after => ?_)
    (pairwise_lt_mergeSort reads distinctOthers) (pairwise_lt_mergeSort reads distinct)
  exact absurd before (lt_asymm after)

end Key

/-! ## By a comparison -/

section Comparison

variable {α : Type*}

/-- A comparison is a total order on some items. -/
structure TotalOn (compare : α → α → Ordering) (items : List α) : Prop where
  swapped : ∀ left ∈ items, ∀ right ∈ items, compare right left = (compare left right).swap
  trans : ∀ first ∈ items, ∀ second ∈ items, ∀ third ∈ items,
    (compare first second).isLE → (compare second third).isLE → (compare first third).isLE

/-- A sort that need not be stable: by a total order it rearranges the items
so that none stands before a lesser one. -/
structure UnstableSort (α : Type*) where
  sortBy : (α → α → Ordering) → List α → List α
  perm : ∀ {compare : α → α → Ordering} {items : List α}, TotalOn compare items →
    (sortBy compare items).Perm items
  sorted : ∀ {compare : α → α → Ordering} {items : List α}, TotalOn compare items →
    (sortBy compare items).Pairwise fun left right => (compare left right).isLE

theorem TotalOn.isLE_or {compare : α → α → Ordering} {items : List α}
    (total : TotalOn compare items) {left right : α} (inLeft : left ∈ items)
    (inRight : right ∈ items) : (compare left right).isLE ∨ (compare right left).isLE := by
  rw [total.swapped left inLeft right inRight]
  cases compare left right <;> decide

/-- A stable sort is one. -/
def UnstableSort.merge : UnstableSort α where
  sortBy compare items := items.mergeSort fun left right => (compare left right).isLE
  perm _ := List.mergeSort_perm _ _
  sorted {compare items} total := by
    have sorted : (items.attach.mergeSort fun left right =>
        (compare left.1 right.1).isLE).Pairwise fun left right => (compare left.1 right.1).isLE := by
      refine List.pairwise_mergeSort ?_ ?_ items.attach
      · rintro ⟨first, inFirst⟩ ⟨second, inSecond⟩ ⟨third, inThird⟩
        exact total.trans first inFirst second inSecond third inThird
      · rintro ⟨left, inLeft⟩ ⟨right, inRight⟩
        exact (Bool.or_eq_true _ _).mpr (total.isLE_or inLeft inRight)
    have same := List.map_mergeSort (f := Subtype.val) (l := items.attach)
      (r := fun left right => (compare left.1 right.1).isLE)
      (s := fun left right => (compare left right).isLE) fun _ _ _ _ => rfl
    rw [List.attach_map_subtype_val] at same
    rw [← same, List.pairwise_map]
    exact sorted

theorem TotalOn.of_subset {compare : α → α → Ordering} {items part : List α}
    (total : TotalOn compare items) (subset : part ⊆ items) : TotalOn compare part where
  swapped left inLeft right inRight := total.swapped left (subset inLeft) right (subset inRight)
  trans first inFirst second inSecond third inThird :=
    total.trans first (subset inFirst) second (subset inSecond) third (subset inThird)

theorem rel_of_mem_zip_tail {Related : α → α → Prop} {items : List α}
    (pairwise : items.Pairwise Related) : ∀ pair ∈ items.zip items.tail, Related pair.1 pair.2 := by
  induction items with
  | nil => simp
  | cons first items ih =>
      obtain ⟨least, rest⟩ := List.pairwise_cons.mp pairwise
      cases items with
      | nil => simp
      | cons second items =>
          intro pair member
          rcases List.mem_cons.mp member with rfl | later
          · exact least second List.mem_cons_self
          · exact ih rest pair later

/-- Where sorted items are apart from their neighbours, none equals another. -/
theorem pairwise_of_adjacent {compare : α → α → Ordering} {items : List α}
    (total : TotalOn compare items)
    (sorted : items.Pairwise fun left right => (compare left right).isLE)
    (adjacent : ∀ pair ∈ items.zip items.tail, compare pair.1 pair.2 ≠ .eq) :
    items.Pairwise fun left right => compare left right = .lt := by
  induction items with
  | nil => exact List.Pairwise.nil
  | cons first items ih =>
      cases items with
      | nil => exact List.pairwise_singleton _ _
      | cons second items =>
          obtain ⟨least, rest⟩ := List.pairwise_cons.mp sorted
          have inSecond : second ∈ first :: second :: items := by simp
          have before : compare first second = .lt := by
            have ordered := least second List.mem_cons_self
            have apart := adjacent (first, second) List.mem_cons_self
            cases compares : compare first second with
            | lt => rfl
            | eq => exact absurd compares apart
            | gt => simp [compares] at ordered
          have later := ih (total.of_subset (List.subset_cons_self _ _)) rest
            fun pair member => adjacent pair (List.mem_cons_of_mem _ member)
          refine List.pairwise_cons.mpr ⟨fun item member => ?_, later⟩
          rcases List.mem_cons.mp member with rfl | after
          · exact before
          · have inItem := List.mem_cons_of_mem first member
            cases compares : compare first item with
            | lt => rfl
            | gt => simpa [compares] using least item member
            | eq =>
                -- an item that equals the first would stand before the second
                have back : compare item first = .eq := by
                  rw [total.swapped first List.mem_cons_self item inItem, compares, Ordering.swap_eq]
                have reached := total.trans second inSecond item inItem first List.mem_cons_self
                  (by simp [(List.pairwise_cons.mp later).1 item after]) (by simp [back])
                rw [total.swapped first List.mem_cons_self second inSecond, before] at reached
                exact absurd reached (by decide)

end Comparison

end Kynos.Collection
