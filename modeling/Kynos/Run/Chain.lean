import Mathlib.Combinatorics.Pigeonhole
import Mathlib.Data.List.Basic
import Mathlib.Logic.Relation
import Mathlib.Order.Interval.Finset.Nat

/-!
# Chains of a partial step

A partial step is taken again and again until it can not be. Where it leads into
finitely many values, a chain that stops does so within as many steps as there
are values, and one that returns to its start has returned by then: a longer
chain repeats a value, and goes round from there.
-/

namespace Kynos.Run

universe u

variable {α : Type u} {next : α → Option α}

/-- Where a chain stands after a number of steps, where it goes that far. -/
def along (next : α → Option α) : Nat → α → Option α
  | 0, start => some start
  | steps + 1, start => (next start).bind (along next steps)

theorem along_one (next : α → Option α) (start : α) : along next 1 start = next start :=
  Option.bind_fun_some (next start)

theorem along_add (next : α → Option α) (first second : Nat) (start : α) :
    along next (first + second) start = (along next first start).bind (along next second) := by
  induction first generalizing start with
  | zero => rw [Nat.zero_add, along, Option.bind_some]
  | succ first ih =>
      rw [Nat.succ_add, along, along, Option.bind_assoc]
      exact Option.bind_congr fun middle _ => ih middle

theorem along_succ (next : α → Option α) (steps : Nat) (start : α) :
    along next (steps + 1) start = (along next steps start).bind next := by
  rw [along_add]
  exact Option.bind_congr fun middle _ => along_one next middle

/-- A chain has gone through every smaller number of steps. -/
theorem exists_along_of_le {steps less : Nat} {start last : α}
    (reached : along next steps start = some last) (le : less ≤ steps) :
    ∃ middle, along next less start = some middle := by
  rw [← Nat.add_sub_cancel' le, along_add] at reached
  obtain ⟨middle, isMiddle, -⟩ := Option.bind_eq_some_iff.mp reached
  exact ⟨middle, isMiddle⟩

/-- From where a chain repeats itself on, the steps between may be left out. -/
theorem along_eq_of_repeat {early late steps : Nat} {start : α}
    (same : along next early start = along next late start) (le : late ≤ steps) :
    along next steps start = along next (steps - late + early) start := by
  rw [Nat.add_comm, along_add, same, ← along_add, Nat.add_sub_cancel' le]

/-- What a chain comes to is what its steps lead to. -/
theorem transGen_iff_exists_along {start last : α} :
    Relation.TransGen (fun value reached => next value = some reached) start last ↔
      ∃ steps, 0 < steps ∧ along next steps start = some last := by
  constructor
  · intro leads
    induction leads with
    | single isNext => exact ⟨1, Nat.one_pos, (along_one ..).trans isNext⟩
    | tail _ isNext ih =>
        obtain ⟨steps, -, reached⟩ := ih
        exact ⟨steps + 1, Nat.succ_pos steps, by rw [along_succ, reached, Option.bind_some, isNext]⟩
  · rintro ⟨steps, positive, reached⟩
    induction steps generalizing last with
    | zero => cases positive
    | succ steps ih =>
        rw [along_succ] at reached
        obtain ⟨middle, isMiddle, isNext⟩ := Option.bind_eq_some_iff.mp reached
        rcases Nat.eq_zero_or_pos steps with rfl | more
        · cases isMiddle
          exact .single isNext
        · exact .tail (ih more isMiddle) isNext

theorem reflTransGen_iff_exists_along {start last : α} :
    Relation.ReflTransGen (fun value reached => next value = some reached) start last ↔
      ∃ steps, along next steps start = some last := by
  rw [Relation.reflTransGen_iff_eq_or_transGen, transGen_iff_exists_along]
  constructor
  · rintro (rfl | ⟨steps, -, reached⟩)
    · exact ⟨0, rfl⟩
    · exact ⟨steps, reached⟩
  · rintro ⟨steps, reached⟩
    rcases Nat.eq_zero_or_pos steps with rfl | positive
    · exact .inl (Option.some.inj reached).symm
    · exact .inr ⟨steps, positive, reached⟩

/-- A chain that does not go that far stops somewhere. -/
theorem exists_stop_of_along_eq_none {steps : Nat} {start : α}
    (short : along next steps start = none) :
    ∃ last, Relation.ReflTransGen (fun value reached => next value = some reached) start last ∧
      next last = none := by
  induction steps with
  | zero => cases short
  | succ steps ih =>
      rw [along_succ] at short
      cases isLast : along next steps start with
      | none => exact ih isLast
      | some last =>
          rw [isLast, Option.bind_some] at short
          exact ⟨last, reflTransGen_iff_exists_along.mpr ⟨steps, isLast⟩, short⟩

section Finite

variable {values : List α} {steps : Nat} {start last : α}
  (into : ∀ value reached, next value = some reached → reached ∈ values)

include into

theorem mem_of_along (positive : 0 < steps) (reached : along next steps start = some last) :
    last ∈ values := by
  obtain ⟨less, rfl⟩ := Nat.exists_eq_succ_of_ne_zero positive.ne'
  rw [along_succ] at reached
  obtain ⟨middle, -, isNext⟩ := Option.bind_eq_some_iff.mp reached
  exact into middle last isNext

/-- A chain of more steps than there are values repeats one. -/
theorem exists_repeat (long : values.length < steps)
    (reached : along next steps start = some last) :
    ∃ early late, 0 < early ∧ early < late ∧ late ≤ steps ∧
      along next early start = along next late start := by
  classical
  have fewer : (values.map some).toFinset.card < (Finset.Icc 1 steps).card := by
    rw [Nat.card_Icc, Nat.add_sub_cancel]
    refine lt_of_le_of_lt (List.toFinset_card_le _) ?_
    rwa [List.length_map]
  have maps : ∀ count ∈ Finset.Icc 1 steps,
      along next count start ∈ (values.map some).toFinset := by
    intro count within
    obtain ⟨positive, le⟩ := Finset.mem_Icc.mp within
    obtain ⟨middle, isMiddle⟩ := exists_along_of_le reached le
    rw [isMiddle, List.mem_toFinset]
    exact List.mem_map_of_mem (mem_of_along into positive isMiddle)
  obtain ⟨one, isOne, other, isOther, different, same⟩ :=
    Finset.exists_ne_map_eq_of_card_lt_of_maps_to fewer maps
  rw [Finset.mem_Icc] at isOne isOther
  rcases Nat.lt_or_gt_of_ne different with less | greater
  · exact ⟨one, other, isOne.1, less, isOther.2, same⟩
  · exact ⟨other, one, isOther.1, greater, isOne.2, same.symm⟩

/-- A chain that stops takes no more steps than there are values. -/
theorem le_length_of_stops (reached : along next steps start = some last)
    (stops : next last = none) : steps ≤ values.length := by
  by_contra long
  obtain ⟨early, late, -, less, le, same⟩ := exists_repeat into (Nat.lt_of_not_le long) reached
  have stopped : along next (steps + 1) start = none := by
    rw [along_succ, reached, Option.bind_some, stops]
  rw [along_eq_of_repeat same (Nat.le_succ_of_le le)] at stopped
  obtain ⟨middle, isMiddle⟩ :=
    exists_along_of_le reached (show steps + 1 - late + early ≤ steps by omega)
  rw [stopped] at isMiddle
  cases isMiddle

/-- A chain that returns to its start does so within as many steps as there are values. -/
theorem exists_return_le (positive : 0 < steps) (returns : along next steps start = some start) :
    ∃ fewer, 0 < fewer ∧ fewer ≤ values.length ∧ along next fewer start = some start := by
  induction steps using Nat.strong_induction_on with
  | _ steps ih =>
      rcases Nat.lt_or_ge values.length steps with long | short
      · obtain ⟨early, late, isPositive, less, le, same⟩ := exists_repeat into long returns
        rw [along_eq_of_repeat same le] at returns
        exact ih _ (by omega) (by omega) returns
      · exact ⟨steps, positive, short, returns⟩

/-- A chain that goes on past as many steps as there are values goes round. -/
theorem exists_cycle (long : values.length < steps)
    (reached : along next steps start = some last) :
    ∃ middle, Relation.ReflTransGen (fun value reached => next value = some reached) start middle ∧
      Relation.TransGen (fun value reached => next value = some reached) middle middle := by
  obtain ⟨early, late, -, less, le, same⟩ := exists_repeat into long reached
  obtain ⟨middle, isMiddle⟩ := exists_along_of_le reached (less.le.trans le)
  refine ⟨middle, reflTransGen_iff_exists_along.mpr ⟨early, isMiddle⟩,
    transGen_iff_exists_along.mpr ⟨late - early, Nat.sub_pos_of_lt less, ?_⟩⟩
  rw [← Nat.add_sub_cancel' less.le, along_add, isMiddle] at same
  exact same.symm

end Finite

/-- What goes round never stops. -/
theorem not_stops_of_cycle {start middle last : α}
    (leads : Relation.ReflTransGen (fun value reached => next value = some reached) start middle)
    (round : Relation.TransGen (fun value reached => next value = some reached) middle middle)
    (ends : Relation.ReflTransGen (fun value reached => next value = some reached) start last) :
    next last ≠ none := by
  intro stops
  obtain ⟨first, isMiddle⟩ := reflTransGen_iff_exists_along.mp leads
  obtain ⟨period, positive, returns⟩ := transGen_iff_exists_along.mp round
  obtain ⟨steps, isLast⟩ := reflTransGen_iff_exists_along.mp ends
  have goesOn : ∀ times, along next (first + times * period) start = some middle := by
    intro times
    induction times with
    | zero => rwa [Nat.zero_mul, Nat.add_zero]
    | succ times ih => rw [Nat.succ_mul, ← Nat.add_assoc, along_add, ih, Option.bind_some, returns]
  have enough : steps + 1 ≤ first + (steps + 1) * period :=
    (Nat.le_mul_of_pos_right _ positive).trans (Nat.le_add_left ..)
  obtain ⟨_, further⟩ := exists_along_of_le (goesOn (steps + 1)) enough
  rw [along_succ, isLast, Option.bind_some, stops] at further
  cases further

end Kynos.Run
