import Mathlib
import Kynos.Run.Runs

/-!
# Parts that share a pool

A pool is what is free of it and what each part of a system holds of it. A step
that changes one part, and gives back or takes what it holds less or more, keeps
the whole. Where steps only use up a bound on a state, so do runs.
-/

namespace Kynos.Run

variable {Part : Type*}

/-- What is free of a pool and what its parts hold of it. -/
def pooled (held : Part → Nat) (free : Nat) (parts : List Part) : Nat :=
  free + (parts.map held).sum

variable {held : Part → Nat} {free free' : Nat} {parts : List Part} {part part' : Part} {index : Nat}

variable (held part') in
theorem sum_map_set (isPart : parts[index]? = some part) :
    ((parts.set index part').map held).sum + held part = (parts.map held).sum + held part' := by
  induction parts generalizing index with
  | nil => cases isPart
  | cons first parts ih =>
      cases index with
      | zero =>
          cases isPart
          simp only [List.set_cons_zero, List.map_cons, List.sum_cons]
          omega
      | succ index =>
          have rest := ih isPart
          simp only [List.set_cons_succ, List.map_cons, List.sum_cons]
          omega

/-- A part that takes what is no longer free keeps the pool. -/
theorem pooled_set (isPart : parts[index]? = some part) (balanced : free' + held part' = free + held part) :
    pooled held free' (parts.set index part') = pooled held free parts := by
  have sums := sum_map_set held part' isPart
  rw [pooled, pooled]
  omega

theorem pooled_replicate_zero (count : Nat) (none : held part = 0) :
    pooled held free (List.replicate count part) = free := by
  simp [pooled, none]

/-- Where no part holds any, all of the pool is free. -/
theorem pooled_eq_free (none : ∀ part ∈ parts, held part = 0) : pooled held free parts = free := by
  have sum : (parts.map held).sum = 0 := List.sum_eq_zero fun each member => by
    obtain ⟨part, isPart, rfl⟩ := List.mem_map.mp member
    exact none part isPart
  rw [pooled, sum, Nat.add_zero]

/-- What the parts hold is no more than the pool. -/
theorem sum_map_le_pooled {other : Part → Nat} (least : ∀ part ∈ parts, other part ≤ held part) :
    (parts.map other).sum ≤ pooled held free parts :=
  (List.sum_le_sum least).trans (Nat.le_add_left _ _)

theorem sum_map_set_lt (isPart : parts[index]? = some part) (less : held part' < held part) :
    ((parts.set index part').map held).sum < (parts.map held).sum := by
  have sums := sum_map_set held part' isPart
  omega

/-- What holds of every part, and of one that is changed, holds of every part after. -/
theorem forall_mem_set {holds : Part → Prop} (all : ∀ part ∈ parts, holds part) (changed : holds part') :
    ∀ part ∈ parts.set index part', holds part := by
  intro part member
  rcases List.mem_or_eq_of_mem_set member with isOther | rfl
  · exact all part isOther
  · exact changed

/-! ## Bounded runs -/

section Bounded

variable {State Event : Type*} {step : State → Event → Option State} {start state : State} {events : List Event}
  {Invariant : State → Prop} (cost : Event → Nat) (bound : State → Nat)

/-- What each step uses up of a bound, a run uses up of it. -/
theorem sum_map_add_le_bound (initially : Invariant start)
    (kept : ∀ state event next, Invariant state → step state event = some next →
      Invariant next ∧ cost event + bound next ≤ bound state)
    (run : reached step start events = some state) :
    Invariant state ∧ (events.map cost).sum + bound state ≤ bound start := by
  apply invariant_reached _ _ run
  · exact ⟨initially, by simp⟩
  · intro events state event next earlier holds stepped
    obtain ⟨invariant, used⟩ := holds
    obtain ⟨invariant, uses⟩ := kept state event next invariant stepped
    constructor
    · exact invariant
    · rw [List.map_append, List.sum_append, List.map_singleton, List.sum_singleton]
      omega

omit cost in
/-- A run whose steps each lower a bound is no longer than it. -/
theorem length_add_le_bound (initially : Invariant start)
    (kept : ∀ state event next, Invariant state → step state event = some next →
      Invariant next ∧ bound next < bound state)
    (run : reached step start events = some state) :
    Invariant state ∧ events.length + bound state ≤ bound start := by
  have uses : ∀ state event next, Invariant state → step state event = some next →
      Invariant next ∧ 1 + bound next ≤ bound state := by
    intro state event next invariant stepped
    obtain ⟨invariant, lower⟩ := kept state event next invariant stepped
    constructor
    · exact invariant
    · rw [Nat.add_comm]
      exact lower
  obtain ⟨invariant, used⟩ := sum_map_add_le_bound (fun _ => 1) bound initially uses run
  constructor
  · exact invariant
  · simpa using used

end Bounded

end Kynos.Run
