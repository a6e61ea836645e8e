import Kynos.RateLimit.Quota

/-!
# A limiter against its store

The longest wait of a denial, and one check against a store that counts what it
is told: a denied check leaves the store as it is, and an allowed one adds one
to the current window of every quota that is within its ceiling. Every later
result about a limiter reads a check through these.
-/

namespace Kynos.RateLimit

open Kynos.Numeral

/-! ## The longest wait -/

namespace Outcome

@[simp]
theorem longest_of_wait_eq_none {outcome : Outcome} (silent : outcome.wait = none)
    (denial : Option Duration) : longest denial outcome = denial := by
  simp [longest, silent]

theorem longest_of_wait_eq_some {outcome : Outcome} {wait : Duration}
    (waits : outcome.wait = some wait) (denial : Option Duration) :
    longest denial outcome = some (denial.elim wait fun existing => max existing wait) := by
  simp [longest, waits]

/-- Nothing is denied exactly where no outcome asks to wait. -/
theorem foldl_longest_eq_none_iff {outcomes : List Outcome} {denial : Option Duration} :
    outcomes.foldl longest denial = none ↔
      denial = none ∧ ∀ outcome ∈ outcomes, outcome.wait = none := by
  induction outcomes generalizing denial with
  | nil => simp
  | cons outcome rest ih =>
      rw [List.foldl_cons, ih]
      cases waits : outcome.wait with
      | none => simp [waits]
      | some wait => simp [longest_of_wait_eq_some waits, waits]

/-- A denial waits for one of the outcomes, and for no less than any of them. -/
theorem foldl_longest_eq_some {outcomes : List Outcome} {denial : Option Duration}
    {longestWait : Duration} (denied : outcomes.foldl longest denial = some longestWait) :
    (denial = some longestWait ∨ ∃ outcome ∈ outcomes, outcome.wait = some longestWait) ∧
      (∀ existing, denial = some existing → existing ≤ longestWait) ∧
      ∀ outcome ∈ outcomes, ∀ wait, outcome.wait = some wait → wait ≤ longestWait := by
  induction outcomes generalizing denial with
  | nil =>
      rw [List.foldl_nil] at denied
      simp [denied]
  | cons outcome rest ih =>
      rw [List.foldl_cons] at denied
      obtain ⟨attained, existingLe, restLe⟩ := ih denied
      cases waits : outcome.wait with
      | none =>
          rw [longest_of_wait_eq_none waits] at attained existingLe
          refine ⟨?_, existingLe, ?_⟩
          · rcases attained with attained | ⟨other, member, attained⟩
            · exact .inl attained
            · exact .inr ⟨other, List.mem_cons_of_mem _ member, attained⟩
          · intro other member wait otherWaits
            rcases List.mem_cons.mp member with rfl | member
            · rw [waits] at otherWaits
              contradiction
            · exact restLe other member wait otherWaits
      | some wait =>
          rw [longest_of_wait_eq_some waits] at attained existingLe
          have bound := existingLe _ rfl
          refine ⟨?_, ?_, ?_⟩
          · rcases attained with attained | ⟨other, member, attained⟩
            · cases denial with
              | none => exact .inr ⟨outcome, List.mem_cons_self, waits.trans attained⟩
              | some existing =>
                  rcases max_choice existing wait with left | right
                  · rw [Option.elim_some, left] at attained
                    exact .inl attained
                  · rw [Option.elim_some, right] at attained
                    exact .inr ⟨outcome, List.mem_cons_self, waits.trans attained⟩
            · exact .inr ⟨other, List.mem_cons_of_mem _ member, attained⟩
          · rintro existing rfl
            exact (le_max_left existing wait).trans bound
          · intro other member otherWait otherWaits
            rcases List.mem_cons.mp member with rfl | member
            · rw [waits, Option.some.injEq] at otherWaits
              subst otherWaits
              cases denial with
              | none => exact bound
              | some existing => exact (le_max_right existing wait).trans bound
            · exact restLe other member otherWait otherWaits

end Outcome

/-! ## One check -/

namespace Quotas

variable {limiter : Quotas} {read : Text → Option Nat} {partition : Text} {now : Duration}

/-- No quota asks to wait, so the request is served and every quota within its
ceiling is spent. -/
theorem check_of_forall_wait_eq_none
    (clear : ∀ quota ∈ limiter.enforced, (limiter.decide read quota partition now).wait = none) :
    limiter.check read (some partition) now =
      (.allow (limiter.enforced.map fun quota =>
          (limiter.decide read quota partition now).report true quota),
        limiter.enforced.filterMap fun quota =>
          (limiter.decide read quota partition now).spend quota) := by
  have noDenial : (limiter.outcomes read partition now).foldl Outcome.longest none = none := by
    rw [Outcome.foldl_longest_eq_none_iff]
    exact ⟨rfl, by simpa [outcomes] using clear⟩
  simp only [check, noDenial]
  simp [outcomes, List.zipWith_map_right, List.filterMap_map]

/-- Some quota asks to wait: the request is refused for the longest of the
waits, and spends nothing. -/
theorem check_of_wait_eq_some {quota : Quota} {wait : Duration} (member : quota ∈ limiter.enforced)
    (waits : (limiter.decide read quota partition now).wait = some wait) :
    ∃ retryAfter,
      limiter.check read (some partition) now =
          (.deny retryAfter (limiter.enforced.map fun quota =>
            (limiter.decide read quota partition now).report false quota), []) ∧
        (∃ longest ∈ limiter.enforced,
          (limiter.decide read longest partition now).wait = some retryAfter) ∧
        ∀ other ∈ limiter.enforced, ∀ otherWait,
          (limiter.decide read other partition now).wait = some otherWait →
            otherWait ≤ retryAfter := by
  cases denied : (limiter.outcomes read partition now).foldl Outcome.longest none with
  | none =>
      have silent := (Outcome.foldl_longest_eq_none_iff.mp denied).2
        (limiter.decide read quota partition now) (List.mem_map_of_mem member)
      rw [silent] at waits
      contradiction
  | some retryAfter =>
      obtain ⟨attained, _, bound⟩ := Outcome.foldl_longest_eq_some denied
      refine ⟨retryAfter, ?_, ?_, ?_⟩
      · simp only [check, denied]
        simp [outcomes, List.zipWith_map_right]
      · simpa [outcomes] using attained
      · simpa [outcomes] using bound

/-- A check is allowed exactly where no quota asks to wait. -/
theorem check_allows_iff :
    (limiter.check read (some partition) now).1.allows = true ↔
      ∀ quota ∈ limiter.enforced, (limiter.decide read quota partition now).wait = none := by
  constructor
  · intro allows quota member
    cases waits : (limiter.decide read quota partition now).wait with
    | none => rfl
    | some wait =>
        obtain ⟨retryAfter, denied, _⟩ := check_of_wait_eq_some member waits
        rw [denied] at allows
        contradiction
  · intro clear
    rw [check_of_forall_wait_eq_none clear]
    rfl

end Quotas

/-! ## A store that counts exactly -/

/-- The counters of a store. -/
abbrev Counters := Text → Nat

namespace Counters

/-- `RateLimitStore::read`, of a store that does not answer for the keys that
are `down`. -/
def read (counters : Counters) (down : Text → Bool) (key : Text) : Option Nat :=
  if down key then none else some (counters key)

/-- The store answers for every key. -/
abbrev allUp : Text → Bool := fun _ => false

/-- `RateLimitStore::increment`. -/
def add (counters : Counters) (increment : Increment) : Counters :=
  fun key => if key = increment.key then counters key + increment.amount else counters key

theorem foldl_add_of_forall_ne {increments : List Increment} {key : Text}
    (other : ∀ increment ∈ increments, increment.key ≠ key) (counters : Counters) :
    increments.foldl add counters key = counters key := by
  induction increments generalizing counters with
  | nil => rfl
  | cons increment rest ih =>
      rw [List.foldl_cons, ih fun later member => other later (List.mem_cons_of_mem _ member)]
      exact if_neg (other increment List.mem_cons_self).symm

/-- A key that one increment of a list names, and no other, is raised by its
amount. -/
theorem foldl_add_of_mem {increments : List Increment} {increment : Increment}
    (distinct : (increments.map Increment.key).Nodup) (member : increment ∈ increments)
    (counters : Counters) :
    increments.foldl add counters increment.key = counters increment.key + increment.amount := by
  induction increments generalizing counters with
  | nil => contradiction
  | cons head rest ih =>
      rw [List.map_cons, List.nodup_cons] at distinct
      rw [List.foldl_cons]
      rcases List.mem_cons.mp member with rfl | member
      · have other : ∀ later ∈ rest, later.key ≠ increment.key := fun later laterMember equal =>
          distinct.1 (equal ▸ List.mem_map_of_mem laterMember)
        rw [foldl_add_of_forall_ne other]
        exact if_pos rfl
      · rw [ih distinct.2 member]
        have notHead : increment.key ≠ head.key := fun equal =>
          distinct.1 (equal ▸ List.mem_map_of_mem member)
        rw [add, if_neg notHead]

end Counters

/-- A request: the partition its key names, if any, and when it is checked. -/
structure Request where
  partition : Option Text
  time : Duration
  deriving DecidableEq, Repr

namespace Quotas

/-- One request against the store. -/
def serve (limiter : Quotas) (down : Text → Bool) (counters : Counters) (request : Request) :
    Decision × Counters :=
  let checked := limiter.check (counters.read down) request.partition request.time
  (checked.1, checked.2.foldl Counters.add counters)

/-- What requests, one after another, leave in the store. -/
def run (limiter : Quotas) (down : Text → Bool) (counters : Counters) (requests : List Request) :
    Counters :=
  requests.foldl (fun counters request => (limiter.serve down counters request).2) counters

@[simp]
theorem run_nil (limiter : Quotas) (down : Text → Bool) (counters : Counters) :
    limiter.run down counters [] = counters := rfl

@[simp]
theorem run_cons (limiter : Quotas) (down : Text → Bool) (counters : Counters) (request : Request)
    (requests : List Request) :
    limiter.run down counters (request :: requests) =
      limiter.run down (limiter.serve down counters request).2 requests := rfl

theorem run_append (limiter : Quotas) (down : Text → Bool) (counters : Counters)
    (first second : List Request) :
    limiter.run down counters (first ++ second) =
      limiter.run down (limiter.run down counters first) second :=
  List.foldl_append

end Quotas

end Kynos.RateLimit
