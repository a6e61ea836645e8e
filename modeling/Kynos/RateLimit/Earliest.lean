import Kynos.RateLimit.Recovery
import Mathlib.Order.Bounds.Basic

/-!
# The earliest recovery

The estimate of a window over all time to come, with nothing more counted: it
falls until the window ends, and then as the current counter is carried over.
The wait a refusal gives is the first at which the estimate is below the ceiling
under a relation of the two counters alone.
-/

namespace Kynos.RateLimit.Quota

open Kynos.Numeral

variable {quota : Quota} {previous current millis later : Nat}

/-! ## The estimate over time -/

/-- The counters of the window before and of a window so many after the one that
has counted `current`, with nothing more counted. -/
def countersAfter (previous current : Nat) : Nat → Nat × Nat
  | 0 => (previous, current)
  | 1 => (current, 0)
  | _ => (0, 0)

/-- The estimate so many milliseconds after a window began, with nothing more
counted. -/
def estimateAfter (quota : Quota) (previous current millis : Nat) : Nat :=
  let counters := countersAfter previous current (millis / quota.windowMs)
  estimate counters.1 counters.2 (Duration.fromMillis (min (millis % quota.windowMs) u64Max))
    quota.window

/-- What the store's counters are estimated at, in time. -/
theorem counted_add {counters : Counters} {partition : Text} {now : Duration}
    (unbegun : quota.Unbegun counters partition now) (wait : Nat) :
    quota.counted counters partition (now + Duration.fromMillis wait) =
      quota.estimateAfter (counters (quota.previousKey partition now))
        (counters (quota.currentKey partition now))
        (Duration.asMillis now % quota.windowMs + wait) := by
  have passed : Duration.asMillis (now + Duration.fromMillis wait) =
      Duration.asMillis now + wait := by
    rw [Duration.asMillis, Duration.fromMillis, Nat.add_mul_div_right _ _ (by decide)]
    rfl
  have split : Duration.asMillis now + wait =
      Duration.asMillis now % quota.windowMs + wait + quota.windowMs * quota.index now := by
    have divided := Nat.mod_add_div (Duration.asMillis now) quota.windowMs
    rw [index]
    omega
  have laterIndex : quota.index (now + Duration.fromMillis wait) =
      (Duration.asMillis now % quota.windowMs + wait) / quota.windowMs + quota.index now := by
    rw [index, passed, split, Nat.add_mul_div_left _ _ quota.windowMs_pos]
  have laterElapsed : quota.elapsed (now + Duration.fromMillis wait) = Duration.fromMillis
      (min ((Duration.asMillis now % quota.windowMs + wait) % quota.windowMs) u64Max) := by
    rw [elapsed, passed, split, Nat.add_mul_mod_self_left]
  rw [counted, estimateAfter, laterElapsed, currentKey, previousKey, laterIndex]
  generalize (Duration.asMillis now % quota.windowMs + wait) / quota.windowMs = ahead
  rcases ahead with _ | _ | ahead
  · rw [Nat.zero_add]
    rfl
  · rw [Nat.zero_add, unbegun (1 + quota.index now) (by omega), Nat.add_sub_cancel_left]
    rfl
  · rw [unbegun (ahead + 1 + 1 + quota.index now) (by omega),
      unbegun (ahead + 1 + 1 + quota.index now - 1) (by omega)]
    rfl

theorem estimateAfter_of_lt (within : millis < quota.windowMs) :
    quota.estimateAfter previous current millis =
      estimate previous current (Duration.fromMillis (min millis u64Max)) quota.window := by
  rw [estimateAfter, Nat.div_eq_of_lt within, Nat.mod_eq_of_lt within]
  rfl

theorem estimateAfter_add_of_lt (within : millis < quota.windowMs) :
    quota.estimateAfter previous current (quota.windowMs + millis) =
      estimate current 0 (Duration.fromMillis (min millis u64Max)) quota.window := by
  rw [estimateAfter, Nat.add_div_left _ quota.windowMs_pos, Nat.div_eq_of_lt within,
    Nat.add_mod_left, Nat.mod_eq_of_lt within]
  rfl

theorem estimateAfter_of_two_mul_le (passed : 2 * quota.windowMs ≤ millis) :
    quota.estimateAfter previous current millis = 0 := by
  obtain ⟨ahead, isAhead⟩ := Nat.exists_eq_add_of_le'
    ((Nat.le_div_iff_mul_le quota.windowMs_pos).mpr passed)
  rw [estimateAfter, isAhead]
  exact Nat.le_zero.mp estimate_le_add

/-- Within the window the estimate falls. -/
theorem estimateAfter_antitone (le : millis ≤ later) (within : later < quota.windowMs) :
    quota.estimateAfter previous current later ≤ quota.estimateAfter previous current millis := by
  rw [estimateAfter_of_lt within, estimateAfter_of_lt (le.trans_lt within)]
  exact estimate_antitone (Nat.mul_le_mul_right _ (min_le_min le le_rfl))

/-- Within the window the estimate is at least the current counter, or held at
the bound. -/
theorem min_current_le_estimateAfter (within : millis < quota.windowMs) :
    min current u64Max ≤ quota.estimateAfter previous current millis := by
  rw [estimateAfter_of_lt within]
  rcases Nat.eq_zero_or_pos quota.window with none | positive
  · rw [none]
    exact min_le_left _ _
  · rw [estimate_eq_of_pos positive]
    exact min_le_min (Nat.le_add_right _ _) le_rfl

/-! ## The next window -/

/-- The milliseconds of the next window until the current counter carried over is
below the ceiling; none where the window is so wide that the product saturates,
and the whole window where it is not yet over with the last millisecond `u64`
counts. -/
def drainMs (quota : Quota) (current : Nat) : Nat :=
  if u128Max < quota.ceiling * quota.windowMs then
    0
  else if quota.ceiling * quota.windowMs ≤ current * (quota.windowMs - u64Max) then
    quota.windowMs
  else
    quota.windowMs * (current - quota.ceiling) / current + 1

theorem drainMs_le (positive : 1 ≤ quota.ceiling) (full : quota.ceiling ≤ current) :
    quota.drainMs current ≤ quota.windowMs := by
  unfold drainMs
  split
  · exact Nat.zero_le _
  split
  · exact le_rfl
  · refine (Nat.div_lt_iff_lt_mul (by omega)).mpr ?_
    exact Nat.mul_lt_mul_of_pos_left (by omega) quota.windowMs_pos

/-- A share falls below a part of the whole past the other part. -/
theorem mul_sub_lt_iff {share part whole passed : Nat} (some : 0 < share) (le : part ≤ share)
    (within : passed ≤ whole) :
    share * (whole - passed) < part * whole ↔ whole * (share - part) / share + 1 ≤ passed := by
  rw [Nat.succ_le_iff, Nat.div_lt_iff_lt_mul some]
  obtain ⟨excess, rfl⟩ := Nat.exists_eq_add_of_le le
  obtain ⟨rest, rfl⟩ := Nat.exists_eq_add_of_le within
  rw [Nat.add_sub_cancel_left, Nat.add_sub_cancel_left]
  have left : (part + excess) * rest = part * rest + excess * rest := Nat.add_mul _ _ _
  have right : part * (passed + rest) = part * passed + part * rest := Nat.mul_add _ _ _
  have wait : (passed + rest) * excess = passed * excess + excess * rest := by
    rw [Nat.add_mul, Nat.mul_comm rest]
  have decay : passed * (part + excess) = part * passed + passed * excess := by
    rw [Nat.mul_add, Nat.mul_comm passed part]
  omega

/-- Carried over, a counter at the ceiling is below it from then on. -/
theorem estimateAfter_add_lt_iff (window : 0 < quota.window) (positive : 1 ≤ quota.ceiling)
    (full : quota.ceiling ≤ current) (within : millis < quota.windowMs) :
    quota.estimateAfter previous current (quota.windowMs + millis) < quota.ceiling ↔
      quota.drainMs current ≤ millis := by
  have bounded := quota.ceiling_le
  have weight : min (Duration.asMillis (Duration.fromMillis (min millis u64Max))) quota.windowMs =
      min millis u64Max := by
    rw [Duration.asMillis_fromMillis]
    omega
  have carries : quota.estimateAfter previous current (quota.windowMs + millis) < quota.ceiling ↔
      min (current * (quota.windowMs - min millis u64Max)) u128Max <
        quota.ceiling * quota.windowMs := by
    rw [estimateAfter_add_of_lt within, estimate_eq_of_pos window, carried,
      show max (Duration.asMillis quota.window) 1 = quota.windowMs from rfl, weight, saturatingMul,
      ← Nat.div_lt_iff_lt_mul quota.windowMs_pos]
    omega
  rw [carries, drainMs]
  split
  · next wide => exact iff_of_true (lt_of_le_of_lt (min_le_right _ _) wide) (Nat.zero_le _)
  next narrow =>
    have unsaturated : min (current * (quota.windowMs - min millis u64Max)) u128Max <
        quota.ceiling * quota.windowMs ↔
          current * (quota.windowMs - min millis u64Max) < quota.ceiling * quota.windowMs := by
      omega
    rw [unsaturated]
    split
    · next outlasts =>
        refine iff_of_false (Nat.not_lt.mpr (outlasts.trans (Nat.mul_le_mul_left _ ?_))) (by omega)
        exact Nat.sub_le_sub_left (min_le_right _ _) _
    · next drains =>
        have counted : 0 < current := by omega
        rcases Nat.le_total millis u64Max with short | long
        · rw [min_eq_left short]
          exact mul_sub_lt_iff counted full within.le
        · rw [min_eq_right long]
          have last := mul_sub_lt_iff counted full (long.trans within.le)
          rw [Nat.not_le] at drains
          exact iff_of_true drains ((last.mp drains).trans long)

/-! ## The earliest wait -/

/-- A wait, from `millis` into the window, is the least after which the estimate
is below the ceiling. -/
def Earliest (quota : Quota) (previous current millis wait : Nat) : Prop :=
  IsLeast {wait | quota.estimateAfter previous current (millis + wait) ≤ quota.ceiling - 1} wait

/-- Over a counter at the ceiling, it is what the counter takes to drain. -/
theorem earliest_iff_of_full {wait : Nat} (window : 0 < quota.window) (positive : 1 ≤ quota.ceiling)
    (full : quota.ceiling ≤ current) (within : millis < quota.windowMs) :
    quota.Earliest previous current millis wait ↔
      millis + wait = quota.windowMs + quota.drainMs current := by
  have bounded := quota.ceiling_le
  have below : ∀ instant, quota.estimateAfter previous current instant ≤ quota.ceiling - 1 ↔
      quota.windowMs + quota.drainMs current ≤ instant := by
    intro instant
    rw [Nat.le_sub_one_iff_lt positive]
    rcases Nat.lt_or_ge instant quota.windowMs with inWindow | ended
    · have counts : min current u64Max ≤ quota.estimateAfter previous current instant :=
        min_current_le_estimateAfter inWindow
      exact iff_of_false (by omega) (by omega)
    obtain ⟨next, rfl⟩ := Nat.exists_eq_add_of_le ended
    rcases Nat.lt_or_ge next quota.windowMs with inNext | passed
    · rw [estimateAfter_add_lt_iff window positive full inNext, Nat.add_le_add_iff_left]
    · have drained := drainMs_le positive full
      rw [estimateAfter_of_two_mul_le (by omega)]
      exact iff_of_true positive (by omega)
  simp only [Earliest, below]
  constructor
  · rintro ⟨reached, least⟩
    have first := least (show quota.windowMs + quota.drainMs current - millis ∈ _ by
      rw [Set.mem_ofPred_eq]
      omega)
    rw [Set.mem_ofPred_eq] at reached
    omega
  · intro isDrained
    refine ⟨isDrained.ge, fun other reached => ?_⟩
    rw [Set.mem_ofPred_eq] at reached
    omega

/-- Over a counter below the ceiling, a wait past the window's end is the least
only where it ends with the window, the estimate still at the ceiling. -/
theorem earliest_iff_of_lt {wait : Nat} (positive : 1 ≤ quota.ceiling)
    (low : current < quota.ceiling) (within : millis < quota.windowMs)
    (past : quota.windowMs ≤ millis + wait) :
    quota.Earliest previous current millis wait ↔ millis + wait = quota.windowMs ∧
      quota.ceiling ≤ quota.estimateAfter previous current (quota.windowMs - 1) := by
  have atEnd : quota.estimateAfter previous current quota.windowMs ≤ quota.ceiling - 1 := by
    have carries : quota.estimateAfter previous current (quota.windowMs + 0) = _ :=
      estimateAfter_add_of_lt quota.windowMs_pos
    rw [Nat.add_zero] at carries
    rw [carries]
    exact estimate_le_add.trans (Nat.le_sub_one_of_lt ((Nat.zero_add _).trans_lt low))
  constructor
  · rintro ⟨-, least⟩
    have ends := least (show quota.windowMs - millis ∈ _ by
      rw [Set.mem_ofPred_eq, Nat.add_sub_cancel' within.le]
      exact atEnd)
    refine ⟨by omega, Nat.not_lt.mp fun early => ?_⟩
    have earlier := least (show quota.windowMs - 1 - millis ∈ _ by
      rw [Set.mem_ofPred_eq, Nat.add_sub_cancel' (Nat.le_sub_one_of_lt within)]
      exact Nat.le_sub_one_of_lt early)
    omega
  · rintro ⟨ends, full⟩
    refine ⟨?_, fun other reached => ?_⟩
    · rw [Set.mem_ofPred_eq, ends]
      exact atEnd
    · rw [Set.mem_ofPred_eq] at reached
      by_contra early
      have falls : quota.estimateAfter previous current (quota.windowMs - 1) ≤
          quota.estimateAfter previous current (millis + other) :=
        estimateAfter_antitone (by omega) (by omega)
      omega

/-- `millis` are the whole milliseconds of the decay, at an even rate over a
window, of an estimate to just below the ceiling. -/
def EvenDecay (quota : Quota) (counted millis : Nat) : Prop :=
  millis ≤ u64Max ∧
    millis * counted ≤ min (quota.windowMs * (counted + 1 - quota.ceiling)) u128Max ∧
    (millis < u64Max →
      min (quota.windowMs * (counted + 1 - quota.ceiling)) u128Max < (millis + 1) * counted)

theorem evenDecay_iff {counted : Nat} (some : 0 < counted) :
    quota.EvenDecay counted millis ↔
      min (min (quota.windowMs * (counted + 1 - quota.ceiling)) u128Max / counted) u64Max =
        millis := by
  rw [EvenDecay, ← Nat.le_div_iff_mul_le some, ← Nat.div_lt_iff_lt_mul some]
  omega

theorem asMillis_window (whole : quota.window % 1000000 = 0) (window : 0 < quota.window) :
    Duration.asMillis quota.window = quota.windowMs :=
  (max_eq_left (Nat.div_pos (Nat.le_of_dvd window (Nat.dvd_of_mod_eq_zero whole)) (by decide))).symm

theorem window_eq (whole : quota.window % 1000000 = 0) (window : 0 < quota.window) :
    quota.window = Duration.fromMillis quota.windowMs := by
  rw [← asMillis_window whole window, Duration.fromMillis, Duration.asMillis,
    Nat.div_mul_cancel (Nat.dvd_of_mod_eq_zero whole)]

/-- A span held at the bound is no whole number of milliseconds. -/
theorem min_fromMillis_eq_iff {wait : Nat} :
    min (Duration.fromMillis millis) Duration.max = Duration.fromMillis wait ↔
      Duration.fromMillis millis ≤ Duration.max ∧ millis = wait := by
  have held : ∀ span wait : Nat, min (span * 1000000) 18446744073709551615999999999 =
      wait * 1000000 ↔ span * 1000000 ≤ 18446744073709551615999999999 ∧ span = wait := by
    intro span wait
    omega
  rw [Duration.max_eq]
  exact held millis wait

/-- The wait of a refusal, in milliseconds where it fits. -/
theorem recoversIn_eq {counted : Nat} (whole : quota.window % 1000000 = 0)
    (window : 0 < quota.window) (positive : 1 ≤ quota.ceiling) (full : quota.ceiling ≤ counted)
    (elapsedMs : Nat) :
    recoversIn counted (quota.ceiling - 1) (Duration.fromMillis elapsedMs) quota.window =
      min (Duration.fromMillis (quota.windowMs - elapsedMs +
        min (min (quota.windowMs * (counted + 1 - quota.ceiling)) u128Max / counted) u64Max))
        Duration.max := by
  have windowEq := asMillis_window whole window
  have split := window_eq whole window
  have excess : counted - (quota.ceiling - 1) = counted + 1 - quota.ceiling := by omega
  rw [recoversIn, if_neg (by omega), windowEq, excess, max_eq_left (by omega : 1 ≤ counted),
    Duration.saturatingAdd, saturatingAdd, Duration.saturatingSub, saturatingMul]
  generalize min (min (quota.windowMs * (counted + 1 - quota.ceiling)) u128Max / counted) u64Max =
    decay
  rw [split]
  simp only [Duration.fromMillis, ← Nat.sub_mul, ← Nat.add_mul]

/-- The two decays end at once: that of the estimate, which the wait is read off,
and that of the counters. -/
def DecaysTogether (quota : Quota) (previous current millis : Nat) : Prop :=
  let counted := quota.estimateAfter previous current millis
  if current < quota.ceiling then
    quota.ceiling ≤ quota.estimateAfter previous current (quota.windowMs - 1) ∧
      millis ≤ u64Max ∧ quota.EvenDecay counted 0
  else
    millis - u64Max ≤ quota.drainMs current ∧
      quota.EvenDecay counted (quota.drainMs current - (millis - u64Max)) ∧
      Duration.fromMillis (quota.windowMs - millis + quota.drainMs current) ≤ Duration.max

/-- The wait of a refusal is the earliest, in whole milliseconds, just where the
decay of the estimate ends with that of the counters. -/
theorem recovery_earliest_iff (quota : Quota) (whole : quota.window % 1000000 = 0)
    (positive : 1 ≤ quota.ceiling) (previous current millis : Nat)
    (within : millis < quota.windowMs)
    (refuses : quota.ceiling ≤ quota.estimateAfter previous current millis) :
    (∃ wait, recoversIn (quota.estimateAfter previous current millis) (quota.ceiling - 1)
          (Duration.fromMillis (min millis u64Max)) quota.window = Duration.fromMillis wait ∧
        quota.Earliest previous current millis wait) ↔
      0 < quota.window ∧ quota.DecaysTogether previous current millis := by
  rcases Nat.eq_zero_or_pos quota.window with none | window
  · refine iff_of_false ?_ fun both => absurd none both.1.ne'
    rintro ⟨wait, waits, reached, -⟩
    have atOnce : wait = 0 := by
      have nothing : recoversIn (quota.estimateAfter previous current millis) (quota.ceiling - 1)
          (Duration.fromMillis (min millis u64Max)) 0 = 0 := by
        simp [recoversIn, Duration.saturatingSub, Duration.asMillis, saturatingMul,
          Duration.fromMillis, Duration.saturatingAdd, saturatingAdd]
      rw [none, nothing] at waits
      exact (Nat.mul_eq_zero.mp waits.symm).resolve_right (by decide)
    rw [Set.mem_ofPred_eq, atOnce, Nat.add_zero] at reached
    omega
  · have counted : 0 < quota.estimateAfter previous current millis := positive.trans refuses
    have widest : Duration.fromMillis quota.windowMs ≤ Duration.max :=
      window_eq whole window ▸ quota.window_le
    rw [recoversIn_eq whole window positive refuses]
    simp only [min_fromMillis_eq_iff, window, true_and, DecaysTogether, evenDecay_iff counted]
    generalize min (min (quota.windowMs * (quota.estimateAfter previous current millis + 1 -
      quota.ceiling)) u128Max / quota.estimateAfter previous current millis) u64Max = decay
    have reached : (∃ wait, (Duration.fromMillis (quota.windowMs - min millis u64Max + decay) ≤
          Duration.max ∧ quota.windowMs - min millis u64Max + decay = wait) ∧
          quota.Earliest previous current millis wait) ↔
        Duration.fromMillis (quota.windowMs - min millis u64Max + decay) ≤ Duration.max ∧
          quota.Earliest previous current millis (quota.windowMs - min millis u64Max + decay) := by
      constructor
      · rintro ⟨_, ⟨fits, rfl⟩, earliest⟩
        exact ⟨fits, earliest⟩
      · rintro ⟨fits, earliest⟩
        exact ⟨_, ⟨fits, rfl⟩, earliest⟩
    rw [reached]
    unfold Duration.fromMillis at widest ⊢
    generalize Duration.max = longest at widest ⊢
    split
    · next low =>
        rw [earliest_iff_of_lt positive low within (by omega)]
        constructor
        · rintro ⟨-, ends, full⟩
          exact ⟨full, by omega, by omega⟩
        · rintro ⟨full, early, rfl⟩
          refine ⟨(Nat.mul_le_mul_right _ ?_).trans widest, by omega, full⟩
          omega
    · next full =>
        rw [earliest_iff_of_full window positive (Nat.not_lt.mp full) within]
        constructor
        · rintro ⟨fits, ends⟩
          have drained : quota.windowMs - millis + quota.drainMs current =
              quota.windowMs - min millis u64Max + decay := by
            omega
          refine ⟨by omega, by omega, ?_⟩
          rw [drained]
          exact fits
        · intro both
          obtain ⟨early, even, fits⟩ := both
          have drained : quota.windowMs - min millis u64Max +
              decay = quota.windowMs - millis + quota.drainMs current := by
            omega
          rw [drained]
          exact ⟨fits, by omega⟩

/-- A hundred each second, of which the last second spent all: the estimate is
below the ceiling a millisecond later. -/
theorem recovery_earliest_iff_hundred :
    (∃ wait, recoversIn ((perSecond "api".toList 100).estimateAfter 100 0 0) 99
          (Duration.fromMillis (min 0 u64Max)) 1000000000 = Duration.fromMillis wait ∧
        (perSecond "api".toList 100).Earliest 100 0 0 wait) ↔
      0 < (perSecond "api".toList 100).window ∧
        (perSecond "api".toList 100).DecaysTogether 100 0 0 :=
  recovery_earliest_iff (perSecond "api".toList 100) (by decide) (by decide) 100 0 0 (by decide)
    (by decide)

/-- Of a wait of 1.01 seconds it takes one millisecond. -/
theorem recovery_late_hundred :
    (perSecond "api".toList 100).ceiling ≤ (perSecond "api".toList 100).estimateAfter 100 0 0 ∧
      recoversIn ((perSecond "api".toList 100).estimateAfter 100 0 0)
          ((perSecond "api".toList 100).ceiling - 1) 0 1000000000 = Duration.fromMillis 1010 ∧
      (perSecond "api".toList 100).Earliest 100 0 0 1 ∧
      ¬ (perSecond "api".toList 100).Earliest 100 0 0 1010 := by
  have earliest : (perSecond "api".toList 100).Earliest 100 0 0 1 := by
    refine ⟨by decide, fun wait reached => ?_⟩
    by_contra early
    obtain rfl : wait = 0 := by omega
    exact absurd reached (by decide)
  exact ⟨by decide, by decide, earliest, fun late => absurd (earliest.unique late) (by decide)⟩

end Kynos.RateLimit.Quota
