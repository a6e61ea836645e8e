import Kynos.RateLimit.Store

/-!
# The sliding-window estimate

What the estimate of a window says of its two counters: it is at least the
current one, falls as the window passes, and carries no more over than the
previous window counted. The estimate of a quota at an instant is read off the
store, and the decision of a quota is a comparison of it with the ceiling.
-/

namespace Kynos.RateLimit

open Kynos.Numeral

section Estimate

variable {previous current : Nat} {elapsed elapsed' window : Duration}

/-- What the estimate carries over from the previous window. -/
def carried (previous : Nat) (elapsed window : Duration) : Nat :=
  let windowMs := max (Duration.asMillis window) 1
  saturatingMul u128Max previous (windowMs - min (Duration.asMillis elapsed) windowMs) / windowMs

theorem estimate_eq_of_pos (positive : 0 < window) :
    estimate previous current elapsed window =
      min (current + min (carried previous elapsed window) u64Max) u64Max := by
  rw [estimate, if_neg positive.ne']
  rfl

theorem carried_antitone (later : elapsed ≤ elapsed') :
    carried previous elapsed' window ≤ carried previous elapsed window := by
  have passed := Duration.asMillis_mono later
  refine Nat.div_le_div_right (saturatingMul_mono le_rfl (Nat.sub_le_sub_left ?_ _))
  exact min_le_min passed le_rfl

/-- No more is carried over than the previous window counted. -/
theorem carried_le : carried previous elapsed window ≤ previous := by
  refine (Nat.div_le_div_right (min_le_left _ _)).trans (Nat.div_le_of_le_mul ?_)
  rw [Nat.mul_comm]
  exact Nat.mul_le_mul_right _ (Nat.sub_le _ _)

/-- The estimate falls as the window passes. -/
theorem estimate_antitone (later : elapsed ≤ elapsed') :
    estimate previous current elapsed' window ≤ estimate previous current elapsed window := by
  rcases Nat.eq_zero_or_pos window with rfl | positive
  · exact le_rfl
  · have less : carried previous elapsed' window ≤ carried previous elapsed window :=
      carried_antitone later
    simp only [estimate_eq_of_pos positive]
    omega

theorem estimate_le_add : estimate previous current elapsed window ≤ current + previous := by
  rcases Nat.eq_zero_or_pos window with rfl | positive
  · exact Nat.le_add_right _ _
  · have less : carried previous elapsed window ≤ previous := carried_le
    rw [estimate_eq_of_pos positive]
    omega

/-- An estimate below the bound of its integer is at least the current counter. -/
theorem current_le_estimate (bounded : estimate previous current elapsed window < u64Max) :
    current ≤ estimate previous current elapsed window := by
  rcases Nat.eq_zero_or_pos window with rfl | positive
  · exact le_rfl
  · rw [estimate_eq_of_pos positive] at bounded ⊢
    omega

/-- One more request raises the estimate by at most one. -/
theorem estimate_succ_le :
    estimate previous (current + 1) elapsed window ≤
      estimate previous current elapsed window + 1 := by
  rcases Nat.eq_zero_or_pos window with rfl | positive
  · exact le_rfl
  · simp only [estimate_eq_of_pos positive]
    omega

end Estimate

namespace Quota

variable {quota : Quota} {counters : Counters} {partition : Text} {now later : Duration}

/-- Within a window the time passed in it grows. -/
theorem elapsed_mono_of_index_eq (le : now ≤ later)
    (sameWindow : quota.index later = quota.index now) :
    quota.elapsed now ≤ quota.elapsed later := by
  have passed := Duration.asMillis_mono le
  have first := Nat.div_add_mod (Duration.asMillis now) quota.windowMs
  have second := Nat.div_add_mod (Duration.asMillis later) quota.windowMs
  simp only [index] at sameWindow
  rw [sameWindow] at second
  have modLe : Duration.asMillis now % quota.windowMs ≤
      Duration.asMillis later % quota.windowMs := by
    omega
  exact Nat.mul_le_mul_right _ (min_le_min modLe le_rfl)

/-- The requests `quota` estimates it has counted at `now`. -/
def counted (quota : Quota) (counters : Counters) (partition : Text) (now : Duration) : Nat :=
  estimate (counters (quota.previousKey partition now)) (counters (quota.currentKey partition now))
    (quota.elapsed now) quota.window

/-- What a quota over its ceiling asks to wait. -/
def recovery (quota : Quota) (counters : Counters) (partition : Text) (now : Duration) :
    Duration :=
  recoversIn (quota.counted counters partition now) (quota.ceiling - 1) (quota.elapsed now)
    quota.window

end Quota

namespace Quotas

variable {limiter : Quotas} {counters : Counters} {quota : Quota} {partition : Text}
  {now : Duration}

/-- A store that answers refuses exactly where the estimate is at the ceiling. -/
theorem decide_read :
    limiter.decide (counters.read Counters.allUp) quota partition now =
      if quota.ceiling ≤ quota.counted counters partition now then
        .refused (quota.recovery counters partition now)
      else
        .within (quota.counted counters partition now) (quota.elapsed now)
          (quota.currentKey partition now) := by
  rfl

theorem decide_read_wait_eq_none_iff :
    (limiter.decide (counters.read Counters.allUp) quota partition now).wait = none ↔
      quota.counted counters partition now < quota.ceiling := by
  rw [decide_read, ← Nat.not_le]
  split <;> simp_all [Outcome.wait]

theorem decide_read_wait_eq_some_iff {wait : Duration} :
    (limiter.decide (counters.read Counters.allUp) quota partition now).wait = some wait ↔
      quota.ceiling ≤ quota.counted counters partition now ∧
        quota.recovery counters partition now = wait := by
  rw [decide_read]
  split <;> simp_all [Outcome.wait]

/-- A store that answers allows a request exactly where every estimate is below
its ceiling. -/
theorem check_read_allows_iff :
    (limiter.check (counters.read Counters.allUp) (some partition) now).1.allows = true ↔
      ∀ quota ∈ limiter.enforced, quota.counted counters partition now < quota.ceiling := by
  simp only [check_allows_iff, decide_read_wait_eq_none_iff]

end Quotas

end Kynos.RateLimit
