import Kynos.RateLimit.Estimate
import Kynos.RateLimit.Key
import Mathlib.Tactic.Linarith

/-!
# Retrying when told to

A denial asks for the longest wait of the quotas that refuse. Where nothing is
counted in between, the retry is allowed exactly where every quota that refuses
is drained within the decay of one that refuses: the decay is that of the
estimate, while what has to drain is the counter of the window. A window that
counted no more requests than it has milliseconds always is.
-/

namespace Kynos.RateLimit

open Kynos.Numeral

namespace Quota

open Counters (allUp)

variable {quota : Quota} {counters : Counters} {partition : Text} {now instant later : Duration}

/-- `decayMs` past the end of the window `now` falls into. -/
def dueAfter (quota : Quota) (now : Duration) (decayMs : Nat) : Duration :=
  now + Duration.saturatingAdd (quota.window - quota.elapsed now) (Duration.fromMillis decayMs)

/-- `decayMs` lies within the decay, at an even rate over a window, of the
estimate to just below the ceiling. -/
def Decays (quota : Quota) (counters : Counters) (partition : Text) (now : Duration)
    (decayMs : Nat) : Prop :=
  decayMs ≤ u64Max ∧ decayMs * quota.counted counters partition now ≤ u128Max ∧
    decayMs * quota.counted counters partition now ≤
      quota.windowMs * (quota.counted counters partition now + 1 - quota.ceiling)

/-- The share of the current counter that the next window still carries at
`instant` is below the ceiling, or that window has passed. -/
def Drained (quota : Quota) (counters : Counters) (partition : Text) (now instant : Duration) :
    Prop :=
  let windowEnd := (quota.index now + 1) * quota.windowMs
  Duration.asMillis instant < windowEnd + quota.windowMs →
    min (counters (quota.currentKey partition now) *
        (quota.windowMs - min (Duration.asMillis instant - windowEnd) u64Max)) u128Max <
      quota.ceiling * quota.windowMs

/-- Nothing is counted for a window that has not begun. -/
def Unbegun (quota : Quota) (counters : Counters) (partition : Text) (now : Duration) : Prop :=
  ∀ index, quota.index now < index → counters (storeKey partition quota.name index) = 0

theorem dueAfter_mono (quota : Quota) (now : Duration) {decayMs decayMs' : Nat}
    (le : decayMs ≤ decayMs') : quota.dueAfter now decayMs ≤ quota.dueAfter now decayMs' :=
  Nat.add_le_add_left (saturatingAdd_mono le_rfl (Nat.mul_le_mul_right _ le)) _

theorem Drained.of_le (drained : quota.Drained counters partition now instant)
    (le : instant ≤ later) : quota.Drained counters partition now later := by
  intro before
  have passed := Duration.asMillis_mono le
  refine lt_of_le_of_lt (saturatingMul_mono le_rfl ?_) (drained (passed.trans_lt before))
  omega

/-- A counter whose share is low enough some milliseconds past its window is
drained from then on. -/
theorem drained_of_mul_lt {decayMs : Nat} (small : decayMs ≤ u64Max)
    (reached : (quota.index now + 1) * quota.windowMs + decayMs ≤ Duration.asMillis instant)
    (low : counters (quota.currentKey partition now) * (quota.windowMs - decayMs) <
      quota.ceiling * quota.windowMs) :
    quota.Drained counters partition now instant := by
  intro _
  have weight : quota.windowMs - min (Duration.asMillis instant -
      (quota.index now + 1) * quota.windowMs) u64Max ≤ quota.windowMs - decayMs := by
    have past : decayMs ≤ Duration.asMillis instant - (quota.index now + 1) * quota.windowMs :=
      Nat.le_sub_of_add_le' reached
    exact Nat.sub_le_sub_left (le_min past small) _
  exact ((min_le_left _ _).trans (Nat.mul_le_mul_left _ weight)).trans_lt low

/-! ## The wait -/

/-- The end of the window and the milliseconds waited past it are over when the
wait is. -/
theorem windowEnd_add_le_dueAfter (wide : 1000000 ≤ quota.window) (now : Duration)
    {decayMs past : Nat}
    (waited : quota.window - quota.elapsed now + past * 1000000 ≤
      Duration.saturatingAdd (quota.window - quota.elapsed now) (Duration.fromMillis decayMs)) :
    (quota.index now + 1) * quota.windowMs + past ≤
      Duration.asMillis (quota.dueAfter now decayMs) := by
  have windowEq : quota.windowMs = quota.window / 1000000 :=
    max_eq_left (Nat.div_pos wide (by decide))
  have split : quota.index now * quota.windowMs + Duration.asMillis now % quota.windowMs =
      now / 1000000 := by
    rw [Nat.mul_comm]
    exact Nat.div_add_mod _ _
  have elapsedLe : quota.elapsed now ≤ Duration.asMillis now % quota.windowMs * 1000000 :=
    Nat.mul_le_mul_right _ (min_le_left _ _)
  have reach : ∀ start window within elapsed wait instant past : Nat,
      start + within = instant / 1000000 → elapsed ≤ within * 1000000 →
        window - elapsed + past * 1000000 ≤ wait →
          (start + window / 1000000 + past) * 1000000 ≤ instant + wait := by
    intro start window within elapsed wait instant past
    omega
  rw [Duration.asMillis, Nat.le_div_iff_mul_le (by decide), dueAfter, Nat.succ_mul]
  nth_rewrite 2 [windowEq]
  exact reach _ _ _ _ _ _ _ split elapsedLe waited

theorem windowEnd_le_dueAfter (wide : 1000000 ≤ quota.window) (now : Duration) (decayMs : Nat) :
    (quota.index now + 1) * quota.windowMs ≤ Duration.asMillis (quota.dueAfter now decayMs) := by
  have fits : quota.window - quota.elapsed now + 0 * 1000000 ≤ Duration.max := by
    rw [Nat.zero_mul, Nat.add_zero]
    exact (Nat.sub_le _ _).trans quota.window_le
  exact windowEnd_add_le_dueAfter wide now
    (Duration.add_fromMillis_le_saturatingAdd (Nat.zero_le decayMs) fits)

/-- What a refusing quota asks to wait ends with the last whole millisecond of
its decay. -/
theorem exists_decay (wide : 1000000 ≤ quota.window) (positive : 1 ≤ quota.ceiling)
    (full : quota.ceiling ≤ quota.counted counters partition now) :
    ∃ last, now + quota.recovery counters partition now = quota.dueAfter now last ∧
      ∀ decayMs, quota.Decays counters partition now decayMs ↔ decayMs ≤ last := by
  have windowEq : quota.windowMs = Duration.asMillis quota.window :=
    max_eq_left (Nat.div_pos wide (by decide))
  generalize counted_eq : quota.counted counters partition now = counted at full
  have exceeds : ¬ counted ≤ quota.ceiling - 1 := by omega
  refine ⟨min (saturatingMul u128Max quota.windowMs (counted - (quota.ceiling - 1)) / counted)
    u64Max, ?_, ?_⟩
  · rw [recovery, counted_eq, recoversIn, if_neg exceeds, dueAfter, windowEq,
      max_eq_left (show 1 ≤ counted by omega)]
    rfl
  · intro decayMs
    have excess : counted + 1 - quota.ceiling = counted - (quota.ceiling - 1) := by omega
    rw [Decays, counted_eq, le_min_iff, Nat.le_div_iff_mul_le (by omega), saturatingMul, le_min_iff,
      excess]
    tauto

/-! ## The estimate at the retry -/

/-- A quota within its ceiling stays so while nothing is counted. -/
theorem counted_lt_of_le (unbegun : quota.Unbegun counters partition now)
    (room : quota.counted counters partition now < quota.ceiling) (le : now ≤ later) :
    quota.counted counters partition later < quota.ceiling := by
  rcases Nat.eq_or_lt_of_le (quota.index_mono le) with same | ahead
  · refine lt_of_le_of_lt ?_ room
    simp only [counted, currentKey, previousKey, same]
    exact estimate_antitone (elapsed_mono_of_index_eq le same.symm)
  · have empty := unbegun _ ahead
    have current := current_le_estimate (room.trans_le quota.ceiling_le)
    refine lt_of_le_of_lt ?_ room
    rcases Nat.eq_or_lt_of_le (Nat.le_sub_one_of_lt ahead) with next | past
    · simp only [counted, currentKey, previousKey, empty, ← next]
      exact estimate_le_add.trans ((Nat.zero_add _).trans_le current)
    · simp only [counted, currentKey, previousKey, empty, unbegun _ past]
      exact estimate_le_add.trans (Nat.zero_le _)

/-- Past its window a quota admits a request exactly where it is drained. -/
theorem counted_lt_iff_drained (wide : 1000000 ≤ quota.window) (positive : 1 ≤ quota.ceiling)
    (unbegun : quota.Unbegun counters partition now)
    (ended : (quota.index now + 1) * quota.windowMs ≤ Duration.asMillis instant) :
    quota.counted counters partition instant < quota.ceiling ↔
      quota.Drained counters partition now instant := by
  have windowPos := quota.windowMs_pos
  have ahead : quota.index now + 1 ≤ quota.index instant :=
    (Nat.le_div_iff_mul_le windowPos).mpr ended
  have empty := unbegun _ ahead
  have ceilingLe := quota.ceiling_le
  have windowEq : quota.windowMs = max (Duration.asMillis quota.window) 1 := rfl
  rcases Nat.eq_or_lt_of_le ahead with next | past
  · have before : Duration.asMillis instant < (quota.index now + 1) * quota.windowMs +
        quota.windowMs := by
      have within := Nat.lt_mul_div_succ (Duration.asMillis instant) windowPos
      rw [show Duration.asMillis instant / quota.windowMs = quota.index now + 1 from next.symm,
        Nat.mul_comm, Nat.add_mul (quota.index now + 1), Nat.one_mul] at within
      exact within
    have offset : Duration.asMillis instant % quota.windowMs =
        Duration.asMillis instant - (quota.index now + 1) * quota.windowMs := by
      have split := Nat.div_add_mod (Duration.asMillis instant) quota.windowMs
      rw [show Duration.asMillis instant / quota.windowMs = quota.index now + 1 from next.symm,
        Nat.mul_comm] at split
      omega
    have weight : min (Duration.asMillis (quota.elapsed instant)) quota.windowMs =
        min (Duration.asMillis instant - (quota.index now + 1) * quota.windowMs) u64Max := by
      rw [elapsed, Duration.asMillis_fromMillis, offset]
      omega
    rw [counted, currentKey, previousKey, ← next, Nat.add_sub_cancel, next, empty,
      estimate_eq_of_pos (Nat.lt_of_lt_of_le (by decide) wide), carried, ← windowEq, weight,
      saturatingMul, ← currentKey, Drained]
    simp only [before, true_implies]
    rw [← Nat.div_lt_iff_lt_mul windowPos]
    omega
  · have passed : ¬ Duration.asMillis instant <
        (quota.index now + 1) * quota.windowMs + quota.windowMs := by
      have reached := (Nat.le_div_iff_mul_le windowPos).mp (Nat.succ_le_of_lt past)
      rw [Nat.succ_mul] at reached
      exact Nat.not_lt.mpr reached
    have previousEmpty := unbegun (quota.index instant - 1) (by omega)
    have counted_eq : quota.counted counters partition instant = 0 := by
      rw [counted, currentKey, previousKey, empty, previousEmpty]
      exact Nat.le_zero.mp estimate_le_add
    simp only [counted_eq, Drained, passed, false_implies, iff_true]
    exact positive

/-- The floor of the decay loses less than the window has milliseconds, over a
counter of no more requests than those. -/
theorem mul_sub_decay_lt {counter counted ceiling window : Nat} (positive : 1 ≤ ceiling)
    (full : ceiling ≤ counted) (some : 0 < window) (counterLe : counter ≤ counted)
    (sparse : counter ≤ window) :
    counter * (window - window * (counted + 1 - ceiling) / counted) < ceiling * window := by
  obtain ⟨headroom, rfl⟩ := Nat.exists_eq_add_of_le' positive
  obtain ⟨excess, rfl⟩ := Nat.exists_eq_add_of_le full
  rw [show headroom + 1 + excess + 1 - (headroom + 1) = excess + 1 by omega]
  have floor := Nat.lt_mul_div_succ (window * (excess + 1)) (show 0 < headroom + 1 + excess by omega)
  generalize window * (excess + 1) / (headroom + 1 + excess) = decay at floor
  rcases Nat.le_total window decay with outlasts | under
  · rw [Nat.sub_eq_zero_of_le outlasts, Nat.mul_zero]
    positivity
  · obtain ⟨rest, rfl⟩ := Nat.exists_eq_add_of_le under
    rw [Nat.add_sub_cancel_left]
    by_contra most
    rw [Nat.not_lt] at most
    have scaled := Nat.mul_le_mul_left (headroom + 1 + excess) most
    have lost := Nat.mul_le_mul_left counter (Nat.succ_le_of_lt floor)
    have kept := Nat.mul_le_mul_right ((decay + rest) * headroom) counterLe
    have short := Nat.mul_le_mul_right (headroom + 1 + excess) sparse
    have counterPos : 0 < counter := by
      by_contra zero
      rw [Nat.eq_zero_of_not_pos zero, Nat.zero_mul] at most
      have : 0 < (headroom + 1) * (decay + rest) := Nat.mul_pos (Nat.succ_pos _) some
      omega
    nlinarith

/-- A window that counted no more requests than it has milliseconds is drained
within its own decay. -/
theorem exists_drained_of_current_le (wide : 1000000 ≤ quota.window) (positive : 1 ≤ quota.ceiling)
    (full : quota.ceiling ≤ quota.counted counters partition now)
    (short : quota.windowMs ≤ u64Max)
    (counter : counters (quota.currentKey partition now) ≤ u64Max)
    (sparse : counters (quota.currentKey partition now) ≤ quota.windowMs) :
    ∃ decayMs, quota.Decays counters partition now decayMs ∧
      quota.Drained counters partition now (quota.dueAfter now decayMs) := by
  have windowPos : 0 < quota.window := Nat.lt_of_lt_of_le (by decide) wide
  have windowEq : quota.windowMs = quota.window / 1000000 :=
    max_eq_left (Nat.div_pos wide (by decide))
  have countedLe : quota.counted counters partition now ≤ u64Max := by
    rw [counted, estimate_eq_of_pos windowPos]
    exact min_le_right _ _
  have counterLe : counters (quota.currentKey partition now) ≤
      quota.counted counters partition now := by
    rw [counted, estimate_eq_of_pos windowPos]
    exact le_min (Nat.le_add_right _ _) counter
  have core := mul_sub_decay_lt positive full quota.windowMs_pos counterLe sparse
  have decayLe : quota.windowMs * (quota.counted counters partition now + 1 - quota.ceiling) /
      quota.counted counters partition now ≤ quota.windowMs :=
    Nat.div_le_of_le_mul (by rw [Nat.mul_comm]; exact Nat.mul_le_mul_right _ (by omega))
  have decayMul := Nat.div_mul_le_self
    (quota.windowMs * (quota.counted counters partition now + 1 - quota.ceiling))
    (quota.counted counters partition now)
  generalize quota.windowMs * (quota.counted counters partition now + 1 - quota.ceiling) /
    quota.counted counters partition now = decayMs at core decayLe decayMul
  have small := decayLe.trans short
  refine ⟨decayMs, ⟨small, ?_, decayMul⟩, ?_⟩
  · calc decayMs * quota.counted counters partition now
        ≤ u64Max * u64Max := Nat.mul_le_mul small countedLe
      _ ≤ u128Max := by norm_num [u64Max, u128Max]
  · have fits : ∀ window elapsed decayMs : Nat, window / 1000000 ≤ u64Max → decayMs ≤ u64Max →
        window - elapsed + decayMs * 1000000 ≤ Duration.max := by
      intro window elapsed decayMs windowLe decayLe
      rw [u64Max] at windowLe decayLe
      rw [Duration.max_eq]
      omega
    have waited := Duration.add_fromMillis_le_saturatingAdd (le_refl decayMs)
      (fits quota.window (quota.elapsed now) decayMs (windowEq ▸ short) small)
    exact drained_of_mul_lt small (windowEnd_add_le_dueAfter wide now waited) core

end Quota

/-! ## The retry -/

namespace Quotas

open Counters (allUp)

variable {limiter : Quotas} {counters after : Counters} {partition : Text}
  {now retryAfter : Duration} {limits : List ServiceLimit}

/-- A denial asks for the longest of what its refusing quotas ask for. -/
theorem exists_recovery_of_deny
    (denied : (limiter.check (counters.read allUp) (some partition) now).1 =
      .deny retryAfter limits) :
    (∃ quota ∈ limiter.enforced, quota.ceiling ≤ quota.counted counters partition now ∧
      quota.recovery counters partition now = retryAfter) ∧
      ∀ quota ∈ limiter.enforced, quota.ceiling ≤ quota.counted counters partition now →
        quota.recovery counters partition now ≤ retryAfter := by
  by_cases clear : ∀ quota ∈ limiter.enforced,
      (limiter.decide (counters.read allUp) quota partition now).wait = none
  · rw [check_of_forall_wait_eq_none clear] at denied
    contradiction
  · simp only [not_forall] at clear
    obtain ⟨quota, member, waits⟩ := clear
    obtain ⟨wait, waits⟩ := Option.ne_none_iff_exists'.mp waits
    obtain ⟨longest, checked, attained, bound⟩ := check_of_wait_eq_some member waits
    rw [checked] at denied
    injection denied with longestEq _
    subst longestEq
    simp only [decide_read_wait_eq_some_iff] at attained bound
    exact ⟨attained, fun other otherMember full => bound other otherMember _ ⟨full, rfl⟩⟩

/-- When a denial's wait is over, so is the window of every quota that refused. -/
theorem windowEnd_le_retry (ceilings : ∀ quota ∈ limiter.enforced, 1 ≤ quota.ceiling)
    (windows : ∀ quota ∈ limiter.enforced, 1000000 ≤ quota.window)
    (denied : (limiter.check (counters.read allUp) (some partition) now).1 =
      .deny retryAfter limits)
    {quota : Quota} (member : quota ∈ limiter.enforced)
    (full : quota.ceiling ≤ quota.counted counters partition now) :
    (quota.index now + 1) * quota.windowMs ≤ Duration.asMillis (now + retryAfter) := by
  obtain ⟨_, bound⟩ := exists_recovery_of_deny denied
  obtain ⟨last, due, _⟩ := Quota.exists_decay (windows quota member) (ceilings quota member) full
  refine (Quota.windowEnd_le_dueAfter (windows quota member) now last).trans ?_
  rw [← due]
  exact Duration.asMillis_mono (Nat.add_le_add_left (bound quota member full) _)

/-- A retry every refusing quota is drained for is within every ceiling. -/
theorem counted_retry_lt (ceilings : ∀ quota ∈ limiter.enforced, 1 ≤ quota.ceiling)
    (windows : ∀ quota ∈ limiter.enforced, 1000000 ≤ quota.window)
    (unbegun : ∀ quota ∈ limiter.enforced, quota.Unbegun counters partition now)
    (denied : (limiter.check (counters.read allUp) (some partition) now).1 =
      .deny retryAfter limits)
    (drains : ∀ quota ∈ limiter.enforced, quota.ceiling ≤ quota.counted counters partition now →
      ∃ other ∈ limiter.enforced, other.ceiling ≤ other.counted counters partition now ∧
        ∃ decayMs, other.Decays counters partition now decayMs ∧
          quota.Drained counters partition now (other.dueAfter now decayMs))
    {quota : Quota} (member : quota ∈ limiter.enforced) :
    quota.counted counters partition (now + retryAfter) < quota.ceiling := by
  by_cases full : quota.ceiling ≤ quota.counted counters partition now
  · obtain ⟨_, bound⟩ := exists_recovery_of_deny denied
    obtain ⟨other, otherMember, otherFull, decayMs, decays, drained⟩ := drains quota member full
    obtain ⟨last, due, decaysIff⟩ := Quota.exists_decay (windows other otherMember)
      (ceilings other otherMember) otherFull
    refine (Quota.counted_lt_iff_drained (windows quota member) (ceilings quota member)
      (unbegun quota member) (windowEnd_le_retry ceilings windows denied member full)).mpr
      (drained.of_le ?_)
    refine (other.dueAfter_mono now ((decaysIff decayMs).mp decays)).trans ?_
    rw [← due]
    exact Nat.add_le_add_left (bound other otherMember otherFull) _
  · exact Quota.counted_lt_of_le (unbegun quota member) (Nat.lt_of_not_le full)
      (Nat.le_add_right _ _)

/-- The retry a denial asks for is allowed where no refusing quota counted more
requests in its window than the window has milliseconds. -/
theorem retry_allowed_of_current_le
    (ceilings : ∀ quota ∈ limiter.enforced, 1 ≤ quota.ceiling)
    (windows : ∀ quota ∈ limiter.enforced, 1000000 ≤ quota.window)
    (short : ∀ quota ∈ limiter.enforced, quota.windowMs ≤ u64Max)
    (unbegun : ∀ quota ∈ limiter.enforced, quota.Unbegun counters partition now)
    (denied : (limiter.check (counters.read allUp) (some partition) now).1 =
      .deny retryAfter limits)
    (sparse : ∀ quota ∈ limiter.enforced, quota.ceiling ≤ quota.counted counters partition now →
      counters (quota.currentKey partition now) ≤ quota.windowMs) :
    (limiter.check (counters.read allUp) (some partition) (now + retryAfter)).1.allows = true := by
  rw [check_read_allows_iff]
  refine fun quota member => counted_retry_lt ceilings windows unbegun denied ?_ member
  intro other otherMember full
  have counter := sparse other otherMember full
  exact ⟨other, otherMember, full, Quota.exists_drained_of_current_le (windows other otherMember)
    (ceilings other otherMember) full (short other otherMember)
    (counter.trans (short other otherMember)) counter⟩

/-- Where nothing is counted in between, the retry a denial asks for is allowed
exactly where every quota that refuses is drained some whole number of
milliseconds into the decay of a quota that refuses. -/
theorem retry_allowed_iff (limiter : Quotas) (counters after : Counters) (partition : Text)
    (now retryAfter : Duration) (limits : List ServiceLimit)
    (ceilings : ∀ quota ∈ limiter.enforced, 1 ≤ quota.ceiling)
    (windows : ∀ quota ∈ limiter.enforced, 1000000 ≤ quota.window)
    (unbegun : ∀ quota ∈ limiter.enforced, quota.Unbegun counters partition now)
    (denied : (limiter.check (counters.read allUp) (some partition) now).1 =
      .deny retryAfter limits)
    (uncounted : ∀ quota ∈ limiter.enforced, ∀ index,
      after (storeKey partition quota.name index) = counters (storeKey partition quota.name index)) :
    (limiter.check (after.read allUp) (some partition) (now + retryAfter)).1.allows = true ↔
      ∀ quota ∈ limiter.enforced, quota.ceiling ≤ quota.counted counters partition now →
        ∃ other ∈ limiter.enforced, other.ceiling ≤ other.counted counters partition now ∧
          ∃ decayMs, other.Decays counters partition now decayMs ∧
            quota.Drained counters partition now (other.dueAfter now decayMs) := by
  have same : ∀ quota ∈ limiter.enforced,
      quota.counted after partition (now + retryAfter) =
        quota.counted counters partition (now + retryAfter) := by
    intro quota member
    simp only [Quota.counted, Quota.currentKey, Quota.previousKey, uncounted quota member]
  rw [check_read_allows_iff]
  constructor
  · intro admits quota member full
    obtain ⟨⟨longest, longestMember, longestFull, longestEq⟩, _⟩ := exists_recovery_of_deny denied
    obtain ⟨last, due, decays⟩ := Quota.exists_decay (windows longest longestMember)
      (ceilings longest longestMember) longestFull
    refine ⟨longest, longestMember, longestFull, last, (decays last).mpr le_rfl, ?_⟩
    rw [← due, longestEq]
    exact (Quota.counted_lt_iff_drained (windows quota member) (ceilings quota member)
      (unbegun quota member) (windowEnd_le_retry ceilings windows denied member full)).mp
      (same quota member ▸ admits quota member)
  · intro drains quota member
    rw [same quota member]
    exact counted_retry_lt ceilings windows unbegun denied drains member

/-- A burst quota of five each second, spent at two seconds, asks for 1.2
seconds. -/
theorem retry_allowed_iff_five :
    let limiter : Quotas := ⟨[Quota.perSecond "burst".toList 5], .allow⟩
    let counters : Counters := fun key => if key = "peer:a|burst|2".toList then 5 else 0
    (limiter.check (counters.read allUp) (some "peer:a".toList) 3200000000).1.allows = true ↔
      ∀ quota ∈ limiter.enforced,
        quota.ceiling ≤ quota.counted counters "peer:a".toList 2000000000 →
          ∃ other ∈ limiter.enforced,
            other.ceiling ≤ other.counted counters "peer:a".toList 2000000000 ∧
              ∃ decayMs, other.Decays counters "peer:a".toList 2000000000 decayMs ∧
                quota.Drained counters "peer:a".toList 2000000000
                  (other.dueAfter 2000000000 decayMs) := by
  refine retry_allowed_iff _ _ _ _ 2000000000 1200000000 [⟨"burst".toList, 5, 0, 1200000000⟩]
    (by decide) (by decide) ?_ (by decide +kernel) fun _ _ _ => rfl
  intro quota member index begun
  obtain rfl := List.mem_singleton.mp member
  refine if_neg fun same => ?_
  have key : "peer:a|burst|2".toList = storeKey "peer:a".toList "burst".toList 2 := by decide
  rw [key] at same
  obtain rfl := (storeKey_inj.mp same).2
  exact absurd begun (by decide)

/-- A counter of five thousand over a window of a thousand milliseconds: the
decay of one request takes a fifth of a millisecond, and is floored to none. -/
theorem retry_denied_five_thousand :
    let limiter : Quotas := ⟨[Quota.perSecond "burst".toList 5000], .allow⟩
    let counters : Counters := fun key => if key = "peer:a|burst|2".toList then 5000 else 0
    (limiter.check (counters.read allUp) (some "peer:a".toList) 2000000000).1 =
        .deny 1000000000 [⟨"burst".toList, 5000, 0, 1000000000⟩] ∧
      (limiter.check (counters.read allUp) (some "peer:a".toList)
        (2000000000 + 1000000000)).1.allows = false := by
  decide +kernel

end Quotas

end Kynos.RateLimit
