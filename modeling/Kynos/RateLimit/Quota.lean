import Kynos.Numeral.Unsigned
import Kynos.Text.Str

/-!
# Named quotas over a store

`middleware/rate_limit/quota.rs`: a request is decided against every quota by a
sliding-window estimate over two counters of the store, and spends one from each
quota only where none refuses it. The store is read through a function, whose
`none` is a store that could not answer; what a check adds to the store is
returned.
-/

namespace Kynos.RateLimit

open Kynos.Numeral

/-! ## Quotas -/

/-- `Quota`. -/
structure Quota where
  name : Text
  limit : Nat
  window : Duration
  burst : Nat
  window_le : window ≤ Duration.max := by decide
  deriving DecidableEq, Repr

namespace Quota

/-- `Quota::per_second`. -/
def perSecond (name : Text) (limit : Nat) : Quota where
  name := name
  limit := limit
  window := 1000000000
  burst := 0

/-- `Quota::per_day`. -/
def perDay (name : Text) (limit : Nat) : Quota where
  name := name
  limit := limit
  window := 86400000000000
  burst := 0

/-- `Quota::ceiling`: the number a response reports, burst included. -/
def ceiling (quota : Quota) : Nat :=
  saturatingAdd u64Max quota.limit quota.burst

/-- The window in whole milliseconds, at least one. -/
def windowMs (quota : Quota) : Nat :=
  max (Duration.asMillis quota.window) 1

/-- The number of the window `now` falls into. -/
def index (quota : Quota) (now : Duration) : Nat :=
  Duration.asMillis now / quota.windowMs

/-- How far into its window `now` is. -/
def elapsed (quota : Quota) (now : Duration) : Duration :=
  Duration.fromMillis (min (Duration.asMillis now % quota.windowMs) u64Max)

theorem windowMs_pos (quota : Quota) : 0 < quota.windowMs :=
  Nat.lt_of_lt_of_le Nat.zero_lt_one (le_max_right _ _)

theorem ceiling_le (quota : Quota) : quota.ceiling ≤ u64Max :=
  saturatingAdd_le _ _ _

theorem index_mono (quota : Quota) {now later : Duration} (le : now ≤ later) :
    quota.index now ≤ quota.index later :=
  Nat.div_le_div_right (Duration.asMillis_mono le)

end Quota

/-- `estimate`: `current + previous × (window − elapsed) / window`, saturating. -/
def estimate (previous current : Nat) (elapsed window : Duration) : Nat :=
  if window = 0 then
    current
  else
    let windowMs := max (Duration.asMillis window) 1
    let elapsedMs := min (Duration.asMillis elapsed) windowMs
    let weight := windowMs - elapsedMs
    let carried := saturatingMul u128Max previous weight / windowMs
    saturatingAdd u64Max current (min carried u64Max)

/-- `recovers_in`: the current window's remainder, and as much of the next one
as the weight takes to decay to `headroom`. -/
def recoversIn (current headroom : Nat) (elapsed window : Duration) : Duration :=
  let remainingWindow := Duration.saturatingSub window elapsed
  if current ≤ headroom then
    remainingWindow
  else
    let excess := current - headroom
    let windowMs := Duration.asMillis window
    let decayMs := saturatingMul u128Max windowMs excess / max current 1
    let decay := Duration.fromMillis (min decayMs u64Max)
    Duration.saturatingAdd remainingWindow decay

/-! ## What a check reports -/

/-- `StoreFailure`: what a limiter does when its store cannot answer. -/
inductive StoreFailure where
  | allow
  | deny
  deriving DecidableEq, Repr

/-- `ServiceLimit`. -/
structure ServiceLimit where
  name : Text
  quota : Nat
  remaining : Nat
  reset : Duration
  deriving DecidableEq, Repr

/-- `Decision`, with the limits of its `Allowance` or `Denial`. -/
inductive Decision where
  | allow (limits : List ServiceLimit)
  | deny (retryAfter : Duration) (limits : List ServiceLimit)
  deriving DecidableEq, Repr

namespace Decision

/-- Every limit consulted. -/
def limits : Decision → List ServiceLimit
  | allow limits => limits
  | deny _ limits => limits

/-- The request may continue. -/
def allows : Decision → Bool
  | allow _ => true
  | deny _ _ => false

end Decision

/-- One call of `RateLimitStore::increment`. -/
structure Increment where
  key : Text
  amount : Nat
  ttl : Duration
  deriving DecidableEq, Repr

/-- `Outcome`: what one quota decided, before anything is spent. -/
inductive Outcome where
  | unread (elapsed : Duration)
  | unreachable (wait : Duration)
  | refused (wait : Duration)
  | within (counted : Nat) (elapsed : Duration) (currentKey : Text)
  deriving DecidableEq, Repr

namespace Outcome

/-- How long a denying outcome asks to wait. -/
def wait : Outcome → Option Duration
  | refused wait | unreachable wait => some wait
  | unread _ | within _ _ _ => none

/-- What the outcome makes of the longest wait so far. -/
def longest (denial : Option Duration) (outcome : Outcome) : Option Duration :=
  match outcome.wait with
  | some wait => some (denial.elim wait fun existing => max existing wait)
  | none => denial

/-- The limit the outcome reports, for a request that spends or does not. -/
def report (spends : Bool) (quota : Quota) : Outcome → ServiceLimit
  | unread elapsed =>
      ⟨quota.name, quota.ceiling, quota.ceiling, Duration.saturatingSub quota.window elapsed⟩
  | refused wait | unreachable wait => ⟨quota.name, quota.ceiling, 0, wait⟩
  | within counted elapsed _ =>
      ⟨quota.name, quota.ceiling, quota.ceiling - counted - spends.toNat,
        Duration.saturatingSub quota.window elapsed⟩

/-- The increment of a request that spends. -/
def spend (quota : Quota) : Outcome → Option Increment
  | within _ _ currentKey => some ⟨currentKey, 1, Duration.saturatingMul quota.window 2⟩
  | unread _ | unreachable _ | refused _ => none

end Outcome

/-! ## The limiter -/

/-- The key of one window's counter. -/
def storeKey (partition name : Text) (index : Nat) : Text :=
  partition ++ '|' :: (name ++ '|' :: Text.decimal index)

/-- `Quotas`, less its key and its store. -/
structure Quotas where
  enforced : List Quota
  onStoreFailure : StoreFailure
  deriving DecidableEq, Repr

namespace Quota

/-- The key of the window `now` falls into. -/
def currentKey (quota : Quota) (partition : Text) (now : Duration) : Text :=
  storeKey partition quota.name (quota.index now)

/-- The key of the window before it; the first window is its own predecessor. -/
def previousKey (quota : Quota) (partition : Text) (now : Duration) : Text :=
  storeKey partition quota.name (quota.index now - 1)

end Quota

namespace Quotas

/-- `Quotas::decide`: what `quota` decides for `partition` at `now`, spending
nothing. -/
def decide (limiter : Quotas) (read : Text → Option Nat) (quota : Quota) (partition : Text)
    (now : Duration) : Outcome :=
  let elapsed := quota.elapsed now
  match read (quota.currentKey partition now), read (quota.previousKey partition now) with
  | some current, some previous =>
      let counted := estimate previous current elapsed quota.window
      if quota.ceiling ≤ counted then
        .refused (recoversIn counted (quota.ceiling - 1) elapsed quota.window)
      else
        .within counted elapsed (quota.currentKey partition now)
  | _, _ =>
      match limiter.onStoreFailure with
      | .allow => .unread elapsed
      | .deny => .unreachable (Duration.saturatingSub quota.window elapsed)

/-- What every quota decides. -/
def outcomes (limiter : Quotas) (read : Text → Option Nat) (partition : Text) (now : Duration) :
    List Outcome :=
  limiter.enforced.map fun quota => limiter.decide read quota partition now

/-- `Quotas::check` for the partition its key names, and what it adds to the
store. A request its key exempts touches no counter. -/
def check (limiter : Quotas) (read : Text → Option Nat) (partition : Option Text)
    (now : Duration) : Decision × List Increment :=
  match partition with
  | none =>
      (.allow (limiter.enforced.map fun quota =>
        ⟨quota.name, quota.ceiling, quota.ceiling, quota.window⟩), [])
  | some partition =>
      let outcomes := limiter.outcomes read partition now
      match outcomes.foldl Outcome.longest none with
      | some retryAfter =>
          (.deny retryAfter (List.zipWith (Outcome.report false) limiter.enforced outcomes), [])
      | none =>
          (.allow (List.zipWith (Outcome.report true) limiter.enforced outcomes),
            (List.zipWith Outcome.spend limiter.enforced outcomes).filterMap id)

end Quotas

end Kynos.RateLimit
