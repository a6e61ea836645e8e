import Kynos.RateLimit.Estimate
import Kynos.RateLimit.Key
import Mathlib.Data.List.Forall2
import Mathlib.Data.List.Nodup

/-!
# A run of a limiter

Requests checked one after another against a store that counts exactly. What
one check does to the store, the invariant of the store under the ceilings of
the quotas, and the account every check keeps over a whole run.
-/

namespace Kynos.RateLimit

open Kynos.Numeral

namespace Quotas

open Counters (allUp)

variable {limiter : Quotas} {counters : Counters} {partition key : Text} {now later : Duration}

/-! ## One request -/

/-- The keys an allowed check increments. -/
def currentKeys (limiter : Quotas) (partition : Text) (now : Duration) : List Text :=
  limiter.enforced.map fun quota => quota.currentKey partition now

theorem nodup_currentKeys (distinct : (limiter.enforced.map Quota.name).Nodup) (partition : Text)
    (now : Duration) : (limiter.currentKeys partition now).Nodup := by
  rw [List.Nodup, List.pairwise_map] at distinct
  rw [currentKeys, List.Nodup, List.pairwise_map]
  exact distinct.imp fun different same => different (storeKey_inj.mp same).1

/-- A request whose key exempts it leaves the store as it is. -/
theorem serve_exempt : (limiter.serve allUp counters ⟨none, now⟩).2 = counters := rfl

/-- A denied request leaves the store as it is. -/
theorem serve_denied {request : Request}
    (denied : (limiter.serve allUp counters request).1.allows = false) :
    (limiter.serve allUp counters request).2 = counters := by
  obtain ⟨partition, now⟩ := request
  cases partition with
  | none => rfl
  | some partition =>
      by_cases clear : ∀ quota ∈ limiter.enforced,
          (limiter.decide (counters.read allUp) quota partition now).wait = none
      · have allows := check_allows_iff.mpr clear
        rw [serve, allows] at denied
        contradiction
      · simp only [not_forall] at clear
        obtain ⟨quota, member, waits⟩ := clear
        obtain ⟨wait, waits⟩ := Option.ne_none_iff_exists'.mp waits
        obtain ⟨retryAfter, checked, _⟩ := check_of_wait_eq_some member waits
        simp only [serve, checked, List.foldl_nil]

/-- An allowed request raises the current window of every quota by one, and
nothing else. -/
theorem serve_allowed_apply (distinct : (limiter.enforced.map Quota.name).Nodup)
    (allows : (limiter.serve allUp counters ⟨some partition, now⟩).1.allows = true) (key : Text) :
    (limiter.serve allUp counters ⟨some partition, now⟩).2 key =
      counters key + if key ∈ limiter.currentKeys partition now then 1 else 0 := by
  have below := check_read_allows_iff.mp allows
  have clear := check_allows_iff.mp allows
  have spent : (limiter.check (counters.read allUp) (some partition) now).2 =
      limiter.enforced.map fun quota =>
        ⟨quota.currentKey partition now, 1, Duration.saturatingMul quota.window 2⟩ := by
    have each : ∀ quota ∈ limiter.enforced,
        (limiter.decide (counters.read allUp) quota partition now).spend quota =
          some ⟨quota.currentKey partition now, 1, Duration.saturatingMul quota.window 2⟩ := by
      intro quota member
      rw [decide_read, if_neg (Nat.not_le.mpr (below quota member))]
      rfl
    rw [check_of_forall_wait_eq_none clear, List.filterMap_congr each, List.filterMap_eq_map']
  have keys : (limiter.check (counters.read allUp) (some partition) now).2.map Increment.key =
      limiter.currentKeys partition now := by
    rw [spent, List.map_map]
    rfl
  simp only [serve]
  by_cases member : key ∈ limiter.currentKeys partition now
  · rw [if_pos member]
    rw [← keys] at member
    obtain ⟨increment, incrementMember, rfl⟩ := List.mem_map.mp member
    rw [Counters.foldl_add_of_mem (keys ▸ nodup_currentKeys distinct partition now) incrementMember]
    rw [spent] at incrementMember
    obtain ⟨quota, _, rfl⟩ := List.mem_map.mp incrementMember
    rfl
  · rw [if_neg member, Nat.add_zero]
    rw [← keys] at member
    exact Counters.foldl_add_of_forall_ne
      (fun increment incrementMember same => member (List.mem_map.mpr ⟨_, incrementMember, same⟩))
      counters

/-! ## The invariant -/

/-- No two of the partitions in use meet in a key. -/
def Apart (limiter : Quotas) (inUse : Set Text) : Prop :=
  ∀ partition ∈ inUse, ∀ other ∈ inUse, ∀ quota ∈ limiter.enforced, ∀ peer ∈ limiter.enforced,
    partition ++ '|' :: quota.name = other ++ '|' :: peer.name → partition = other

/-- Names that are separated keep all partitions apart. -/
theorem apart_of_separated (separated : limiter.Separated) (inUse : Set Text) :
    limiter.Apart inUse := by
  intro partition _ other _ quota member peer peerMember same
  exact partition_eq_of_storeKey_eq separated member peerMember
    (storeKey_eq_iff.mpr ⟨same, (rfl : 0 = 0)⟩)

/-- The counters of the partitions in use keep under the ceilings, nothing is
counted for a window not begun, and no estimate is past its ceiling once the
first window has passed. -/
structure Kept (limiter : Quotas) (inUse : Set Text) (counters : Counters) (now : Duration) :
    Prop where
  bounded : ∀ partition ∈ inUse, ∀ quota ∈ limiter.enforced, ∀ index,
    counters (storeKey partition quota.name index) ≤ quota.ceiling
  unbegun : ∀ partition ∈ inUse, ∀ quota ∈ limiter.enforced, ∀ index, quota.index now < index →
    counters (storeKey partition quota.name index) = 0
  within : ∀ partition ∈ inUse, ∀ quota ∈ limiter.enforced, 0 < quota.index now →
    quota.counted counters partition now ≤ quota.ceiling

variable {inUse : Set Text}

theorem kept_empty : limiter.Kept inUse (fun _ => 0) 0 where
  bounded _ _ _ _ _ := Nat.zero_le _
  unbegun _ _ _ _ _ _ := rfl
  within _ _ quota _ positive := by
    simp [Quota.index, Duration.asMillis] at positive

/-- The invariant outlives time: within a window the estimate falls, and at
the next one it starts from a counter that is under its ceiling. -/
theorem Kept.of_le (kept : limiter.Kept inUse counters now) (le : now ≤ later) :
    limiter.Kept inUse counters later where
  bounded := kept.bounded
  unbegun partition used quota member index begun :=
    kept.unbegun partition used quota member index
      (Nat.lt_of_le_of_lt (quota.index_mono le) begun)
  within partition used quota member positive := by
    rcases Nat.eq_or_lt_of_le (quota.index_mono le) with same | ahead
    · have before := kept.within partition used quota member (same ▸ positive)
      refine le_trans ?_ before
      simp only [Quota.counted, Quota.currentKey, Quota.previousKey, same]
      exact estimate_antitone (Quota.elapsed_mono_of_index_eq le same.symm)
    · have empty := kept.unbegun partition used quota member _ ahead
      have full := kept.bounded partition used quota member (quota.index later - 1)
      simp only [Quota.counted, Quota.currentKey, Quota.previousKey, empty]
      exact estimate_le_add.trans (by omega)

/-- Which of the counters in use a check of `partition` increments. -/
theorem mem_currentKeys_iff (distinct : (limiter.enforced.map Quota.name).Nodup)
    (apart : limiter.Apart inUse) (used : partition ∈ inUse) {other : Text}
    (otherUsed : other ∈ inUse) {quota : Quota} (member : quota ∈ limiter.enforced) {index : Nat} :
    storeKey other quota.name index ∈ limiter.currentKeys partition now ↔
      other = partition ∧ index = quota.index now := by
  simp only [currentKeys, List.mem_map, Quota.currentKey]
  constructor
  · rintro ⟨peer, peerMember, same⟩
    obtain ⟨joined, rfl⟩ := storeKey_eq_iff.mp same
    obtain rfl := apart partition used other otherUsed peer peerMember quota member joined
    obtain rfl := List.inj_on_of_nodup_map distinct peerMember member (storeKey_inj.mp same).1
    exact ⟨rfl, rfl⟩
  · rintro ⟨rfl, rfl⟩
    exact ⟨quota, member, rfl⟩

/-- A served request of a partition in use keeps the invariant. -/
theorem Kept.serve_allowed (kept : limiter.Kept inUse counters now)
    (distinct : (limiter.enforced.map Quota.name).Nodup) (apart : limiter.Apart inUse)
    (used : partition ∈ inUse)
    (allows : (limiter.serve allUp counters ⟨some partition, now⟩).1.allows = true) :
    limiter.Kept inUse (limiter.serve allUp counters ⟨some partition, now⟩).2 now := by
  have below := check_read_allows_iff.mp allows
  have raised : ∀ other ∈ inUse, ∀ quota ∈ limiter.enforced, ∀ index,
      (limiter.serve allUp counters ⟨some partition, now⟩).2 (storeKey other quota.name index) =
        counters (storeKey other quota.name index) +
          if other = partition ∧ index = quota.index now then 1 else 0 := by
    intro other otherUsed quota member index
    rw [serve_allowed_apply distinct allows]
    simp only [mem_currentKeys_iff distinct apart used otherUsed member]
  generalize (limiter.serve allUp counters ⟨some partition, now⟩).2 = after at raised
  constructor
  · intro other otherUsed quota member index
    rw [raised other otherUsed quota member]
    split
    · rename_i current
      obtain ⟨rfl, rfl⟩ := current
      have room := below quota member
      have counted := current_le_estimate (room.trans_le quota.ceiling_le)
      exact Nat.succ_le_of_lt (counted.trans_lt room)
    · exact kept.bounded other otherUsed quota member index
  · intro other otherUsed quota member index begun
    rw [raised other otherUsed quota member, kept.unbegun other otherUsed quota member index begun,
      if_neg fun current => begun.ne' current.2]
  · intro other otherUsed quota member positive
    have previous := raised other otherUsed quota member (quota.index now - 1)
    rw [if_neg fun current => by omega, Nat.add_zero] at previous
    simp only [Quota.counted, Quota.currentKey, Quota.previousKey, previous,
      raised other otherUsed quota member (quota.index now)]
    split
    · rename_i current
      obtain ⟨rfl, _⟩ := current
      exact estimate_succ_le.trans (below quota member)
    · exact kept.within other otherUsed quota member positive

/-- Every request of a partition in use keeps the invariant. -/
theorem Kept.serve (distinct : (limiter.enforced.map Quota.name).Nodup)
    (apart : limiter.Apart inUse) {request : Request}
    (kept : limiter.Kept inUse counters request.time)
    (used : ∀ partition, request.partition = some partition → partition ∈ inUse) :
    limiter.Kept inUse (limiter.serve allUp counters request).2 request.time := by
  cases allows : (limiter.serve allUp counters request).1.allows with
  | false =>
      rw [serve_denied allows]
      exact kept
  | true =>
      obtain ⟨partition, now⟩ := request
      cases partition with
      | none => exact kept
      | some partition => exact kept.serve_allowed distinct apart (used partition rfl) allows

/-- A run of requests in time order keeps the invariant. -/
theorem Kept.run (distinct : (limiter.enforced.map Quota.name).Nodup)
    (apart : limiter.Apart inUse) {requests : List Request}
    (kept : limiter.Kept inUse counters now)
    (used : ∀ request ∈ requests, ∀ partition, request.partition = some partition →
      partition ∈ inUse)
    (notBefore : ∀ request ∈ requests, now ≤ request.time)
    (notAfter : ∀ request ∈ requests, request.time ≤ later) (le : now ≤ later)
    (ordered : requests.Pairwise fun first second => first.time ≤ second.time) :
    limiter.Kept inUse (limiter.run allUp counters requests) later := by
  induction requests generalizing counters now with
  | nil => exact kept.of_le le
  | cons request rest ih =>
      obtain ⟨first, ordered⟩ := List.pairwise_cons.mp ordered
      have step := Kept.serve distinct apart
        (kept.of_le (notBefore request List.mem_cons_self)) (used request List.mem_cons_self)
      exact ih step (fun other member => used other (List.mem_cons_of_mem _ member)) first
        (fun other member => notAfter other (List.mem_cons_of_mem _ member))
        (notAfter request List.mem_cons_self) ordered

/-! ## The account of a run -/

/-- A quota still in its first window, whose counter the estimate takes twice,
is not past its ceiling. -/
def FirstWindowFits (limiter : Quotas) (counters : Counters) (request : Request) : Prop :=
  ∀ partition, request.partition = some partition → ∀ quota ∈ limiter.enforced,
    quota.index request.time = 0 →
      quota.counted counters partition request.time ≤ quota.ceiling

/-- The limit reported for a quota accounts for its ceiling: what is left, what
the estimate counts, and the request itself if it was served. -/
def Balanced (counters : Counters) (partition : Text) (now : Duration) (served : Bool)
    (quota : Quota) (limit : ServiceLimit) : Prop :=
  limit.name = quota.name ∧ limit.quota = quota.ceiling ∧
    limit.remaining + (quota.counted counters partition now + served.toNat) = limit.quota

/-- What one request does to the store and reports of it. -/
structure Accounts (limiter : Quotas) (inUse : Set Text) (counters : Counters)
    (request : Request) : Prop where
  bounded : ∀ partition ∈ inUse, ∀ quota ∈ limiter.enforced, ∀ index,
    (limiter.serve allUp counters request).2 (storeKey partition quota.name index) ≤ quota.ceiling
  denied : (limiter.serve allUp counters request).1.allows = false →
    (limiter.serve allUp counters request).2 = counters
  allowed : ∀ partition, request.partition = some partition →
    (limiter.serve allUp counters request).1.allows = true → ∀ key,
      (limiter.serve allUp counters request).2 key =
        counters key + if key ∈ limiter.currentKeys partition request.time then 1 else 0
  exempt : request.partition = none → (limiter.serve allUp counters request).2 = counters
  reported : ∀ partition, request.partition = some partition →
    List.Forall₂ (Balanced counters partition request.time
        (limiter.serve allUp counters request).1.allows)
      limiter.enforced (limiter.serve allUp counters request).1.limits

/-- The partitions requests count against. -/
def partitions (requests : List Request) : Set Text :=
  fun partition => ∃ request ∈ requests, request.partition = some partition

/-- Every request of a run, from an empty store, keeps its account. -/
def Accounted (limiter : Quotas) (requests : List Request) : Prop :=
  ∀ before request after, requests = before ++ request :: after →
    limiter.Accounts (partitions requests) (limiter.run allUp (fun _ => 0) before) request

/-- The limits of a request whose estimates are within the ceilings. -/
theorem reported_of_counted_le
    (fits : ∀ quota ∈ limiter.enforced, quota.counted counters partition now ≤ quota.ceiling) :
    List.Forall₂ (Balanced counters partition now
        (limiter.serve allUp counters ⟨some partition, now⟩).1.allows)
      limiter.enforced (limiter.serve allUp counters ⟨some partition, now⟩).1.limits := by
  by_cases clear : ∀ quota ∈ limiter.enforced,
      (limiter.decide (counters.read allUp) quota partition now).wait = none
  · simp only [serve, check_of_forall_wait_eq_none clear, Decision.limits, Decision.allows,
      List.forall₂_map_right_iff, List.forall₂_same]
    intro quota member
    have below := decide_read_wait_eq_none_iff.mp (clear quota member)
    rw [decide_read, if_neg (Nat.not_le.mpr below)]
    refine ⟨rfl, rfl, ?_⟩
    simp only [Outcome.report, Bool.toNat_true]
    omega
  · simp only [not_forall] at clear
    obtain ⟨quota, member, waits⟩ := clear
    obtain ⟨wait, waits⟩ := Option.ne_none_iff_exists'.mp waits
    obtain ⟨retryAfter, checked, _⟩ := check_of_wait_eq_some member waits
    simp only [serve, checked, Decision.limits, Decision.allows, List.forall₂_map_right_iff,
      List.forall₂_same]
    intro quota member
    have within := fits quota member
    rw [decide_read]
    split
    · rename_i full
      refine ⟨rfl, rfl, ?_⟩
      simp only [Outcome.report, Bool.toNat_false]
      omega
    · refine ⟨rfl, rfl, ?_⟩
      simp only [Outcome.report, Bool.toNat_false]
      omega

/-- Under the invariant one request keeps its account. -/
theorem Kept.accounts (distinct : (limiter.enforced.map Quota.name).Nodup)
    (apart : limiter.Apart inUse) {request : Request}
    (kept : limiter.Kept inUse counters request.time)
    (used : ∀ partition, request.partition = some partition → partition ∈ inUse)
    (fits : limiter.FirstWindowFits counters request) :
    limiter.Accounts inUse counters request where
  bounded := (kept.serve distinct apart used).bounded
  denied := serve_denied
  allowed := by
    obtain ⟨_, now⟩ := request
    rintro partition rfl allows key
    exact serve_allowed_apply distinct allows key
  exempt := by
    obtain ⟨_, now⟩ := request
    rintro rfl
    exact serve_exempt
  reported := by
    obtain ⟨_, now⟩ := request
    rintro partition rfl
    refine reported_of_counted_le fun quota member => ?_
    rcases Nat.eq_zero_or_pos (quota.index now) with first | positive
    · exact fits partition rfl quota member first
    · exact kept.within partition (used partition rfl) quota member positive

/-- Requests in time order, whose partitions meet in no key and none of whose
first windows is past its ceiling, keep their account from an empty store on. -/
theorem accounted_of_apart (limiter : Quotas) (requests : List Request)
    (distinct : (limiter.enforced.map Quota.name).Nodup)
    (ordered : requests.Pairwise fun first second => first.time ≤ second.time)
    (apart : limiter.Apart (partitions requests))
    (fits : ∀ before request after, requests = before ++ request :: after →
      limiter.FirstWindowFits (limiter.run allUp (fun _ => 0) before) request) :
    limiter.Accounted requests := by
  intro before request after split
  have used : ∀ other ∈ requests, ∀ partition, other.partition = some partition →
      partition ∈ partitions requests :=
    fun other member partition named => ⟨other, member, named⟩
  have earlier : ∀ other ∈ before, other ∈ requests := fun other member => by simp [split, member]
  have requestMember : request ∈ requests := by simp [split]
  have orderedSplit := split ▸ ordered
  rw [List.pairwise_append] at orderedSplit
  obtain ⟨orderedBefore, _, across⟩ := orderedSplit
  have kept : limiter.Kept (partitions requests) (limiter.run allUp (fun _ => 0) before)
      request.time :=
    kept_empty.run distinct apart (fun other member => used other (earlier other member))
      (fun _ _ => Nat.zero_le _)
      (fun other member => across other member request List.mem_cons_self) (Nat.zero_le _)
      orderedBefore
  exact kept.accounts distinct apart (used request requestMember)
    (fits before request after split)

theorem accounted_burst_daily :
    let limiter : Quotas :=
      ⟨[Quota.perSecond "burst".toList 10, Quota.perDay "daily".toList 10000], .allow⟩
    limiter.Accounted
      [⟨some "peer:a".toList, 90000000000000⟩, ⟨some "peer:b".toList, 90000000000001⟩] := by
  refine accounted_of_apart _ _ (by decide) (by decide)
    (apart_of_separated (separated_of_bar_notMem (by decide)) _) ?_
  intro before request after split partition named quota member first
  have requestMember : request ∈ before ++ request :: after := by simp
  rw [← split] at requestMember
  have begun : ∀ other ∈ ([⟨some "peer:a".toList, 90000000000000⟩,
      ⟨some "peer:b".toList, 90000000000001⟩] : List Request),
      ∀ quota ∈ ([Quota.perSecond "burst".toList 10,
        Quota.perDay "daily".toList 10000] : List Quota),
      quota.index other.time ≠ 0 := by decide
  exact absurd first (begun request requestMember quota member)

/-- A request of the partition `a|b` and one of the partition `a` count into
one counter of the quota `c`, past its ceiling, where another quota is named
`b|c`. -/
theorem not_accounted_bar :
    let limiter : Quotas :=
      ⟨[Quota.perSecond "c".toList 1, Quota.perSecond "b|c".toList 2], .allow⟩
    let requests : List Request :=
      [⟨some "a|b".toList, 2000000000⟩, ⟨some "a".toList, 2100000000⟩]
    (limiter.enforced.map Quota.name).Nodup ∧
      (requests.Pairwise fun first second => first.time ≤ second.time) ∧
      ¬ limiter.Accounted requests := by
  refine ⟨by decide, by decide, fun accounted => ?_⟩
  have account := accounted [⟨some "a|b".toList, 2000000000⟩] ⟨some "a".toList, 2100000000⟩ [] rfl
  have bounded := account.bounded "a|b".toList ⟨_, List.mem_cons_self, rfl⟩
    (Quota.perSecond "c".toList 1) (by decide) 2
  exact absurd bounded (by decide +kernel)

end Quotas

end Kynos.RateLimit
