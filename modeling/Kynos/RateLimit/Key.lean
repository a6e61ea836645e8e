import Kynos.RateLimit.Store
import Kynos.Word.Split

/-!
# Partitions and the keys of the store

A key joins the partition, the quota's name and the window's number with the
same bar, and a partition may hold any text. Two partitions keep apart exactly
where no quota's name ends in a bar and the name of another quota.
-/

namespace Kynos.RateLimit

open Kynos.Numeral Kynos.Word

/-! ## Keys -/

theorem bar_notMem_decimal (number : Nat) : '|' ∉ Text.decimal number := by
  intro member
  have digit := Nat.isDigit_of_mem_toDigits (by decide) (by decide) member
  exact absurd digit (by decide)

theorem decimal_injective : Function.Injective Text.decimal := by
  intro first second same
  have read := congrArg (fun digits => Nat.ofDigitChars 10 digits 0) same
  simpa only [Text.decimal, Nat.ofDigitChars_ten_toDigits] using read

/-- A key gives the number of its window back, and what stands before it. -/
theorem storeKey_eq_iff {first second name other : Text} {index position : Nat} :
    storeKey first name index = storeKey second other position ↔
      first ++ '|' :: name = second ++ '|' :: other ∧ index = position := by
  have cut : ∀ partition name : Text, ∀ index, storeKey partition name index =
      (partition ++ '|' :: name) ++ '|' :: Text.decimal index := by
    intro partition name index
    simp [storeKey]
  rw [cut, cut, append_cons_inj_of_notMem (bar_notMem_decimal _) (bar_notMem_decimal _),
    decimal_injective.eq_iff]

/-- Within a partition a key names its quota and its window. -/
theorem storeKey_inj {partition name other : Text} {index position : Nat} :
    storeKey partition name index = storeKey partition other position ↔
      name = other ∧ index = position := by
  rw [storeKey_eq_iff, List.append_cancel_left_eq, List.cons.injEq]
  simp

namespace Quota

/-- The keys a decision reads; the first of them is the one a check
increments. -/
def keys (quota : Quota) (partition : Text) (now : Duration) : List Text :=
  [quota.currentKey partition now, quota.previousKey partition now]

theorem exists_index_of_mem_keys {quota : Quota} {partition key : Text} {now : Duration}
    (member : key ∈ quota.keys partition now) :
    ∃ index, key = storeKey partition quota.name index := by
  rcases List.mem_pair.mp member with rfl | rfl
  · exact ⟨_, rfl⟩
  · exact ⟨_, rfl⟩

end Quota

namespace Quotas

/-- The keys a check reads or increments. -/
def keys (limiter : Quotas) (partition : Text) (now : Duration) : List Text :=
  limiter.enforced.flatMap fun quota => quota.keys partition now

variable {limiter : Quotas} {read read' : Text → Option Nat} {partition : Text} {now : Duration}

/-- A check reads no other key. -/
theorem check_congr (agree : ∀ key ∈ limiter.keys partition now, read key = read' key) :
    limiter.check read (some partition) now = limiter.check read' (some partition) now := by
  have outcomesEq : limiter.outcomes read partition now = limiter.outcomes read' partition now := by
    refine List.map_congr_left fun quota member => ?_
    have keyMem : ∀ key ∈ quota.keys partition now, key ∈ limiter.keys partition now :=
      fun key keyMember => List.mem_flatMap.mpr ⟨quota, member, keyMember⟩
    have current := agree _ (keyMem (quota.currentKey partition now) (by simp [Quota.keys]))
    have previous := agree _ (keyMem (quota.previousKey partition now) (by simp [Quota.keys]))
    simp only [decide, current, previous]
  simp only [check, outcomesEq]

theorem decide_spend {quota : Quota} {increment : Increment}
    (spends : (limiter.decide read quota partition now).spend quota = some increment) :
    increment.key = quota.currentKey partition now ∧ increment.amount = 1 := by
  simp only [decide] at spends
  split at spends
  · split at spends
    · contradiction
    · rw [Outcome.spend, Option.some.injEq] at spends
      subst spends
      exact ⟨rfl, rfl⟩
  · split at spends <;> contradiction

/-- A check increments no other key. -/
theorem increment_mem_keys {increment : Increment}
    (member : increment ∈ (limiter.check read (some partition) now).2) :
    increment.key ∈ limiter.keys partition now := by
  by_cases clear : ∀ quota ∈ limiter.enforced,
      (limiter.decide read quota partition now).wait = none
  · rw [check_of_forall_wait_eq_none clear] at member
    obtain ⟨quota, quotaMember, spends⟩ := List.mem_filterMap.mp member
    rw [(decide_spend spends).1]
    exact List.mem_flatMap.mpr ⟨quota, quotaMember, by simp [Quota.keys]⟩
  · simp only [not_forall] at clear
    obtain ⟨quota, quotaMember, waits⟩ := clear
    obtain ⟨wait, waits⟩ := Option.ne_none_iff_exists'.mp waits
    obtain ⟨retryAfter, denied, _⟩ := check_of_wait_eq_some quotaMember waits
    rw [denied] at member
    contradiction

/-- Requests of a partition leave every key that is not one of its own. -/
theorem run_apply_of_notMem_keys {requests : List Request} {down : Text → Bool} {key : Text}
    (own : ∀ request ∈ requests, request.partition = some partition)
    (foreign : ∀ now, key ∉ limiter.keys partition now) (counters : Counters) :
    limiter.run down counters requests key = counters key := by
  induction requests generalizing counters with
  | nil => rfl
  | cons request rest ih =>
      rw [run_cons, ih fun later member => own later (List.mem_cons_of_mem _ member)]
      refine Counters.foldl_add_of_forall_ne (fun increment member equal => ?_) counters
      rw [own request List.mem_cons_self] at member
      exact foreign request.time (equal ▸ increment_mem_keys member)

/-! ## Isolation -/

/-- No partition meets another in the store, and no quota another. -/
structure Isolated (limiter : Quotas) : Prop where
  disjoint : ∀ first second : Text, first ≠ second → ∀ now,
    ∀ key ∈ limiter.keys first now, key ∉ limiter.keys second now
  undisturbed : ∀ first second : Text, first ≠ second → ∀ down counters requests,
    (∀ request ∈ requests, request.partition = some second) → ∀ now,
      (limiter.serve down (limiter.run down counters requests) ⟨some first, now⟩).1 =
        (limiter.serve down counters ⟨some first, now⟩).1
  unshared : ∀ partition now, limiter.enforced.Pairwise fun quota other =>
    ∀ key ∈ quota.keys partition now, key ∉ other.keys partition now

/-- No quota's name ends in a bar and the name of a quota. -/
def Separated (limiter : Quotas) : Prop :=
  ∀ quota ∈ limiter.enforced, ∀ other ∈ limiter.enforced, ∀ start : Text,
    quota.name ≠ start ++ '|' :: other.name

theorem separated_of_bar_notMem (plain : ∀ quota ∈ limiter.enforced, '|' ∉ quota.name) :
    limiter.Separated := by
  intro quota member other _ start nameEq
  apply plain quota member
  simp [nameEq]

/-- Where the names are separated a key names its partition. -/
theorem partition_eq_of_storeKey_eq (separated : limiter.Separated) {quota other : Quota}
    (member : quota ∈ limiter.enforced) (otherMember : other ∈ limiter.enforced)
    {first second : Text} {index position : Nat}
    (same : storeKey first quota.name index = storeKey second other.name position) :
    first = second := by
  rcases append_cons_eq_append_cons (storeKey_eq_iff.mp same).1 with
    ⟨equal, _⟩ | ⟨start, _, nameEq⟩ | ⟨start, _, nameEq⟩
  · exact equal
  · exact absurd nameEq (separated quota member other otherMember start)
  · exact absurd nameEq (separated other otherMember quota member start)

theorem notMem_keys_of_separated (separated : limiter.Separated) {first second : Text}
    (different : first ≠ second) {now later : Duration} {key : Text}
    (member : key ∈ limiter.keys first now) : key ∉ limiter.keys second later := by
  intro otherMember
  obtain ⟨quota, quotaMember, keyMember⟩ := List.mem_flatMap.mp member
  obtain ⟨other, otherQuotaMember, otherKeyMember⟩ := List.mem_flatMap.mp otherMember
  obtain ⟨index, rfl⟩ := Quota.exists_index_of_mem_keys keyMember
  obtain ⟨position, same⟩ := Quota.exists_index_of_mem_keys otherKeyMember
  exact different (partition_eq_of_storeKey_eq separated quotaMember otherQuotaMember same)

theorem undisturbed_of_separated (separated : limiter.Separated) {first second : Text}
    (different : first ≠ second) {requests : List Request} (down : Text → Bool)
    (counters : Counters) (own : ∀ request ∈ requests, request.partition = some second)
    (now : Duration) :
    (limiter.serve down (limiter.run down counters requests) ⟨some first, now⟩).1 =
      (limiter.serve down counters ⟨some first, now⟩).1 := by
  have same : limiter.check ((limiter.run down counters requests).read down) (some first) now =
      limiter.check (counters.read down) (some first) now := by
    refine check_congr fun key member => ?_
    have kept : limiter.run down counters requests key = counters key :=
      run_apply_of_notMem_keys own
        (fun _ => notMem_keys_of_separated separated different member) counters
    simp only [Counters.read, kept]
  simp only [serve, same]

/-- Quotas of different names share no key of a partition. -/
theorem pairwise_unshared (distinct : (limiter.enforced.map Quota.name).Nodup)
    (partition : Text) (now : Duration) :
    limiter.enforced.Pairwise fun quota other =>
      ∀ key ∈ quota.keys partition now, key ∉ other.keys partition now := by
  rw [List.Nodup, List.pairwise_map] at distinct
  refine distinct.imp fun {quota other} different key member otherMember => ?_
  obtain ⟨index, rfl⟩ := Quota.exists_index_of_mem_keys member
  obtain ⟨position, same⟩ := Quota.exists_index_of_mem_keys otherMember
  exact different (storeKey_inj.mp same).1

/-- A quota whose name ends in a bar and another's name meets it, at the first
instant, in the partition that ends in the rest of the name. -/
theorem separated_of_disjoint
    (disjoint : ∀ first second : Text, first ≠ second → ∀ now,
      ∀ key ∈ limiter.keys first now, key ∉ limiter.keys second now) :
    limiter.Separated := by
  intro quota member other otherMember start nameEq
  have different : ([] : Text) ≠ '|' :: start := by simp
  refine disjoint _ _ different 0 (quota.currentKey [] 0)
    (List.mem_flatMap.mpr ⟨quota, member, by simp [Quota.keys]⟩)
    (List.mem_flatMap.mpr ⟨other, otherMember, ?_⟩)
  have same : quota.currentKey [] 0 = other.currentKey ('|' :: start) 0 := by
    rw [Quota.currentKey, Quota.currentKey, storeKey_eq_iff]
    constructor
    · simp [nameEq]
    · simp [Quota.index, Duration.asMillis]
  rw [same]
  exact List.mem_cons_self

/-- Under distinct names, partitions and quotas keep apart exactly where no
name ends in a bar and another name. -/
theorem isolated_iff (limiter : Quotas) (distinct : (limiter.enforced.map Quota.name).Nodup) :
    limiter.Isolated ↔ limiter.Separated := by
  constructor
  · intro isolated
    exact separated_of_disjoint isolated.disjoint
  · intro separated
    exact
      { disjoint := fun _ _ different _ _ member =>
          notMem_keys_of_separated separated different member
        undisturbed := fun _ _ different down counters _ own now =>
          undisturbed_of_separated separated different down counters own now
        unshared := pairwise_unshared distinct }

theorem isolated_iff_burst_daily :
    let limiter : Quotas :=
      ⟨[Quota.perSecond "burst".toList 10, Quota.perDay "daily".toList 10000], .allow⟩
    limiter.Isolated ↔ limiter.Separated :=
  isolated_iff _ (by decide)

/-- A request of the partition `a` spends the quota `c` of the partition `a|b`
where another quota is named `b|c`. -/
theorem not_isolated_bar :
    let limiter : Quotas :=
      ⟨[Quota.perSecond "c".toList 1, Quota.perSecond "b|c".toList 2], .allow⟩
    (limiter.enforced.map Quota.name).Nodup ∧ ¬ limiter.Isolated := by
  constructor
  · decide
  · intro isolated
    have same := isolated.undisturbed "a|b".toList "a".toList (by decide) (fun _ => false)
      (fun _ => 0) [⟨some "a".toList, 2000000000⟩] (by decide) 2000000000
    exact absurd (congrArg Decision.allows same) (by decide +kernel)

end Quotas

end Kynos.RateLimit
