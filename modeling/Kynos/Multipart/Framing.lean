import Kynos.Http.Field
import Kynos.Numeral.Unsigned
import Mathlib.Algebra.Ring.Nat
import Mathlib.Data.List.Infix
import Mathlib.Data.List.Nodup
import Mathlib.Data.List.Perm.Subperm
import Mathlib.Tactic.Push

/-!
# Multipart framing

`response/framing.rs`: a delimiter that no part's content contains, found by
raising a counter, and the body that encapsulates every part behind it.
-/

namespace Kynos.Multipart

open Kynos.Http Kynos.Numeral

/-! ## The delimiter -/

/-- `BOUNDARY_PREFIX`. -/
def boundaryPrefix : Octets := Text.toOctets "kynos-boundary-".toList

/-- `CRLF`. -/
def crlf : Octets := [13, 10]

/-- `COUNTER_DIGITS`. -/
def counterDigits : Nat := 16

/-- One hexadecimal digit. -/
def hexDigit (nibble : Nat) : UInt8 :=
  (Text.toOctets "0123456789abcdef".toList).getD nibble 0

/-- `Boundary::new`: the prefix, and the counter in sixteen hexadecimal digits. -/
def Boundary.new (counter : Nat) : Octets :=
  boundaryPrefix ++ (List.range counterDigits).map fun index =>
    hexDigit ((counter >>> (4 * (counterDigits - 1 - index))) &&& 0xf)

/-- `contains`: whether a window of `haystack` is `needle`. -/
def contains (haystack needle : Octets) : Bool :=
  decide (needle.length ≤ haystack.length) &&
    haystack.tails.any fun tail => tail.take needle.length == needle

/-- The search of `boundary` from a counter on; out of counters it overflows. -/
def boundaryFrom (bodies : List Octets) : (counters counter : Nat) → Option Octets
  | 0, _ => none
  | counters + 1, counter =>
      let candidate := Boundary.new counter
      if bodies.any fun body => contains body candidate then
        boundaryFrom bodies counters (counter + 1)
      else
        some candidate

/-- `boundary`: the first candidate that no body contains. -/
def boundary (bodies : List Octets) : Option Octets :=
  boundaryFrom bodies (u64Max + 1) 0

/-! ## The body -/

/-- `Encapsulation`: a part's header lines, each ended, and its octets. -/
structure Encapsulation where
  headers : Octets
  content : Octets
  deriving DecidableEq, Repr

/-- Two hyphens. -/
def dashes : Octets := [45, 45]

/-- `encapsulate`: what is put for one part, piece by piece. -/
def encapsulate (part : Encapsulation) (boundary : Octets) : List Octets :=
  [dashes, boundary, crlf, part.headers, crlf, part.content, crlf]

/-- `close`: what is put for the closing delimiter. -/
def close (boundary : Octets) : List Octets :=
  [dashes, boundary, dashes, crlf]

/-- What `render` puts. -/
def puts (parts : List Encapsulation) (boundary : Octets) : List Octets :=
  parts.flatMap (encapsulate · boundary) ++ close boundary

/-- What `render` measures, by putting into a count. -/
def measure (parts : List Encapsulation) (boundary : Octets) : Nat :=
  ((puts parts boundary).map List.length).sum

/-- `render`: the body, put into a buffer. -/
def render (parts : List Encapsulation) (boundary : Octets) : Octets :=
  (puts parts boundary).flatten

/-- The body is the length it was measured at. -/
theorem length_render (parts : List Encapsulation) (boundary : Octets) :
    (render parts boundary).length = measure parts boundary :=
  List.length_flatten

/-! ## The search -/

theorem contains_iff {haystack needle : Octets} :
    contains haystack needle = true ↔ needle <:+: haystack := by
  rw [contains, Bool.and_eq_true, decide_eq_true_eq, List.any_eq_true]
  constructor
  · rintro ⟨_, tail, tailMember, window⟩
    have cut : tail.take needle.length = needle := by simpa using window
    rw [← cut]
    exact (List.take_prefix _ _).isInfix.trans ((List.mem_tails _ _).mp tailMember).isInfix
  · rintro ⟨before, after, rfl⟩
    refine ⟨by simp only [List.length_append]; omega, needle ++ after, ?_, by simp⟩
    rw [List.mem_tails, List.append_assoc]
    exact List.suffix_append _ _

/-- A search with a free candidate ahead of it finds a free one. -/
theorem exists_boundaryFrom {bodies : List Octets} {counters counter free : Nat}
    (within : counter ≤ free ∧ free < counter + counters)
    (isFree : ∀ body ∈ bodies, ¬ Boundary.new free <:+: body) :
    ∃ found, boundaryFrom bodies counters counter = some found ∧
      ∀ body ∈ bodies, ¬ found <:+: body := by
  induction counters generalizing counter with
  | zero => omega
  | succ counters ih =>
      by_cases taken : bodies.any (fun body => contains body (Boundary.new counter)) = true
      · have later : counter ≠ free := by
          rintro rfl
          obtain ⟨body, member, inside⟩ := List.any_eq_true.mp taken
          exact isFree body member (contains_iff.mp inside)
        rw [boundaryFrom, if_pos taken]
        exact ih ⟨by omega, by omega⟩
      · refine ⟨Boundary.new counter, by rw [boundaryFrom, if_neg taken], ?_⟩
        intro body member inside
        exact taken (List.any_eq_true.mpr ⟨body, member, contains_iff.mpr inside⟩)

/-- What a search finds is a candidate. -/
theorem eq_new_of_boundaryFrom {bodies : List Octets} {counters counter : Nat} {found : Octets}
    (finds : boundaryFrom bodies counters counter = some found) :
    ∃ chosen, found = Boundary.new chosen := by
  induction counters generalizing counter with
  | zero => contradiction
  | succ counters ih =>
      rw [boundaryFrom] at finds
      split at finds
      · exact ih finds
      · exact ⟨counter, (Option.some.inj finds).symm⟩

/-! ## Candidates are different -/

theorem mod_pow_eq_of_digits {base first second digits : Nat}
    (same : ∀ index < digits, first / base ^ index % base = second / base ^ index % base) :
    first % base ^ digits = second % base ^ digits := by
  induction digits with
  | zero => simp [Nat.mod_one]
  | succ digits ih =>
      rw [Nat.mod_pow_succ, Nat.mod_pow_succ, same digits (Nat.lt_succ_self _),
        ih fun index below => same index (Nat.lt_succ_of_lt below)]

theorem hexDigit_inj {first second : Nat} (firstLt : first < 16) (secondLt : second < 16)
    (same : hexDigit first = hexDigit second) : first = second := by
  have table : ∀ first < 16, ∀ second < 16, hexDigit first = hexDigit second → first = second := by
    decide
  exact table first firstLt second secondLt same

theorem new_injOn {first second : Nat} (firstLt : first ≤ u64Max) (secondLt : second ≤ u64Max)
    (same : Boundary.new first = Boundary.new second) : first = second := by
  have digits := List.append_cancel_left same
  rw [List.map_inj_left] at digits
  have low : first % 16 ^ 16 = second % 16 ^ 16 := by
    refine mod_pow_eq_of_digits fun index below => ?_
    have digit := digits (15 - index) (List.mem_range.mpr (by rw [counterDigits]; omega))
    have position : 4 * (counterDigits - 1 - (15 - index)) = 4 * index := by
      rw [counterDigits]
      omega
    rw [position, Nat.shiftRight_eq_div_pow, Nat.shiftRight_eq_div_pow, Nat.pow_mul] at digit
    have nibble : ∀ number : Nat, number &&& 0xf = number % 16 :=
      fun number => Nat.and_two_pow_sub_one_eq_mod number 4
    rw [nibble, nibble] at digit
    exact hexDigit_inj (Nat.mod_lt _ (by decide)) (Nat.mod_lt _ (by decide)) digit
  rwa [Nat.mod_eq_of_lt (Nat.lt_of_le_of_lt firstLt (by decide)),
    Nat.mod_eq_of_lt (Nat.lt_of_le_of_lt secondLt (by decide))] at low

theorem length_new (counter : Nat) : (Boundary.new counter).length = 31 := by
  rw [Boundary.new, List.length_append, List.length_map, List.length_range]
  rfl

/-- Contents that contain every candidate up to one are long enough to hold each of
them somewhere. -/
theorem le_of_taken {bodies : List Octets} {count : Nat} (counters : count ≤ u64Max + 1)
    (taken : ∀ counter < count, ∃ body ∈ bodies, Boundary.new counter <:+: body) :
    count ≤ (bodies.map fun body => body.length - 30).sum := by
  -- Every place a candidate can start at, and what would be one there.
  let windows := bodies.flatMap fun body =>
    (List.range (body.length - 30)).map fun start => (body.drop start).take 31
  have windowsLength : windows.length = (bodies.map fun body => body.length - 30).sum := by
    simp [windows, List.length_flatMap]
  have candidates : (List.range count).map Boundary.new ⊆ windows := by
    intro candidate member
    obtain ⟨counter, counterMember, rfl⟩ := List.mem_map.mp member
    obtain ⟨body, bodyMember, before, after, rfl⟩ := taken counter (List.mem_range.mp counterMember)
    refine List.mem_flatMap.mpr ⟨_, bodyMember, List.mem_map.mpr ⟨before.length, ?_, ?_⟩⟩
    · have := length_new counter
      simp only [List.mem_range, List.length_append]
      omega
    · rw [List.append_assoc, List.drop_left, List.take_left' (length_new counter)]
  have distinct : ((List.range count).map Boundary.new).Nodup := by
    refine List.Nodup.map_on (fun first firstMember second secondMember same => ?_)
      List.nodup_range
    have firstLt := List.mem_range.mp firstMember
    have secondLt := List.mem_range.mp secondMember
    exact new_injOn (by omega) (by omega) same
  have most := (List.subperm_of_subset distinct candidates).length_le
  rwa [List.length_map, List.length_range, windowsLength] at most

/-- A search finds a candidate unless each it has counters for is taken. -/
theorem exists_boundaryFrom_of_not_taken {bodies : List Octets} {counters : Nat}
    (untaken : ¬ ∀ counter < counters, ∃ body ∈ bodies, Boundary.new counter <:+: body) :
    ∃ found, boundaryFrom bodies counters 0 = some found ∧ ∀ body ∈ bodies, ¬ found <:+: body := by
  push Not at untaken
  obtain ⟨free, below, isFree⟩ := untaken
  exact exists_boundaryFrom ⟨Nat.zero_le _, by omega⟩ isFree

/-- Bodies do not contain every candidate up to more than they have places for. -/
theorem exists_boundaryFrom_of_lt {bodies : List Octets} {counters : Nat}
    (within : counters ≤ u64Max + 1) (many : (bodies.map fun body => body.length - 30).sum < counters) :
    ∃ found, boundaryFrom bodies counters 0 = some found ∧ ∀ body ∈ bodies, ¬ found <:+: body := by
  refine exists_boundaryFrom_of_not_taken fun taken => ?_
  have few := le_of_taken within taken
  omega

/-- There are no more places for a candidate than octets. -/
theorem sum_length_sub_le (bodies : List Octets) :
    (bodies.map fun body => body.length - 30).sum ≤ (bodies.map List.length).sum := by
  induction bodies with
  | nil => exact Nat.le_refl _
  | cons body bodies ih =>
      simp only [List.map_cons, List.sum_cons]
      omega

/-- Bodies of fewer octets than there are counters do not contain every
candidate, and the search finds one they do not. -/
theorem exists_boundary {bodies : List Octets} (small : (bodies.map List.length).sum ≤ u64Max) :
    ∃ found, boundary bodies = some found ∧ ∀ body ∈ bodies, ¬ found <:+: body := by
  have shorter := sum_length_sub_le bodies
  exact exists_boundaryFrom_of_lt (Nat.le_refl _) (by omega)

/-! ## Contents in memory -/

/-- The octets of an address space, which an address of 64 bits tells apart. -/
structure Memory where
  octets : Octets
  addressable : octets.length ≤ u64Max + 1

/-- A slice of a memory. Slices may overlap, and one may be given often. -/
structure Slice (memory : Memory) where
  start : Nat
  length : Nat
  within : start + length ≤ memory.octets.length

/-- The octets of a slice. -/
def Slice.octets {memory : Memory} (slice : Slice memory) : Octets :=
  (memory.octets.drop slice.start).take slice.length

theorem Slice.isInfix {memory : Memory} (slice : Slice memory) : slice.octets <:+: memory.octets :=
  (List.take_prefix _ _).isInfix.trans (List.drop_suffix _ _).isInfix

/-- With more counters a search finds what it found. -/
theorem boundaryFrom_mono {bodies : List Octets} {counters more counter : Nat} {found : Octets}
    (within : counters ≤ more) (finds : boundaryFrom bodies counters counter = some found) :
    boundaryFrom bodies more counter = some found := by
  induction counters generalizing more counter with
  | zero => contradiction
  | succ counters ih =>
      cases more with
      | zero => omega
      | succ more =>
          rw [boundaryFrom] at finds ⊢
          split at finds
          · rename_i taken
            rw [if_pos taken]
            exact ih (by omega) finds
          · rename_i free
            rw [if_neg free]
            exact finds

/-- Slices of a memory leave some counter free. -/
theorem exists_boundary_of_slices {memory : Memory} (contents : List (Slice memory)) :
    ∃ found, boundary (contents.map Slice.octets) = some found ∧
      ∀ body ∈ contents.map Slice.octets, ¬ found <:+: body := by
  refine exists_boundaryFrom_of_not_taken fun taken => ?_
  have inMemory : ∀ counter < u64Max + 1, ∃ body ∈ [memory.octets], Boundary.new counter <:+: body := by
    intro counter below
    obtain ⟨body, member, inside⟩ := taken counter below
    obtain ⟨slice, -, rfl⟩ := List.mem_map.mp member
    exact ⟨memory.octets, List.mem_singleton_self _, inside.trans slice.isInfix⟩
  have few := le_of_taken (Nat.le_refl _) inMemory
  have addressable := memory.addressable
  simp only [List.map_cons, List.map_nil, List.sum_cons, List.sum_nil] at few
  omega

/-- The search ends with at most one candidate more than the contents have octets,
before its counter overflows, and what it finds stands in no content. -/
theorem boundary_ends {memory : Memory} (contents : List (Slice memory)) :
    ∃ found,
      boundaryFrom (contents.map Slice.octets)
        (((contents.map Slice.octets).map List.length).sum + 1) 0 = some found ∧
      boundary (contents.map Slice.octets) = some found ∧
      ∀ body ∈ contents.map Slice.octets, ¬ found <:+: body := by
  have shorter := sum_length_sub_le (contents.map Slice.octets)
  generalize isTotal : ((contents.map Slice.octets).map List.length).sum = total at shorter
  by_cases many : u64Max < total
  · obtain ⟨found, finds, isFree⟩ := exists_boundary_of_slices contents
    exact ⟨found, boundaryFrom_mono (by omega) finds, finds, isFree⟩
  · obtain ⟨found, finds, isFree⟩ :=
      exists_boundaryFrom_of_lt (show total + 1 ≤ u64Max + 1 by omega) (Nat.lt_succ_of_le shorter)
    exact ⟨found, finds, boundaryFrom_mono (by omega) finds, isFree⟩

end Kynos.Multipart
