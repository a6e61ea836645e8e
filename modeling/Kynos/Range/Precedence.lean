import Kynos.Http.Date
import Kynos.Range.Select
import Kynos.Range.Unbounded

/-!
# What a request is owed

RFC 9110 section 13.2.2 as a relation: which answer a request is owed of a
representation, from the lines of its conditional fields, its method and the
representation's validators. The relation names no evaluation order other than
the precedence the section states.
-/

namespace Kynos.Range

open Kynos.Http

/-- What the conditions of a request are evaluated against: the representation's
tag as it is spelled, its modification instant, and its length. -/
structure Representation where
  tag : Option Text
  modified : Option Date.SystemTime
  completeLength : Nat

/-- The answers a request can be owed. -/
inductive Owed where
  | preconditionFailed
  | notModified
  | notSatisfiable
  | part (first last : Nat)
  | whole
  deriving DecidableEq, Repr

/-- The methods whose cache validators are answered with 304. -/
def Retrieval (method : Method) : Prop :=
  method = Method.get ∨ method = Method.head ∨ method = Method.query

/-- A name is sent on exactly one line, holding the HTTP-date a count of
seconds after the epoch. -/
def SendsDate (headers : HeaderMap) (name : Text) (seconds : Nat) : Prop :=
  ∃ line text, headers.getAll name = [line] ∧ line.toStr = some text ∧
    Date.parseSeconds text = some seconds

/-- The second an instant lies in. -/
def modificationSecond (modified : Date.SystemTime) : Int :=
  modified / (Date.nanosecond : Int)

section

variable (method : Method) (headers : HeaderMap) (representation : Representation)

/-- Steps 1 and 2: `If-Match` names no strongly equal tag; or it is not sent,
and the `If-Unmodified-Since` date is earlier than the modification second. -/
def Refused : Prop :=
  (headers.getAll Header.ifMatch ≠ [] ∧
      ¬ETag.NamedStrongly (headers.getAll Header.ifMatch) representation.tag) ∨
    (headers.getAll Header.ifMatch = [] ∧
      ∃ since modified, SendsDate headers Header.ifUnmodifiedSince since ∧
        representation.modified = some modified ∧ (since : Int) < modificationSecond modified)

/-- Steps 3 and 4: `If-None-Match` names a weakly equal tag; or it is not sent,
the method is a retrieval, and the `If-Modified-Since` date is not earlier than
the modification second. -/
def Current : Prop :=
  (headers.getAll Header.ifNoneMatch ≠ [] ∧
      ETag.NamedWeakly (headers.getAll Header.ifNoneMatch) representation.tag) ∨
    (headers.getAll Header.ifNoneMatch = [] ∧ Retrieval method ∧
      ∃ since modified, SendsDate headers Header.ifModifiedSince since ∧
        representation.modified = some modified ∧ modificationSecond modified ≤ (since : Int))

/-- The answer a request is owed: the preconditions first, then the cache
validations, then the first spec of an applicable `Range` field that names some
octet, then the whole representation. -/
inductive Owes : Owed → Prop where
  | refused (refused : Refused headers representation) : Owes .preconditionFailed
  | notModified (passed : ¬Refused headers representation)
      (current : Current method headers representation) (retrieval : Retrieval method) :
      Owes .notModified
  | mismatched (passed : ¬Refused headers representation)
      (current : Current method headers representation) (update : ¬Retrieval method) :
      Owes .preconditionFailed
  | notSatisfiable (passed : ¬Refused headers representation)
      (stale : ¬Current method headers representation) {specs : List Spec}
      (applies : Applies method headers representation.tag specs)
      (nonempty : 0 < representation.completeLength)
      (unsatisfiable : ∀ spec ∈ specs,
        Unbounded.positions representation.completeLength spec = ∅) :
      Owes .notSatisfiable
  | part (passed : ¬Refused headers representation)
      (stale : ¬Current method headers representation) {before after : List Spec} {spec : Spec}
      {first last : Nat}
      (applies : Applies method headers representation.tag (before ++ spec :: after))
      (nonempty : 0 < representation.completeLength)
      (unsatisfiable : ∀ spec ∈ before,
        Unbounded.positions representation.completeLength spec = ∅)
      (ordered : first ≤ last)
      (satisfied : Unbounded.positions representation.completeLength spec = Set.Icc first last) :
      Owes (.part first last)
  | whole (passed : ¬Refused headers representation)
      (stale : ¬Current method headers representation)
      (unapplied : (¬∃ specs, Applies method headers representation.tag specs) ∨
        representation.completeLength = 0) :
      Owes .whole

end

/-! ## Satisfied specs -/

/-- On a representation that is not empty, a spec resolves to the part its
unbounded reading is satisfied by. -/
theorem resolveOne_eq_interval {completeLength : Nat} (nonempty : 0 < completeLength)
    (spec : Spec) : resolveOne spec completeLength = Unbounded.interval completeLength spec := by
  rcases spec with ⟨first, _ | last⟩ | length
  · by_cases inside : first < completeLength
    · simp [resolveOne, Unbounded.interval, Unbounded.start, Unbounded.stop, inside]
    · simp [resolveOne, Unbounded.interval, Unbounded.start, inside, Nat.not_lt.mp inside]
  · by_cases inside : first < completeLength
    · simp [resolveOne, Unbounded.interval, Unbounded.start, Unbounded.stop, inside]
    · simp [resolveOne, Unbounded.interval, Unbounded.start, inside, Nat.not_lt.mp inside]
  · by_cases zero : length = 0
    · simp [resolveOne, Unbounded.interval, Unbounded.start, zero]
    · have inside : completeLength - length < completeLength := by omega
      simp [resolveOne, Unbounded.interval, Unbounded.start, Unbounded.stop, zero, inside]

/-- An ordered spec names no octet exactly where it does not resolve. -/
theorem positions_eq_empty_iff {completeLength : Nat} (nonempty : 0 < completeLength) {spec : Spec}
    (ordered : spec.Ordered) :
    Unbounded.positions completeLength spec = ∅ ↔ resolveOne spec completeLength = none := by
  constructor
  · intro empty
    cases resolved : resolveOne spec completeLength with
    | none => rfl
    | some part =>
        obtain ⟨first, last⟩ := part
        have bounds := resolveOne_bounds ordered nonempty resolved
        rw [resolveOne_eq_interval nonempty] at resolved
        rw [Unbounded.positions_eq_Icc resolved] at empty
        exact absurd (empty ▸ Set.mem_Icc.mpr ⟨le_rfl, bounds.1⟩ : first ∈ (∅ : Set Nat))
          (Set.notMem_empty first)
  · intro unresolved
    rw [resolveOne_eq_interval nonempty] at unresolved
    exact Unbounded.positions_eq_empty unresolved

/-- A spec names the octets of an interval exactly where it resolves to it. -/
theorem positions_eq_Icc_iff {completeLength first last : Nat} (nonempty : 0 < completeLength)
    {spec : Spec} (specOrdered : spec.Ordered) (ordered : first ≤ last) :
    Unbounded.positions completeLength spec = Set.Icc first last ↔
      resolveOne spec completeLength = some (first, last) := by
  constructor
  · intro satisfied
    cases resolved : resolveOne spec completeLength with
    | none =>
        rw [(positions_eq_empty_iff nonempty specOrdered).mpr resolved] at satisfied
        exact absurd (satisfied ▸ Set.mem_Icc.mpr ⟨le_rfl, ordered⟩ : first ∈ (∅ : Set Nat))
          (Set.notMem_empty first)
    | some part =>
        obtain ⟨start, stop⟩ := part
        have bounds := resolveOne_bounds specOrdered nonempty resolved
        rw [resolveOne_eq_interval nonempty] at resolved
        rw [Unbounded.positions_eq_Icc resolved] at satisfied
        have least : start ∈ Set.Icc first last := satisfied ▸ Set.mem_Icc.mpr ⟨le_rfl, bounds.1⟩
        have greatest : stop ∈ Set.Icc first last := satisfied ▸ Set.mem_Icc.mpr ⟨bounds.1, le_rfl⟩
        have least' : first ∈ Set.Icc start stop := satisfied ▸ Set.mem_Icc.mpr ⟨le_rfl, ordered⟩
        have greatest' : last ∈ Set.Icc start stop := satisfied ▸ Set.mem_Icc.mpr ⟨ordered, le_rfl⟩
        simp only [Set.mem_Icc] at least greatest least' greatest'
        simp only [Option.some.injEq, Prod.mk.injEq]
        omega
  · intro resolved
    rw [resolveOne_eq_interval nonempty] at resolved
    exact Unbounded.positions_eq_Icc resolved

end Kynos.Range
