import Kynos.Range.Frames

/-!
# What a body is polled for

A poll of a body finds nothing yet, the end, an error, or a frame: some data, or
the trailers.
-/

namespace Kynos.Body

open Kynos.Http Kynos.Range

/-- A frame of a body. -/
inductive Frame where
  | data (octets : Octets)
  | trailers (fields : HeaderMap)
  deriving DecidableEq

/-- The octets a frame holds. -/
def Frame.octets : Frame → Octets
  | .data octets => octets
  | .trailers _ => []

/-- What a poll for a frame finds. -/
abbrev Answer (Error : Type) := Poll (Option (Except Error Frame))

variable {Error : Type}

namespace Answer

/-- The octets an answer yields. -/
def octets : Answer Error → Octets
  | .ready (some (.ok (.data octets))) => octets
  | _ => []

/-- The trailers an answer yields. -/
def trailers : Answer Error → Option HeaderMap
  | .ready (some (.ok (.trailers fields))) => some fields
  | _ => none

/-- The error an answer yields. -/
def error : Answer Error → Option Error
  | .ready (some (.error error)) => some error
  | _ => none

theorem exists_of_error_ne_none {answer : Answer Error} (failed : answer.error ≠ none) :
    ∃ error, answer = .ready (some (.error error)) := by
  rw [Answer.error.eq_def] at failed
  split at failed
  next error => exact ⟨error, rfl⟩
  next => exact absurd rfl failed

/-- Nothing yet, or some data. -/
inductive Running : Answer Error → Prop where
  | pending : Running .pending
  | data (octets : Octets) (nonempty : octets ≠ []) : Running (.ready (some (.ok (.data octets))))

end Answer

/-- The octets answers yield, one after another. -/
def dataOf (answers : List (Answer Error)) : Octets :=
  answers.flatMap Answer.octets

@[simp]
theorem dataOf_nil : dataOf ([] : List (Answer Error)) = [] :=
  rfl

@[simp]
theorem dataOf_append (answers more : List (Answer Error)) :
    dataOf (answers ++ more) = dataOf answers ++ dataOf more :=
  List.flatMap_append

@[simp]
theorem dataOf_singleton (answer : Answer Error) : dataOf [answer] = answer.octets :=
  List.append_nil _

@[simp]
theorem dataOf_replicate_none (count : Nat) :
    dataOf (List.replicate count (.ready none : Answer Error)) = [] := by
  simp [dataOf, Answer.octets]

theorem Answer.Running.error_eq_none {answer : Answer Error} (running : answer.Running) :
    answer.error = none := by
  cases running <;> rfl

end Kynos.Body
