import Kynos.Http.ETag
import Kynos.Range.Spec

/-!
# What a `range-set` selects

The one implementation of RFC 9110 section 14.1.2's satisfiability: the first
satisfiable spec is the part that is sent.
-/

namespace Kynos.Range

/-- What a request selected from a representation: the whole of it, and the
reason the field was not applied, or one part. -/
inductive Selection where
  | whole (reason : Ignored)
  | part (first last completeLength : Nat)
  deriving DecidableEq, Repr

/-- Why no part can be sent: the field was understood and no spec in it is
satisfiable. -/
inductive RangeRejection where
  | notSatisfiable (completeLength : Nat)
  deriving DecidableEq, Repr

/-- The status a response carrying the selection sends. -/
def Selection.status : Selection → Nat
  | .whole _ => 200
  | .part .. => 206

/-- The status the rejection produces. -/
def RangeRejection.status : RangeRejection → Nat
  | .notSatisfiable _ => 416

/-- The `range-set` to resolve, or the whole representation and the reason the
field is not applied. -/
def applicable (requested : Except Ignored (List Spec)) (completeLength : Nat) :
    Except Selection (List Spec) :=
  match requested with
  | .error reason => .error (.whole reason)
  | .ok specs =>
      if completeLength = 0 then .error (.whole .emptyRepresentation) else .ok specs

/-- What a `range-set` selects from a representation of `completeLength`. -/
def select (requested : Except Ignored (List Spec)) (completeLength : Nat) :
    Except RangeRejection Selection :=
  match applicable requested completeLength with
  | .error whole => .ok whole
  | .ok specs =>
      match specs.findSome? fun spec => resolveOne spec completeLength with
      | some (first, last) => .ok (.part first last completeLength)
      | none => .error (.notSatisfiable completeLength)

@[simp]
theorem select_error (reason : Ignored) (completeLength : Nat) :
    select (.error reason) completeLength = .ok (.whole reason) :=
  rfl

@[simp]
theorem select_zero (specs : List Spec) :
    select (.ok specs) 0 = .ok (.whole .emptyRepresentation) :=
  rfl

/-- A field that was read selects its first satisfiable spec. -/
theorem select_ok {completeLength : Nat} (nonempty : 0 < completeLength) (specs : List Spec) :
    select (.ok specs) completeLength =
      match specs.findSome? fun spec => resolveOne spec completeLength with
      | some (first, last) => .ok (.part first last completeLength)
      | none => .error (.notSatisfiable completeLength) := by
  simp only [select, applicable, if_neg (Nat.pos_iff_ne_zero.mp nonempty)]

/-- A part is selected by some spec that resolves to it. -/
theorem exists_of_select_eq_part {requested : Except Ignored (List Spec)}
    {completeLength first last total : Nat}
    (selected : select requested completeLength = .ok (.part first last total)) :
    total = completeLength ∧ 0 < completeLength ∧
      ∃ specs, requested = .ok specs ∧
        ∃ spec ∈ specs, resolveOne spec completeLength = some (first, last) := by
  cases requested with
  | error reason => cases selected
  | ok specs =>
      rcases Nat.eq_zero_or_pos completeLength with rfl | nonempty
      · cases selected
      · rw [select_ok nonempty] at selected
        cases found : specs.findSome? fun spec => resolveOne spec completeLength with
        | none =>
            rw [found] at selected
            cases selected
        | some part =>
            rw [found] at selected
            cases selected
            exact ⟨rfl, nonempty, specs, rfl, List.exists_of_findSome?_eq_some found⟩

/-!
## The `Range` field of a request

Section 14.2 of RFC 9110 applies the field to a `GET` alone, and section 13.1.5
only where an `If-Range` condition holds of the representation.
-/

open Kynos.Http

/-- Whether an `If-Range` condition holds against the representation's own
validator: one strong comparison. -/
def holds (condition : HeaderValue) (validator : Option Text) : Bool :=
  match condition.toStr, validator with
  | some condition, some validator => ETag.strongMatch (Text.trim condition) validator
  | _, _ => false

/-- The `range-set` a request asks for, or why the field is not applied. -/
def read (method : Method) (headers : HeaderMap) (validator : Option Text) :
    Except Ignored (List Spec) :=
  match headers.getAll Header.range with
  | [] => .error .absent
  | value :: more =>
      if method ≠ Method.get then
        .error .methodUndefined
      else if !more.isEmpty then
        .error .repeated
      else
        let conditional :=
          match headers.get Header.ifRange with
          | some condition => holds condition validator
          | none => true
        if !conditional then
          .error .conditional
        else
          match value.toStr with
          | none => .error .malformed
          | some value => parse value

/-- The field is applied to a `GET` with one `Range` line, whose `If-Range`
condition, if there is one, holds. -/
structure Applies (method : Method) (headers : HeaderMap) (validator : Option Text)
    (specs : List Spec) : Prop where
  retrieval : method = Method.get
  condition : ∀ condition, headers.get Header.ifRange = some condition →
    holds condition validator = true
  understood : ∃ line value, headers.getAll Header.range = [line] ∧ line.toStr = some value ∧
    parse value = .ok specs

/-- Reading yields the specs of the field where it applies. -/
theorem read_eq_ok_iff {method : Method} {headers : HeaderMap} {validator : Option Text}
    {specs : List Spec} :
    read method headers validator = .ok specs ↔ Applies method headers validator specs := by
  constructor
  · intro accepted
    unfold read at accepted
    split at accepted
    · contradiction
    · rename_i line more lines
      split at accepted
      · contradiction
      · rename_i retrieval
        split at accepted
        · contradiction
        · rename_i single
          simp only [Bool.not_eq_true', Bool.not_eq_false, List.isEmpty_iff] at single
          subst more
          have condition : ∀ condition, headers.get Header.ifRange = some condition →
              holds condition validator = true := by
            intro condition sent
            by_contra failed
            rw [Bool.not_eq_true] at failed
            simp [sent, failed] at accepted
          have applied : (match line.toStr with
              | none => .error .malformed
              | some value => parse value) = Except.ok specs := by
            cases sent : headers.get Header.ifRange with
            | none => simpa [sent] using accepted
            | some validatorLine =>
                simpa [sent, condition validatorLine sent] using accepted
          split at applied
          · contradiction
          · rename_i value text
            exact ⟨not_not.mp retrieval, condition, line, value, lines, text, applied⟩
  · rintro ⟨rfl, condition, line, value, lines, text, parsed⟩
    cases sent : headers.get Header.ifRange with
    | none => simp [read, lines, sent, text, parsed]
    | some validatorLine => simp [read, lines, sent, text, parsed, condition validatorLine sent]

end Kynos.Range
