import Kynos.Numeral.Unsigned
import Kynos.Text.Str

/-!
# Reading a `Range` field

The `ranges-specifier` of RFC 9110 section 14.1.1, restricted to the two
specifiers of the `bytes` unit, and the offsets a specifier resolves to.
Decimal numerals of any length saturate at the greatest 64-bit integer.
-/

namespace Kynos.Range

open Kynos.Numeral Kynos.Word

/-- Why a `Range` field was not applied. -/
inductive Ignored where
  | absent
  | repeated
  | methodUndefined
  | conditional
  | unknownUnit
  | malformed
  | tooManyRanges
  | emptyRepresentation
  deriving DecidableEq, Repr

/-- One `range-spec`, as written: an offset from the start, optionally to a
last offset, or the last `length` bytes. -/
inductive Spec where
  | offsets (first : Nat) (last : Option Nat)
  | suffix (length : Nat)
  deriving DecidableEq, Repr

/-- The largest `range-set` that is read. -/
def maxRanges : Nat := 8

/-- The range unit that is understood, compared without ASCII case. -/
def unit : Text := "bytes".toList

/-- `1*DIGIT`, saturating rather than overflowing. -/
def digits (written : Text) : Option Nat :=
  if written.isEmpty || !written.all Text.isAsciiDigit then
    none
  else
    some (saturatingRead u64Max written)

/-- One `range-spec` that does not open with a `-`: an `int-range`. -/
def intRange (written : Text) : Except Ignored Spec :=
  match splitOnce '-' written with
  | none => .error .malformed
  | some (first, last) =>
      match digits first with
      | none => .error .malformed
      | some first =>
          if last.isEmpty then
            .ok (.offsets first none)
          else
            match digits last with
            | none => .error .malformed
            | some last =>
                if last < first then
                  .error .malformed
                else
                  .ok (.offsets first (some last))

/-- One `range-spec`. -/
def spec (written : Text) : Except Ignored Spec :=
  match written with
  | '-' :: length =>
      match digits length with
      | some length => .ok (.suffix length)
      | none => .error .malformed
  | _ => intRange written

/-- The elements of a `range-set`: empty ones and the optional whitespace
around each are dropped. -/
def writtenSpecs (set : Text) : List Text :=
  ((set.splitOn ',').map Text.trimOws).filter fun element => !element.isEmpty

/-- The `range-set` a `ranges-specifier` asks for. -/
def parse (value : Text) : Except Ignored (List Spec) :=
  match splitOnce '=' (Text.trim value) with
  | none => .error .malformed
  | some (named, set) =>
      if !Text.eqIgnoreAsciiCase (Text.trim named) unit then
        .error .unknownUnit
      else
        let written := writtenSpecs set
        if written.isEmpty then
          .error .malformed
        else if written.length > maxRanges then
          .error .tooManyRanges
        else
          written.mapM spec

/-- One spec, or `none` when it is unsatisfiable. Every caller has already
answered an empty representation whole. -/
def resolveOne (spec : Spec) (completeLength : Nat) : Option (Nat × Nat) :=
  let last := completeLength - 1
  match spec with
  | .offsets first named =>
      if first ≥ completeLength then
        none
      else
        match named with
        | none => some (first, last)
        | some named => some (first, min named last)
  | .suffix length =>
      if length = 0 then none else some (completeLength - length, last)

/-- A spec whose last position is not below its first. -/
def Spec.Ordered : Spec → Prop
  | .offsets first (some last) => first ≤ last
  | .offsets _ none => True
  | .suffix _ => True

/-- A resolved spec is a nonempty interval within the representation. -/
theorem resolveOne_bounds {spec : Spec} {completeLength first last : Nat}
    (ordered : spec.Ordered) (nonempty : 0 < completeLength)
    (resolved : resolveOne spec completeLength = some (first, last)) :
    first ≤ last ∧ last < completeLength := by
  cases spec with
  | offsets start stop =>
      simp only [resolveOne] at resolved
      split at resolved
      · contradiction
      · cases stop with
        | none =>
            simp only [Option.some.injEq, Prod.mk.injEq] at resolved
            omega
        | some stop =>
            simp only [Option.some.injEq, Prod.mk.injEq] at resolved
            simp only [Spec.Ordered] at ordered
            omega
  | suffix length =>
      simp only [resolveOne] at resolved
      split at resolved
      · contradiction
      · simp only [Option.some.injEq, Prod.mk.injEq] at resolved
        omega

/-- Every spec that is read is ordered. -/
theorem ordered_of_spec {written : Text} {read : Spec} (accepted : spec written = .ok read) :
    read.Ordered := by
  unfold spec at accepted
  split at accepted
  · split at accepted
    · cases accepted
      trivial
    · cases accepted
  · unfold intRange at accepted
    split at accepted
    · cases accepted
    · split at accepted
      · cases accepted
      · split at accepted
        · cases accepted
          trivial
        · split at accepted
          · cases accepted
          · split at accepted
            · cases accepted
            · cases accepted
              simp only [Spec.Ordered]
              omega

theorem ordered_of_mapM {written : List Text} {specs : List Spec}
    (accepted : written.mapM spec = .ok specs) : ∀ read ∈ specs, read.Ordered := by
  induction written generalizing specs with
  | nil =>
      cases accepted
      simp
  | cons element rest ih =>
      rw [List.mapM_cons] at accepted
      cases readElement : spec element with
      | error reason =>
          rw [readElement] at accepted
          cases accepted
      | ok read =>
          cases readRest : rest.mapM spec with
          | error reason =>
              rw [readElement, readRest] at accepted
              cases accepted
          | ok reads =>
              rw [readElement, readRest] at accepted
              cases accepted
              exact List.forall_mem_cons.mpr ⟨ordered_of_spec readElement, ih readRest⟩

/-- Every spec of a field that is read is ordered. -/
theorem ordered_of_parse {value : Text} {specs : List Spec} (accepted : parse value = .ok specs) :
    ∀ read ∈ specs, read.Ordered := by
  unfold parse at accepted
  split at accepted
  · cases accepted
  · simp only at accepted
    split at accepted
    · cases accepted
    · split at accepted
      · cases accepted
      · split at accepted
        · cases accepted
        · exact ordered_of_mapM accepted

end Kynos.Range
