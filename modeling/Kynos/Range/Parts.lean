import Kynos.Interval.Merge
import Kynos.Numeral.Unsigned
import Kynos.Range.Select

/-!
# Serving several byte ranges of one representation

Ranges that overlap or touch are merged, and the survivors are sent in the
order their specs appeared (RFC 9110 section 15.3.7.2).
-/

namespace Kynos.Range

open Kynos.Interval Kynos.Numeral

/-- What a `range-set` selects once its parts have been merged. -/
inductive Selected where
  | single (selection : Selection)
  | several (ranges : List (Nat × Nat)) (completeLength : Nat)
  deriving DecidableEq, Repr

/-- The status a response carrying the selection sends. -/
def Selected.status : Selected → Nat
  | .single selection => selection.status
  | .several .. => 206

/-- The parts that are sent, in order; none where the whole is. -/
def Selected.parts : Selected → List (Nat × Nat)
  | .single (.whole _) => []
  | .single (.part first last _) => [(first, last)]
  | .several ranges _ => ranges

/-- The satisfiable ranges `specs` select, each carrying the position of the
spec that produced it. -/
def positioned (specs : List Spec) (completeLength : Nat) : List (Positioned Nat) :=
  if completeLength = 0 then
    []
  else
    specs.zipIdx.filterMap fun (spec, position) =>
      (resolveOne spec completeLength).map fun range => (range, position)

/-- The satisfiable ranges `specs` select, merged, in the order they were
written. -/
def coalesce (specs : List Spec) (completeLength : Nat) : List (Nat × Nat) :=
  (merge (fun last => saturatingAdd u64Max last 1) (positioned specs completeLength)).map Prod.fst

/-- What a request selects from a representation of `completeLength`, with
overlapping and adjacent parts merged. -/
def selectParts (requested : Except Ignored (List Spec)) (completeLength : Nat) :
    Except RangeRejection Selected :=
  match applicable requested completeLength with
  | .error whole => .ok (.single whole)
  | .ok specs =>
      match coalesce specs completeLength with
      | [] => .error (.notSatisfiable completeLength)
      | [(first, last)] => .ok (.single (.part first last completeLength))
      | merged => .ok (.several merged completeLength)

/-! ## Specs by their positions -/

/-- The satisfiable ranges of specs numbered from `start` on. -/
def positionedFrom (completeLength start : Nat) (specs : List Spec) : List (Positioned Nat) :=
  (specs.zipIdx start).filterMap fun (spec, position) =>
    (resolveOne spec completeLength).map fun range => (range, position)

theorem positioned_eq {completeLength : Nat} (nonempty : 0 < completeLength) (specs : List Spec) :
    positioned specs completeLength = positionedFrom completeLength 0 specs := by
  simp only [positioned, if_neg (Nat.pos_iff_ne_zero.mp nonempty), positionedFrom]

theorem positionedFrom_cons (completeLength start : Nat) (spec : Spec) (specs : List Spec) :
    positionedFrom completeLength start (spec :: specs) =
      match resolveOne spec completeLength with
      | some range => (range, start) :: positionedFrom completeLength (start + 1) specs
      | none => positionedFrom completeLength (start + 1) specs := by
  cases resolved : resolveOne spec completeLength <;>
    simp [positionedFrom, List.zipIdx_cons, resolved]

theorem start_le_of_mem_positionedFrom {completeLength start : Nat} {specs : List Spec}
    {part : Positioned Nat} (member : part ∈ positionedFrom completeLength start specs) :
    start ≤ part.2 := by
  obtain ⟨⟨spec, position⟩, numbered, resolved⟩ := List.mem_filterMap.mp member
  obtain ⟨range, -, rfl⟩ := Option.map_eq_some_iff.mp resolved
  have later := List.le_snd_of_mem_zipIdx numbered
  exact later

/-- Ranges keep their specs' positions, which increase. -/
theorem pairwise_positionedFrom (completeLength start : Nat) (specs : List Spec) :
    (positionedFrom completeLength start specs).Pairwise fun left right => left.2 < right.2 := by
  induction specs generalizing start with
  | nil => simp [positionedFrom]
  | cons spec specs ih =>
      rw [positionedFrom_cons]
      cases resolveOne spec completeLength with
      | none => exact ih (start + 1)
      | some range =>
          exact List.pairwise_cons.mpr
            ⟨fun part member => start_le_of_mem_positionedFrom member, ih (start + 1)⟩

theorem nodup_positionedFrom (completeLength start : Nat) (specs : List Spec) :
    ((positionedFrom completeLength start specs).map Prod.snd).Nodup :=
  List.pairwise_map.mpr ((pairwise_positionedFrom completeLength start specs).imp Nat.ne_of_lt)

/-- The first satisfiable spec is the first range. -/
theorem findSome_resolveOne (completeLength start : Nat) (specs : List Spec) :
    (specs.findSome? fun spec => resolveOne spec completeLength) =
      (positionedFrom completeLength start specs).head?.map Prod.fst := by
  induction specs generalizing start with
  | nil => rfl
  | cons spec specs ih =>
      rw [positionedFrom_cons, List.findSome?_cons]
      cases resolveOne spec completeLength with
      | none => exact ih (start + 1)
      | some range => rfl

/-! ## One part and several -/

theorem selectParts_of_nil {completeLength : Nat} (nonempty : 0 < completeLength)
    {specs : List Spec} (merged : coalesce specs completeLength = []) :
    selectParts (.ok specs) completeLength = .error (.notSatisfiable completeLength) := by
  simp only [selectParts, applicable, if_neg (Nat.pos_iff_ne_zero.mp nonempty), merged]

/-- Every range that was merged is sent. -/
theorem selectParts_of_cons {completeLength : Nat} (nonempty : 0 < completeLength)
    {specs : List Spec} {part : Nat × Nat} {rest : List (Nat × Nat)}
    (merged : coalesce specs completeLength = part :: rest) :
    ∃ selected, selectParts (.ok specs) completeLength = .ok selected ∧
      selected.parts = part :: rest := by
  simp only [selectParts, applicable, if_neg (Nat.pos_iff_ne_zero.mp nonempty), merged]
  cases rest with
  | nil => exact ⟨_, rfl, rfl⟩
  | cons second rest => exact ⟨_, rfl, rfl⟩

/-- Merging loses no satisfiable spec and invents none. -/
theorem coalesce_eq_nil_iff {completeLength : Nat} (nonempty : 0 < completeLength)
    (specs : List Spec) :
    coalesce specs completeLength = [] ↔
      (specs.findSome? fun spec => resolveOne spec completeLength) = none := by
  rw [findSome_resolveOne completeLength 0, Option.map_eq_none_iff, List.head?_eq_none_iff,
    coalesce, positioned_eq nonempty, List.map_eq_nil_iff,
    merge_eq_nil_iff (nodup_positionedFrom completeLength 0 specs)]

/-- The first part that is sent contains the first satisfiable range. -/
theorem coalesce_head_covers {completeLength first last : Nat} (nonempty : 0 < completeLength)
    {specs : List Spec}
    (found : (specs.findSome? fun spec => resolveOne spec completeLength) = some (first, last)) :
    ∃ part rest, coalesce specs completeLength = part :: rest ∧ part.1 ≤ first ∧ last ≤ part.2 := by
  rw [findSome_resolveOne completeLength 0] at found
  have increasing := pairwise_positionedFrom completeLength 0 specs
  cases ranges : positionedFrom completeLength 0 specs with
  | nil =>
      rw [ranges] at found
      cases found
  | cons range rest =>
      rw [ranges] at found increasing
      have same : range.1 = (first, last) := Option.some.inj found
      have least : ∀ other ∈ positionedFrom completeLength 0 specs, range.2 ≤ other.2 := by
        rw [ranges]
        exact List.forall_mem_cons.mpr
          ⟨le_rfl, fun other member => ((List.pairwise_cons.mp increasing).1 other member).le⟩
      obtain ⟨whole, others, merged, covers⟩ :=
        merge_head_covers (fun last => saturatingAdd u64Max last 1)
          (nodup_positionedFrom completeLength 0 specs) (ranges ▸ List.mem_cons_self) least
      refine ⟨whole.1, others.map Prod.fst, ?_, ?_, ?_⟩
      · rw [coalesce, positioned_eq nonempty, merged, List.map_cons]
      · exact covers.first.trans (same ▸ le_rfl)
      · exact le_trans (same ▸ le_rfl) covers.last

/-- The two readers agree: they reject alike and send the whole alike, and the
part the one serves is within the first part the other serves. -/
theorem selectParts_agrees (requested : Except Ignored (List Spec)) (completeLength : Nat) :
    (∀ rejection, selectParts requested completeLength = .error rejection ↔
      select requested completeLength = .error rejection) ∧
    (∀ reason, selectParts requested completeLength = .ok (.single (.whole reason)) ↔
      select requested completeLength = .ok (.whole reason)) ∧
    ∀ first last total, select requested completeLength = .ok (.part first last total) →
      ∃ selected part rest, selectParts requested completeLength = .ok selected ∧
        selected.parts = part :: rest ∧ part.1 ≤ first ∧ last ≤ part.2 := by
  cases requested with
  | error reason => simp [selectParts, select, applicable]
  | ok specs =>
      rcases Nat.eq_zero_or_pos completeLength with rfl | nonempty
      · simp [selectParts, select, applicable]
      · rw [select_ok nonempty]
        cases found : specs.findSome? fun spec => resolveOne spec completeLength with
        | none =>
            rw [selectParts_of_nil nonempty ((coalesce_eq_nil_iff nonempty specs).mpr found)]
            simp
        | some range =>
            obtain ⟨part, rest, merged, first, last⟩ := coalesce_head_covers nonempty found
            obtain ⟨selected, answered, parts⟩ := selectParts_of_cons nonempty merged
            rw [answered]
            have notWhole : ∀ reason, selected ≠ .single (.whole reason) := by
              rintro reason rfl
              cases parts
            refine ⟨by simp, by simp [notWhole], ?_⟩
            rintro _ _ _ ⟨⟩
            exact ⟨selected, part, rest, rfl, parts, first, last⟩

end Kynos.Range
