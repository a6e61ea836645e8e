import Kynos.Range.Select
import Mathlib.Data.Set.Basic
import Mathlib.Order.Interval.Set.Defs

/-!
# Reading a `Range` field with unbounded numerals

What a `ranges-specifier` means when its numerals are natural numbers: the
grammar of RFC 9110 section 14.1.1, the positions each spec names by section
14.1.2, and the answer to the field. The reading of the 64-bit program agrees
with it on every field but those that hide an inverted range past the greatest
64-bit integer.
-/

namespace Kynos.Range.Unbounded

open Kynos.Numeral Kynos.Word

/-! ## The grammar -/

/-- `1*DIGIT`, as the natural number it writes. -/
def numeral (written : Text) : Option Nat :=
  if written.isEmpty || !written.all Text.isAsciiDigit then
    none
  else
    some (Nat.ofDigitChars 10 written 0)

/-- The `range-spec` grammar, with the condition section 14.1.1 puts on an
`int-range`: its last position is not below its first. -/
inductive IsRangeSpec : Text → Spec → Prop where
  | toEnd {written : Text} {first : Nat} (start : numeral written = some first) :
      IsRangeSpec (written ++ ['-']) (.offsets first none)
  | bounded {start stop : Text} {first last : Nat} (startNumeral : numeral start = some first)
      (stopNumeral : numeral stop = some last) (ordered : first ≤ last) :
      IsRangeSpec (start ++ '-' :: stop) (.offsets first (some last))
  | suffix {written : Text} {length : Nat} (suffixNumeral : numeral written = some length) :
      IsRangeSpec ('-' :: written) (.suffix length)

/-- The spec of an `int-range`. -/
def intRange (start stop : Text) : Option Spec :=
  match numeral start with
  | none => none
  | some first =>
      if stop.isEmpty then
        some (.offsets first none)
      else
        match numeral stop with
        | none => none
        | some last => if first ≤ last then some (.offsets first (some last)) else none

/-- The spec a `range-spec` writes. -/
def rangeSpec (written : Text) : Option Spec :=
  match written with
  | '-' :: length => (numeral length).map .suffix
  | _ =>
      match splitOnce '-' written with
      | none => none
      | some (start, stop) => intRange start stop

theorem numeral_nil : numeral [] = none :=
  rfl

theorem not_mem_of_numeral_eq_some {written : Text} {value : Nat}
    (read : numeral written = some value) : '-' ∉ written := by
  intro member
  unfold numeral at read
  split at read
  · contradiction
  · rename_i accepted
    simp only [Bool.or_eq_true, Bool.not_eq_true', not_or, Bool.not_eq_false,
      List.all_eq_true] at accepted
    exact absurd (accepted.2 '-' member) (by decide)

theorem splitOnce_of_numeral (stop : Text) {start : Text} {first : Nat}
    (read : numeral start = some first) :
    splitOnce '-' (start ++ '-' :: stop) = some (start, stop) :=
  splitOnce_eq_some_iff.mpr ⟨not_mem_of_numeral_eq_some read, rfl⟩

/-- A spec that opens with a numeral is not a suffix. -/
theorem rangeSpec_of_numeral {start stop : Text} {first : Nat}
    (read : numeral start = some first) :
    rangeSpec (start ++ '-' :: stop) = intRange start stop := by
  cases start with
  | nil => cases read
  | cons letter rest =>
      have notHyphen : letter ≠ '-' := fun equal =>
        not_mem_of_numeral_eq_some read (equal ▸ List.mem_cons_self)
      have cut := splitOnce_of_numeral stop read
      rw [List.cons_append] at cut ⊢
      unfold rangeSpec
      split
      · rename_i equal
        exact absurd (List.cons.inj equal).1 notHyphen
      · rw [cut]

/-- The executable reading accepts exactly the grammar. -/
theorem rangeSpec_eq_some_iff {written : Text} {read : Spec} :
    rangeSpec written = some read ↔ IsRangeSpec written read := by
  constructor
  · intro accepted
    unfold rangeSpec at accepted
    split at accepted
    · obtain ⟨length, suffixNumeral, rfl⟩ := Option.map_eq_some_iff.mp accepted
      exact .suffix suffixNumeral
    · split at accepted
      · contradiction
      · rename_i start stop cut
        obtain ⟨-, rfl⟩ := splitOnce_eq_some_iff.mp cut
        unfold intRange at accepted
        split at accepted
        · contradiction
        · rename_i first startNumeral
          split at accepted
          · rename_i empty
            cases accepted
            rw [List.isEmpty_iff.mp empty]
            exact .toEnd startNumeral
          · split at accepted
            · contradiction
            · rename_i last stopNumeral
              split at accepted
              · rename_i ordered
                cases accepted
                exact .bounded startNumeral stopNumeral ordered
              · contradiction
  · intro grammatical
    cases grammatical with
    | toEnd startNumeral =>
        rw [rangeSpec_of_numeral startNumeral]
        simp [intRange, startNumeral]
    | @bounded start stop first last startNumeral stopNumeral ordered =>
        have nonempty : stop ≠ [] := by
          rintro rfl
          cases stopNumeral
        rw [rangeSpec_of_numeral startNumeral]
        simp [intRange, startNumeral, stopNumeral, ordered, nonempty]
    | suffix suffixNumeral =>
        simp [rangeSpec, suffixNumeral]

/-- The `range-set` of a field that is applied: the unit is `bytes`, and there
are one to eight elements, each a `range-spec`. -/
def rangeSet (value : Text) : Option (List Spec) :=
  match splitOnce '=' (Text.trim value) with
  | none => none
  | some (named, set) =>
      if Text.eqIgnoreAsciiCase (Text.trim named) unit ∧
          0 < (writtenSpecs set).length ∧ (writtenSpecs set).length ≤ maxRanges then
        (writtenSpecs set).mapM rangeSpec
      else
        none

/-! ## The meaning -/

/-- The positions a spec names in a representation of `completeLength` octets,
per section 14.1.2. -/
def positions (completeLength : Nat) : Spec → Set Nat
  | .offsets first none => { position | first ≤ position ∧ position < completeLength }
  | .offsets first (some last) =>
      { position | first ≤ position ∧ position ≤ last ∧ position < completeLength }
  | .suffix length =>
      { position | completeLength ≤ position + length ∧ position < completeLength }

/-- The first position a spec names. -/
def start (completeLength : Nat) : Spec → Nat
  | .offsets first _ => first
  | .suffix length => completeLength - length

/-- The last position a spec names. -/
def stop (completeLength : Nat) : Spec → Nat
  | .offsets _ (some last) => min last (completeLength - 1)
  | .offsets _ none => completeLength - 1
  | .suffix _ => completeLength - 1

/-- The part a spec is satisfied by. -/
def interval (completeLength : Nat) (spec : Spec) : Option (Nat × Nat) :=
  if start completeLength spec < completeLength then
    some (start completeLength spec, stop completeLength spec)
  else
    none

/-- A satisfied spec names exactly the octets of its part. -/
theorem positions_eq_Icc {completeLength first last : Nat} {spec : Spec}
    (satisfied : interval completeLength spec = some (first, last)) :
    positions completeLength spec = Set.Icc first last := by
  unfold interval at satisfied
  split at satisfied
  · simp only [Option.some.injEq, Prod.mk.injEq] at satisfied
    refine Set.ext fun position => ?_
    rcases spec with ⟨first, _ | last⟩ | length <;>
      simp only [positions, start, stop, Set.mem_ofPred_eq, Set.mem_Icc] at * <;>
      omega
  · contradiction

/-- A spec that is not satisfied names no octet. -/
theorem positions_eq_empty {completeLength : Nat} {spec : Spec}
    (unsatisfied : interval completeLength spec = none) :
    positions completeLength spec = ∅ := by
  unfold interval at unsatisfied
  split at unsatisfied
  · contradiction
  · refine Set.eq_empty_iff_forall_notMem.mpr fun position => ?_
    rcases spec with ⟨first, _ | last⟩ | length <;>
      simp only [positions, start, Set.mem_ofPred_eq] at * <;>
      omega

/-- What a request is answered with. -/
inductive Answer where
  | whole
  | part (first last : Nat)
  | notSatisfiable
  deriving DecidableEq, Repr

/-- The answer to a `Range` field whose numerals are natural numbers. -/
def answer (value : Text) (completeLength : Nat) : Answer :=
  match rangeSet value with
  | none => .whole
  | some specs =>
      match specs.findSome? (interval completeLength) with
      | some (first, last) => .part first last
      | none => .notSatisfiable

/-- The answer a selection of the program amounts to. -/
def Answer.ofSelection : Except RangeRejection Selection → Answer
  | .ok (.whole _) => .whole
  | .ok (.part first last _) => .part first last
  | .error (.notSatisfiable _) => .notSatisfiable

/-! ## Saturation -/

/-- A spec with each numeral held at the greatest 64-bit integer. -/
def saturate : Spec → Spec
  | .offsets first last => .offsets (min first u64Max) (last.map (min · u64Max))
  | .suffix length => .suffix (min length u64Max)

/-- An inverted range whose inversion is lost to saturation: both positions are
at or past the greatest 64-bit integer. -/
def HidesInversion (written : Text) : Prop :=
  ∃ first last start stop, written = start ++ '-' :: stop ∧ numeral start = some first ∧
    numeral stop = some last ∧ u64Max ≤ last ∧ last < first

theorem digits_eq (written : Text) : digits written = (numeral written).map (min · u64Max) := by
  unfold digits numeral
  split
  · rfl
  · rw [saturatingRead_eq, Option.map_some]

/-- Saturation moves no offset of a representation whose length is a 64-bit
integer. -/
theorem resolveOne_saturate {completeLength : Nat} (nonempty : 0 < completeLength)
    (bounded : completeLength ≤ u64Max) (spec : Spec) :
    resolveOne (saturate spec) completeLength = interval completeLength spec := by
  rcases spec with ⟨first, _ | last⟩ | length
  · by_cases inside : first < completeLength
    · have kept : min first u64Max = first := by omega
      simp [resolveOne, saturate, interval, start, stop, kept, inside]
    · have past : completeLength ≤ min first u64Max := by omega
      simp [resolveOne, saturate, interval, start, inside, past]
  · by_cases inside : first < completeLength
    · have kept : min first u64Max = first := by omega
      have clamped : min (min last u64Max) (completeLength - 1) = min last (completeLength - 1) := by
        omega
      simp [resolveOne, saturate, interval, start, stop, kept, inside, clamped]
    · have past : completeLength ≤ min first u64Max := by omega
      simp [resolveOne, saturate, interval, start, inside, past]
  · by_cases zero : length = 0
    · simp [resolveOne, saturate, interval, start, zero]
    · have kept : completeLength - min length u64Max = completeLength - length := by omega
      have positive : min length u64Max ≠ 0 := by
        have := u64Max_eq
        omega
      have inside : completeLength - length < completeLength := by omega
      simp [resolveOne, saturate, interval, start, stop, kept, positive, inside]

theorem hidesInversion_iff {written start stop : Text}
    (cut : splitOnce '-' written = some (start, stop)) :
    HidesInversion written ↔
      ∃ first last, numeral start = some first ∧ numeral stop = some last ∧
        u64Max ≤ last ∧ last < first := by
  constructor
  · rintro ⟨first, last, start', stop', rfl, startNumeral, stopNumeral, past, inverted⟩
    rw [splitOnce_of_numeral stop' startNumeral] at cut
    cases cut
    exact ⟨first, last, startNumeral, stopNumeral, past, inverted⟩
  · rintro ⟨first, last, startNumeral, stopNumeral, past, inverted⟩
    exact ⟨first, last, start, stop, (splitOnce_eq_some_iff.mp cut).2, startNumeral,
      stopNumeral, past, inverted⟩

/-- How the program reads an element, beside its meaning: as its saturation
where it is a `range-spec`, as the greatest position alone where it hides an
inversion, and as malformed otherwise. -/
inductive Reads (written : Text) : Prop where
  | grammatical (read : Spec) (meaning : rangeSpec written = some read)
      (accepted : spec written = .ok (saturate read))
  | hidden (meaning : rangeSpec written = none) (hides : HidesInversion written)
      (accepted : spec written = .ok (.offsets u64Max (some u64Max)))
  | malformed (meaning : rangeSpec written = none) (sound : ¬HidesInversion written)
      (rejected : spec written = .error .malformed)

theorem reads_suffix (length : Text) : Reads ('-' :: length) := by
  cases read : numeral length with
  | some value =>
      refine .grammatical (.suffix value) ?_ ?_
      · simp [rangeSpec, read]
      · simp [spec, digits_eq, read, saturate]
  | none =>
      refine .malformed ?_ ?_ ?_
      · simp [rangeSpec, read]
      · have cut : splitOnce '-' ('-' :: length) = some ([], length) := by simp [splitOnce]
        rw [hidesInversion_iff cut]
        rintro ⟨first, last, startNumeral, -⟩
        cases startNumeral
      · simp [spec, digits_eq, read]

theorem reads_intRange {written start stop : Text} (notSuffix : ∀ length, written ≠ '-' :: length)
    (cut : splitOnce '-' written = some (start, stop)) : Reads written := by
  have meaningEq : rangeSpec written = intRange start stop := by
    unfold rangeSpec
    split
    · exact absurd rfl (notSuffix _)
    · rw [cut]
  have specEq : spec written = Range.intRange written := by
    unfold spec
    split
    · exact absurd rfl (notSuffix _)
    · rfl
  have inversion := hidesInversion_iff cut
  cases startRead : numeral start with
  | none =>
      refine .malformed ?_ ?_ ?_
      · simp [meaningEq, intRange, startRead]
      · simp [inversion, startRead]
      · simp [specEq, Range.intRange, cut, digits_eq, startRead]
  | some first =>
      cases stop with
      | nil =>
          refine .grammatical (.offsets first none) ?_ ?_
          · simp [meaningEq, intRange, startRead]
          · simp [specEq, Range.intRange, cut, digits_eq, startRead, saturate]
      | cons letter rest =>
          cases stopRead : numeral (letter :: rest) with
          | none =>
              refine .malformed ?_ ?_ ?_
              · simp [meaningEq, intRange, startRead, stopRead]
              · simp [inversion, stopRead]
              · simp [specEq, Range.intRange, cut, digits_eq, startRead, stopRead]
          | some last =>
              by_cases ordered : first ≤ last
              · have kept : ¬min last u64Max < min first u64Max := by omega
                refine .grammatical (.offsets first (some last)) ?_ ?_
                · simp [meaningEq, intRange, startRead, stopRead, ordered]
                · simp [specEq, Range.intRange, cut, digits_eq, startRead, stopRead, saturate, kept]
              · by_cases past : u64Max ≤ last
                · have firstHeld : min first u64Max = u64Max := by omega
                  have lastHeld : min last u64Max = u64Max := by omega
                  refine .hidden ?_ ?_ ?_
                  · simp [meaningEq, intRange, startRead, stopRead, ordered]
                  · exact inversion.mpr
                      ⟨first, last, startRead, stopRead, past, Nat.lt_of_not_le ordered⟩
                  · simp [specEq, Range.intRange, cut, digits_eq, startRead, stopRead, firstHeld,
                      lastHeld]
                · have seen : min last u64Max < min first u64Max := by omega
                  refine .malformed ?_ ?_ ?_
                  · simp [meaningEq, intRange, startRead, stopRead, ordered]
                  · rw [inversion]
                    rintro ⟨_, _, firstEq, lastEq, pastLast, _⟩
                    cases stopRead.symm.trans lastEq
                    exact past pastLast
                  · simp only [specEq, Range.intRange, cut, digits_eq, startRead, stopRead,
                      Option.map_some, List.isEmpty_cons, Bool.false_eq_true, if_false,
                      if_pos seen]

/-- Every element is read in one of the three ways. -/
theorem reads (written : Text) : Reads written := by
  by_cases suffix : ∃ length, written = '-' :: length
  · obtain ⟨length, rfl⟩ := suffix
    exact reads_suffix length
  · have notSuffix : ∀ length, written ≠ '-' :: length := not_exists.mp suffix
    cases cut : splitOnce '-' written with
    | some halves => exact reads_intRange notSuffix cut
    | none =>
        have absent := splitOnce_eq_none_iff.mp cut
        refine .malformed ?_ ?_ ?_
        · unfold rangeSpec
          split
          · exact absurd rfl (notSuffix _)
          · rw [cut]
        · rintro ⟨first, last, start, stop, rfl, -⟩
          simp at absent
        · unfold spec
          split
          · exact absurd rfl (notSuffix _)
          · simp [Range.intRange, cut]

theorem rangeSpec_of_hidesInversion {written : Text} (hides : HidesInversion written) :
    rangeSpec written = none := by
  obtain ⟨first, last, start, stop, rfl, startNumeral, stopNumeral, -, inverted⟩ := hides
  have nonempty : stop ≠ [] := by
    rintro rfl
    cases stopNumeral
  rw [rangeSpec_of_numeral startNumeral]
  simp [intRange, startNumeral, stopNumeral, nonempty, Nat.not_le.mpr inverted]

/-! ## Lists of elements -/

/-- How the program reads a list of elements, beside its meaning. -/
inductive ReadsList (written : List Text) : Prop where
  | grammatical (read : List Spec) (meaning : written.mapM rangeSpec = some read)
      (accepted : written.mapM spec = .ok (read.map saturate))
      (covered : ∀ element ∈ written, ∃ read, IsRangeSpec element read)
  | hidden (read : List Spec) (meaning : written.mapM rangeSpec = none)
      (accepted : written.mapM spec = .ok read)
      (covered : ∀ element ∈ written,
        (∃ read, IsRangeSpec element read) ∨ HidesInversion element)
      (hides : ∃ element ∈ written, HidesInversion element)
  | malformed (meaning : written.mapM rangeSpec = none)
      (rejected : written.mapM spec = .error .malformed)
      (uncovered : ∃ element ∈ written,
        ¬((∃ read, IsRangeSpec element read) ∨ HidesInversion element))

/-- Every list of elements is read in one of the three ways. -/
theorem readsList (written : List Text) : ReadsList written := by
  induction written with
  | nil => exact .grammatical [] rfl rfl (by simp)
  | cons element rest ih =>
      cases reads element with
      | malformed meaning sound rejected =>
          refine .malformed ?_ ?_ ⟨element, List.mem_cons_self, ?_⟩
          · simp [List.mapM_cons, meaning]
          · simp only [List.mapM_cons, rejected]
            rfl
          · simp [← rangeSpec_eq_some_iff, meaning, sound]
      | grammatical read meaning accepted =>
          have isSpec : IsRangeSpec element read := rangeSpec_eq_some_iff.mp meaning
          cases ih with
          | grammatical reads restMeaning restAccepted covered =>
              refine .grammatical (read :: reads) ?_ ?_
                (List.forall_mem_cons.mpr ⟨⟨read, isSpec⟩, covered⟩)
              · simp [List.mapM_cons, meaning, restMeaning]
              · simp only [List.mapM_cons, accepted, restAccepted]
                rfl
          | hidden reads restMeaning restAccepted covered hides =>
              refine .hidden (saturate read :: reads) ?_ ?_ ?_ ?_
              · simp [List.mapM_cons, meaning, restMeaning]
              · simp only [List.mapM_cons, accepted, restAccepted]
                rfl
              · exact List.forall_mem_cons.mpr ⟨.inl ⟨read, isSpec⟩, covered⟩
              · exact List.exists_mem_cons_of_exists hides
          | malformed restMeaning restRejected uncovered =>
              refine .malformed ?_ ?_ (List.exists_mem_cons_of_exists uncovered)
              · simp [List.mapM_cons, meaning, restMeaning]
              · simp only [List.mapM_cons, accepted, restRejected]
                rfl
      | hidden meaning hides accepted =>
          have noMeaning : (element :: rest).mapM rangeSpec = none := by
            simp [List.mapM_cons, meaning]
          cases ih with
          | grammatical reads restMeaning restAccepted covered =>
              refine .hidden (.offsets u64Max (some u64Max) :: reads.map saturate) noMeaning ?_
                (List.forall_mem_cons.mpr ⟨.inr hides, fun other member => .inl (covered other member)⟩)
                ⟨element, List.mem_cons_self, hides⟩
              simp only [List.mapM_cons, accepted, restAccepted]
              rfl
          | hidden reads restMeaning restAccepted covered _ =>
              refine .hidden (.offsets u64Max (some u64Max) :: reads) noMeaning ?_
                (List.forall_mem_cons.mpr ⟨.inr hides, covered⟩) ⟨element, List.mem_cons_self, hides⟩
              simp only [List.mapM_cons, accepted, restAccepted]
              rfl
          | malformed restMeaning restRejected uncovered =>
              refine .malformed noMeaning ?_ (List.exists_mem_cons_of_exists uncovered)
              simp only [List.mapM_cons, accepted, restRejected]
              rfl

/-! ## The fields that are read apart -/

/-- A field the program reads and the unbounded reading ignores: the unit is
`bytes`, there are at most eight elements, each is a `range-spec` or hides an
inversion past the greatest 64-bit integer, and at least one hides one. -/
def Diverges (value : Text) : Prop :=
  ∃ named set, splitOnce '=' (Text.trim value) = some (named, set) ∧
    Text.eqIgnoreAsciiCase (Text.trim named) unit = true ∧
    (writtenSpecs set).length ≤ maxRanges ∧
    (∀ element ∈ writtenSpecs set,
      (∃ read, IsRangeSpec element read) ∨ HidesInversion element) ∧
    ∃ element ∈ writtenSpecs set, HidesInversion element

/-- A field that is read is never answered whole. -/
theorem ofSelection_select_ok_ne_whole {completeLength : Nat} (nonempty : 0 < completeLength)
    (specs : List Spec) : Answer.ofSelection (select (.ok specs) completeLength) ≠ .whole := by
  rw [select_ok nonempty]
  split <;> simp [Answer.ofSelection]

/-- A field whose elements are read as their saturations is answered as the
unbounded reading answers it. -/
theorem ofSelection_select_saturate {completeLength : Nat} (nonempty : 0 < completeLength)
    (bounded : completeLength ≤ u64Max) (specs : List Spec) :
    Answer.ofSelection (select (.ok (specs.map saturate)) completeLength) =
      match specs.findSome? (interval completeLength) with
      | some (first, last) => .part first last
      | none => .notSatisfiable := by
  have same : (specs.map saturate).findSome? (resolveOne · completeLength) =
      specs.findSome? (interval completeLength) := by
    rw [List.findSome?_map]
    exact congrArg (List.findSome? · specs)
      (funext fun spec => resolveOne_saturate nonempty bounded spec)
  rw [select_ok nonempty, same]
  cases specs.findSome? (interval completeLength) <;> rfl

/-- On a representation of one to 2⁶⁴ − 1 octets, the program answers a `Range`
field as its unbounded reading does exactly when the field hides no inverted
range among specs it would otherwise apply. -/
theorem select_parse_eq_answer_iff (value : Text) {completeLength : Nat}
    (nonempty : 0 < completeLength) (bounded : completeLength ≤ u64Max) :
    Answer.ofSelection (select (parse value) completeLength) = answer value completeLength ↔
      ¬Diverges value := by
  cases cut : splitOnce '=' (Text.trim value) with
  | none => simp [answer, parse, rangeSet, Diverges, cut, Answer.ofSelection]
  | some halves =>
      obtain ⟨named, set⟩ := halves
      by_cases understood : Text.eqIgnoreAsciiCase (Text.trim named) unit = true
      · by_cases empty : writtenSpecs set = []
        · simp [answer, parse, rangeSet, Diverges, cut, understood, empty, Answer.ofSelection]
        · by_cases long : maxRanges < (writtenSpecs set).length
          · simp [answer, parse, rangeSet, Diverges, cut, understood, empty, long,
              Nat.not_le.mpr long, Answer.ofSelection]
          · have counted : 0 < (writtenSpecs set).length ∧
                (writtenSpecs set).length ≤ maxRanges :=
              ⟨List.length_pos_iff.mpr empty, Nat.le_of_not_lt long⟩
            have parsed : parse value = (writtenSpecs set).mapM spec := by
              simp [parse, cut, understood, empty, long]
            have meant : rangeSet value = (writtenSpecs set).mapM rangeSpec := by
              simp only [rangeSet, cut, understood, counted, and_self, if_true]
            have diverges : Diverges value ↔
                (∀ element ∈ writtenSpecs set,
                  (∃ read, IsRangeSpec element read) ∨ HidesInversion element) ∧
                ∃ element ∈ writtenSpecs set, HidesInversion element := by
              simp [Diverges, cut, understood, counted.2]
            rw [diverges, answer, parsed, meant]
            cases readsList (writtenSpecs set) with
            | grammatical read meaning accepted covered =>
                rw [meaning, accepted]
                refine iff_of_true (ofSelection_select_saturate nonempty bounded read) ?_
                rintro ⟨-, element, member, hides⟩
                obtain ⟨read, isSpec⟩ := covered element member
                rw [← rangeSpec_eq_some_iff, rangeSpec_of_hidesInversion hides] at isSpec
                cases isSpec
            | hidden read meaning accepted covered hides =>
                rw [meaning, accepted]
                exact iff_of_false (ofSelection_select_ok_ne_whole nonempty read)
                  (not_not_intro ⟨covered, hides⟩)
            | malformed meaning rejected uncovered =>
                rw [meaning, rejected]
                refine iff_of_true rfl ?_
                rintro ⟨covered, -⟩
                obtain ⟨element, member, missed⟩ := uncovered
                exact missed (covered element member)
      · simp [answer, parse, rangeSet, Diverges, cut, understood, Answer.ofSelection]

/-- The reading applies at the length of a representation of ten octets. -/
theorem select_parse_eq_answer_ten :
    Answer.ofSelection (select (parse "bytes=0-1,5-18446744073709551616".toList) 10) =
        answer "bytes=0-1,5-18446744073709551616".toList 10 ↔
      ¬Diverges "bytes=0-1,5-18446744073709551616".toList :=
  select_parse_eq_answer_iff _ (by decide) (by decide)

/-- An inversion past the greatest 64-bit integer is not seen: a part is sent
where the field is to be ignored. -/
theorem select_parse_ne_answer :
    ¬∀ (value : Text) (completeLength : Nat), 0 < completeLength → completeLength ≤ u64Max →
      Answer.ofSelection (select (parse value) completeLength) = answer value completeLength := by
  intro agrees
  have parted : Answer.ofSelection (select
      (parse "bytes=0-1,18446744073709551617-18446744073709551616".toList) 10) = .part 0 1 := by
    decide
  have whole : answer "bytes=0-1,18446744073709551617-18446744073709551616".toList 10 =
      .whole := by
    decide
  have same := agrees "bytes=0-1,18446744073709551617-18446744073709551616".toList 10
    (by decide) (by decide)
  rw [parted, whole] at same
  cases same

end Kynos.Range.Unbounded
