import Kynos.Range.Precedence
import Kynos.Range.Served

/-!
# The program decides what is owed

The evaluation order of the program, over the fields it keeps of a request
head, decides on the one answer the request is owed.
-/

namespace Kynos.Range

open Kynos.Http Kynos.Numeral

variable {Error : Type}

/-! ## The fields that are kept -/

theorem getAll_fromRequestParts (method : Method) (headers : HeaderMap) {name : Text}
    (kept : name ∈ readNames) :
    (Conditions.fromRequestParts method headers).fields.getAll name = headers.getAll name := by
  have lines : ∀ other, (((headers.getAll other).map fun value => (other, value)).filter
      fun line => line.1 == name).map Prod.snd =
        if other = name then headers.getAll name else [] := by
    intro other
    by_cases same : other = name
    · subst other
      simp [List.filter_map, Function.comp_def]
    · simp [List.filter_map, Function.comp_def, same]
  have once : ∀ names : List Text, names.Nodup → name ∈ names →
      (names.flatMap fun other => if other = name then headers.getAll name else []) =
        headers.getAll name := by
    intro names distinct member
    induction names with
    | nil => simp at member
    | cons other names ih =>
        rw [List.nodup_cons] at distinct
        by_cases same : other = name
        · subst other
          have rest : (names.flatMap fun other =>
              if other = name then headers.getAll name else []) = [] := by
            rw [List.flatMap_eq_nil_iff]
            intro other inRest
            rw [if_neg]
            rintro rfl
            exact distinct.1 inRest
          rw [List.flatMap_cons, rest, if_pos rfl, List.append_nil]
        · rw [List.flatMap_cons, if_neg same, List.nil_append]
          exact ih distinct.2 ((List.mem_cons.mp member).resolve_left (Ne.symm same))
  rw [Conditions.fromRequestParts, HeaderMap.getAll, List.filter_flatMap, List.map_flatMap]
  simp only [lines]
  exact once readNames (by decide) kept

theorem get_fromRequestParts (method : Method) (headers : HeaderMap) {name : Text}
    (kept : name ∈ readNames) :
    (Conditions.fromRequestParts method headers).fields.get name = headers.get name := by
  rw [HeaderMap.get, HeaderMap.get, getAll_fromRequestParts method headers kept]

/-- The `Range` field is read from what is kept as from the head itself. -/
theorem read_fromRequestParts (method : Method) (headers : HeaderMap) (current : Option Text) :
    read method (Conditions.fromRequestParts method headers).fields current =
      read method headers current := by
  have range := getAll_fromRequestParts method headers (show Header.range ∈ readNames by decide)
  have ifRange := get_fromRequestParts method headers (show Header.ifRange ∈ readNames by decide)
  simp only [read, range, ifRange]

/-! ## The conditions -/

theorem validated_iff {method : Method} : validated method = true ↔ Retrieval method := by
  simp [validated, Retrieval, or_assoc]

theorem singleDate_eq_some_iff {fields : HeaderMap} {name : Text} {time : Date.SystemTime} :
    singleDate fields name = some time ↔
      ∃ since, SendsDate fields name since ∧ time = Date.ofSeconds since := by
  unfold singleDate SendsDate
  split
  · rename_i line lines
    simp only [Date.parse, Option.bind_eq_some_iff, Option.map_eq_some_iff]
    constructor
    · rintro ⟨text, read, since, parsed, rfl⟩
      exact ⟨since, ⟨line, text, lines, read, parsed⟩, rfl⟩
    · rintro ⟨since, ⟨other, text, single, read, parsed⟩, rfl⟩
      rw [lines] at single
      cases single
      exact ⟨text, read, since, parsed, rfl⟩
  · rename_i several
    simp only [reduceCtorEq, false_iff, not_exists]
    rintro since ⟨⟨line, text, single, -⟩, -⟩
    exact several line single

theorem singleDate_eq_none_iff {fields : HeaderMap} {name : Text} :
    singleDate fields name = none ↔ ∀ since, ¬SendsDate fields name since := by
  constructor
  · intro absent since sends
    have found := singleDate_eq_some_iff.mpr ⟨since, sends, rfl⟩
    rw [absent] at found
    cases found
  · intro unsent
    cases found : singleDate fields name with
    | none => rfl
    | some time =>
        obtain ⟨since, sends, -⟩ := singleDate_eq_some_iff.mp found
        exact absurd sends (unsent since)

theorem SendsDate.unique {fields : HeaderMap} {name : Text} {since other : Nat}
    (sends : SendsDate fields name since) (sendsOther : SendsDate fields name other) :
    since = other := by
  obtain ⟨line, text, single, read, parsed⟩ := sends
  obtain ⟨otherLine, otherText, otherSingle, otherRead, otherParsed⟩ := sendsOther
  rw [single] at otherSingle
  cases otherSingle
  rw [read] at otherRead
  cases otherRead
  exact Option.some.inj (parsed.symm.trans otherParsed)

@[simp]
theorem seconds_ofSeconds (since : Nat) : seconds (Date.ofSeconds since) = since := by
  rw [seconds, Date.ofSeconds, Int.toNat_natCast]
  exact Nat.mul_div_cancel since (by decide)

/-- At one-second resolution, clamping an instant before the epoch to zero
changes no comparison with a date after it. -/
theorem lt_seconds_iff {since : Nat} {modified : Date.SystemTime} :
    since < seconds modified ↔ (since : Int) < modificationSecond modified := by
  simp only [seconds, modificationSecond, Date.nanosecond]
  omega

variable {served : Served Error} {method : Method} {headers : HeaderMap}
  {current : Option Text} {completeLength : Nat}

/-- The first two steps refuse exactly the requests the section refuses. -/
theorem preconditionFailed_iff :
    served.preconditionFailed (Conditions.fromRequestParts method headers) current = true ↔
      Refused headers ⟨current, served.lastModified, completeLength⟩ := by
  have lines := getAll_fromRequestParts method headers (show Header.ifMatch ∈ readNames by decide)
  have dates := getAll_fromRequestParts method headers (show Header.ifUnmodifiedSince ∈ readNames by decide)
  have sendsDate : ∀ since, SendsDate (Conditions.fromRequestParts method headers).fields
      Header.ifUnmodifiedSince since ↔ SendsDate headers Header.ifUnmodifiedSince since := by
    intro since
    simp only [SendsDate, dates]
  by_cases sent : headers.getAll Header.ifMatch = []
  · have absent := ETag.ifMatch_of_absent current (lines.trans sent)
    simp only [Served.preconditionFailed, absent, Refused, sent, ne_eq, not_true_eq_false,
      false_and, true_and, false_or]
    cases modified : served.lastModified with
    | none => simp
    | some instant =>
        cases date : singleDate (Conditions.fromRequestParts method headers).fields
            Header.ifUnmodifiedSince with
        | none =>
            rw [singleDate_eq_none_iff] at date
            simp only [sendsDate] at date
            simp [date]
        | some time =>
            obtain ⟨since, sends, rfl⟩ := singleDate_eq_some_iff.mp date
            rw [sendsDate] at sends
            simp only [seconds_ofSeconds, decide_eq_true_eq, gt_iff_lt, lt_seconds_iff]
            constructor
            · intro earlier
              exact ⟨since, instant, sends, rfl, earlier⟩
            · rintro ⟨other, _, otherSends, found, earlier⟩
              cases found
              rw [sends.unique otherSends]
              exact earlier
  · have sentKept : (Conditions.fromRequestParts method headers).fields.getAll Header.ifMatch ≠ [] :=
      lines.symm ▸ sent
    obtain ⟨holds, found, meaning⟩ := ETag.ifMatch_of_sent current sentKept
    rw [lines] at meaning
    simp only [Served.preconditionFailed, found, Refused, ← meaning, ne_eq, sent,
      not_false_eq_true, true_and, false_and, or_false, Bool.not_eq_true', Bool.not_eq_true]

/-- The next two find current exactly the copies the section finds current. -/
theorem unmodified_iff :
    served.unmodified (Conditions.fromRequestParts method headers) current = true ↔
      Current method headers ⟨current, served.lastModified, completeLength⟩ := by
  have lines := getAll_fromRequestParts method headers (show Header.ifNoneMatch ∈ readNames by decide)
  have dates := getAll_fromRequestParts method headers (show Header.ifModifiedSince ∈ readNames by decide)
  have sendsDate : ∀ since, SendsDate (Conditions.fromRequestParts method headers).fields
      Header.ifModifiedSince since ↔ SendsDate headers Header.ifModifiedSince since := by
    intro since
    simp only [SendsDate, dates]
  by_cases sent : headers.getAll Header.ifNoneMatch = []
  · have absent := ETag.ifNoneMatch_of_absent current (lines.trans sent)
    have kept : (Conditions.fromRequestParts method headers).method = method := rfl
    simp only [Served.unmodified, absent, kept, Current, sent, ne_eq, not_true_eq_false,
      false_and, true_and, false_or]
    by_cases retrieval : validated method = true
    · have retrieves := validated_iff.mp retrieval
      simp only [retrieval, Bool.not_true, Bool.false_eq_true, if_false, retrieves, true_and]
      cases modified : served.lastModified with
      | none => simp
      | some instant =>
          cases date : singleDate (Conditions.fromRequestParts method headers).fields
              Header.ifModifiedSince with
          | none =>
              rw [singleDate_eq_none_iff] at date
              simp only [sendsDate] at date
              simp [date]
          | some time =>
              obtain ⟨since, sends, rfl⟩ := singleDate_eq_some_iff.mp date
              rw [sendsDate] at sends
              simp only [seconds_ofSeconds, decide_eq_true_eq, ← Nat.not_lt, lt_seconds_iff]
              constructor
              · intro notEarlier
                exact ⟨since, instant, sends, rfl, Int.not_lt.mp notEarlier⟩
              · rintro ⟨other, _, otherSends, found, notEarlier⟩
                cases found
                rw [sends.unique otherSends]
                exact Int.not_lt.mpr notEarlier
    · have updates : ¬Retrieval method := fun retrieves => retrieval (validated_iff.mpr retrieves)
      simp [retrieval, updates]
  · have sentKept :
        (Conditions.fromRequestParts method headers).fields.getAll Header.ifNoneMatch ≠ [] :=
      lines.symm ▸ sent
    obtain ⟨named, found, meaning⟩ := ETag.ifNoneMatch_of_sent current sentKept
    rw [lines] at meaning
    simp only [Served.unmodified, found, Current, ← meaning, ne_eq, sent, not_false_eq_true,
      true_and, false_and, or_false]

/-! ## The selection -/

/-- The answer a selection is sent as. -/
def Owed.ofSelection : Except RangeRejection Selection → Owed
  | .error (.notSatisfiable _) => .notSatisfiable
  | .ok (.part first last _) => .part first last
  | .ok (.whole _) => .whole

/-- Where the conditions pass, what is owed is the selection of the field. -/
theorem owes_iff_selection {modified : Option Date.SystemTime}
    (passed : ¬Refused headers ⟨current, modified, completeLength⟩)
    (stale : ¬Current method headers ⟨current, modified, completeLength⟩) {owed : Owed} :
    Owes method headers ⟨current, modified, completeLength⟩ owed ↔
      owed = Owed.ofSelection (select (read method headers current) completeLength) := by
  constructor
  · intro owes
    cases owes with
    | refused refused => exact absurd refused passed
    | notModified _ isCurrent _ => exact absurd isCurrent stale
    | mismatched _ isCurrent _ => exact absurd isCurrent stale
    | @notSatisfiable _ _ specs applies nonempty unsatisfiable =>
        obtain ⟨line, value, -, -, parsed⟩ := applies.understood
        have unresolved : specs.findSome? (resolveOne · completeLength) = none := by
          rw [List.findSome?_eq_none_iff]
          intro spec member
          exact (positions_eq_empty_iff nonempty (ordered_of_parse parsed spec member)).mp
            (unsatisfiable spec member)
        rw [read_eq_ok_iff.mpr applies, select_ok nonempty, unresolved]
        rfl
    | @part _ _ before after spec first last applies nonempty unsatisfiable ordered satisfied =>
        obtain ⟨line, value, -, -, parsed⟩ := applies.understood
        have resolved : (before ++ spec :: after).findSome? (resolveOne · completeLength) =
            some (first, last) := by
          rw [List.findSome?_eq_some_iff]
          refine ⟨before, spec, after, rfl, ?_, ?_⟩
          · exact (positions_eq_Icc_iff nonempty
              (ordered_of_parse parsed spec (by simp)) ordered).mp satisfied
          · intro other member
            exact (positions_eq_empty_iff nonempty
              (ordered_of_parse parsed other (by simp [member]))).mp (unsatisfiable other member)
        rw [read_eq_ok_iff.mpr applies, select_ok nonempty, resolved]
        rfl
    | whole _ _ unapplied =>
        cases found : read method headers current with
        | error reason => rfl
        | ok specs =>
            rcases unapplied with none' | empty
            · exact absurd ⟨specs, read_eq_ok_iff.mp found⟩ none'
            · simp only at empty
              rw [empty]
              rfl
  · rintro rfl
    cases found : read method headers current with
    | error reason =>
        refine .whole passed stale (.inl ?_)
        rintro ⟨specs, applies⟩
        rw [read_eq_ok_iff.mpr applies] at found
        cases found
    | ok specs =>
        have applies := read_eq_ok_iff.mp found
        obtain ⟨line, value, -, -, parsed⟩ := applies.understood
        rcases Nat.eq_zero_or_pos completeLength with rfl | nonempty
        · exact .whole passed stale (.inr rfl)
        · rw [select_ok nonempty]
          cases resolved : specs.findSome? (resolveOne · completeLength) with
          | none =>
              rw [List.findSome?_eq_none_iff] at resolved
              refine .notSatisfiable passed stale applies nonempty fun spec member => ?_
              exact (positions_eq_empty_iff nonempty (ordered_of_parse parsed spec member)).mpr
                (resolved spec member)
          | some part =>
              obtain ⟨first, last⟩ := part
              obtain ⟨before, spec, after, rfl, satisfied, unsatisfied⟩ :=
                List.findSome?_eq_some_iff.mp resolved
              have specOrdered := ordered_of_parse parsed spec (by simp)
              have ordered := (resolveOne_bounds specOrdered nonempty satisfied).1
              refine .part passed stale applies nonempty (fun other member => ?_) ordered
                ((positions_eq_Icc_iff nonempty specOrdered ordered).mpr satisfied)
              exact (positions_eq_empty_iff nonempty
                (ordered_of_parse parsed other (by simp [member]))).mpr (unsatisfied other member)

/-- The answer the program decides on. -/
def decision (served : Served Error) (method : Method) (headers : HeaderMap)
    (current : Option Text) (completeLength : Nat) : Owed :=
  let conditions := Conditions.fromRequestParts method headers
  if served.preconditionFailed conditions current then
    .preconditionFailed
  else if served.unmodified conditions current then
    if validated method then .notModified else .preconditionFailed
  else
    Owed.ofSelection (select (read method headers current) completeLength)

/-- A request is owed exactly the answer the program decides on. -/
theorem owes_iff {owed : Owed} :
    Owes method headers ⟨current, served.lastModified, completeLength⟩ owed ↔
      owed = decision served method headers current completeLength := by
  have refusedIff : served.preconditionFailed (Conditions.fromRequestParts method headers)
      current = true ↔ Refused headers ⟨current, served.lastModified, completeLength⟩ :=
    preconditionFailed_iff
  have currentIff : served.unmodified (Conditions.fromRequestParts method headers)
      current = true ↔ Current method headers ⟨current, served.lastModified, completeLength⟩ :=
    unmodified_iff
  by_cases refused : Refused headers ⟨current, served.lastModified, completeLength⟩
  · have decided : decision served method headers current completeLength =
        .preconditionFailed := by
      simp only [decision, refusedIff.mpr refused, if_true]
    rw [decided]
    constructor
    · intro owes
      cases owes <;> first | rfl | contradiction
    · rintro rfl
      exact .refused refused
  · have passed := mt refusedIff.mp refused
    by_cases isCurrent : Current method headers ⟨current, served.lastModified, completeLength⟩
    · by_cases retrieval : Retrieval method
      · have decided : decision served method headers current completeLength = .notModified := by
          simp only [decision, if_neg passed, currentIff.mpr isCurrent,
            validated_iff.mpr retrieval, if_true]
        rw [decided]
        constructor
        · intro owes
          cases owes <;> first | rfl | contradiction
        · rintro rfl
          exact .notModified refused isCurrent retrieval
      · have decided : decision served method headers current completeLength =
            .preconditionFailed := by
          simp only [decision, if_neg passed, currentIff.mpr isCurrent,
            mt validated_iff.mp retrieval, if_true, Bool.false_eq_true, if_false]
        rw [decided]
        constructor
        · intro owes
          cases owes <;> first | rfl | contradiction
        · rintro rfl
          exact .mismatched refused isCurrent retrieval
    · have decided : decision served method headers current completeLength =
          Owed.ofSelection (select (read method headers current) completeLength) := by
        simp only [decision, if_neg passed, if_neg (mt currentIff.mp isCurrent)]
      rw [decided]
      exact owes_iff_selection refused isCurrent

end Kynos.Range
