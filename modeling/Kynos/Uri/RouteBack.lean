import Kynos.Uri.Captures

/-!
# Rendered paths route back

Rendering, capturing each variable and decoding what it captured gives back the
values. Which values panic is decided part by part, the template and the path
being split at slashes; a slash in the name of a variable puts the parts out of
step.
-/

namespace Kynos.Uri

open Kynos.Word Kynos.Http Kynos.OpenApi

/-- A rendered path has the template's segments, matches the template and gives
the values back; and rendering panics exactly where a value is empty or makes its
segment a dot segment. -/
structure RoutesBack (pieces : List Piece) (values : List (Text × Text)) : Prop where
  panics_iff :
    (∃ panic, renderEndpointPath (names pieces) (spelled pieces) values = .error panic) ↔
      (∃ entry ∈ values, entry.2 = []) ∨
        ∃ segment ∈ segments pieces, names segment ≠ [] ∧
          isDotSegment (filled values segment) = true
  returns : ∀ rendered,
    renderEndpointPath (names pieces) (spelled pieces) values = .ok rendered →
      rendered.splitOn '/' = (segments pieces).map (filled values) ∧
        ∃ captured, captures pieces rendered = some captured ∧
          captured.map (fun capture => (capture.1, decodePathValue capture.2)) =
            (names pieces).map fun name => (name, some (valueOf values name))

/-! ## Where the check is right -/

/-- A segment with one value for its variables. -/
def filledBy (value : Text) : Piece → Text
  | .expression _ => encodeSegment value
  | piece => piece.text

/-- The check looks at every segment a value can make a dot segment, and at no
literal one. -/
structure Aligned (pieces : List Piece) : Prop where
  reached : ∀ index segment value, (segments pieces)[index]? = some segment → names segment ≠ [] →
    value ≠ [] → isDotSegment (segment.flatMap (filledBy value)) = true → IsCompared pieces index
  literal : ∀ index segment, (segments pieces)[index]? = some segment → names segment = [] →
    IsCompared pieces index → isDotSegment (spelled segment) = false

/-- A segment of one variable is filled by its value. -/
theorem filled_eq_flatMap {values : List (Text × Text)} {segment : List Piece} {value : Text}
    (same : ∀ name ∈ names segment, valueOf values name = value) :
    filled values segment = segment.flatMap (filledBy value) := by
  refine List.flatMap_congr fun piece member => ?_
  cases piece with
  | expression name =>
      rw [filledPiece, filledBy, same name.text (List.mem_filterMap.mpr ⟨_, member, rfl⟩)]
  | slash => rfl
  | literal => rfl
  | triple => rfl

/-- A dot segment holds nothing but dots and their escapes. -/
theorem isDotSegmentFrom_of_mem {dots : Nat} {text : Text} (member : 'x' ∈ text) :
    isDotSegmentFrom dots text = false := by
  fun_induction isDotSegmentFrom dots text with
  | case1 => cases member
  | case3 dots second third rest escapes _ ih =>
      rcases escapes with ⟨rfl, rfl | rfl⟩ <;> exact ih (by simpa using member)
  | _ => simp_all

theorem isDotSegment_filled_of_mem {values : List (Text × Text)} {segment : List Piece} {name : Text}
    (inSegment : name ∈ names segment) (isLetter : valueOf values name = ['x']) :
    isDotSegment (filled values segment) = false := by
  obtain ⟨piece, member, isName⟩ := List.mem_filterMap.mp inSegment
  refine isDotSegmentFrom_of_mem (List.mem_flatMap.mpr ⟨piece, member, ?_⟩)
  cases piece with
  | expression variableName =>
      obtain rfl := Option.some.inj isName
      rw [filledPiece, isLetter]
      decide
  | slash => cases isName
  | literal => cases isName
  | triple => cases isName

/-- Two segments hold one variable only where they are one. -/
theorem index_unique {pieces first second : List Piece} {name : Text} {index other : Nat}
    (distinct : (names pieces).Nodup) (isFirst : (segments pieces)[index]? = some first)
    (isSecond : (segments pieces)[other]? = some second) (inFirst : name ∈ names first)
    (inSecond : name ∈ names second) : index = other := by
  rw [names_eq_flatten, List.nodup_flatten, List.pairwise_map] at distinct
  have apart {left right : Nat} {before after : List Piece} (lower : left < right)
      (isBefore : (segments pieces)[left]? = some before)
      (isAfter : (segments pieces)[right]? = some after) : (names before).Disjoint (names after) := by
    obtain ⟨inRange, rfl⟩ := List.getElem?_eq_some_iff.mp isBefore
    obtain ⟨inRange', rfl⟩ := List.getElem?_eq_some_iff.mp isAfter
    exact List.pairwise_iff_getElem.mp distinct.2 left right inRange inRange' lower
  rcases Nat.lt_trichotomy index other with before | same | after
  · exact absurd inSecond (apart before isFirst isSecond inFirst)
  · exact same
  · exact absurd inFirst (apart after isSecond isFirst inSecond)

section Template

variable {pieces : List Piece}
  (single : ∀ segment ∈ segments pieces, (names segment).length ≤ 1)

include single

theorem exists_eq_singleton {index : Nat} {segment : List Piece}
    (isSegment : (segments pieces)[index]? = some segment) (hasVariable : names segment ≠ []) :
    ∃ name, names segment = [name] := by
  have short := single segment (List.mem_of_getElem? isSegment)
  cases isNames : names segment with
  | nil => exact absurd isNames hasVariable
  | cons name rest =>
      rw [isNames, List.length_cons] at short
      exact ⟨name, by rw [List.eq_nil_of_length_eq_zero (by omega : rest.length = 0)]⟩

/-- Where the check is right, every assignment routes back. -/
theorem Aligned.routesBack (aligned : Aligned pieces) {values : List (Text × Text)}
    (assigns : Assigns pieces values) : RoutesBack pieces values := by
  have compares (nonempty : ∀ entry ∈ values, entry.2 ≠ []) :
      dotSegment (spelled pieces) (filled values pieces) ≠ none ↔
        ∃ segment ∈ segments pieces, names segment ≠ [] ∧
          isDotSegment (filled values segment) = true := by
    rw [dotSegment_ne_none_iff]
    constructor
    · rintro ⟨index, segment, compared, isSegment, dots⟩
      refine ⟨segment, List.mem_of_getElem? isSegment, fun literal => ?_, dots⟩
      rw [filled_of_literals values literal, aligned.literal index segment isSegment literal compared]
        at dots
      cases dots
    · rintro ⟨segment, member, hasVariable, dots⟩
      obtain ⟨index, isSegment⟩ := List.mem_iff_getElem?.mp member
      obtain ⟨name, isNames⟩ := exists_eq_singleton single isSegment hasVariable
      have value : valueOf values name ≠ [] := assigns.valueOf_ne_nil nonempty
        (mem_names_of_segment member (by rw [isNames]; exact List.mem_singleton_self name))
      have fills : filled values segment = segment.flatMap (filledBy (valueOf values name)) :=
        filled_eq_flatMap (by rw [isNames]; simp)
      exact ⟨index, segment,
        aligned.reached index segment _ isSegment hasVariable value (fills ▸ dots), isSegment, dots⟩
  by_cases nonempty : ∀ entry ∈ values, entry.2 ≠ []
  · have notEmpty : ¬ ∃ entry ∈ values, entry.2 = [] :=
      fun ⟨entry, member, isEmpty⟩ => nonempty entry member isEmpty
    rcases assigns.renderEndpointPath_eq nonempty with ⟨check, renders⟩ | ⟨check, panics⟩
    · constructor
      · rw [renders, or_iff_right notEmpty, ← compares nonempty]
        simp [check]
      · intro rendered isRendered
        rw [renders, Except.ok.injEq] at isRendered
        subst isRendered
        refine ⟨splitOn_filled values pieces, _, captures_filled single
          fun name => assigns.valueOf_ne_nil nonempty, ?_⟩
        rw [List.map_map]
        refine List.map_congr_left fun name _ => ?_
        rw [Function.comp_apply, decodePathValue_encodeSegment]
    · obtain ⟨panic, isPanic⟩ := panics
      constructor
      · exact ⟨fun _ => .inr ((compares nonempty).mp check), fun _ => ⟨panic, isPanic⟩⟩
      · intro rendered isRendered
        rw [isPanic] at isRendered
        cases isRendered
  · have empty : ∃ entry ∈ values, entry.2 = [] := by
      push Not at nonempty
      exact nonempty
    obtain ⟨panic, isPanic⟩ := assigns.exists_panic empty
    constructor
    · exact ⟨fun _ => .inl empty, fun _ => ⟨panic, isPanic⟩⟩
    · intro rendered isRendered
      rw [isPanic] at isRendered
      cases isRendered

end Template

/-! ## Where the check is wrong -/

/-- An assignment by name. -/
def assignment (pieces : List Piece) (value : Text → Text) : List (Text × Text) :=
  (names pieces).map fun name => (name, value name)

theorem assigns_assignment (pieces : List Piece) (value : Text → Text) :
    Assigns pieces (assignment pieces value) := by
  rw [Assigns, assignment, List.map_map]
  exact List.Perm.of_eq (List.map_id _)

theorem valueOf_assignment {pieces : List Piece} {value : Text → Text} {name : Text}
    (member : name ∈ names pieces) : valueOf (assignment pieces value) name = value name := by
  obtain ⟨entry, inValues, isValue⟩ := (assigns_assignment pieces value).exists_lookup member
  obtain ⟨before, after, cut, -⟩ := List.lookup_eq_some_iff.mp isValue
  have inAssignment : (name, entry.2) ∈ assignment pieces value := by simp [cut]
  obtain ⟨other, -, same⟩ := List.mem_map.mp inAssignment
  rw [Prod.mk.injEq] at same
  rw [valueOf, isValue, Option.getD_some, ← same.2, same.1]

section Converse

variable {pieces : List Piece}
  (routesBack : ∀ values, Assigns pieces values → RoutesBack pieces values)

include routesBack

/-- The check and the segments agree on any assignment of values that are not
empty. -/
theorem exists_compared_iff {value : Text → Text} (nonempty : ∀ name, value name ≠ []) :
    (∃ index segment, IsCompared pieces index ∧ (segments pieces)[index]? = some segment ∧
        isDotSegment (filled (assignment pieces value) segment) = true) ↔
      ∃ segment ∈ segments pieces, names segment ≠ [] ∧
        isDotSegment (filled (assignment pieces value) segment) = true := by
  have entries : ∀ entry ∈ assignment pieces value, entry.2 ≠ [] := by
    intro entry member
    obtain ⟨name, -, rfl⟩ := List.mem_map.mp member
    exact nonempty name
  have notEmpty : ¬ ∃ entry ∈ assignment pieces value, entry.2 = [] :=
    fun ⟨entry, member, isEmpty⟩ => entries entry member isEmpty
  have assigns := assigns_assignment pieces value
  have exactly := (routesBack _ assigns).panics_iff
  rw [or_iff_right notEmpty] at exactly
  rw [← dotSegment_ne_none_iff, ← exactly]
  rcases assigns.renderEndpointPath_eq entries with ⟨check, renders⟩ | ⟨check, panics⟩
  · simp [check, renders]
  · exact ⟨fun _ => panics, fun _ => check⟩

/-- A template all of whose assignments route back is one the check is right
about. -/
theorem aligned_of_routesBack (distinct : (names pieces).Nodup)
    (single : ∀ segment ∈ segments pieces, (names segment).length ≤ 1) : Aligned pieces := by
  have literal : ∀ index segment, (segments pieces)[index]? = some segment → names segment = [] →
      IsCompared pieces index → isDotSegment (spelled segment) = false := by
    intro index segment isSegment noVariable compared
    rw [Bool.eq_false_iff]
    intro dots
    rw [← filled_of_literals (assignment pieces fun _ => ['x']) noVariable] at dots
    obtain ⟨other, member, hasVariable, otherDots⟩ :=
      (exists_compared_iff routesBack fun _ => List.cons_ne_nil 'x' []).mp
        ⟨index, segment, compared, isSegment, dots⟩
    obtain ⟨name, inSegment⟩ := List.exists_mem_of_ne_nil _ hasVariable
    rw [isDotSegment_filled_of_mem inSegment
      (valueOf_assignment (mem_names_of_segment member inSegment))] at otherDots
    cases otherDots
  refine ⟨?_, literal⟩
  intro index segment value isSegment hasVariable nonempty dots
  obtain ⟨name, isNames⟩ := exists_eq_singleton single isSegment hasVariable
  -- The value of this variable makes its segment a dot segment; no other one is.
  let chosen : Text → Text := fun other => if other = name then value else ['x']
  have chosenNonempty : ∀ other, chosen other ≠ [] := by
    intro other
    by_cases same : other = name <;> simp [chosen, same, nonempty]
  have member : segment ∈ segments pieces := List.mem_of_getElem? isSegment
  have inSegment : name ∈ names segment := by
    rw [isNames]
    exact List.mem_singleton_self name
  have fills : filled (assignment pieces chosen) segment = segment.flatMap (filledBy value) := by
    refine filled_eq_flatMap fun other inNames => ?_
    rw [isNames, List.mem_singleton] at inNames
    subst inNames
    rw [valueOf_assignment (mem_names_of_segment member inSegment)]
    exact if_pos rfl
  obtain ⟨other, found, compared, isFound, foundDots⟩ :=
    (exists_compared_iff routesBack chosenNonempty).mpr
      ⟨segment, member, hasVariable, fills ▸ dots⟩
  by_cases foundLiteral : names found = []
  · rw [filled_of_literals _ foundLiteral, literal other found isFound foundLiteral compared]
      at foundDots
    cases foundDots
  · obtain ⟨otherName, isOtherNames⟩ := exists_eq_singleton single isFound foundLiteral
    have inFound : otherName ∈ names found := by
      rw [isOtherNames]
      exact List.mem_singleton_self otherName
    by_cases same : otherName = name
    · subst same
      rwa [← index_unique distinct isFound isSegment inFound inSegment]
    · have isLetter : valueOf (assignment pieces chosen) otherName = ['x'] := by
        rw [valueOf_assignment (mem_names_of_segment (List.mem_of_getElem? isFound) inFound)]
        exact if_neg same
      rw [isDotSegment_filled_of_mem inFound isLetter] at foundDots
      cases foundDots

end Converse

/-- A template of at most one variable a segment routes back, whatever values it
is given, exactly where the check looks at every segment a value can make a dot
segment and at no literal dot segment. -/
theorem routesBack_iff_aligned {pieces : List Piece} (distinct : (names pieces).Nodup)
    (single : ∀ segment ∈ segments pieces, (names segment).length ≤ 1) :
    (∀ values, Assigns pieces values → RoutesBack pieces values) ↔ Aligned pieces :=
  ⟨fun routesBack => aligned_of_routesBack routesBack distinct single,
    fun aligned _ assigns => aligned.routesBack single assigns⟩

theorem brace_mem_spelled_iff {segment : List Piece} :
    '\x7b' ∈ spelled segment ↔ names segment ≠ [] := by
  constructor
  · intro brace noVariable
    exact (braceless_spelled (List.filterMap_eq_nil_iff.mp noVariable)).1 brace
  · intro hasVariable
    obtain ⟨name, member⟩ := List.exists_mem_of_ne_nil _ hasVariable
    obtain ⟨piece, inSegment, isName⟩ := List.mem_filterMap.mp member
    refine List.mem_flatMap.mpr ⟨piece, inSegment, ?_⟩
    cases piece with
    | expression => exact List.mem_cons_self
    | slash => cases isName
    | literal => cases isName
    | triple => cases isName

/-- It does where no name of a variable holds a slash. -/
theorem aligned_of_slashless {pieces : List Piece} (slashless : ∀ name ∈ names pieces, '/' ∉ name) :
    Aligned pieces := by
  have plain : ∀ piece ∈ pieces, piece.isSlash = false → '/' ∉ piece.text := by
    intro piece member within
    cases piece with
    | expression name =>
        have inside := slashless name.text (List.mem_filterMap.mpr ⟨_, member, rfl⟩)
        simpa [Piece.text] using inside
    | slash => cases within
    | literal => exact notMem_filledPiece [] within
    | triple => exact notMem_filledPiece [] within
  have parts : (spelled pieces).splitOn '/' = (segments pieces).map spelled :=
    splitOn_flatMap (fun piece isSlash => by rw [eq_slash isSlash, Piece.text]) plain
  have compared_iff {index : Nat} {segment : List Piece}
      (isSegment : (segments pieces)[index]? = some segment) :
      IsCompared pieces index ↔ names segment ≠ [] := by
    rw [IsCompared, parts, List.getElem?_map, isSegment, ← brace_mem_spelled_iff]
    simp
  exact ⟨fun index segment _ isSegment hasVariable _ _ => (compared_iff isSegment).mpr hasVariable,
    fun index segment isSegment noVariable compared =>
      absurd noVariable ((compared_iff isSegment).mp compared)⟩

/-- A template whose first variable has a slash in its name. -/
def slashed : List Piece :=
  [.slash, .expression ⟨"a/b".toList, by decide, by decide, by decide⟩,
    .slash, .expression ⟨['c'], by decide, by decide, by decide⟩]

/-- Values of its variables, the second of them a dot. -/
def dotted : List (Text × Text) :=
  [("a/b".toList, ['x']), (['c'], ['.'])]

/-- The second segment becomes a dot segment, and rendering does not panic. -/
theorem renderEndpointPath_slashed :
    renderEndpointPath (names slashed) (spelled slashed) dotted = .ok "/x/.".toList := by
  decide

theorem segments_slashed : segments slashed =
    [[], [.expression ⟨"a/b".toList, by decide, by decide, by decide⟩],
      [.expression ⟨['c'], by decide, by decide, by decide⟩]] :=
  rfl

/-- A template of one variable. -/
def oneVariable : List Piece :=
  [.slash, .expression ⟨['a'], by decide, by decide, by decide⟩]

theorem routesBack_oneVariable : RoutesBack oneVariable [(['a'], ['.', 'b'])] := by
  have single : ∀ segment ∈ segments oneVariable, (names segment).length ≤ 1 := by
    rw [show segments oneVariable =
      [[], [.expression ⟨['a'], by decide, by decide, by decide⟩]] from rfl]
    simp
  exact (routesBack_iff_aligned (by decide) single).mpr (aligned_of_slashless (by decide)) _
    (List.Perm.refl _)

theorem not_routesBack_slashed :
    ¬ ∀ pieces ∈ pathTemplate, (names pieces).Nodup →
      (∀ segment ∈ segments pieces, (names segment).length ≤ 1) →
        ∀ values, Assigns pieces values → RoutesBack pieces values := by
  intro all
  have following : slashed.tail ∈ afterSlash := by
    simp [slashed, cons_mem_afterSlash_iff, cons_mem_withinSegment_iff, nil_mem_withinSegment,
      Piece.isSlash]
  have single : ∀ segment ∈ segments slashed, (names segment).length ≤ 1 := by
    rw [segments_slashed]
    simp
  have back := all slashed (cons_mem_singleton_mul following) (by decide) single dotted
    (List.Perm.refl _)
  obtain ⟨panic, panics⟩ := back.panics_iff.mpr
    (.inr ⟨[.expression ⟨['c'], by decide, by decide, by decide⟩], by simp [segments_slashed],
      by simp, by decide⟩)
  rw [renderEndpointPath_slashed] at panics
  cases panics

end Kynos.Uri
