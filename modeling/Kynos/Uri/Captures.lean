import Kynos.Uri.Substitute

/-!
# Segments and captures

A path rendered from a template of at most one variable a segment has the
template's segments and matches the template, and each variable captures the
spelling of its value. The check for dot segments looks at some of the segments.
-/

namespace Kynos.Uri

open Kynos.Word Kynos.Http Kynos.OpenApi

/-! ## Segments and captures -/

/-- What stands between the slashes of a template, before its first slash too. -/
def segments (pieces : List Piece) : List (List Piece) :=
  pieces.splitOnP Piece.isSlash

/-- A text without a word it begins with. -/
def stripStart (word text : Text) : Option Text :=
  if word.isPrefixOf text then some (text.drop word.length) else none

/-- A text without a word it ends with. -/
def stripEnd (word text : Text) : Option Text :=
  if word.isSuffixOf text then some (text.take (text.length - word.length)) else none

/-- What the variable of a segment captures of a text the segment matches. -/
def captureSegment : List Piece → Text → Option (List (Text × Text))
  | [], text => if text.isEmpty then some [] else none
  | .expression name :: after, text =>
      (stripEnd (spelled after) text).bind fun value =>
        if value.isEmpty then none else some [(name.text, value)]
  | piece :: after, text => (stripStart piece.text text).bind (captureSegment after)

/-- What the variables of a template capture of a path it matches. -/
def captures (pieces : List Piece) (path : Text) : Option (List (Text × Text)) :=
  let texts := path.splitOn '/'
  if texts.length = (segments pieces).length then
    (((segments pieces).zip texts).mapM fun pair => captureSegment pair.1 pair.2).map List.flatten
  else
    none

/-! ## The segments of a rendered path -/

theorem eq_slash {piece : Piece} (isSlash : piece.isSlash = true) : piece = .slash := by
  cases piece with
  | slash => rfl
  | literal => cases isSlash
  | triple => cases isSlash
  | expression => cases isSlash

theorem notMem_filledPiece (values : List (Text × Text)) {piece : Piece}
    (within : piece.isSlash = false) : '/' ∉ filledPiece values piece := by
  cases piece with
  | slash => cases within
  | literal character allowed =>
      simpa [filledPiece, Piece.text] using (ne_of_isPathCharacter allowed (by decide)).symm
  | triple high low hexdigits =>
      have outside : isAsciiHexdigit '/' = false := by decide
      simpa [filledPiece, Piece.text] using
        ⟨(ne_of_isAsciiHexdigit hexdigits.1 outside).symm,
          (ne_of_isAsciiHexdigit hexdigits.2 outside).symm⟩
  | expression name => exact notMem_encodeSegment (by decide) _

/-- A filled template is split where the template has slashes. -/
theorem splitOn_filled (values : List (Text × Text)) (pieces : List Piece) :
    (filled values pieces).splitOn '/' = (segments pieces).map (filled values) := by
  refine splitOn_flatMap (fun piece isSlash => ?_) (fun piece _ => notMem_filledPiece values)
  rw [eq_slash isSlash]
  rfl

theorem names_eq_flatten (pieces : List Piece) :
    names pieces = ((segments pieces).map names).flatten := by
  induction pieces with
  | nil => rfl
  | cons piece pieces ih =>
      rw [segments, List.splitOnP_cons_eq_if_modifyHead]
      cases isSlash : piece.isSlash with
      | true =>
          cases piece with
          | slash => exact ih
          | literal => cases isSlash
          | triple => cases isSlash
          | expression => cases isSlash
      | false =>
          rw [segments] at ih
          cases parts : pieces.splitOnP Piece.isSlash with
          | nil => exact absurd parts (List.splitOnP_ne_nil _ _)
          | cons head tail =>
              rw [parts, List.map_cons, List.flatten_cons] at ih
              rw [if_neg (by simp), List.modifyHead_cons, List.map_cons, List.flatten_cons]
              have joined : names (piece :: pieces) = names [piece] ++ names pieces :=
                names_append [piece] pieces
              have inHead : names (piece :: head) = names [piece] ++ names head :=
                names_append [piece] head
              rw [joined, inHead, ih, List.append_assoc]

/-! ## Rendering -/

theorem unclosed_of_mem_names {pieces : List Piece} {name : Text} (member : name ∈ names pieces) :
    '\x7d' ∉ name := by
  obtain ⟨piece, -, isName⟩ := List.mem_filterMap.mp member
  cases piece with
  | expression variableName =>
      obtain rfl := Option.some.inj isName
      exact variableName.unclosed
  | slash => cases isName
  | literal => cases isName
  | triple => cases isName

/-- Where every variable has a value, all are filled. -/
theorem partlyFilled_eq_filled {pieces : List Piece} {values : List (Text × Text)}
    (known : ∀ name ∈ names pieces, ∃ value, values.lookup name = some value) :
    partlyFilled values pieces = filled values pieces := by
  refine List.flatMap_congr fun piece member => ?_
  cases piece with
  | expression name =>
      obtain ⟨value, isValue⟩ := known name.text (List.mem_filterMap.mpr ⟨_, member, rfl⟩)
      rw [partlyFilledPiece_of_some isValue, filledPiece, valueOf, isValue, Option.getD_some]
  | slash => rfl
  | literal => rfl
  | triple => rfl

/-- Values that name each variable of a template once. -/
def Assigns (pieces : List Piece) (values : List (Text × Text)) : Prop :=
  (values.map Prod.fst).Perm (names pieces)

section Assigns

variable {pieces : List Piece} {values : List (Text × Text)} (assigns : Assigns pieces values)

include assigns

theorem Assigns.mem_names {entry : Text × Text} (member : entry ∈ values) : entry.1 ∈ names pieces :=
  assigns.mem_iff.mp (List.mem_map.mpr ⟨entry, member, rfl⟩)

theorem Assigns.exists_lookup {name : Text} (member : name ∈ names pieces) :
    ∃ entry ∈ values, values.lookup name = some entry.2 := by
  obtain ⟨entry, inValues, rfl⟩ := List.mem_map.mp (assigns.mem_iff.mpr member)
  cases found : values.lookup entry.1 with
  | none => exact absurd (List.lookup_eq_none_iff.mp found entry inValues) (by simp)
  | some value =>
      obtain ⟨before, after, cut, -⟩ := List.lookup_eq_some_iff.mp found
      exact ⟨(entry.1, value), by simp [cut], rfl⟩

theorem Assigns.valueOf_ne_nil (nonempty : ∀ entry ∈ values, entry.2 ≠ []) {name : Text}
    (member : name ∈ names pieces) : valueOf values name ≠ [] := by
  obtain ⟨entry, inValues, isValue⟩ := assigns.exists_lookup member
  rw [valueOf, isValue]
  exact nonempty entry inValues

/-- A value that is empty panics. -/
theorem Assigns.exists_panic (empty : ∃ entry ∈ values, entry.2 = []) :
    ∃ panic, renderEndpointPath (names pieces) (spelled pieces) values = .error panic := by
  have count : values.length = (names pieces).length := by
    rw [← assigns.length_eq, List.length_map]
  obtain ⟨panic, panics⟩ := exists_substitute_eq_error empty (spelled pieces)
  refine ⟨panic, ?_⟩
  rw [renderEndpointPath, if_neg (by simp [count]), panics]

/-- Otherwise every variable is filled, and the check decides. -/
theorem Assigns.renderEndpointPath_eq (nonempty : ∀ entry ∈ values, entry.2 ≠ []) :
    (dotSegment (spelled pieces) (filled values pieces) = none ∧
        renderEndpointPath (names pieces) (spelled pieces) values = .ok (filled values pieces)) ∨
      (dotSegment (spelled pieces) (filled values pieces) ≠ none ∧
        ∃ panic, renderEndpointPath (names pieces) (spelled pieces) values = .error panic) := by
  have count : values.length = (names pieces).length := by
    rw [← assigns.length_eq, List.length_map]
  have known : ∀ name ∈ names pieces, ∃ value, values.lookup name = some value := by
    intro name member
    obtain ⟨entry, -, isValue⟩ := assigns.exists_lookup member
    exact ⟨entry.2, isValue⟩
  have substituted : substitute (names pieces) (spelled pieces) values (spelled pieces) =
      .ok (filled values pieces) := by
    have fills : substitute (names pieces) (spelled pieces) values (partlyFilled [] pieces) =
        .ok (partlyFilled ([] ++ values) pieces) :=
      substitute_eq (fun entry => assigns.mem_names)
        (fun entry member => unclosed_of_mem_names (assigns.mem_names member)) nonempty
    rwa [partlyFilled_nil, List.nil_append, partlyFilled_eq_filled known] at fills
  rw [renderEndpointPath, if_neg (by simp [count]), substituted]
  cases check : dotSegment (spelled pieces) (filled values pieces) with
  | none => exact .inl ⟨rfl, by simp only [check]⟩
  | some found =>
      refine .inr ⟨Option.some_ne_none _, ?_⟩
      simp only [check]
      split <;> exact ⟨_, rfl⟩

end Assigns

/-! ## The check -/

/-- A place among the segments that the check looks at: the template has a brace
there when it is split at every slash. -/
def IsCompared (pieces : List Piece) (index : Nat) : Prop :=
  ∃ part, ((spelled pieces).splitOn '/')[index]? = some part ∧ '\x7b' ∈ part

/-- The check finds the dot segments at these places. -/
theorem dotSegment_ne_none_iff {pieces : List Piece} {values : List (Text × Text)} :
    dotSegment (spelled pieces) (filled values pieces) ≠ none ↔
      ∃ index segment, IsCompared pieces index ∧ (segments pieces)[index]? = some segment ∧
        isDotSegment (filled values segment) = true := by
  rw [dotSegment, splitOn_filled, Option.ne_none_iff_isSome, Option.isSome_map, List.find?_isSome]
  constructor
  · rintro ⟨⟨part, text⟩, member, found⟩
    rw [Bool.and_eq_true, List.contains_iff_mem] at found
    obtain ⟨index, isPair⟩ := List.mem_iff_getElem?.mp member
    obtain ⟨isPart, isText⟩ := List.getElem?_zip_eq_some.mp isPair
    rw [List.getElem?_map, Option.map_eq_some_iff] at isText
    obtain ⟨segment, isSegment, rfl⟩ := isText
    exact ⟨index, segment, ⟨part, isPart, found.1⟩, isSegment, found.2⟩
  · rintro ⟨index, segment, ⟨part, isPart, brace⟩, isSegment, dots⟩
    have isText : ((segments pieces).map (filled values))[index]? = some (filled values segment) := by
      rw [List.getElem?_map, isSegment, Option.map_some]
    refine ⟨(part, filled values segment), List.mem_iff_getElem?.mpr
      ⟨index, List.getElem?_zip_eq_some.mpr ⟨isPart, isText⟩⟩, ?_⟩
    rw [Bool.and_eq_true, List.contains_iff_mem]
    exact ⟨brace, dots⟩

/-! ## Captures -/

theorem stripStart_append (word text : Text) : stripStart word (word ++ text) = some text := by
  rw [stripStart, if_pos (List.isPrefixOf_iff_prefix.mpr (List.prefix_append word text)),
    List.drop_left]

theorem stripEnd_append (word text : Text) : stripEnd word (text ++ word) = some text := by
  have shorter : (text ++ word).length - word.length = text.length := by simp
  rw [stripEnd, if_pos (List.isSuffixOf_iff_suffix.mpr (List.suffix_append text word)), shorter,
    List.take_left]

theorem stripEnd_eq_some_iff {word text rest : Text} :
    stripEnd word text = some rest ↔ text = rest ++ word := by
  constructor
  · intro strips
    unfold stripEnd at strips
    split at strips
    · next ends =>
        obtain ⟨front, rfl⟩ := List.isSuffixOf_iff_suffix.mp ends
        cases strips
        rw [List.length_append, Nat.add_sub_cancel_right, List.take_left]
    · cases strips
  · rintro rfl
    exact stripEnd_append word rest

theorem filled_of_literals (values : List (Text × Text)) {pieces : List Piece}
    (literals : names pieces = []) : filled values pieces = spelled pieces := by
  refine List.flatMap_congr fun piece member => ?_
  have literal := List.filterMap_eq_nil_iff.mp literals piece member
  cases piece with
  | expression => cases literal
  | slash => rfl
  | literal => rfl
  | triple => rfl

/-- A segment of at most one variable captures its value's spelling. -/
theorem captureSegment_filled {values : List (Text × Text)} {segment : List Piece}
    (single : (names segment).length ≤ 1) (nonempty : ∀ name ∈ names segment, valueOf values name ≠ []) :
    captureSegment segment (filled values segment) =
      some ((names segment).map fun name => (name, encodeSegment (valueOf values name))) := by
  induction segment with
  | nil => rfl
  | cons piece after ih =>
      have strips {literal : Piece} (isLiteral : literal.name = none)
          (spells : filledPiece values literal = literal.text)
          (reads : ∀ text, captureSegment (literal :: after) text =
            (stripStart literal.text text).bind (captureSegment after))
          (same : piece = literal) :
          captureSegment (piece :: after) (filled values (piece :: after)) =
            some ((names (piece :: after)).map
              fun name => (name, encodeSegment (valueOf values name))) := by
        subst same
        have sameNames : names (piece :: after) = names after := by
          rw [names, List.filterMap_cons, isLiteral, names]
        rw [sameNames] at single nonempty ⊢
        rw [reads, filled, List.flatMap_cons, spells, stripStart_append, Option.bind_some]
        exact ih single nonempty
      cases piece with
      | slash => exact strips rfl rfl (fun _ => rfl) rfl
      | literal character allowed => exact strips rfl rfl (fun _ => rfl) rfl
      | triple high low hexdigits => exact strips rfl rfl (fun _ => rfl) rfl
      | expression name =>
          rw [names_expression, List.length_cons] at single
          have noOther : names after = [] := List.eq_nil_of_length_eq_zero (by omega)
          have isValue : encodeSegment (valueOf values name.text) ≠ [] := fun isNil =>
            nonempty name.text (by simp) (encodeSegment_eq_nil_iff.mp isNil)
          have spells : filled values (.expression name :: after) =
              encodeSegment (valueOf values name.text) ++ spelled after := by
            rw [filled, List.flatMap_cons, ← filled_of_literals values noOther]
            rfl
          rw [captureSegment, spells, stripEnd_append, Option.bind_some,
            if_neg (by simpa using isValue), names_expression, noOther]
          rfl

theorem mem_names_of_segment {pieces segment : List Piece} {name : Text}
    (isSegment : segment ∈ segments pieces) (member : name ∈ names segment) :
    name ∈ names pieces := by
  rw [names_eq_flatten]
  exact List.mem_flatten.mpr ⟨_, List.mem_map.mpr ⟨segment, isSegment, rfl⟩, member⟩

theorem mapM_zip_map {α β γ : Type} {act : α → β → Option γ} {image : α → β} {result : α → γ}
    {list : List α} (each : ∀ item ∈ list, act item (image item) = some (result item)) :
    (list.zip (list.map image)).mapM (fun pair => act pair.1 pair.2) = some (list.map result) := by
  induction list with
  | nil => rfl
  | cons item list ih =>
      obtain ⟨first, others⟩ := List.forall_mem_cons.mp each
      rw [List.map_cons, List.zip_cons_cons, List.mapM_cons, first, ih others]
      rfl

/-- A filled template matches itself, and each variable captures its value. -/
theorem captures_filled {pieces : List Piece} {values : List (Text × Text)}
    (single : ∀ segment ∈ segments pieces, (names segment).length ≤ 1)
    (nonempty : ∀ name ∈ names pieces, valueOf values name ≠ []) :
    captures pieces (filled values pieces) =
      some ((names pieces).map fun name => (name, encodeSegment (valueOf values name))) := by
  have each : ∀ segment ∈ segments pieces, captureSegment segment (filled values segment) =
      some ((names segment).map fun name => (name, encodeSegment (valueOf values name))) :=
    fun segment member => captureSegment_filled (single segment member)
      fun name inSegment => nonempty name (mem_names_of_segment member inSegment)
  have counts : ((segments pieces).map (filled values)).length = (segments pieces).length :=
    List.length_map _
  rw [captures, splitOn_filled, if_pos counts, mapM_zip_map each, Option.map_some,
    names_eq_flatten pieces, List.map_flatten, List.map_map]
  rfl

end Kynos.Uri
