import Kynos.OpenApi.PathGrammar

/-!
# Renaming and nesting path templates

The normalized form of a template leaves out the names of its variables and
nothing else. A template nested under another one has the variables of both.
-/

namespace Kynos.OpenApi

open Kynos.Word

/-! ## Renaming -/

/-- One piece, or two expressions whose variables are named differently. -/
inductive Piece.Renamed : Piece → Piece → Prop where
  | same (piece : Piece) : Renamed piece piece
  | expression (first second : VariableName) : Renamed (.expression first) (.expression second)

/-- The spelling of a piece without the name of its variable. -/
def Piece.nameless : Piece → Text
  | .expression _ => "\x7b\x7d".toList
  | piece => piece.text

/-- Without names, a text is read in one way up to the names. -/
theorem isCode_nameless : IsCode Piece.Renamed Piece.nameless where
  nonempty piece := by cases piece <;> simp [Piece.nameless, Piece.text]
  alike renamed := by cases renamed <;> rfl
  unique {piece other rest otherRest} same := by
    cases piece <;> cases other <;>
      simp only [Piece.nameless, Piece.text, List.cons_append, List.nil_append, String.reduceToList,
        List.cons.injEq, Char.reduceEq, false_and, true_and] at same
    case slash.slash => exact .same _
    case literal.literal =>
      obtain ⟨rfl, -⟩ := same
      exact .same _
    case triple.triple =>
      obtain ⟨rfl, rfl, -⟩ := same
      exact .same _
    case expression.expression first second => exact .expression first second
    all_goals
      obtain ⟨rfl, -⟩ := same
      exact absurd ‹isPathCharacter _ = true› (by decide)

theorem flatMap_nameless_of_literals {pieces : List Piece}
    (literals : ∀ piece ∈ pieces, piece.name = none) :
    pieces.flatMap Piece.nameless = spelled pieces := by
  refine List.flatMap_congr fun piece member => ?_
  have literal := literals piece member
  cases piece with
  | expression => cases literal
  | slash => rfl
  | literal => rfl
  | triple => rfl

/-- The normalized form of what pieces spell is what they spell without names. -/
theorem normalizedFrom_spelled (pieces : List Piece) :
    PathTemplate.normalizedFrom (spelled pieces) = some (pieces.flatMap Piece.nameless) := by
  generalize spells : spelled pieces = rest
  fun_induction PathTemplate.normalizedFrom rest generalizing pieces with
  | case1 rest cut =>
      subst spells
      rw [flatMap_nameless_of_literals (literals_of_cut cut)]
  | case2 rest literal afterOpen cut unclosed =>
      subst spells
      obtain ⟨literals, name, others, -, -, -, closed⟩ := exists_expression_of_cut cut
      rw [unclosed] at closed
      cases closed
  | case3 rest literal afterOpen cut inside afterClose closed ih =>
      subst spells
      obtain ⟨literals, name, others, areLiterals, rfl, rfl, closes⟩ := exists_expression_of_cut cut
      rw [closed, Option.some.injEq, Prod.mk.injEq] at closes
      rw [ih others closes.2.symm, List.flatMap_append, flatMap_nameless_of_literals areLiterals,
        List.flatMap_cons, Option.map_some, List.append_assoc]
      rfl

/-- One template is the other with its variables renamed, position by position. -/
def IsRenaming (first second : PathTemplate) : Prop :=
  ∃ pieces ∈ pathTemplate, ∃ renamed ∈ pathTemplate, spelled pieces = first.raw ∧
    spelled renamed = second.raw ∧ List.Forall₂ Piece.Renamed pieces renamed

/-- A template as the parser gives it. -/
def Accepted (template : PathTemplate) : Prop :=
  PathTemplate.parse template.raw = .ok template

theorem Accepted.exists_pieces {template : PathTemplate} (accepted : Accepted template) :
    ∃ pieces ∈ pathTemplate, spelled pieces = template.raw ∧
      template.variableNames = names pieces := by
  obtain ⟨pieces, derived, spells, -, named⟩ := parse_eq_ok_iff.mp accepted
  exact ⟨pieces, derived, spells, by rw [named]⟩

/-- Normalized forms are equal up to the names of variables. -/
theorem exists_normalized_iff {first second : PathTemplate} (accepted : Accepted first)
    (otherAccepted : Accepted second) :
    ∃ left right, first.normalized = some left ∧ second.normalized = some right ∧
      (left = right ↔ IsRenaming first second) := by
  obtain ⟨pieces, derived, spells, -⟩ := accepted.exists_pieces
  obtain ⟨others, othersDerived, othersSpell, -⟩ := otherAccepted.exists_pieces
  refine ⟨pieces.flatMap Piece.nameless, others.flatMap Piece.nameless, ?_, ?_,
    isCode_nameless.flatMap_eq_iff.trans ?_⟩
  · rw [PathTemplate.normalized, ← spells, normalizedFrom_spelled]
  · rw [PathTemplate.normalized, ← othersSpell, normalizedFrom_spelled]
  · constructor
    · intro renamed
      exact ⟨pieces, derived, others, othersDerived, spells, othersSpell, renamed⟩
    · rintro ⟨pieces', -, others', -, spells', othersSpell', renamed⟩
      rw [← spells] at spells'
      rw [← othersSpell] at othersSpell'
      rwa [spelled_injective spells', spelled_injective othersSpell'] at renamed

/-! ## Nesting -/

/-- Only a slash ends in a slash. -/
theorem rdropWhile_text {piece : Piece} (within : piece.isSlash = false) (before : Text) :
    (before ++ piece.text).rdropWhile (· == '/') = before ++ piece.text := by
  obtain ⟨init, last, spells, notSlash⟩ :
      ∃ init last, piece.text = init ++ [last] ∧ last ≠ '/' := by
    cases piece with
    | slash => cases within
    | literal character allowed =>
        exact ⟨[], character, rfl, ne_of_isPathCharacter allowed (by decide)⟩
    | triple high low hexdigits =>
        exact ⟨['%', high], low, rfl, ne_of_isAsciiHexdigit hexdigits.2 (by decide)⟩
    | expression name => exact ⟨'\x7b' :: name.text, '\x7d', rfl, by decide⟩
  rw [spells, ← List.append_assoc, List.rdropWhile_concat_neg _ _ _ (by simpa using notSlash)]

/-- The slashes at the end of a template are its last pieces. -/
theorem rdropWhile_spelled (pieces : List Piece) :
    (spelled pieces).rdropWhile (· == '/') = spelled (pieces.rdropWhile Piece.isSlash) := by
  induction pieces using List.reverseRecOn with
  | nil => rfl
  | append_singleton pieces piece ih =>
      cases isSlash : piece.isSlash with
      | true =>
          cases piece with
          | slash =>
              rw [List.rdropWhile_concat_pos _ _ _ isSlash, spelled_append, ← ih]
              exact List.rdropWhile_concat_pos _ _ _ rfl
          | literal => cases isSlash
          | triple => cases isSlash
          | expression => cases isSlash
      | false =>
          rw [List.rdropWhile_concat_neg _ _ _ (by simp [isSlash]), spelled_append, spelled_cons,
            spelled_nil, List.append_nil, rdropWhile_text isSlash]

theorem names_rdropWhile (pieces : List Piece) :
    names (pieces.rdropWhile Piece.isSlash) = names pieces := by
  induction pieces using List.reverseRecOn with
  | nil => rfl
  | append_singleton pieces piece ih =>
      cases isSlash : piece.isSlash with
      | true =>
          cases piece with
          | slash =>
              rw [List.rdropWhile_concat_pos _ _ _ isSlash, ih, names_append]
              exact (List.append_nil _).symm
          | literal => cases isSlash
          | triple => cases isSlash
          | expression => cases isSlash
      | false => rw [List.rdropWhile_concat_neg _ _ _ (by simp [isSlash])]

/-- A nested template has the variables of both, the outer ones first. -/
theorem variableNames_withPrefix {template outerTemplate result : PathTemplate} {outer : Text}
    (accepted : Accepted template) (outerAccepted : PathTemplate.parse outer = .ok outerTemplate)
    (nested : template.withPrefix outer = .ok result) :
    result.variableNames = outerTemplate.variableNames ++ template.variableNames := by
  obtain ⟨pieces, -, spells, named⟩ := accepted.exists_pieces
  obtain ⟨outerPieces, -, rfl, -, rfl⟩ := parse_eq_ok_iff.mp outerAccepted
  rw [PathTemplate.withPrefix, rdropWhile_spelled] at nested
  rw [named]
  change _ = names outerPieces ++ _
  rw [← names_rdropWhile outerPieces]
  generalize outerPieces.rdropWhile Piece.isSlash = trimmed at nested ⊢
  split at nested
  · rename_i isEmpty
    have nothing : trimmed = [] := spelled_injective (List.isEmpty_iff.mp isEmpty)
    rw [Except.ok.injEq] at nested
    rw [← nested, named, nothing]
    rfl
  · obtain ⟨joined, -, joins, -, rfl⟩ := parse_eq_ok_iff.mp nested
    rw [← spells, ← spelled_append] at joins
    rw [spelled_injective joins, names_append]

/-! ## What templates are -/

/-- The parser accepts the grammar and lists the variables; normalized forms are
equal up to renaming; and nesting puts the outer variables first. -/
theorem path_templates :
    (∀ raw template, PathTemplate.parse raw = .ok template ↔
      ∃ pieces ∈ pathTemplate, spelled pieces = raw ∧ (names pieces).Nodup ∧
        template = ⟨raw, names pieces⟩) ∧
      (∀ first second, Accepted first → Accepted second →
        ∃ left right, first.normalized = some left ∧ second.normalized = some right ∧
          (left = right ↔ IsRenaming first second)) ∧
      ∀ template outerTemplate result outer, Accepted template →
        PathTemplate.parse outer = .ok outerTemplate → template.withPrefix outer = .ok result →
        result.variableNames = outerTemplate.variableNames ++ template.variableNames :=
  ⟨fun _ _ => parse_eq_ok_iff, fun _ _ => exists_normalized_iff,
    fun _ _ _ _ => variableNames_withPrefix⟩

/-- A template of one variable. -/
def oneVariable (name : Text) : PathTemplate :=
  ⟨"/\x7b".toList ++ name ++ ['\x7d'], [name]⟩

theorem path_templates_oneVariable :
    (∃ left right, (oneVariable ['a']).normalized = some left ∧
      (oneVariable ['b']).normalized = some right ∧
        (left = right ↔ IsRenaming (oneVariable ['a']) (oneVariable ['b']))) ∧
      [['a'], ['b']] = (oneVariable ['a']).variableNames ++ (oneVariable ['b']).variableNames := by
  have first : Accepted (oneVariable ['a']) := by
    simp [Accepted, oneVariable, PathTemplate.parse, hasQueryOrFragment, hasQueryOrFragmentFrom,
      parseFrom, splitOnce, checkLiteral, checkSegments, checkSegmentsFrom]
  have second : Accepted (oneVariable ['b']) := by
    simp [Accepted, oneVariable, PathTemplate.parse, hasQueryOrFragment, hasQueryOrFragmentFrom,
      parseFrom, splitOnce, checkLiteral, checkSegments, checkSegmentsFrom]
  refine ⟨path_templates.2.1 _ _ first second,
    path_templates.2.2 _ _ ⟨"/\x7ba\x7d/\x7bb\x7d".toList, [['a'], ['b']]⟩ _ second first ?_⟩
  simp [oneVariable, PathTemplate.withPrefix, List.rdropWhile, PathTemplate.parse,
    hasQueryOrFragment, hasQueryOrFragmentFrom, parseFrom, splitOnce, checkLiteral, checkSegments,
    checkSegmentsFrom]

end Kynos.OpenApi
