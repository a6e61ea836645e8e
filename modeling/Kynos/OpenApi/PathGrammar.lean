import Kynos.OpenApi.PathTemplate
import Kynos.Word.Scan
import Kynos.Word.Led

/-!
# The grammar of path templates

A template is a list of pieces: slashes, the characters and triples of literals,
and expressions. The three passes accept exactly the spellings of the grammar
over pieces whose variables are named apart, and list these names in order.
-/

namespace Kynos.OpenApi

open Kynos.Word
open scoped Computability

/-! ## Pieces -/

/-- What stands between the braces of an expression. -/
structure VariableName where
  text : Text
  nonempty : text ≠ []
  unopened : '\x7b' ∉ text
  unclosed : '\x7d' ∉ text

/-- A terminal of the grammar. -/
inductive Piece where
  | slash
  | literal (character : Char) (allowed : isPathCharacter character = true)
  | triple (high low : Char) (hexdigits : isAsciiHexdigit high = true ∧ isAsciiHexdigit low = true)
  | expression (name : VariableName)

namespace Piece

/-- The spelling of a piece. -/
def text : Piece → Text
  | .slash => ['/']
  | .literal character _ => [character]
  | .triple high low _ => ['%', high, low]
  | .expression name => '\x7b' :: (name.text ++ ['\x7d'])

def isSlash : Piece → Bool
  | .slash => true
  | _ => false

/-- The name of an expression. -/
def name : Piece → Option Text
  | .expression name => some name.text
  | _ => none

end Piece

/-- The spelling of a list of pieces. -/
def spelled (pieces : List Piece) : Text :=
  pieces.flatMap Piece.text

/-- The names of the variables, in order. -/
def names (pieces : List Piece) : List Text :=
  pieces.filterMap Piece.name

/-! ## The grammar -/

/-- `path-segment = 1*( path-literal / template-expression )` -/
def pathSegment : Language Piece :=
  letters (·.isSlash = false) * (letters (·.isSlash = false))∗

/-- `path-template = "/" *( path-segment "/" ) [ path-segment ]` -/
def pathTemplate : Language Piece :=
  {[.slash]} * ((pathSegment * {[.slash]})∗ * optional pathSegment)

/-! ## Spellings are read in one way -/

@[simp]
theorem spelled_nil : spelled [] = [] :=
  rfl

@[simp]
theorem spelled_cons (piece : Piece) (pieces : List Piece) :
    spelled (piece :: pieces) = piece.text ++ spelled pieces :=
  rfl

@[simp]
theorem spelled_append (first second : List Piece) :
    spelled (first ++ second) = spelled first ++ spelled second :=
  List.flatMap_append

@[simp]
theorem names_append (first second : List Piece) :
    names (first ++ second) = names first ++ names second :=
  List.filterMap_append

theorem ne_of_isPathCharacter {character other : Char} (allowed : isPathCharacter character = true)
    (outside : isPathCharacter other = false) : character ≠ other := by
  rintro rfl
  rw [allowed] at outside
  cases outside

theorem ne_of_isAsciiHexdigit {character other : Char} (hexdigit : isAsciiHexdigit character = true)
    (outside : isAsciiHexdigit other = false) : character ≠ other := by
  rintro rfl
  rw [hexdigit] at outside
  cases outside

/-- The text before a first separator is settled. -/
theorem before_unique {separator : Char} {before before' after after' : Text}
    (plain : separator ∉ before) (plain' : separator ∉ before')
    (same : before ++ separator :: after = before' ++ separator :: after') :
    before = before' ∧ after = after' := by
  have first : splitOnce separator (before ++ separator :: after) = some (before, after) :=
    splitOnce_eq_some_iff.mpr ⟨plain, rfl⟩
  have second : splitOnce separator (before' ++ separator :: after') = some (before', after') :=
    splitOnce_eq_some_iff.mpr ⟨plain', rfl⟩
  rw [same, second, Option.some.injEq, Prod.mk.injEq] at first
  exact ⟨first.1.symm, first.2.symm⟩

theorem VariableName.ext {first second : VariableName} (same : first.text = second.text) :
    first = second := by
  cases first
  cases second
  cases same
  rfl

/-- The first piece of a text is settled by its first letter, and an expression
by its first closing brace. -/
theorem isCode : IsCode Eq Piece.text where
  nonempty piece := by cases piece <;> simp [Piece.text]
  alike same := by rw [same]
  unique {piece other rest otherRest} same := by
    cases piece <;> cases other <;>
      simp only [Piece.text, List.cons_append, List.nil_append, List.append_assoc,
        List.cons.injEq, Char.reduceEq, false_and, true_and] at same
    case slash.slash => rfl
    case literal.literal =>
      obtain ⟨rfl, -⟩ := same
      rfl
    case triple.triple =>
      obtain ⟨rfl, rfl, -⟩ := same
      rfl
    case expression.expression first second =>
      rw [VariableName.ext (before_unique first.unclosed second.unclosed same).1]
    all_goals
      obtain ⟨rfl, -⟩ := same
      exact absurd ‹isPathCharacter _ = true› (by decide)

theorem spelled_injective : Function.Injective spelled :=
  isCode.flatMap_injective

/-! ## Literals -/

/-- A piece that is no expression has no brace. -/
theorem Piece.braceless {piece : Piece} (literal : piece.name = none) :
    '\x7b' ∉ piece.text ∧ '\x7d' ∉ piece.text := by
  cases piece with
  | slash => decide
  | literal character allowed =>
      simp only [Piece.text, List.mem_singleton]
      exact ⟨(ne_of_isPathCharacter allowed (by decide)).symm,
        (ne_of_isPathCharacter allowed (by decide)).symm⟩
  | triple high low hexdigits =>
      have outside : isAsciiHexdigit '\x7b' = false ∧ isAsciiHexdigit '\x7d' = false := by decide
      simp only [Piece.text, List.mem_cons, List.not_mem_nil, or_false, not_or]
      exact ⟨⟨by decide, (ne_of_isAsciiHexdigit hexdigits.1 outside.1).symm,
          (ne_of_isAsciiHexdigit hexdigits.2 outside.1).symm⟩,
        by decide, (ne_of_isAsciiHexdigit hexdigits.1 outside.2).symm,
          (ne_of_isAsciiHexdigit hexdigits.2 outside.2).symm⟩
  | expression name => cases literal

theorem braceless_spelled {pieces : List Piece} (literals : ∀ piece ∈ pieces, piece.name = none) :
    '\x7b' ∉ spelled pieces ∧ '\x7d' ∉ spelled pieces := by
  constructor <;>
  · intro member
    obtain ⟨piece, inPieces, inText⟩ := List.mem_flatMap.mp member
    have braceless := piece.braceless (literals piece inPieces)
    simp_all

/-- The check reads one piece. -/
theorem checkLiteral_text (raw : Text) {piece : Piece} (literal : piece.name = none) (rest : Text) :
    checkLiteral raw (piece.text ++ rest) = checkLiteral raw rest := by
  cases piece with
  | slash =>
      rw [Piece.text, List.singleton_append, checkLiteral.eq_def]
      exact if_pos rfl
  | literal character allowed =>
      have notSlash : character ≠ '/' := ne_of_isPathCharacter allowed (by decide)
      have notBrace : character ≠ '\x7d' := ne_of_isPathCharacter allowed (by decide)
      have notPercent : character ≠ '%' := ne_of_isPathCharacter allowed (by decide)
      rw [Piece.text, List.singleton_append, checkLiteral.eq_def]
      simp only [if_neg notSlash, if_neg notBrace, if_neg notPercent, if_pos allowed]
  | triple high low hexdigits => simp [Piece.text, checkLiteral, hexdigits]
  | expression name => cases literal

/-- A text that pieces spell without an expression. -/
def IsLiteral (literal : Text) : Prop :=
  ∃ pieces, (∀ piece ∈ pieces, Piece.name piece = none) ∧ spelled pieces = literal

theorem IsLiteral.cons {piece : Piece} {rest : Text} (literal : piece.name = none)
    (isLiteral : IsLiteral rest) : IsLiteral (piece.text ++ rest) := by
  obtain ⟨pieces, literals, rfl⟩ := isLiteral
  exact ⟨piece :: pieces, List.forall_mem_cons.mpr ⟨literal, literals⟩, rfl⟩

/-- A literal is accepted where pieces spell it. -/
theorem checkLiteral_eq_ok_iff {raw literal : Text} :
    checkLiteral raw literal = .ok () ↔ IsLiteral literal := by
  constructor
  · intro accepted
    fun_induction checkLiteral raw literal with
    | case1 => exact ⟨[], by simp⟩
    | case2 rest ih => exact (ih accepted).cons (show Piece.slash.name = none from rfl)
    | case4 high low rest hexdigits _ _ ih =>
        exact (ih accepted).cons (show (Piece.triple high low hexdigits).name = none from rfl)
    | case7 character rest _ _ _ allowed ih =>
        exact (ih accepted).cons (show (Piece.literal character allowed).name = none from rfl)
    | _ => cases accepted
  · rintro ⟨pieces, literals, rfl⟩
    induction pieces with
    | nil => rfl
    | cons piece rest ih =>
        obtain ⟨first, others⟩ := List.forall_mem_cons.mp literals
        rw [spelled_cons, checkLiteral_text raw first, ih others]

/-! ## Expressions -/

@[simp]
theorem names_nil : names [] = [] :=
  rfl

@[simp]
theorem names_expression (name : VariableName) (pieces : List Piece) :
    names (.expression name :: pieces) = name.text :: names pieces :=
  rfl

theorem names_of_literals {pieces : List Piece} (literals : ∀ piece ∈ pieces, piece.name = none) :
    names pieces = [] :=
  List.filterMap_eq_nil_iff.mpr literals

/-- Pieces are literals up to the first expression. -/
theorem literals_or_expression (pieces : List Piece) :
    (∀ piece ∈ pieces, piece.name = none) ∨
      ∃ literals name rest, (∀ piece ∈ literals, Piece.name piece = none) ∧
        pieces = literals ++ .expression name :: rest := by
  induction pieces with
  | nil => exact .inl (by simp)
  | cons piece pieces ih =>
      cases isExpression : piece.name with
      | some name =>
          cases piece with
          | expression name => exact .inr ⟨[], name, pieces, by simp, rfl⟩
          | slash => cases isExpression
          | literal => cases isExpression
          | triple => cases isExpression
      | none =>
          rcases ih with literals | ⟨literals, name, rest, areLiterals, rfl⟩
          · exact .inl (List.forall_mem_cons.mpr ⟨isExpression, literals⟩)
          · exact .inr ⟨piece :: literals, name, rest,
              List.forall_mem_cons.mpr ⟨isExpression, areLiterals⟩, rfl⟩

/-- Without an opening brace, all pieces are literals. -/
theorem literals_of_cut {pieces : List Piece} (cut : splitOnce '\x7b' (spelled pieces) = none) :
    ∀ piece ∈ pieces, piece.name = none := by
  rcases literals_or_expression pieces with literals | ⟨literals, name, others, -, rfl⟩
  · exact literals
  · exact absurd (by simp [Piece.text]) (splitOnce_eq_none_iff.mp cut)

/-- With one, literals and an expression come first. -/
theorem exists_expression_of_cut {pieces : List Piece} {literal afterOpen : Text}
    (cut : splitOnce '\x7b' (spelled pieces) = some (literal, afterOpen)) :
    ∃ literals name others, (∀ piece ∈ literals, Piece.name piece = none) ∧
      pieces = literals ++ .expression name :: others ∧ literal = spelled literals ∧
      splitOnce '\x7d' afterOpen = some (name.text, spelled others) := by
  rcases literals_or_expression pieces with literals | ⟨literals, name, others, areLiterals, rfl⟩
  · rw [splitOnce_eq_none_iff.mpr (braceless_spelled literals).1] at cut
    cases cut
  · have spelling : spelled (literals ++ .expression name :: others) =
        spelled literals ++ '\x7b' :: (name.text ++ '\x7d' :: spelled others) := by
      simp [Piece.text]
    rw [spelling, splitOnce_eq_some_iff.mpr ⟨(braceless_spelled areLiterals).1, rfl⟩,
      Option.some.injEq, Prod.mk.injEq] at cut
    obtain ⟨rfl, rfl⟩ := cut
    exact ⟨literals, name, others, areLiterals, rfl, rfl,
      splitOnce_eq_some_iff.mpr ⟨name.unclosed, rfl⟩⟩

/-- What is left of a template is spelled by pieces whose variables, named apart
and from those read before, are these up to `result`. -/
def Reads (variableNames : List Text) (rest : Text) (result : List Text) : Prop :=
  ∃ pieces, spelled pieces = rest ∧ result = variableNames ++ names pieces ∧
    (names pieces).Nodup ∧ ∀ name ∈ names pieces, name ∉ variableNames

/-- Without an opening brace, all that is left is a literal. -/
theorem reads_iff_of_none {variableNames result : List Text} {rest : Text}
    (cut : splitOnce '\x7b' rest = none) :
    Reads variableNames rest result ↔ IsLiteral rest ∧ result = variableNames := by
  constructor
  · rintro ⟨pieces, rfl, rfl, -⟩
    have literals := literals_of_cut cut
    exact ⟨⟨pieces, literals, rfl⟩, by rw [names_of_literals literals, List.append_nil]⟩
  · rintro ⟨⟨pieces, literals, rfl⟩, rfl⟩
    exact ⟨pieces, rfl, by rw [names_of_literals literals, List.append_nil],
      by rw [names_of_literals literals]; exact List.nodup_nil, by simp [names_of_literals literals]⟩

/-- With one, a literal and an expression come first. -/
theorem reads_iff_of_some {variableNames result : List Text} {rest literal afterOpen : Text}
    (cut : splitOnce '\x7b' rest = some (literal, afterOpen)) :
    Reads variableNames rest result ↔ IsLiteral literal ∧ ∃ (name : VariableName) (afterClose : Text),
      splitOnce '\x7d' afterOpen = some (name.text, afterClose) ∧ name.text ∉ variableNames ∧
        Reads (variableNames ++ [name.text]) afterClose result := by
  constructor
  · rintro ⟨pieces, rfl, rfl, nodup, fresh⟩
    obtain ⟨literals, name, others, areLiterals, rfl, rfl, closed⟩ := exists_expression_of_cut cut
    rw [names_append, names_of_literals areLiterals, List.nil_append, names_expression] at *
    obtain ⟨notAgain, others_nodup⟩ := List.nodup_cons.mp nodup
    obtain ⟨isFresh, othersFresh⟩ := List.forall_mem_cons.mp fresh
    refine ⟨⟨literals, areLiterals, rfl⟩, name, spelled others, closed, isFresh, others, rfl,
      by simp, others_nodup, ?_⟩
    intro other member inNames
    rcases List.mem_append.mp inNames with before | isName
    · exact othersFresh other member before
    · rw [List.mem_singleton.mp isName] at member
      exact notAgain member
  · rintro ⟨⟨literals, areLiterals, rfl⟩, name, _, closed, isFresh, others, rfl, rfl, nodup, fresh⟩
    obtain ⟨-, rfl⟩ := splitOnce_eq_some_iff.mp closed
    obtain ⟨-, rfl⟩ := splitOnce_eq_some_iff.mp cut
    refine ⟨literals ++ .expression name :: others, by simp [Piece.text], ?_, ?_, ?_⟩
    · simp [names_of_literals areLiterals]
    · rw [names_append, names_of_literals areLiterals, List.nil_append, names_expression,
        List.nodup_cons]
      exact ⟨fun again => fresh name.text again (by simp), nodup⟩
    · rw [names_append, names_of_literals areLiterals, List.nil_append, names_expression,
        List.forall_mem_cons]
      exact ⟨isFresh, fun other member before => fresh other member (by simp [before])⟩

/-- The pass over expressions accepts what pieces spell, and lists their names. -/
theorem parseFrom_eq_ok_iff {raw rest : Text} {variableNames result : List Text} :
    parseFrom raw variableNames rest = .ok result ↔ Reads variableNames rest result := by
  fun_induction parseFrom raw variableNames rest with
  | case1 variableNames rest cut closes =>
      rw [reads_iff_of_none cut]
      refine ⟨nofun, ?_⟩
      rintro ⟨⟨pieces, literals, rfl⟩, -⟩
      simp [(braceless_spelled literals).2] at closes
  | case2 variableNames rest cut _ defect refused =>
      rw [reads_iff_of_none cut, ← checkLiteral_eq_ok_iff, refused]
      simp
  | case3 variableNames rest cut _ accepted =>
      rw [reads_iff_of_none cut, ← checkLiteral_eq_ok_iff, accepted, Except.ok.injEq, eq_comm]
      simp
  | case4 variableNames rest literal afterOpen cut defect refused =>
      rw [reads_iff_of_some cut, ← checkLiteral_eq_ok_iff, refused]
      simp
  | case5 variableNames rest literal afterOpen cut _ unclosed =>
      rw [reads_iff_of_some cut, unclosed]
      simp
  | case6 variableNames rest literal afterOpen cut _ name afterClose closed isEmpty =>
      rw [reads_iff_of_some cut, closed]
      refine ⟨nofun, ?_⟩
      rintro ⟨-, expression, _, same, -⟩
      cases same
      exact absurd (List.isEmpty_iff.mp isEmpty) expression.nonempty
  | case7 variableNames rest literal afterOpen cut _ name afterClose closed _ opens =>
      rw [reads_iff_of_some cut, closed]
      refine ⟨nofun, ?_⟩
      rintro ⟨-, expression, _, same, -⟩
      cases same
      exact absurd (List.contains_iff_mem.mp opens) expression.unopened
  | case8 variableNames rest literal afterOpen cut _ name afterClose closed _ _ again =>
      rw [reads_iff_of_some cut, closed]
      refine ⟨nofun, ?_⟩
      rintro ⟨-, expression, _, same, fresh, -⟩
      cases same
      exact absurd (List.contains_iff_mem.mp again) fresh
  | case9 variableNames rest literal afterOpen cut accepted name afterClose closed named unopened
      fresh ih =>
      rw [reads_iff_of_some cut, closed, ih]
      constructor
      · intro reads
        have nonempty : name ≠ [] := fun isNil => named (by rw [isNil]; rfl)
        have notOpened : '\x7b' ∉ name := fun member => unopened (List.contains_iff_mem.mpr member)
        exact ⟨checkLiteral_eq_ok_iff.mp accepted,
          ⟨name, nonempty, notOpened, (splitOnce_eq_some_iff.mp closed).1⟩, afterClose, rfl,
          fun member => fresh (List.contains_iff_mem.mpr member), reads⟩
      · rintro ⟨-, expression, _, same, -, reads⟩
        cases same
        exact reads

/-! ## Queries and segments -/

theorem hasQueryOrFragmentFrom_name {name : Text} (unclosed : '\x7d' ∉ name)
    (unopened : '\x7b' ∉ name) (rest : Text) :
    hasQueryOrFragmentFrom true (name ++ rest) = hasQueryOrFragmentFrom true rest := by
  induction name with
  | nil => rfl
  | cons character name ih =>
      rw [List.mem_cons, not_or] at unclosed unopened
      rw [List.cons_append, hasQueryOrFragmentFrom, if_neg (Ne.symm unopened.1),
        if_neg (Ne.symm unclosed.1), if_neg (by simp), ih unclosed.2 unopened.2]

/-- No piece holds a query or a fragment outside braces. -/
theorem hasQueryOrFragmentFrom_text (piece : Piece) (rest : Text) :
    hasQueryOrFragmentFrom false (piece.text ++ rest) = hasQueryOrFragmentFrom false rest := by
  cases piece with
  | slash => rfl
  | literal character allowed =>
      have plain : character ≠ '\x7b' ∧ character ≠ '\x7d' ∧ character ≠ '?' ∧ character ≠ '#' :=
        ⟨ne_of_isPathCharacter allowed (by decide), ne_of_isPathCharacter allowed (by decide),
          ne_of_isPathCharacter allowed (by decide), ne_of_isPathCharacter allowed (by decide)⟩
      simp [Piece.text, hasQueryOrFragmentFrom, plain]
  | triple high low hexdigits =>
      have plain {digit : Char} (hexdigit : isAsciiHexdigit digit = true) :
          digit ≠ '\x7b' ∧ digit ≠ '\x7d' ∧ digit ≠ '?' ∧ digit ≠ '#' :=
        ⟨ne_of_isAsciiHexdigit hexdigit (by decide), ne_of_isAsciiHexdigit hexdigit (by decide),
          ne_of_isAsciiHexdigit hexdigit (by decide), ne_of_isAsciiHexdigit hexdigit (by decide)⟩
      simp [Piece.text, hasQueryOrFragmentFrom, plain hexdigits.1, plain hexdigits.2]
  | expression name =>
      have inside := hasQueryOrFragmentFrom_name name.unclosed name.unopened ('\x7d' :: rest)
      simpa [Piece.text, hasQueryOrFragmentFrom] using inside

theorem hasQueryOrFragment_spelled (pieces : List Piece) :
    hasQueryOrFragment (spelled pieces) = false := by
  rw [hasQueryOrFragment]
  induction pieces with
  | nil => rfl
  | cons piece pieces ih => rw [spelled_cons, hasQueryOrFragmentFrom_text, ih]

theorem checkSegmentsFrom_name (raw : Text) {name : Text} (unclosed : '\x7d' ∉ name)
    (unopened : '\x7b' ∉ name) (rest : Text) :
    checkSegmentsFrom raw true false (name ++ rest) = checkSegmentsFrom raw true false rest := by
  induction name with
  | nil => rfl
  | cons character name ih =>
      rw [List.mem_cons, not_or] at unclosed unopened
      rw [List.cons_append, checkSegmentsFrom, if_neg (Ne.symm unopened.1),
        if_neg (Ne.symm unclosed.1), if_neg (by simp), ih unclosed.2 unopened.2]

/-- A piece other than a slash is part of a segment. -/
theorem checkSegmentsFrom_text (raw : Text) {piece : Piece} (within : piece.isSlash = false)
    (segmentIsEmpty : Bool) (rest : Text) :
    checkSegmentsFrom raw false segmentIsEmpty (piece.text ++ rest) =
      checkSegmentsFrom raw false false rest := by
  cases piece with
  | slash => cases within
  | literal character allowed =>
      have plain : character ≠ '\x7b' ∧ character ≠ '\x7d' ∧ character ≠ '/' :=
        ⟨ne_of_isPathCharacter allowed (by decide), ne_of_isPathCharacter allowed (by decide),
          ne_of_isPathCharacter allowed (by decide)⟩
      simp [Piece.text, checkSegmentsFrom, plain]
  | triple high low hexdigits =>
      have plain {digit : Char} (hexdigit : isAsciiHexdigit digit = true) :
          digit ≠ '\x7b' ∧ digit ≠ '\x7d' ∧ digit ≠ '/' :=
        ⟨ne_of_isAsciiHexdigit hexdigit (by decide), ne_of_isAsciiHexdigit hexdigit (by decide),
          ne_of_isAsciiHexdigit hexdigit (by decide)⟩
      simp [Piece.text, checkSegmentsFrom, plain hexdigits.1, plain hexdigits.2]
  | expression name =>
      have inside := checkSegmentsFrom_name raw name.unclosed name.unopened ('\x7d' :: rest)
      simpa [Piece.text, checkSegmentsFrom] using inside

/-- What follows a slash. -/
def afterSlash : Language Piece :=
  (pathSegment * {[.slash]})∗ * optional pathSegment

/-- What follows another piece. -/
def withinSegment : Language Piece :=
  (letters (·.isSlash = false))∗ * (1 + {[.slash]} * afterSlash)

theorem afterSlash_eq : afterSlash = 1 + letters (·.isSlash = false) * withinSegment := by
  calc
    afterSlash = optional pathSegment + pathSegment * {[.slash]} * afterSlash := kstar_mul
    _ = 1 + (pathSegment + pathSegment * ({[.slash]} * afterSlash)) := by
        rw [Word.optional, add_assoc, mul_assoc]
    _ = 1 + pathSegment * (1 + {[.slash]} * afterSlash) := by rw [mul_add, mul_one]
    _ = 1 + letters (·.isSlash = false) * withinSegment := by
        rw [pathSegment, mul_assoc, withinSegment]

theorem withinSegment_eq : withinSegment =
    1 + {[.slash]} * afterSlash + letters (·.isSlash = false) * withinSegment :=
  kstar_mul

theorem nil_mem_afterSlash : [] ∈ afterSlash := by
  rw [afterSlash_eq]
  exact mem_add_left rfl _

theorem nil_mem_withinSegment : [] ∈ withinSegment := by
  rw [withinSegment_eq]
  exact mem_add_left (mem_add_left rfl _) _

theorem cons_mem_afterSlash_iff {piece : Piece} {pieces : List Piece} :
    piece :: pieces ∈ afterSlash ↔ piece.isSlash = false ∧ pieces ∈ withinSegment := by
  rw [afterSlash_eq, Language.mem_add, cons_mem_letters_mul, Language.mem_one]
  simp

theorem cons_mem_withinSegment_iff {piece : Piece} {pieces : List Piece} :
    piece :: pieces ∈ withinSegment ↔
      (piece = .slash ∧ pieces ∈ afterSlash) ∨ (piece.isSlash = false ∧ pieces ∈ withinSegment) := by
  rw [withinSegment_eq, Language.mem_add, Language.mem_add, cons_mem_letters_mul,
    cons_mem_singleton_mul_iff, Language.mem_one, ← withinSegment_eq]
  simp

/-- The pass over segments accepts the rest of a path, after a slash and after
another piece. -/
theorem checkSegmentsFrom_spelled_iff (raw : Text) (pieces : List Piece) :
    (checkSegmentsFrom raw false true (spelled pieces) = .ok () ↔ pieces ∈ afterSlash) ∧
      (checkSegmentsFrom raw false false (spelled pieces) = .ok () ↔ pieces ∈ withinSegment) := by
  induction pieces with
  | nil =>
      exact ⟨⟨fun _ => nil_mem_afterSlash, fun _ => rfl⟩,
        ⟨fun _ => nil_mem_withinSegment, fun _ => rfl⟩⟩
  | cons piece pieces ih =>
      rw [cons_mem_afterSlash_iff, cons_mem_withinSegment_iff, spelled_cons]
      cases isSlash : piece.isSlash with
      | false =>
          have differs : piece ≠ .slash := by
            rintro rfl
            cases isSlash
          rw [checkSegmentsFrom_text raw isSlash, checkSegmentsFrom_text raw isSlash, ih.2]
          simp [differs]
      | true =>
          cases piece with
          | slash =>
              rw [← ih.1]
              simp [Piece.text, checkSegmentsFrom]
          | literal => cases isSlash
          | triple => cases isSlash
          | expression => cases isSlash

/-! ## The parser -/

theorem exists_slash {pieces : List Piece} (leads : (spelled pieces).head? = some '/') :
    ∃ rest, pieces = .slash :: rest := by
  cases pieces with
  | nil => cases leads
  | cons piece rest =>
      cases piece with
      | slash => exact ⟨rest, rfl⟩
      | literal character allowed =>
          have isSlash : character = '/' := Option.some.inj leads
          exact absurd isSlash (ne_of_isPathCharacter allowed (by decide))
      | triple => cases leads
      | expression => cases leads

/-- A template is accepted exactly where the grammar derives it with its
variables named apart, and it lists their names in order. -/
theorem parse_eq_ok_iff {raw : Text} {template : PathTemplate} :
    PathTemplate.parse raw = .ok template ↔
      ∃ pieces ∈ pathTemplate, spelled pieces = raw ∧ (names pieces).Nodup ∧
        template = ⟨raw, names pieces⟩ := by
  constructor
  · intro accepted
    rw [PathTemplate.parse] at accepted
    split at accepted
    · cases accepted
    · rename_i leads
      split at accepted
      · cases accepted
      · cases read : parseFrom raw [] raw with
        | error defect => simp [read] at accepted
        | ok variableNames =>
            cases segmented : checkSegments raw with
            | error defect => simp [read, segmented] at accepted
            | ok =>
                simp only [read, segmented, Except.ok.injEq] at accepted
                obtain ⟨pieces, rfl, rfl, nodup, -⟩ := parseFrom_eq_ok_iff.mp read
                obtain ⟨rest, rfl⟩ := exists_slash (not_not.mp leads)
                have following : rest ∈ afterSlash :=
                  (checkSegmentsFrom_spelled_iff _ rest).1.mp segmented
                exact ⟨_, cons_mem_singleton_mul following, rfl, nodup, accepted.symm⟩
  · rintro ⟨pieces, derived, rfl, nodup, rfl⟩
    obtain ⟨_, rfl, rest, following, rfl⟩ := Language.mem_mul.mp derived
    have read : parseFrom (spelled ([.slash] ++ rest)) [] (spelled ([.slash] ++ rest)) =
        .ok (names ([.slash] ++ rest)) :=
      parseFrom_eq_ok_iff.mpr ⟨_, rfl, rfl, nodup, by simp⟩
    have segmented : checkSegments (spelled ([.slash] ++ rest)) = .ok () :=
      (checkSegmentsFrom_spelled_iff _ rest).1.mpr following
    have leads : ¬ (spelled ([.slash] ++ rest)).head? ≠ some '/' := fun other => other rfl
    have isPath : ¬ hasQueryOrFragment (spelled ([.slash] ++ rest)) = true := by
      rw [hasQueryOrFragment_spelled]
      exact Bool.false_ne_true
    rw [PathTemplate.parse, if_neg leads, if_neg isPath]
    simp only [read, segmented]

end Kynos.OpenApi
