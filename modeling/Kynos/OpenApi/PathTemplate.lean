import Kynos.Text.Str

/-!
# Path templates

A template such as `/users/{id}` is read in three passes over the string: one
for queries and fragments, one for expressions and the literals between them,
and one for empty segments. Each tracks braces in its own way.
-/

namespace Kynos.OpenApi

open Kynos.Word

/-- Why a path template is malformed. -/
inductive InvalidPathTemplate where
  | missingLeadingSlash (template : Text)
  | unbalancedBraces (template : Text)
  | emptyExpression (template : Text)
  | duplicateVariable (template name : Text)
  | notAPath (template : Text)
  | illegalLiteralCharacter (template : Text) (character : Char)
  | malformedPercentEncoding (template : Text)
  | emptySegment (template : Text)
  deriving DecidableEq, Repr

/-- A parsed path template. -/
structure PathTemplate where
  raw : Text
  variableNames : List Text
  deriving DecidableEq, Repr

/-! ## Characters -/

/-- `char::is_ascii_alphanumeric`. -/
def isAsciiAlphanumeric (character : Char) : Bool :=
  ('a' ≤ character && character ≤ 'z') || ('A' ≤ character && character ≤ 'Z') ||
    Text.isAsciiDigit character

/-- `char::is_ascii_hexdigit`. -/
def isAsciiHexdigit (character : Char) : Bool :=
  Text.isAsciiDigit character || ('a' ≤ character && character ≤ 'f') ||
    ('A' ≤ character && character ≤ 'F')

/-- `pchar`, but for percent-encoded triples. -/
def isPathCharacter (character : Char) : Bool :=
  isAsciiAlphanumeric character || "-._~!$&'()*+,;=:@".toList.contains character

/-! ## Passes -/

/-- One literal run, between expressions. -/
def checkLiteral (raw : Text) : Text → Except InvalidPathTemplate Unit
  | [] => .ok ()
  | character :: rest =>
      if character = '/' then
        checkLiteral raw rest
      else if character = '\x7d' then
        .error (.unbalancedBraces raw)
      else if character = '%' then
        match rest with
        | high :: low :: rest =>
            if isAsciiHexdigit high ∧ isAsciiHexdigit low then
              checkLiteral raw rest
            else
              .error (.malformedPercentEncoding raw)
        | _ => .error (.malformedPercentEncoding raw)
      else if isPathCharacter character then
        checkLiteral raw rest
      else
        .error (.illegalLiteralCharacter raw character)

/-- The rest of a template, by segments. -/
def checkSegmentsFrom (raw : Text) (inExpression segmentIsEmpty : Bool) :
    Text → Except InvalidPathTemplate Unit
  | [] => .ok ()
  | character :: rest =>
      if character = '\x7b' then
        checkSegmentsFrom raw true false rest
      else if character = '\x7d' then
        checkSegmentsFrom raw false segmentIsEmpty rest
      else if character = '/' ∧ !inExpression then
        if segmentIsEmpty then
          .error (.emptySegment raw)
        else
          checkSegmentsFrom raw inExpression true rest
      else
        checkSegmentsFrom raw inExpression false rest

/-- `check_segments`: the first character opens the first segment. -/
def checkSegments (raw : Text) : Except InvalidPathTemplate Unit :=
  checkSegmentsFrom raw false true (raw.drop 1)

/-- Whether a `?` or `#` appears outside braces, from a state on. -/
def hasQueryOrFragmentFrom (inExpression : Bool) : Text → Bool
  | [] => false
  | character :: rest =>
      if character = '\x7b' then
        hasQueryOrFragmentFrom true rest
      else if character = '\x7d' then
        hasQueryOrFragmentFrom false rest
      else if (character = '?' ∨ character = '#') ∧ !inExpression then
        true
      else
        hasQueryOrFragmentFrom inExpression rest

def hasQueryOrFragment (raw : Text) : Bool :=
  hasQueryOrFragmentFrom false raw

theorem length_lt_of_splitOnce {separator : Char} {text before after : Text}
    (cut : splitOnce separator text = some (before, after)) : after.length < text.length := by
  rw [(splitOnce_eq_some_iff.mp cut).2]
  simp only [List.length_append, List.length_cons]
  omega

/-- The expressions of what is left of a template, after the variables read
before. -/
def parseFrom (raw : Text) (variableNames : List Text) (rest : Text) :
    Except InvalidPathTemplate (List Text) :=
  match _ : splitOnce '\x7b' rest with
  | none =>
      if rest.contains '\x7d' then
        .error (.unbalancedBraces raw)
      else
        match checkLiteral raw rest with
        | .error defect => .error defect
        | .ok () => .ok variableNames
  | some (literal, afterOpen) =>
      match checkLiteral raw literal with
      | .error defect => .error defect
      | .ok () =>
          match _ : splitOnce '\x7d' afterOpen with
          | none => .error (.unbalancedBraces raw)
          | some (name, afterClose) =>
              if name.isEmpty then
                .error (.emptyExpression raw)
              else if name.contains '\x7b' then
                .error (.unbalancedBraces raw)
              else if variableNames.contains name then
                .error (.duplicateVariable raw name)
              else
                parseFrom raw (variableNames ++ [name]) afterClose
termination_by rest.length
decreasing_by
  exact Nat.lt_trans (length_lt_of_splitOnce ‹_›) (length_lt_of_splitOnce ‹_›)

namespace PathTemplate

/-- `PathTemplate::parse`. -/
def parse (raw : Text) : Except InvalidPathTemplate PathTemplate :=
  if raw.head? ≠ some '/' then
    .error (.missingLeadingSlash raw)
  else if hasQueryOrFragment raw then
    .error (.notAPath raw)
  else
    match parseFrom raw [] raw with
    | .error defect => .error defect
    | .ok variableNames =>
        match checkSegments raw with
        | .error defect => .error defect
        | .ok () => .ok ⟨raw, variableNames⟩

/-- What is left of a template without its variable names; `none` where a brace
is not closed, which panics. -/
def normalizedFrom (rest : Text) : Option Text :=
  match _ : splitOnce '\x7b' rest with
  | none => some rest
  | some (literal, afterOpen) =>
      match _ : splitOnce '\x7d' afterOpen with
      | none => none
      | some (_, afterClose) =>
          (normalizedFrom afterClose).map (literal ++ "\x7b\x7d".toList ++ ·)
termination_by rest.length
decreasing_by
  exact Nat.lt_trans (length_lt_of_splitOnce ‹_›) (length_lt_of_splitOnce ‹_›)

/-- The template with every variable name left out. -/
def normalized (template : PathTemplate) : Option Text :=
  normalizedFrom template.raw

/-- Another template in front of this one, as nesting does. -/
def withPrefix (template : PathTemplate) (outer : Text) : Except InvalidPathTemplate PathTemplate :=
  let outer := outer.rdropWhile (· == '/')
  if outer.isEmpty then
    .ok template
  else
    parse (outer ++ template.raw)

end PathTemplate

end Kynos.OpenApi
