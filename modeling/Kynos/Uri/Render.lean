import Kynos.Text.Percent
import Kynos.Word.Split

/-!
# Rendering endpoint paths

The path of a generated URI: the values of a group of path parameters are put
one after another into a route's template, percent-encoded, and a value that
cannot address the route is refused by a panic.
-/

namespace Kynos.Uri

open Kynos.Word Kynos.Http

/-! ## Values -/

/-- The ASCII characters a path segment does not spell as they are. -/
def pathSegmentEncodeSet (octet : UInt8) : Bool :=
  octet < 32 || octet == 127 ||
    " \"#%/<>?[\\]^`\x7b|\x7d".toList.any fun character => octet.toNat == character.toNat

/-- Whether an octet is spelled as it is. -/
def isKept (octet : UInt8) : Bool :=
  octet < 128 && !pathSegmentEncodeSet octet

/-- One value as a part of a path segment. -/
def encodeSegment (value : Text) : Text :=
  Text.Percent.encode isKept value

/-- `decode_path_value`: one captured value. -/
def decodePathValue (value : Text) : Option Text :=
  Octets.fromUtf8 (Text.Percent.decode value.toOctets)

/-! ## Dot segments -/

/-- Whether what is left of a segment makes it one or two dots, `dots` being
those read of it. -/
def isDotSegmentFrom (dots : Nat) : Text → Bool
  | [] => dots == 1 || dots == 2
  | letter :: rest =>
      if letter = '.' then
        isDotSegmentFrom (dots + 1) rest
      else if letter = '%' then
        match rest with
        | second :: third :: rest =>
            if second = '2' ∧ (third = 'e' ∨ third = 'E') then
              isDotSegmentFrom (dots + 1) rest
            else
              false
        | _ => false
      else
        false

/-- `.` or `..`, literally or as `%2e` in either case. -/
def isDotSegment (segment : Text) : Bool :=
  isDotSegmentFrom 0 segment

/-- The first part of a template with a brace whose rendered counterpart is a dot
segment, with that dot segment. -/
def dotSegment (template rendered : Text) : Option (Text × Text) :=
  (((template.splitOn '/').zip (rendered.splitOn '/')).find? fun pair =>
    pair.1.contains '\x7b' && isDotSegment pair.2).map fun pair =>
      (pair.1, if (Text.Percent.decode (Text.toOctets pair.2)).length = 1 then ['.'] else ['.', '.'])

/-! ## Rendering -/

/-- How a variable is spelled in a template. -/
def braced (name : Text) : Text :=
  '\x7b' :: (name ++ ['\x7d'])

/-- Why rendering panics, with what the message names. -/
inductive RenderPanic where
  | valueCount
  | undeclared (name : Text)
  | empty (name template : Text)
  | dotSegment (name value segment dots template : Text)
  | noVariable
  deriving DecidableEq, Repr

/-- The values put into a path, one after another. -/
def substitute (declared : List Text) (template : Text) :
    List (Text × Text) → Text → Except RenderPanic Text
  | [], rendered => .ok rendered
  | (name, value) :: rest, rendered =>
      if !declared.contains name then
        .error (.undeclared name)
      else if value.isEmpty then
        .error (.empty name template)
      else
        substitute declared template rest (replace (braced name) (encodeSegment value) rendered)

/-- `render_endpoint_path`, for the names a group declares and the values it
encodes to. -/
def renderEndpointPath (declared : List Text) (template : Text) (values : List (Text × Text)) :
    Except RenderPanic Text :=
  if values.length ≠ declared.length then
    .error .valueCount
  else
    match substitute declared template values template with
    | .error panic => .error panic
    | .ok rendered =>
        match dotSegment template rendered with
        | none => .ok rendered
        | some (segment, dots) =>
            match values.find? fun entry => decide (braced entry.1 <:+: segment) with
            | none => .error .noVariable
            | some (name, value) => .error (.dotSegment name value segment dots template)

/-! ## What a value is spelled with -/

theorem keeps_isKept : Text.Percent.Keeps isKept where
  ascii octet kept := by
    simp only [isKept, Bool.and_eq_true, decide_eq_true_eq, UInt8.lt_iff_toNat_lt] at kept
    exact kept.1
  percent := by decide

/-- A value is read back from its spelling. -/
theorem decodePathValue_encodeSegment (value : Text) :
    decodePathValue (encodeSegment value) = some value :=
  Text.Percent.fromUtf8_decode_encode keeps_isKept value

end Kynos.Uri
