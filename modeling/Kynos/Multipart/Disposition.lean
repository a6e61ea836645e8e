import Kynos.Http.Date
import Kynos.Http.Lists

/-!
# Reading the disposition of a part

What `Content-Disposition` says about the field a part carries: `form-data` and
parameters between semicolons, a token or a quoted string each.
-/

namespace Kynos.Multipart.PartDisposition

open Kynos.Http

/-- `skip_ows`. -/
def skipOws (input : Text) : Text :=
  input.dropWhile Text.isOws

/-- What ends a token. -/
def endsToken (character : Char) : Bool :=
  Text.isOws character || character == ';' || character == '=' || character == '"'

/-- `token`: the input split where a token would have to end. -/
def token (input : Text) : Text × Text :=
  (input.takeWhile fun character => !endsToken character,
    input.dropWhile fun character => !endsToken character)

/-- What a quoted string admits, as it is or escaped. -/
def admitted (character : Char) : Bool :=
  character == '\t' || (' ' ≤ character && character != '\x7f')

/-- A quoted string after its opening quote, unescaped, and what follows it. -/
def quotedRest : Text → Option (Text × Text)
  | [] => none
  | character :: rest =>
      if character = '"' then
        some ([], rest)
      else if character = '\\' then
        match rest with
        | [] => none
        | escaped :: rest =>
            if admitted escaped then (quotedRest rest).map (Prod.map (escaped :: ·) id) else none
      else if admitted character then
        (quotedRest rest).map (Prod.map (character :: ·) id)
      else
        none
termination_by structural input => input

/-- `quoted_string`. -/
def quotedString (input : Text) : Option (Text × Text) :=
  (Date.stripPrefix ['"'] input).bind quotedRest

/-- The value of a parameter and what follows it. -/
def value (input : Text) : Option (Text × Text) :=
  if input.head? = some '"' then
    quotedString input
  else if isToken (token input).1 then
    some (token input)
  else
    none

/-- One turn of the loop: a parameter, or none where it is empty, and what
follows it. -/
def parameter (input : Text) : Option (Option (Text × Text) × Text) :=
  (Date.stripPrefix [';'] (skipOws input)).bind fun after =>
    let rest := skipOws after
    if rest = [] ∨ rest.head? = some ';' then
      some (none, rest)
    else
      let parameter := (token rest).1
      (Date.stripPrefix ['='] (skipOws (token rest).2)).bind fun after =>
        if isToken parameter then
          (value (skipOws after)).map fun (value, rest) => (some (parameter, value), rest)
        else
          none

/-- `Disposition`. -/
structure Disposition where
  name : Text
  fileName : Option Text
  deriving DecidableEq, Repr

/-- The parameters read so far. -/
structure Slots where
  name : Option Text
  fileName : Option Text
  deriving DecidableEq, Repr

/-- `FORM_DATA`. -/
def formData : Text := "form-data".toList

/-- The text of the error for a field that cannot be read. -/
def malformed (field : Text) : Text :=
  "a part's `Content-Disposition` is malformed: `".toList ++ field ++ "`".toList

/-- The text of the error for a parameter that is repeated. -/
def repeats (parameter : Text) : Text :=
  "a part's `Content-Disposition` repeats `".toList ++ Text.toAsciiLowercase parameter ++ "`".toList

/-- A parameter put in its slot, where it has one. -/
def Slots.put (slots : Slots) (parameter value : Text) : Except Text Slots :=
  if Text.eqIgnoreAsciiCase parameter "name".toList then
    if slots.name.isSome then .error (repeats parameter) else .ok { slots with name := some value }
  else if Text.eqIgnoreAsciiCase parameter "filename".toList then
    if slots.fileName.isSome then
      .error (repeats parameter)
    else
      .ok { slots with fileName := some value }
  else
    .ok slots

theorem length_skipOws_le (input : Text) : (skipOws input).length ≤ input.length :=
  List.length_dropWhile_le _ _

theorem length_of_stripPrefix {expected input rest : Text}
    (strips : Date.stripPrefix expected input = some rest) :
    rest.length + expected.length = input.length := by
  rw [Date.stripPrefix, Option.ite_none_right_eq_some, List.isPrefixOf_iff_prefix] at strips
  obtain ⟨⟨tail, rfl⟩, isRest⟩ := strips
  rw [List.drop_left, Option.some.injEq] at isRest
  rw [isRest, List.length_append, Nat.add_comm]

theorem length_of_quotedRest {input rest value : Text} (reads : quotedRest input = some (value, rest)) :
    rest.length ≤ input.length := by
  fun_induction quotedRest input generalizing value with
  | case1 => contradiction
  | case2 tail =>
      obtain ⟨-, rfl⟩ := Prod.mk.inj (Option.some.inj reads)
      simp
  | case3 => contradiction
  | case4 _ escaped tail isAdmitted ih =>
      obtain ⟨⟨other, after⟩, isRest, same⟩ := Option.map_eq_some_iff.mp reads
      obtain ⟨-, rfl⟩ := Prod.mk.inj same
      have shorter := ih isRest
      simp only [List.length_cons, id] at *
      omega
  | case5 => contradiction
  | case6 character tail _ _ _ ih =>
      obtain ⟨⟨other, after⟩, isRest, same⟩ := Option.map_eq_some_iff.mp reads
      obtain ⟨-, rfl⟩ := Prod.mk.inj same
      exact (ih isRest).trans (Nat.le_succ _)
  | case7 => contradiction

theorem length_of_value {input rest read : Text} (reads : value input = some (read, rest)) :
    rest.length ≤ input.length := by
  rw [value] at reads
  split at reads
  · obtain ⟨after, strips, isRest⟩ := Option.bind_eq_some_iff.mp reads
    have stripped := length_of_stripPrefix strips
    have shorter := length_of_quotedRest isRest
    omega
  · rw [Option.ite_none_right_eq_some, Option.some.injEq, Prod.ext_iff] at reads
    obtain ⟨-, -, rfl⟩ := reads
    exact List.length_dropWhile_le _ _

/-- Every turn of the loop reads a semicolon. -/
theorem length_of_parameter {input rest : Text} {read : Option (Text × Text)}
    (reads : parameter input = some (read, rest)) : rest.length < input.length := by
  obtain ⟨after, strips, isRest⟩ := Option.bind_eq_some_iff.mp reads
  have semicolon := length_of_stripPrefix strips
  have skipped := length_skipOws_le input
  have later := length_skipOws_le after
  simp only [List.length_cons, List.length_nil] at semicolon
  dsimp only at isRest
  split at isRest
  · obtain ⟨-, rfl⟩ := Prod.mk.inj (Option.some.inj isRest)
    omega
  · obtain ⟨value, isEquals, isValue⟩ := Option.bind_eq_some_iff.mp isRest
    have equals := length_of_stripPrefix isEquals
    have beforeEquals := length_skipOws_le (token (skipOws after)).2
    have afterName : (token (skipOws after)).2.length ≤ (skipOws after).length :=
      List.length_dropWhile_le _ _
    rw [Option.ite_none_right_eq_some] at isValue
    obtain ⟨⟨read, rest⟩, readsValue, same⟩ := Option.map_eq_some_iff.mp isValue.2
    dsimp only at same
    obtain ⟨-, rfl⟩ := Prod.mk.inj same
    have valued := length_of_value readsValue
    have beforeValue := length_skipOws_le value
    simp only [List.length_cons, List.length_nil] at equals
    omega

/-- The loop over the parameters. -/
def parameters (field : Text) (slots : Slots) (input : Text) : Except Text Slots :=
  if skipOws input = [] then
    .ok slots
  else
    match reads : parameter input with
    | none => .error (malformed field)
    | some (none, rest) => parameters field slots rest
    | some (some (parameter, value), rest) =>
        match slots.put parameter value with
        | .error detail => .error detail
        | .ok slots => parameters field slots rest
termination_by input.length
decreasing_by
  · exact length_of_parameter reads
  · exact length_of_parameter reads

/-- `parse`: what the value of a part's `Content-Disposition` says, or why it
names no field. -/
def parse (field : Text) : Except Text Disposition :=
  let (kind, rest) := token (skipOws field)
  if Text.eqIgnoreAsciiCase kind formData then
    match parameters field ⟨none, none⟩ rest with
    | .error detail => .error detail
    | .ok ⟨none, _⟩ =>
        .error "a part declares no field name in its `Content-Disposition`".toList
    | .ok ⟨some name, fileName⟩ => .ok ⟨name, fileName⟩
  else
    .error "a part's disposition is not `form-data`".toList

end Kynos.Multipart.PartDisposition
