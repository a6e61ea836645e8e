import Kynos.Http.DispositionAbnf
import Kynos.Word.Quoted

/-!
# Content-Disposition, received

A recipient cuts the field at its semicolons, except in quoted strings, and
each parameter at its equals sign. It prefers the extended filename, and reads
the quoted one where there is none (RFC 6266 section 4.3). It so recovers every
filename, and finds no parameter but the filename's.
-/

namespace Kynos.Http.ContentDisposition

open Kynos.Word Kynos.Text

/-! ## The recipient -/

/-- Quoted strings, cut at semicolons. -/
def semicolons : Quoting Char :=
  ⟨'"', '\\', ';', by decide, by decide, by decide⟩

/-- A field as a recipient reads it, its names in lower case. -/
structure Received where
  type_ : Text
  parameters : List (Text × Text)
  deriving DecidableEq, Repr

/-- One parameter: its name and its value. -/
def receiveParameter (piece : Text) : Option (Text × Text) :=
  (splitOnce '=' piece).map fun halves => (toAsciiLowercase (trimOws halves.1), trimOws halves.2)

/-- The whole field, where every piece after the first is a parameter. -/
def receive (field : Text) : Option Received :=
  match (semicolons.split field).map trimOws with
  | [] => none
  | type_ :: pieces =>
      (pieces.mapM receiveParameter).map fun parameters => ⟨toAsciiLowercase type_, parameters⟩

/-- The content of a quoted string, after its first quote. -/
def unquote : Text → Option Text
  | [] => none
  | letter :: rest =>
      if letter = '"' then
        if rest = [] then some [] else none
      else if letter = '\\' then
        match rest with
        | [] => none
        | escaped :: rest => (unquote rest).map (escaped :: ·)
      else
        (unquote rest).map (letter :: ·)

/-- A value: a quoted string, or a token. -/
def readValue (value : Text) : Option Text :=
  match value with
  | [] => none
  | letter :: rest =>
      if letter = '"' then
        unquote rest
      else if isToken value then
        some value
      else
        none

/-- An extended value in UTF-8. -/
def readExtValue (value : Text) : Option Text :=
  (splitOnce '\'' value).bind fun (charset, tagged) =>
    (splitOnce '\'' tagged).bind fun (_, characters) =>
      if eqIgnoreAsciiCase charset "UTF-8".toList then
        Octets.fromUtf8 (Percent.decode (toOctets characters))
      else
        none

/-- The filename: the extended one if it can be read, or else the plain one. -/
def Received.filename (received : Received) : Option Text :=
  ((received.parameters.lookup "filename*".toList).bind readExtValue).or
    ((received.parameters.lookup "filename".toList).bind readValue)

/-! ## What is written -/

/-- The parameters of a filename. -/
def parametersOf (filename : Text) : List (Text × Text) :=
  ("filename".toList, '"' :: (asciiFallback filename ++ ['"'])) ::
    if asciiFallback filename = filename then
      []
    else
      [("filename*".toList, "UTF-8''".toList ++ encodeExtValue filename)]

/-- A parameter as it is spelled after its semicolon. -/
def spelled (parameter : Text × Text) : Text :=
  ' ' :: (parameter.1 ++ '=' :: parameter.2)

/-- The parameters a field is sent with. -/
def parameters (sent : ContentDisposition) : List (Text × Text) :=
  (sent.filename.map parametersOf).getD []

/-- The field is its type and its parameters between semicolons. -/
theorem fieldValue_eq (sent : ContentDisposition) :
    sent.fieldValue = [';'].intercalate (sent.disposition.token :: sent.parameters.map spelled) := by
  unfold fieldValue parameters
  cases sent.filename with
  | none => simp
  | some filename =>
      by_cases same : asciiFallback filename = filename
      · simp [parametersOf, spelled, same, List.intercalate_cons_cons]
      · simp [parametersOf, spelled, same, List.intercalate_cons_cons]

/-! ## Reading it back -/

theorem unquote_asciiFallback (filename : Text) :
    unquote (asciiFallback filename ++ ['"']) = some (asciiFallback filename) := by
  induction filename with
  | nil => rfl
  | cons character rest ih =>
      obtain ⟨-, notQuote, notEscape⟩ := asciiFallbackOf_spec character
      rw [asciiFallback, List.map_cons, List.cons_append, unquote.eq_def]
      simp only [if_neg notQuote, if_neg notEscape]
      exact congrArg (Option.map _) ih

theorem readValue_quoted (filename : Text) :
    readValue ('"' :: (asciiFallback filename ++ ['"'])) = some (asciiFallback filename) := by
  rw [readValue, if_pos rfl, unquote_asciiFallback]

theorem keeps_isAttrChar : Percent.Keeps isAttrChar where
  ascii octet attrChar := by
    have tchar := toNat_of_isTchar (isTchar_of_isAttrChar attrChar)
    rw [Text.toNat_ofUInt8] at tchar
    omega
  percent := by decide

/-- The extended value decodes to the filename. -/
theorem readExtValue_encodeExtValue (filename : Text) :
    readExtValue ("UTF-8''".toList ++ encodeExtValue filename) = some filename := by
  have charset : splitOnce '\'' ("UTF-8''".toList ++ encodeExtValue filename) =
      some ("UTF-8".toList, '\'' :: encodeExtValue filename) :=
    splitOnce_eq_some_iff.mpr ⟨by decide, rfl⟩
  have language : splitOnce '\'' ('\'' :: encodeExtValue filename) =
      some ([], encodeExtValue filename) :=
    splitOnce_eq_some_iff.mpr ⟨List.not_mem_nil, rfl⟩
  have decoded : Octets.fromUtf8 (Percent.decode (toOctets (encodeExtValue filename))) =
      some filename :=
    Percent.fromUtf8_decode_encode keeps_isAttrChar filename
  have utf8 : eqIgnoreAsciiCase "UTF-8".toList "UTF-8".toList = true := by decide
  simp only [readExtValue, charset, Option.bind_some, language, if_pos utf8, decoded]

/-! ## One parameter -/

/-- A parameter that is read back: its name is a lower case token, and its value
is closed and has no blank end. -/
structure Sound (parameter : Text × Text) : Prop where
  token : isToken parameter.1 = true
  lower : toAsciiLowercase parameter.1 = parameter.1
  closed : semicolons.Closed parameter.2
  solid : Solid isOws parameter.2
  nonempty : parameter.2 ≠ []

theorem isOws_of_isTchar {character : Char} (tchar : isTchar character = true) :
    isOws character = false := by
  obtain ⟨low, -⟩ := toNat_of_isTchar tchar
  cases blank : isOws character
  · rfl
  · have white := isWhitespace_of_isOws blank
    rw [isWhitespace_of_isTchar tchar] at white
    cases white

theorem closed_of_isTchar {text : Text} (tchars : ∀ character ∈ text, isTchar character = true) :
    semicolons.Closed text :=
  .of_forall fun character member =>
    ⟨ne_of_isTchar (tchars character member) (show '"' ∈ delimiters by decide),
      ne_of_isTchar (tchars character member) (show '\\' ∈ delimiters by decide),
      ne_of_isTchar (tchars character member) (show ';' ∈ delimiters by decide)⟩

theorem solid_of_isTchar {text : Text} (tchars : ∀ character ∈ text, isTchar character = true) :
    Solid isOws text :=
  .of_forall fun character member => isOws_of_isTchar (tchars character member)

theorem sound_plain (filename : Text) :
    Sound ("filename".toList, '"' :: (asciiFallback filename ++ ['"'])) where
  token := show isToken "filename".toList = true by decide
  lower := show toAsciiLowercase "filename".toList = "filename".toList by decide
  closed := by
    have content : semicolons.Content (asciiFallback filename) := by
      induction filename with
      | nil => exact .nil
      | cons character rest ih =>
          obtain ⟨-, notQuote, notEscape⟩ := asciiFallbackOf_spec character
          exact .letter notQuote notEscape ih
    exact .quoted content .nil
  solid := by
    have quote : Solid isOws ['"'] := .of_forall (by simp [isOws])
    exact quote.append quote (by simp) (by simp)
  nonempty := by simp

theorem sound_starred (filename : Text) :
    Sound ("filename*".toList, "UTF-8''".toList ++ encodeExtValue filename) := by
  have charset : ∀ character ∈ "UTF-8''".toList, isTchar character = true :=
    List.all_eq_true.mp (by decide)
  have tchars : ∀ character ∈ "UTF-8''".toList ++ encodeExtValue filename,
      isTchar character = true := by
    intro character member
    rcases List.mem_append.mp member with inCharset | inValue
    · exact charset character inCharset
    · exact isTchar_of_mem_encodeExtValue inValue
  exact ⟨show isToken "filename*".toList = true by decide,
    show toAsciiLowercase "filename*".toList = "filename*".toList by decide,
    closed_of_isTchar tchars, solid_of_isTchar tchars, by simp⟩

theorem sound_of_mem_parameters {sent : ContentDisposition} {parameter : Text × Text}
    (member : parameter ∈ sent.parameters) : Sound parameter := by
  unfold parameters at member
  cases named : sent.filename with
  | none => simp [named] at member
  | some filename =>
      simp only [named, Option.map_some, Option.getD_some, parametersOf, List.mem_cons] at member
      rcases member with rfl | starred
      · exact sound_plain filename
      · split at starred
        · cases starred
        · rw [List.mem_singleton.mp starred]
          exact sound_starred filename

section Sound

variable {parameter : Text × Text} (sound : Sound parameter)

include sound

theorem Sound.closed_spelled : semicolons.Closed (spelled parameter) := by
  have name : semicolons.Closed parameter.1 :=
    closed_of_isTchar fun _ member => isTchar_of_mem sound.token member
  refine .letter (show ' ' ≠ '"' by decide) (show ' ' ≠ '\\' by decide) (show ' ' ≠ ';' by decide) ?_
  exact name.append (.letter (show '=' ≠ '"' by decide) (show '=' ≠ '\\' by decide)
    (show '=' ≠ ';' by decide) sound.closed)

theorem Sound.trimOws_spelled :
    trimOws (spelled parameter) = parameter.1 ++ '=' :: parameter.2 := by
  have name : Solid isOws parameter.1 :=
    solid_of_isTchar fun _ member => isTchar_of_mem sound.token member
  have whole : Solid isOws (parameter.1 ++ ['='] ++ parameter.2) :=
    name.append sound.solid (ne_nil_of_isToken sound.token) sound.nonempty
  rw [List.append_assoc, List.singleton_append] at whole
  have padded : trimBy isOws ([' '] ++ (parameter.1 ++ '=' :: parameter.2) ++ []) =
      parameter.1 ++ '=' :: parameter.2 :=
    trimBy_padded (by simp [isOws]) (by simp) whole
  rwa [List.append_nil] at padded

theorem Sound.receiveParameter_eq :
    receiveParameter (parameter.1 ++ '=' :: parameter.2) = some parameter := by
  have name : trimOws parameter.1 = parameter.1 :=
    trimBy_of_solid (solid_of_isTchar fun _ member => isTchar_of_mem sound.token member)
  have value : trimOws parameter.2 = parameter.2 := trimBy_of_solid sound.solid
  have halves : splitOnce '=' (parameter.1 ++ '=' :: parameter.2) = some parameter :=
    splitOnce_eq_some_iff.mpr ⟨notMem_of_isToken sound.token (by decide), rfl⟩
  rw [receiveParameter, halves, Option.map_some, name, value, sound.lower]

end Sound

/-! ## The whole field -/

theorem isTchar_of_mem_token {disposition : Disposition} :
    ∀ character ∈ disposition.token, isTchar character = true := by
  cases disposition <;> exact List.all_eq_true.mp (by decide)

/-- A recipient reads the type and the parameters that were sent. -/
theorem receive_fieldValue (sent : ContentDisposition) :
    receive sent.fieldValue = some ⟨sent.disposition.token, sent.parameters⟩ := by
  have closed : ∀ piece ∈ sent.disposition.token :: sent.parameters.map spelled,
      semicolons.Closed piece := by
    intro piece member
    rcases List.mem_cons.mp member with rfl | inParameters
    · exact closed_of_isTchar isTchar_of_mem_token
    · obtain ⟨parameter, isParameter, rfl⟩ := List.mem_map.mp inParameters
      exact (sound_of_mem_parameters isParameter).closed_spelled
  have pieces : semicolons.split sent.fieldValue =
      sent.disposition.token :: sent.parameters.map spelled := by
    rw [fieldValue_eq]
    exact Quoting.split_intercalate (List.cons_ne_nil _ _) closed
  have type_ : trimOws sent.disposition.token = sent.disposition.token :=
    trimBy_of_solid (solid_of_isTchar isTchar_of_mem_token)
  have lower : toAsciiLowercase sent.disposition.token = sent.disposition.token := by
    cases sent.disposition <;> decide
  have trimmed : (sent.parameters.map spelled).map trimOws =
      sent.parameters.map fun parameter => parameter.1 ++ '=' :: parameter.2 := by
    rw [List.map_map]
    exact List.map_congr_left fun parameter member =>
      (sound_of_mem_parameters member).trimOws_spelled
  have received : (sent.parameters.map fun parameter => parameter.1 ++ '=' :: parameter.2).mapM
      receiveParameter = some sent.parameters := by
    have each : ∀ parameter ∈ sent.parameters,
        receiveParameter (parameter.1 ++ '=' :: parameter.2) = some parameter :=
      fun parameter member => (sound_of_mem_parameters member).receiveParameter_eq
    generalize sent.parameters = parameters at each
    induction parameters with
    | nil => rfl
    | cons parameter rest ih =>
        rw [List.map_cons, List.mapM_cons, each parameter List.mem_cons_self,
          ih fun other member => each other (List.mem_cons_of_mem _ member)]
        rfl
  rw [receive, pieces, List.map_cons, trimmed, type_]
  simp only [received, Option.map_some, lower]

/-- The filename a recipient reads is the one that was sent. -/
theorem filename_received (sent : ContentDisposition) (type_ : Text) :
    Received.filename ⟨type_, sent.parameters⟩ = sent.filename := by
  unfold Received.filename parameters
  cases sent.filename with
  | none => rfl
  | some filename =>
      have differ : ("filename*".toList == "filename".toList) = false := by decide
      rw [Option.map_some, Option.getD_some, parametersOf, List.lookup_cons, differ]
      by_cases same : asciiFallback filename = filename
      · rw [if_pos same, List.lookup_nil, Option.bind_none, Option.none_or, List.lookup_cons_self,
          Option.bind_some, readValue_quoted, same]
      · rw [if_neg same, List.lookup_cons_self, Option.bind_some, readExtValue_encodeExtValue,
          Option.some_or]

/-- Every filename is sent in printable ASCII and in the grammar, and received
as it was; the field has its type and the parameters of the filename only. -/
theorem filename_comes_back (sent : ContentDisposition) :
    (∃ value, sent.encode = some value ∧ value.toStr = some sent.fieldValue) ∧
      (∀ character ∈ sent.fieldValue, IsPrintable character) ∧
      sent.fieldValue ∈ Abnf.field {sent.disposition.token} Abnf.filenameParm ∧
      Abnf.field {sent.disposition.token} Abnf.filenameParm ≤ Abnf.contentDisposition ∧
      ∃ received, receive sent.fieldValue = some received ∧
        received.type_ = sent.disposition.token ∧
        received.filename = sent.filename ∧
        received.parameters.map Prod.fst =
          match sent.filename with
          | none => []
          | some filename =>
              if asciiFallback filename = filename then
                ["filename".toList]
              else
                ["filename".toList, "filename*".toList] := by
  refine ⟨sent.exists_encode, fun _ member => isPrintable_of_mem_fieldValue member,
    Abnf.fieldValue_mem_field sent, Abnf.field_le_contentDisposition _, _, receive_fieldValue sent,
    rfl, filename_received sent _, ?_⟩
  unfold parameters
  cases sent.filename with
  | none => rfl
  | some filename => by_cases same : asciiFallback filename = filename <;> simp [parametersOf, same]

end Kynos.Http.ContentDisposition
