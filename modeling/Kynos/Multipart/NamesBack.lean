import Kynos.Multipart.Disposition
import Kynos.Multipart.Parts
import Kynos.Text.Utf8

/-!
# Names come back

The header block of a form-data part, and what the reader of its disposition
makes of it. The writer drops backslashes and line endings and escapes quotes;
every other character it writes as it is, also the controls that no quoted
string admits.
-/

namespace Kynos.Multipart

open Kynos.Http PartDisposition

/-! ## What is written -/

/-- A name without what the writer drops. -/
def kept (name : Text) : Text :=
  name.filter fun character => character != '\\' && character != '\r' && character != '\n'

/-- A character as the writer spells it. -/
def escape (character : Char) : Text :=
  if character = '"' then ['\\', '"'] else [character]

/-- The parameter of a label, as it is written. -/
def written (label name : Text) : Text :=
  ';' :: ' ' :: (label ++ '=' :: '"' :: ((kept name).flatMap escape ++ ['"']))

/-- The value of `Content-Disposition`, as it is written. -/
def fieldText (name : Text) (fileName : Option Text) : Text :=
  formData ++ (written "name".toList name ++ fileName.elim [] (written "filename".toList))

/-- A part whose names and type are text. -/
def Part.ofText (name : Text) (fileName contentType : Option Text) (bytes : Octets) : Part where
  name := name.toOctets
  fileName := fileName.map Text.toOctets
  contentType := contentType.map Text.toOctets
  bytes := bytes

/-- The name of the header. -/
def dispositionLabel : Octets :=
  Text.toOctets "Content-Disposition: ".toList

/-- The name of the other header. -/
def contentTypeLabel : Octets :=
  Text.toOctets "Content-Type: ".toList

/-- A character that can be written: a line ending, which is dropped, or one a
quoted string admits. -/
def Writable (name : Text) : Prop :=
  ∀ character ∈ name, character ≠ '\r' → character ≠ '\n' → admitted character = true

instance : DecidablePred Writable :=
  fun _ => inferInstanceAs (Decidable (∀ _ ∈ _, _))

theorem kept_cons (character : Char) (rest : Text) :
    kept (character :: rest) =
      if character = '\\' ∨ character = '\r' ∨ character = '\n' then kept rest
      else character :: kept rest := by
  rw [kept, List.filter_cons]
  by_cases dropped : character = '\\' ∨ character = '\r' ∨ character = '\n'
  · rw [if_pos dropped, if_neg (by rcases dropped with rfl | rfl | rfl <;> decide)]
    rfl
  · rw [if_neg dropped, if_pos (by simpa [not_or, and_assoc] using dropped)]
    rfl

theorem quoted_cons_of_ne {octet : UInt8} (rest : Octets)
    (plain : octet ≠ 34 ∧ octet ≠ 92 ∧ octet ≠ 13 ∧ octet ≠ 10) :
    quoted (octet :: rest) = octet :: quoted rest := by
  rw [quoted, if_neg (by simpa using plain.1), if_neg (by simpa [not_or, and_assoc] using plain.2)]

theorem quoted_append_of_plain {octets : Octets}
    (plain : ∀ octet ∈ octets, octet ≠ 34 ∧ octet ≠ 92 ∧ octet ≠ 13 ∧ octet ≠ 10) (rest : Octets) :
    quoted (octets ++ rest) = octets ++ quoted rest := by
  induction octets with
  | nil => rfl
  | cons octet octets ih =>
      obtain ⟨first, others⟩ := List.forall_mem_cons.mp plain
      rw [List.cons_append, quoted_cons_of_ne _ first, ih others, List.cons_append]

/-- No octet of a character that is written as it is starts an escape or ends a
line. -/
theorem plain_utf8EncodeChar {character : Char}
    (plain : character ≠ '"' ∧ character ≠ '\\' ∧ character ≠ '\r' ∧ character ≠ '\n') :
    ∀ octet ∈ String.utf8EncodeChar character, octet ≠ 34 ∧ octet ≠ 92 ∧ octet ≠ 13 ∧ octet ≠ 10 := by
  intro octet member
  rcases Nat.lt_or_ge character.toNat 128 with ascii | past
  · rw [Text.utf8EncodeChar_of_ascii ascii, List.mem_singleton] at member
    have code : ∀ other : Char, other.toNat < 128 → character ≠ other →
        octet ≠ UInt8.ofNat other.toNat := by
      rintro other low different rfl
      refine different (Char.toNat_inj.mp ?_)
      have same := congrArg UInt8.toNat member
      rw [UInt8.toNat_ofNat', UInt8.toNat_ofNat', Nat.mod_eq_of_lt (by omega),
        Nat.mod_eq_of_lt (by omega)] at same
      exact same.symm
    exact ⟨code '"' (by decide) plain.1, code '\\' (by decide) plain.2.1,
      code '\r' (by decide) plain.2.2.1, code '\n' (by decide) plain.2.2.2⟩
  · have high := Text.le_of_mem_utf8EncodeChar past member
    refine ⟨?_, ?_, ?_, ?_⟩ <;> rintro rfl <;> exact absurd high (by decide)

/-- What is written for a name, read as text. -/
theorem quoted_toOctets (name : Text) :
    quoted name.toOctets = Text.toOctets ((kept name).flatMap escape) := by
  induction name with
  | nil => rfl
  | cons character rest ih =>
      rw [Text.toOctets_cons, kept_cons]
      by_cases dropped : character = '\\' ∨ character = '\r' ∨ character = '\n'
      · rw [if_pos dropped, ← ih]
        rcases dropped with rfl | rfl | rfl <;> rfl
      · rw [if_neg dropped, List.flatMap_cons, Text.toOctets_append, ← ih, escape]
        by_cases isQuote : character = '"'
        · subst isQuote
          rfl
        · rw [if_neg isQuote, quoted_append_of_plain (plain_utf8EncodeChar
            ⟨isQuote, by simpa [not_or] using dropped⟩)]
          simp

/-- The disposition line is the header's name and the text of its value. -/
theorem disposition_ofText (name : Text) (fileName contentType : Option Text) (bytes : Octets) :
    (Part.ofText name fileName contentType bytes).disposition =
      dispositionLabel ++ (fieldText name fileName).toOctets := by
  have start : Text.toOctets "Content-Disposition: form-data; name=\"".toList =
      dispositionLabel ++ Text.toOctets (formData ++ "; name=\"".toList) := by decide
  have quote : ([34] : Octets) = Text.toOctets ['"'] := by decide
  rw [Part.disposition, Part.ofText, quoted_toOctets, start, quote, fieldText]
  cases fileName with
  | none => simp [written]
  | some fileName => simp [written, quoted_toOctets]

theorem headerLines_ofText (name : Text) (fileName contentType : Option Text) (bytes : Octets) :
    (Part.ofText name fileName contentType bytes).headerLines =
      (dispositionLabel ++ (fieldText name fileName).toOctets) ::
        contentType.elim [] fun type_ => [contentTypeLabel ++ unfolded type_.toOctets] := by
  rw [Part.headerLines, disposition_ofText]
  cases contentType <;> rfl

/-- The header block is these lines. -/
theorem bodyLines_headers (part : Part) : bodyLines part.headers = part.headerLines ++ [[]] := by
  have plain : ∀ line ∈ part.headerLines, 10 ∉ line := fun line member =>
    (Part.headed_of_mem_headerLines member).2.2
  have lines := bodyLines_block_append plain []
  rwa [List.append_nil, ← Part.headers_eq_block] at lines

/-! ## What is read -/

/-- The parameters the loop reads from an input, first to last. -/
inductive Reads : Text → List (Text × Text) → Prop where
  | done {input : Text} (isDone : skipOws input = []) : Reads input []
  | skip {input rest : Text} {parameters : List (Text × Text)}
      (isEmpty : parameter input = some (none, rest)) (others : Reads rest parameters) :
      Reads input parameters
  | read {input rest : Text} {first : Text × Text} {parameters : List (Text × Text)}
      (isFirst : parameter input = some (some first, rest)) (others : Reads rest parameters) :
      Reads input (first :: parameters)

theorem parameter_of_done {input : Text} (isDone : skipOws input = []) : parameter input = none := by
  rw [parameter, isDone]
  rfl

/-- An input is read one way. -/
theorem Reads.unique {input : Text} {first second : List (Text × Text)} (reads : Reads input first)
    (other : Reads input second) : first = second := by
  induction reads generalizing second with
  | done isDone =>
      cases other with
      | done => rfl
      | skip isEmpty => simp [parameter_of_done isDone] at isEmpty
      | read isFirst => simp [parameter_of_done isDone] at isFirst
  | skip isEmpty _ ih =>
      cases other with
      | done isDone => simp [parameter_of_done isDone] at isEmpty
      | skip isSame others =>
          obtain rfl : _ = _ := (Prod.mk.inj (Option.some.inj (isEmpty.symm.trans isSame))).2
          exact ih others
      | read isFirst => simp [isEmpty] at isFirst
  | read isFirst _ ih =>
      cases other with
      | done isDone => simp [parameter_of_done isDone] at isFirst
      | skip isEmpty => simp [isEmpty] at isFirst
      | read isSame others =>
          obtain ⟨same, rfl⟩ := Prod.mk.inj (Option.some.inj (isFirst.symm.trans isSame))
          obtain rfl := Option.some.inj same
          rw [ih others]

theorem parameters_of_done {field input : Text} {slots : Slots} (isDone : skipOws input = []) :
    parameters field slots input = .ok slots := by
  rw [parameters, if_pos isDone]

theorem parameters_of_none {field input : Text} {slots : Slots} (isWritten : skipOws input ≠ [])
    (isNone : parameter input = none) : parameters field slots input = .error (malformed field) := by
  rw [parameters, if_neg isWritten]
  split
  · rfl
  · simp_all
  · simp_all

theorem parameters_of_some {field input rest label read : Text} {slots next : Slots}
    (isRead : parameter input = some (some (label, read), rest))
    (puts : slots.put label read = .ok next) :
    parameters field slots input = parameters field next rest := by
  have isWritten : skipOws input ≠ [] := fun isDone => by
    simp [parameter_of_done isDone] at isRead
  rw [parameters, if_neg isWritten]
  split
  · simp_all
  · simp_all
  · rename_i isSame
    obtain ⟨same, rfl⟩ := Prod.mk.inj (Option.some.inj (isRead.symm.trans isSame))
    obtain ⟨rfl, rfl⟩ := Prod.mk.inj (Option.some.inj same)
    rw [puts]

/-! ## A parameter comes back -/

theorem endsToken_of_isTchar {character : Char} (tchar : isTchar character = true) :
    endsToken character = false := by
  have apart : ∀ delimiter ∈ delimiters, character ≠ delimiter := fun delimiter isDelimiter =>
    ne_of_isTchar tchar isDelimiter
  have visible := (toNat_of_isTchar tchar).1
  have notBlank : Text.isOws character = false := by
    rw [Bool.eq_false_iff]
    intro blank
    simp only [Text.isOws, Bool.or_eq_true, beq_iff_eq] at blank
    rcases blank with rfl | rfl <;> exact absurd visible (by decide)
  have semicolon : character ≠ ';' := apart ';' (by decide)
  have equals : character ≠ '=' := apart '=' (by decide)
  have quote : character ≠ '"' := apart '"' (by decide)
  simp [endsToken, notBlank, semicolon, equals, quote]

/-- A token ends at what ends tokens. -/
theorem token_append {label after : Text} {stop : Char} (isLabel : isToken label = true)
    (ends : endsToken stop = true) : token (label ++ stop :: after) = (label, stop :: after) := by
  have open_ : ∀ character ∈ label, (!endsToken character) = true := fun character member => by
    rw [endsToken_of_isTchar (isTchar_of_mem isLabel member), Bool.not_false]
  rw [token, List.takeWhile_append_of_pos open_, List.dropWhile_append_of_pos open_]
  simp [ends]

theorem skipOws_of_visible {first : Char} {rest : Text} (visible : Text.isOws first = false) :
    skipOws (first :: rest) = first :: rest := by
  simp [skipOws, visible]

theorem skipOws_token {label : Text} (isLabel : isToken label = true) (rest : Text) :
    skipOws (label ++ rest) = label ++ rest := by
  obtain ⟨first, others, rfl⟩ := List.exists_cons_of_ne_nil (ne_nil_of_isToken isLabel)
  have tchar := isTchar_of_mem isLabel List.mem_cons_self
  have visible : Text.isOws first = false := by
    have ends := endsToken_of_isTchar tchar
    simp only [endsToken, Bool.or_eq_false_iff] at ends
    exact ends.1.1.1
  exact skipOws_of_visible visible

theorem stripPrefix_cons (first : Char) (rest : Text) :
    Date.stripPrefix [first] (first :: rest) = some rest := by
  simp [Date.stripPrefix]

/-- A labelled quoted string is read as the string. -/
theorem parameter_quoted {label body : Text} (isLabel : isToken label = true) :
    parameter (';' :: ' ' :: (label ++ '=' :: '"' :: body)) =
      (quotedRest body).map fun read => (some (label, read.1), read.2) := by
  obtain ⟨first, others, isCons⟩ := List.exists_cons_of_ne_nil (ne_nil_of_isToken isLabel)
  have notSemicolon : first ≠ ';' :=
    ne_of_isTchar (isTchar_of_mem isLabel (isCons ▸ List.mem_cons_self)) (by decide)
  have afterSpace : skipOws (' ' :: (label ++ '=' :: '"' :: body)) = label ++ '=' :: '"' :: body := by
    have space : Text.isOws ' ' = true := by decide
    rw [skipOws, List.dropWhile_cons, if_pos space]
    exact skipOws_token isLabel _
  have starts : ¬ (label ++ '=' :: '"' :: body = [] ∨
      (label ++ '=' :: '"' :: body).head? = some ';') := by
    simp [isCons, notSemicolon]
  have isQuoted : value ('"' :: body) = quotedRest body := by
    have starts : ('"' :: body).head? = some '"' := rfl
    rw [value, if_pos starts, quotedString, stripPrefix_cons, Option.bind_some]
  rw [parameter, skipOws_of_visible (by decide), stripPrefix_cons, Option.bind_some]
  simp only [afterSpace, if_neg starts, token_append isLabel (show endsToken '=' = true by decide)]
  rw [skipOws_of_visible (by decide), stripPrefix_cons, Option.bind_some, if_pos isLabel,
    skipOws_of_visible (by decide), isQuoted]

/-- What is written for a name is read back where every character can be
written, and refused elsewhere. -/
theorem quotedRest_written (name after : Text) :
    quotedRest ((kept name).flatMap escape ++ '"' :: after) =
      if Writable name then some (kept name, after) else none := by
  induction name with
  | nil =>
      rw [if_pos (by simp [Writable]), kept, List.filter_nil, List.flatMap_nil, List.nil_append,
        quotedRest.eq_def]
      rfl
  | cons character rest ih =>
      have writable : Writable (character :: rest) ↔
          (character ≠ '\r' → character ≠ '\n' → admitted character = true) ∧ Writable rest :=
        List.forall_mem_cons
      rw [kept_cons]
      by_cases dropped : character = '\\' ∨ character = '\r' ∨ character = '\n'
      · have allowed : character ≠ '\r' → character ≠ '\n' → admitted character = true := by
          rcases dropped with rfl | rfl | rfl <;> decide
        rw [if_pos dropped, ih]
        exact if_congr (writable.trans (and_iff_right allowed)).symm rfl rfl
      · obtain ⟨notBackslash, notReturn, notNewline⟩ : character ≠ '\\' ∧ character ≠ '\r' ∧
            character ≠ '\n' := by simpa [not_or] using dropped
        rw [if_neg dropped, List.flatMap_cons, escape]
        by_cases isQuote : character = '"'
        · subst isQuote
          have quoted : ∀ tail, quotedRest ('\\' :: '"' :: tail) =
              (quotedRest tail).map (Prod.map ('"' :: ·) id) := fun tail => by
            rw [quotedRest.eq_def]
            simp [show admitted '"' = true by decide]
          have both : Writable ('"' :: rest) ↔ Writable rest :=
            writable.trans (and_iff_right fun _ _ => by decide)
          rw [if_pos rfl, List.append_assoc, List.cons_append, List.cons_append, List.nil_append,
            quoted, ih]
          simp only [both]
          split <;> rfl
        · have plain : ∀ tail, quotedRest (character :: tail) =
              if admitted character then (quotedRest tail).map (Prod.map (character :: ·) id)
              else none := fun tail => by
            rw [quotedRest.eq_def]
            simp [isQuote, notBackslash]
          have both : Writable (character :: rest) ↔ admitted character = true ∧ Writable rest :=
            writable.trans (and_congr_left fun _ => by simp [notReturn, notNewline])
          rw [if_neg isQuote, List.singleton_append, List.cons_append, plain, ih]
          simp only [both]
          by_cases isAdmitted : admitted character = true
          · simp only [isAdmitted, if_true, true_and]
            split <;> rfl
          · simp [isAdmitted]

/-- A written parameter is read back, or refused. -/
theorem parameter_written {label : Text} (isLabel : isToken label = true) (name after : Text) :
    parameter (written label name ++ after) =
      if Writable name then some (some (label, kept name), after) else none := by
  have shape : written label name ++ after =
      ';' :: ' ' :: (label ++ '=' :: '"' :: ((kept name).flatMap escape ++ '"' :: after)) := by
    simp [written]
  rw [shape, parameter_quoted isLabel, quotedRest_written]
  split <;> rfl

/-! ## The block -/

/-- A header block is one disposition line, whose value the reader accepts and
which holds no other parameter than the part's names, and one line of the part's
type, where it has one. -/
def Decodes (name : Text) (fileName contentType : Option Text) (part : Part) : Prop :=
  ∃ field : Text,
    bodyLines part.headers =
      (dispositionLabel ++ field.toOctets) ::
        contentType.elim [] (fun type_ => [contentTypeLabel ++ unfolded type_.toOctets]) ++ [[]] ∧
    PartDisposition.parse field = .ok ⟨kept name, fileName.map kept⟩ ∧
    ∀ parameters, Reads (token (skipOws field)).2 parameters ↔
      parameters = ("name".toList, kept name) ::
        fileName.toList.map fun fileName => ("filename".toList, kept fileName)

theorem token_fieldText (name : Text) (fileName : Option Text) :
    token (skipOws (fieldText name fileName)) =
      (formData, written "name".toList name ++ fileName.elim [] (written "filename".toList)) := by
  have isLabel : isToken formData = true := by decide
  rw [fieldText, skipOws_token isLabel, written, List.cons_append, token_append isLabel (by decide)]

theorem skipOws_written (label name after : Text) : skipOws (written label name ++ after) ≠ [] := by
  rw [written, List.cons_append, skipOws_of_visible (by decide)]
  exact List.cons_ne_nil _ _

theorem isToken_name : isToken "name".toList = true := by decide

theorem isToken_filename : isToken "filename".toList = true := by decide

theorem put_name (name : Text) :
    Slots.put ⟨none, none⟩ "name".toList (kept name) = .ok ⟨some (kept name), none⟩ :=
  rfl

theorem put_filename (name given : Text) :
    Slots.put ⟨some (kept name), none⟩ "filename".toList (kept given) =
      .ok ⟨some (kept name), some (kept given)⟩ :=
  rfl

/-- The reader of what is written, where every character can be written. -/
theorem parse_fieldText {name : Text} {fileName : Option Text} (writable : Writable name)
    (writableFile : ∀ given ∈ fileName, Writable given) :
    PartDisposition.parse (fieldText name fileName) = .ok ⟨kept name, fileName.map kept⟩ := by
  have isFormData : Text.eqIgnoreAsciiCase formData formData = true := by decide
  have first : parameter (written "name".toList name ++
      fileName.elim [] (written "filename".toList)) =
        some (some ("name".toList, kept name), fileName.elim [] (written "filename".toList)) := by
    rw [parameter_written isToken_name, if_pos writable]
  rw [PartDisposition.parse, token_fieldText]
  simp only [isFormData, if_true]
  rw [parameters_of_some first (put_name name)]
  cases fileName with
  | none => rw [Option.elim_none, parameters_of_done rfl]; rfl
  | some given =>
      have second : parameter (written "filename".toList given) =
          some (some ("filename".toList, kept given), []) := by
        have whole := parameter_written isToken_filename given []
        rwa [List.append_nil, if_pos (writableFile given rfl)] at whole
      rw [Option.elim_some, parameters_of_some second (put_filename name given),
        parameters_of_done rfl]
      rfl

/-- The reader refuses a name with a character that cannot be written. -/
theorem parse_fieldText_of_not_writable {name : Text} {fileName : Option Text}
    (unwritable : ¬ (Writable name ∧ ∀ given ∈ fileName, Writable given)) :
    PartDisposition.parse (fieldText name fileName) = .error (malformed (fieldText name fileName)) := by
  have isFormData : Text.eqIgnoreAsciiCase formData formData = true := by decide
  rw [PartDisposition.parse, token_fieldText]
  simp only [isFormData, if_true]
  by_cases writable : Writable name
  · have first : parameter (written "name".toList name ++
        fileName.elim [] (written "filename".toList)) =
          some (some ("name".toList, kept name), fileName.elim [] (written "filename".toList)) := by
      rw [parameter_written isToken_name, if_pos writable]
    rw [parameters_of_some first (put_name name)]
    cases fileName with
    | none => simp [writable] at unwritable
    | some given =>
        have refused : ¬ Writable given := by simpa [writable] using unwritable
        have second : parameter (written "filename".toList given) = none := by
          have whole := parameter_written isToken_filename given []
          rwa [List.append_nil, if_neg refused] at whole
        have isWritten := skipOws_written "filename".toList given []
        rw [List.append_nil] at isWritten
        rw [Option.elim_some, parameters_of_none isWritten second]
  · rw [parameters_of_none (skipOws_written _ _ _)
      (by rw [parameter_written isToken_name, if_neg writable])]

theorem reads_fieldText {name : Text} {fileName : Option Text} (writable : Writable name)
    (writableFile : ∀ given ∈ fileName, Writable given) :
    Reads (token (skipOws (fieldText name fileName))).2 (("name".toList, kept name) ::
      fileName.toList.map fun fileName => ("filename".toList, kept fileName)) := by
  rw [token_fieldText]
  have first : parameter (written "name".toList name ++
      fileName.elim [] (written "filename".toList)) =
        some (some ("name".toList, kept name), fileName.elim [] (written "filename".toList)) := by
    rw [parameter_written isToken_name, if_pos writable]
  refine .read first ?_
  cases fileName with
  | none => exact .done rfl
  | some given =>
      have second : parameter (written "filename".toList given) =
          some (some ("filename".toList, kept given), []) := by
        have whole := parameter_written isToken_filename given []
        rwa [List.append_nil, if_pos (writableFile given rfl)] at whole
      exact .read second (.done rfl)

theorem bodyLines_ofText (name : Text) (fileName contentType : Option Text) (bytes : Octets) :
    bodyLines (Part.ofText name fileName contentType bytes).headers =
      (dispositionLabel ++ (fieldText name fileName).toOctets) ::
        contentType.elim [] (fun type_ => [contentTypeLabel ++ unfolded type_.toOctets]) ++ [[]] := by
  rw [bodyLines_headers, headerLines_ofText]

/-- What decodes was written with characters a quoted string admits. -/
theorem writable_of_decodes {name : Text} {fileName contentType : Option Text} {bytes : Octets}
    (decodes : Decodes name fileName contentType (Part.ofText name fileName contentType bytes)) :
    Writable name ∧ ∀ given ∈ fileName, Writable given := by
  obtain ⟨field, isLines, isParsed, -⟩ := decodes
  have same : field = fieldText name fileName := by
    rw [bodyLines_ofText, List.cons_append, List.cons_append, List.cons.injEq,
      List.append_cancel_left_eq] at isLines
    exact (Text.toOctets_injective isLines.1).symm
  by_contra unwritable
  rw [same, parse_fieldText_of_not_writable unwritable] at isParsed
  cases isParsed

/-- The header block of a part decodes exactly where each character of its names
is a line ending or one a quoted string admits. -/
theorem decodes_iff_writable (name : Text) (fileName contentType : Option Text) (bytes : Octets) :
    Decodes name fileName contentType (Part.ofText name fileName contentType bytes) ↔
      Writable name ∧ ∀ given ∈ fileName, Writable given := by
  refine ⟨writable_of_decodes, fun ⟨writable, writableFile⟩ => ?_⟩
  refine ⟨fieldText name fileName, bodyLines_ofText _ _ _ _, parse_fieldText writable writableFile,
    fun parameters => ?_⟩
  refine ⟨fun reads => reads.unique (reads_fieldText writable writableFile), ?_⟩
  rintro rfl
  exact reads_fieldText writable writableFile

/-- A name with a control character is written in a header its reader refuses. -/
theorem not_decodes_control :
    ¬ Decodes "a\x01".toList none none (Part.ofText "a\x01".toList none none []) := by
  intro decodes
  have isAdmitted := (writable_of_decodes decodes).1 '\x01' (by decide) (by decide) (by decide)
  exact absurd isAdmitted (by decide)

end Kynos.Multipart
