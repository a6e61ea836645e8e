import Kynos.Negotiate.Field

/-!
# Media types

The checks of `http/media.rs` on a media type that is text: that it is a type
and a subtype, that its parameters are well formed, and that it is a media
range; and its parameters. A media range is read as the grammar has it, with no
white space around it.
-/

namespace Kynos.Negotiate

open Kynos.Word Kynos.Http

/-! ## The source -/

/-- A letter `is_field_value` allows: a tab or visible ASCII. -/
def isFieldLetter (letter : Char) : Bool :=
  letter == '\t' || (' ' ≤ letter && letter ≤ '~')

/-- `is_field_value`. -/
def isFieldValue (text : Text) : Bool :=
  text.all isFieldLetter

/-- `u8::is_ascii_whitespace`. -/
def isAsciiWhitespace (letter : Char) : Bool :=
  "\t\n\x0c\r ".toList.contains letter

/-- `<[u8]>::trim_ascii`. -/
def trimAscii (text : Text) : Text :=
  trimBy isAsciiWhitespace text

/-- `split_at_byte`. -/
def splitAtByte (byte : Char) (text : Text) : Text × Text :=
  (splitOnce byte text).getD (text, [])

/-- `split_essence`. -/
def splitEssence (mediaType : Text) : Text × Text :=
  let (essence, parameters) := splitAtByte ';' mediaType
  (trimAscii essence, parameters)

/-- `type_and_subtype`. -/
def typeAndSubtype (mediaType : Text) : Text × Text :=
  splitAtByte '/' (splitEssence mediaType).1

/-- `is_media_type`. -/
def isMediaType (mediaType : Text) : Bool :=
  let (type_, subtype) := typeAndSubtype mediaType
  isFieldValue mediaType && (isToken type_ && isToken subtype)

/-- The loop of `is_quoted_string` over what stands between the quotes. -/
def isQuotedContent (escaped : Bool) : Text → Bool
  | [] => !escaped
  | letter :: rest =>
      if escaped then
        isQuotedContent false rest
      else if letter = '\\' then
        isQuotedContent true rest
      else if letter = '"' then
        false
      else
        isQuotedContent false rest

/-- `is_quoted_string`. -/
def isQuotedString : Text → Bool
  | '"' :: rest => rest.getLast? == some '"' && isQuotedContent false rest.dropLast
  | _ => false

/-- One round of the loop of `has_well_formed_parameters`. -/
def isWellFormedParameter (parameter : Text) : Bool :=
  let parameter := trimAscii parameter
  let (name, value) := splitAtByte '=' parameter
  parameter.isEmpty || (isToken name && (isToken value || isQuotedString value))

/-- `has_well_formed_parameters`, whose loop reads the pieces of
`unquoted_split`, a last one that is empty left out. -/
def hasWellFormedParameters (mediaType : Text) : Bool :=
  (unquotedSplit ';' (splitEssence mediaType).2).all isWellFormedParameter

/-- `is_strict_media_type`. -/
def isStrictMediaType (value : Text) : Bool :=
  isMediaType value && (trimAscii value).length == value.length && hasWellFormedParameters value

/-- `is_media_range`. -/
def isMediaRange (range : Text) : Bool :=
  let (type_, subtype) := typeAndSubtype range
  isStrictMediaType range && (type_ ≠ ['*'] || subtype == ['*'])

/-- `parameters`. -/
def parameters (mediaType : Text) : List (Text × Text) :=
  let afterEssence := (splitOnce ';' mediaType).elim [] Prod.snd
  (unquotedSplit ';' afterEssence).filterMap fun parameter => splitOnce '=' (Text.trimOws parameter)

/-! ## White space -/

section FieldValue

variable {text : Text} (fieldValue : isFieldValue text = true)

theorem toNat_of_isFieldLetter {letter : Char} (isLetter : isFieldLetter letter = true) :
    letter = '\t' ∨ 32 ≤ letter.toNat ∧ letter.toNat ≤ 126 := by
  simp only [isFieldLetter, Bool.or_eq_true, beq_iff_eq, Bool.and_eq_true, decide_eq_true_eq]
    at isLetter
  exact isLetter

/-- White space of a field value is optional white space. -/
theorem isWhitespace_eq {letter : Char} (isLetter : isFieldLetter letter = true) :
    Text.isWhitespace letter = Text.isOws letter ∧ isAsciiWhitespace letter = Text.isOws letter := by
  rcases toNat_of_isFieldLetter isLetter with rfl | ⟨low, high⟩
  · decide
  · by_cases space : letter = ' '
    · subst space
      decide
    · have visible : 33 ≤ letter.toNat := by
        rcases Nat.lt_or_ge 32 letter.toNat with above | below
        · exact above
        · have isSpace : letter.toNat = ' '.toNat := Nat.le_antisymm below low
          exact absurd (Char.toNat_inj.mp isSpace) space
      have notBlank : ∀ blank : Char, blank.toNat < 33 → letter ≠ blank := by
        rintro blank isBlank rfl
        omega
      have notOws : Text.isOws letter = false := by
        simp [Text.isOws, space, notBlank '\t' (by decide)]
      rw [notOws, Text.isWhitespace_of_visible visible high]
      refine ⟨rfl, ?_⟩
      simp [isAsciiWhitespace, space, notBlank '\t' (by decide), notBlank '\n' (by decide),
        notBlank '\x0c' (by decide), notBlank '\r' (by decide)]

include fieldValue

theorem isFieldLetter_of_mem {letter : Char} (member : letter ∈ text) : isFieldLetter letter = true :=
  List.all_eq_true.mp fieldValue letter member

theorem trim_eq_trimOws : Text.trim text = Text.trimOws text :=
  trimBy_congr fun _ member => (isWhitespace_eq (isFieldLetter_of_mem fieldValue member)).1

theorem trimAscii_eq_trimOws : trimAscii text = Text.trimOws text :=
  trimBy_congr fun _ member => (isWhitespace_eq (isFieldLetter_of_mem fieldValue member)).2

end FieldValue

/-! ## Pieces -/

theorem eq_of_stops {delimiter : Char} {notQuote : delimiter ≠ '"'} {notEscape : delimiter ≠ '\\'}
    {state : Bool × Bool} {letter : Char}
    (stops : (quoting delimiter notQuote notEscape).step state letter = none) : letter = delimiter := by
  obtain ⟨quoted, escaped⟩ := state
  rw [Quoting.step] at stops
  split_ifs at stops with _ _ _ isDelimiter
  exact isDelimiter.2

theorem splitAtByte_of_notMem {byte : Char} {text : Text} (absent : byte ∉ text) :
    splitAtByte byte text = (text, []) := by
  rw [splitAtByte, splitOnce_eq_none_iff.mpr absent, Option.getD_none]

theorem splitAtByte_append {byte : Char} {before : Text} (absent : byte ∉ before) (after : Text) :
    splitAtByte byte (before ++ byte :: after) = (before, after) := by
  rw [splitAtByte, splitOnce_eq_some_iff.mpr ⟨absent, rfl⟩, Option.getD_some]

/-- The parameters of a media type, as the trimmed pieces between semicolons. -/
structure Cut (mediaType essence : Text) (words : List Text) : Prop where
  essence : (splitEssence mediaType).1 = essence
  wellFormed : hasWellFormedParameters mediaType = words.all isWellFormedParameter
  parameters : parameters mediaType = words.filterMap (splitOnce '=')

theorem isWellFormedParameter_trimOws {parameter : Text} (fieldValue : isFieldValue parameter = true) :
    isWellFormedParameter (Text.trimOws parameter) = isWellFormedParameter parameter := by
  have trimmed : trimAscii (Text.trimOws parameter) = trimAscii parameter := by
    rw [← trimAscii_eq_trimOws fieldValue]
    exact trimBy_trimBy _ _
  rw [isWellFormedParameter, trimmed, isWellFormedParameter]

theorem isFieldValue_append {first second : Text} :
    isFieldValue (first ++ second) = true ↔ isFieldValue first = true ∧ isFieldValue second = true := by
  rw [isFieldValue, List.all_append, Bool.and_eq_true]
  rfl

theorem isFieldValue_cons {letter : Char} {text : Text} :
    isFieldValue (letter :: text) = true ↔ isFieldLetter letter = true ∧ isFieldValue text = true := by
  rw [isFieldValue, List.all_cons, Bool.and_eq_true]
  rfl

theorem isFieldValue_of_mem_flatMap {pieces : List Text} {piece : Text} (member : piece ∈ pieces)
    (fieldValue : isFieldValue (pieces.flatMap (';' :: ·)) = true) : isFieldValue piece = true :=
  List.all_eq_true.mpr fun _ inPiece =>
    isFieldLetter_of_mem fieldValue
      (List.mem_flatMap.mpr ⟨piece, member, List.mem_cons_of_mem _ inPiece⟩)

/-- A text without quotes is read up to the semicolon that ends it. -/
theorem split_append {before : Text} (noQuote : '"' ∉ before) (noSemicolon : ';' ∉ before)
    (after : Text) :
    semicolons.split before = [before] ∧
      semicolons.split (before ++ ';' :: after) = before :: semicolons.split after := by
  have reads : before.foldlM semicolons.step (false, false) = some (false, false) :=
    foldlM_of_forall fun letter member => by
      have notQuote : letter ≠ '"' := ne_of_mem_of_not_mem member noQuote
      have notSemicolon : letter ≠ ';' := ne_of_mem_of_not_mem member noSemicolon
      simp [Quoting.step, semicolons, quoting, notQuote, notSemicolon]
  refine ⟨scan_eq_singleton reads, ?_⟩
  rw [Quoting.split, scan_append reads, scan_cons_of_none (by rfl), List.modifyHead_cons,
    List.append_nil]
  rfl

/-- What stands before the first semicolon, and the pieces after it. -/
theorem exists_cut {mediaType : Text} (fieldValue : isFieldValue mediaType = true)
    (noQuote : '"' ∉ (splitAtByte ';' mediaType).1) :
    ∃ before pieces, mediaType = before ++ pieces.flatMap (';' :: ·) ∧
      semicolons.split mediaType = before :: pieces ∧
      Cut mediaType (Text.trimOws before) (pieces.map Text.trimOws) := by
  by_cases absent : ';' ∉ mediaType
  · rw [splitAtByte_of_notMem absent] at noQuote
    have none : splitOnce ';' mediaType = none := splitOnce_eq_none_iff.mpr absent
    refine ⟨mediaType, [], by simp, (split_append noQuote absent []).1, ⟨?_, ?_, ?_⟩⟩
    · rw [splitEssence, splitAtByte_of_notMem absent]
      exact trimAscii_eq_trimOws fieldValue
    · rw [hasWellFormedParameters, splitEssence, splitAtByte_of_notMem absent]
      rfl
    · rw [parameters, none]
      rfl
  · obtain ⟨before, after, rfl, notBefore⟩ := List.eq_append_cons_of_mem (not_not.mp absent)
    rw [splitAtByte_append notBefore] at noQuote
    have isCut : splitOnce ';' (before ++ ';' :: after) = some (before, after) :=
      splitOnce_eq_some_iff.mpr ⟨notBefore, rfl⟩
    obtain ⟨first, rest, isSplit, joined⟩ :=
      exists_scan_eq_cons (fun _ _ stops => eq_of_stops stops) (false, false) after
    change semicolons.split after = first :: rest at isSplit
    have whole : ';' :: after = (first :: rest).flatMap (';' :: ·) := by
      rw [List.flatMap_cons, List.cons_append, ← joined]
    obtain ⟨fieldBefore, fieldAfter⟩ := isFieldValue_append.mp fieldValue
    refine ⟨before, first :: rest, by rw [← whole], ?_, ⟨?_, ?_, ?_⟩⟩
    · rw [(split_append noQuote notBefore after).2, isSplit]
    · rw [splitEssence, splitAtByte_append notBefore]
      exact trimAscii_eq_trimOws fieldBefore
    · rw [hasWellFormedParameters, splitEssence, splitAtByte_append notBefore, unquotedSplit_semicolon,
        isSplit, List.all_map]
      rw [whole] at fieldAfter
      rw [Bool.eq_iff_iff, List.all_eq_true, List.all_eq_true]
      exact forall₂_congr fun piece member => by
        rw [Function.comp_apply,
          isWellFormedParameter_trimOws (isFieldValue_of_mem_flatMap member fieldAfter)]
    · rw [parameters, isCut, Option.elim_some, unquotedSplit_semicolon, isSplit, List.filterMap_map]
      rfl

/-! ## Quoted strings -/

/-- What may stand between quotes, from a letter that is not escaped on and from
one that is. -/
theorem isQuotedContent_iff {content : Text} (fieldValue : isFieldValue content = true) :
    (isQuotedContent false content = true ↔ QuotedContent content) ∧
      (isQuotedContent true content = true ↔
        ∃ letter rest, content = letter :: rest ∧ QuotedContent rest) := by
  induction content with
  | nil => exact ⟨⟨fun _ => .nil, fun _ => rfl⟩, ⟨nofun, nofun⟩⟩
  | cons letter rest ih =>
      obtain ⟨isLetter, fieldRest⟩ := isFieldValue_cons.mp fieldValue
      obtain ⟨plain, escaped⟩ := ih fieldRest
      refine ⟨?_, ?_⟩
      · rw [isQuotedContent, if_neg Bool.false_ne_true]
        split_ifs with isEscape isQuote
        · rw [escaped, isEscape]
          constructor
          · rintro ⟨next, content, rfl, quoted⟩
            refine .quotedPair ?_ quoted
            rcases toNat_of_isFieldLetter (isFieldLetter_of_mem fieldRest List.mem_cons_self) with
              tab | ⟨low, high⟩
            · exact .inl tab
            · exact .inr ⟨low, by omega⟩
          · rintro (_ | ⟨isQdtext, _⟩ | ⟨_, quoted⟩)
            · rcases isQdtext with impossible | ⟨_, _, notEscape, _⟩
              · exact absurd impossible (by decide)
              · exact absurd rfl notEscape
            · exact ⟨_, _, rfl, quoted⟩
        · rw [isQuote]
          refine ⟨nofun, ?_⟩
          rintro (_ | ⟨isQdtext, _⟩)
          rcases isQdtext with impossible | ⟨_, notQuote, _⟩
          · exact absurd impossible (by decide)
          · exact absurd rfl notQuote
        · rw [plain]
          constructor
          · refine .qdtext ?_
            rcases toNat_of_isFieldLetter isLetter with tab | ⟨low, high⟩
            · exact .inl tab
            · exact .inr ⟨low, isQuote, isEscape, by omega⟩
          · rintro (_ | ⟨_, quoted⟩ | ⟨_, quoted⟩)
            · exact quoted
            · exact absurd rfl isEscape
      · rw [isQuotedContent, if_pos rfl, plain]
        constructor
        · exact fun quoted => ⟨letter, rest, rfl, quoted⟩
        · rintro ⟨_, _, same, quoted⟩
          rw [List.cons.injEq] at same
          rwa [same.2]

theorem isQuotedString_iff {value : Text} : isQuotedString value = true ↔
    ∃ content, value = '"' :: content ++ ['"'] ∧ isQuotedContent false content = true := by
  constructor
  · intro quoted
    rw [isQuotedString.eq_def] at quoted
    split at quoted
    next rest =>
      obtain ⟨ends, isContent⟩ := Bool.and_eq_true_iff.mp quoted
      rw [beq_iff_eq] at ends
      refine ⟨rest.dropLast, ?_, isContent⟩
      rw [List.cons_append, List.dropLast_append_getLast? _ ends]
    next => cases quoted
  · rintro ⟨content, rfl, isContent⟩
    rw [List.cons_append, isQuotedString, List.getLast?_concat, List.dropLast_concat, isContent]
    rfl

/-! ## Parameters -/

/-- A value is a token or a quoted string. -/
theorem isValue_iff {value : Text} (fieldValue : isFieldValue value = true) :
    (isToken value || isQuotedString value) = true ↔ ∃ spelling : Value, spelling.text = value := by
  rw [Bool.or_eq_true, isQuotedString_iff]
  constructor
  · rintro (token | ⟨content, rfl, isContent⟩)
    · exact ⟨.token ⟨value, token⟩, rfl⟩
    · have fieldContent : isFieldValue content = true :=
        (isFieldValue_append.mp (isFieldValue_cons.mp fieldValue).2).1
      exact ⟨.quotedString content ((isQuotedContent_iff fieldContent).1.mp isContent), rfl⟩
  · rintro ⟨spelling, rfl⟩
    cases spelling with
    | token spelling => exact .inl spelling.token
    | quotedString content quoted =>
        have fieldContent : isFieldValue content = true :=
          (isFieldValue_append.mp (isFieldValue_cons.mp fieldValue).2).1
        exact .inr ⟨content, rfl, (isQuotedContent_iff fieldContent).1.mpr quoted⟩

theorem trimAscii_of_solid {word : Text} (fieldValue : isFieldValue word = true)
    (solid : Solid Text.isOws word) : trimAscii word = word := by
  rw [trimAscii_eq_trimOws fieldValue]
  exact trimBy_of_solid solid

theorem isWellFormedParameter_of_halves {word name value : Text} (kept : trimAscii word = word)
    (halves : splitAtByte '=' word = (name, value)) : isWellFormedParameter word =
      (word.isEmpty || (isToken name && (isToken value || isQuotedString value))) := by
  rw [isWellFormedParameter, kept, halves]

/-- A trimmed piece is a parameter or nothing. -/
theorem isWellFormedParameter_iff {word : Text} (fieldValue : isFieldValue word = true)
    (solid : Solid Text.isOws word) : isWellFormedParameter word = true ↔
      ∃ parameter : Option Parameter, (parameter.map Parameter.text).getD [] = word := by
  have kept := trimAscii_of_solid fieldValue solid
  constructor
  · intro wellFormed
    by_cases absent : '=' ∉ word
    · rw [isWellFormedParameter_of_halves kept (splitAtByte_of_notMem absent), Bool.or_eq_true,
        Bool.and_eq_true] at wellFormed
      rcases wellFormed with empty | ⟨_, value⟩
      · exact ⟨none, (List.isEmpty_iff.mp empty).symm⟩
      · cases value
    · obtain ⟨before, after, rfl, notBefore⟩ := List.eq_append_cons_of_mem (not_not.mp absent)
      rw [isWellFormedParameter_of_halves kept (splitAtByte_append notBefore after), Bool.or_eq_true,
        Bool.and_eq_true] at wellFormed
      rcases wellFormed with empty | ⟨name, value⟩
      · simp at empty
      · have fieldAfter := (isFieldValue_cons.mp (isFieldValue_append.mp fieldValue).2).2
        obtain ⟨spelling, rfl⟩ := (isValue_iff fieldAfter).mp value
        exact ⟨some ⟨⟨before, name⟩, spelling⟩, rfl⟩
  · rintro ⟨_ | parameter, rfl⟩
    · rfl
    · have absent : '=' ∉ parameter.name.text := notMem_of_isToken parameter.name.token (by decide)
      have fieldText : isFieldValue (parameter.name.text ++ '=' :: parameter.value.text) = true :=
        fieldValue
      have fieldAfter := (isFieldValue_cons.mp (isFieldValue_append.mp fieldText).2).2
      rw [isWellFormedParameter_of_halves kept (splitAtByte_append absent parameter.value.text),
        parameter.name.token, (isValue_iff fieldAfter).mpr ⟨_, rfl⟩]
      exact Bool.or_true _

/-- Well-formed pieces are slots, up to the white space after the last. -/
theorem exists_slots {pieces : List Text}
    (wellFormed : (pieces.map Text.trimOws).all isWellFormedParameter = true)
    (fieldValue : ∀ piece ∈ pieces, isFieldValue piece = true) (lead : Ows) :
    ∃ (slots : List Slot) (trail : Ows),
      lead.text ++ pieces.flatMap (';' :: ·) = slots.flatMap Slot.text ++ trail.text := by
  induction pieces generalizing lead with
  | nil => exact ⟨[], lead, by simp⟩
  | cons piece pieces ih =>
      rw [List.map_cons, List.all_cons, Bool.and_eq_true] at wellFormed
      obtain ⟨left, right, cut, leftBlank, rightBlank⟩ := exists_eq_trimBy Text.isOws piece
      change piece = left ++ Text.trimOws piece ++ right at cut
      have fieldPiece := fieldValue piece List.mem_cons_self
      have fieldWord : isFieldValue (Text.trimOws piece) = true := by
        rw [cut] at fieldPiece
        exact (isFieldValue_append.mp (isFieldValue_append.mp fieldPiece).1).2
      obtain ⟨parameter, isWord⟩ :=
        (isWellFormedParameter_iff fieldWord (solid_trimBy _ _)).mp wellFormed.1
      obtain ⟨slots, trail, joined⟩ := ih wellFormed.2
        (fun other member => fieldValue other (List.mem_cons_of_mem _ member)) ⟨right, rightBlank⟩
      refine ⟨⟨lead, ⟨left, leftBlank⟩, parameter⟩ :: slots, trail, ?_⟩
      rw [List.flatMap_cons, List.flatMap_cons, List.append_assoc, ← joined, cut, ← isWord]
      simp [Slot.text, Slot.word]

/-! ## Media ranges -/

/-- A star stands for a type only where it stands for its subtypes too. -/
def MediaRange.Meaningful (range : MediaRange) : Prop :=
  range.type_.text = ['*'] → range.subtype.text = ['*']

/-- A media range in the octets of a field value, with no white space around
it. -/
structure Element.IsMediaRange (element : Element) : Prop where
  fieldValue : isFieldValue element.text = true
  solid : Solid Text.isOws element.text
  meaningful : element.range.Meaningful

theorem solid_of_length {text : Text} (fieldValue : isFieldValue text = true)
    (kept : (trimAscii text).length = text.length) : Solid Text.isOws text := by
  rw [trimAscii_eq_trimOws fieldValue] at kept
  have whole : Text.trimOws text = text := (trimBy_isInfix _ text).eq_of_length kept
  rw [← whole]
  exact solid_trimBy _ _

theorem exists_range {type_ subtype essence : Text} (halves : splitAtByte '/' essence = (type_, subtype))
    (typeToken : isToken type_ = true) (subtypeToken : isToken subtype = true) :
    ∃ range : MediaRange, range.text = essence ∧ range.type_.text = type_ ∧
      range.subtype.text = subtype := by
  by_cases absent : '/' ∉ essence
  · rw [splitAtByte_of_notMem absent] at halves
    cases halves
    cases subtypeToken
  · obtain ⟨before, after, rfl, notBefore⟩ := List.eq_append_cons_of_mem (not_not.mp absent)
    rw [splitAtByte_append notBefore] at halves
    cases halves
    exact ⟨⟨⟨_, typeToken⟩, ⟨_, subtypeToken⟩⟩, rfl, rfl, rfl⟩

theorem isMediaRange_of_halves {range type_ subtype : Text}
    (halves : typeAndSubtype range = (type_, subtype)) : isMediaRange range =
      ((isFieldValue range && (isToken type_ && isToken subtype) &&
        (trimAscii range).length == range.length && hasWellFormedParameters range) &&
          (type_ ≠ ['*'] || subtype == ['*'])) := by
  rw [isMediaRange, isStrictMediaType, isMediaType, halves]

theorem notMem_range {delimiter : Char} (isDelimiter : delimiter ∈ delimiters)
    (notSlash : delimiter ≠ '/') (range : MediaRange) : delimiter ∉ range.text := by
  intro member
  rcases List.mem_append.mp member with inType | inRest
  · exact notMem_of_isToken range.type_.token isDelimiter inType
  · rcases List.mem_cons.mp inRest with slash | inSubtype
    · exact notSlash slash
    · exact notMem_of_isToken range.subtype.token isDelimiter inSubtype

theorem noQuote_before (element : Element) : '"' ∉ (splitAtByte ';' element.text).1 := by
  have noQuote := notMem_range (show '"' ∈ delimiters by decide) (by decide) element.range
  have noSemicolon := notMem_range (show ';' ∈ delimiters by decide) (by decide) element.range
  rcases isSlots : element.slots with _ | ⟨slot, slots⟩
  · have whole : element.text = element.range.text := by
      rw [Element.text, isSlots, List.flatMap_nil, List.append_nil]
    rw [whole, splitAtByte_of_notMem noSemicolon]
    exact noQuote
  · have whole : element.text = element.range.text ++ slot.before.text ++ ';' ::
        (slot.after.text ++ slot.word ++ slots.flatMap Slot.text) := by
      simp [Element.text, isSlots, Slot.text]
    have notBlank : ∀ letter ∈ slot.before.text, letter ≠ ';' ∧ letter ≠ '"' := by
      intro letter member
      have blank := slot.before.blank letter member
      constructor <;>
        · rintro rfl
          cases blank
    rw [whole, splitAtByte_append]
    · rw [List.mem_append, not_or]
      exact ⟨noQuote, fun member => (notBlank _ member).2 rfl⟩
    · rw [List.mem_append, not_or]
      exact ⟨noSemicolon, fun member => (notBlank _ member).1 rfl⟩

section Element

variable {element : Element} (fieldValue : isFieldValue element.text = true)

include fieldValue

/-- A media range is cut into its type and its parameters. -/
theorem cut_text : Cut element.text element.range.text (element.slots.map Slot.word) := by
  obtain ⟨before, pieces, whole, isSplit, cut⟩ := exists_cut fieldValue (noQuote_before element)
  have closed : semicolons.Closed element.range.text :=
    closed_of_range (by decide) (by decide) element.range
  have trimmed := map_trim_split closed element.slots ⟨[], nofun⟩
  have cutWhole : element.range.text ++ (element.slots.flatMap Slot.text ++ []) = element.text := by
    rw [List.append_nil, Element.text]
  have rangeTrimmed : Text.trim element.range.text = element.range.text :=
    trimBy_of_solid (solid_range element.range)
  rw [cutWhole, isSplit, List.map_cons, List.cons.injEq, rangeTrimmed] at trimmed
  obtain ⟨fieldBefore, fieldPieces⟩ := isFieldValue_append.mp (whole ▸ fieldValue)
  have first : Text.trimOws before = element.range.text := by
    rw [← trim_eq_trimOws fieldBefore]
    exact trimmed.1
  have rest : pieces.map Text.trimOws = element.slots.map Slot.word := by
    rw [← trimmed.2]
    exact List.map_congr_left fun piece member =>
      (trim_eq_trimOws (isFieldValue_of_mem_flatMap member fieldPieces)).symm
  rwa [first, rest] at cut

theorem typeAndSubtype_text :
    typeAndSubtype element.text = (element.range.type_.text, element.range.subtype.text) := by
  rw [typeAndSubtype, (cut_text fieldValue).essence]
  exact splitAtByte_append (notMem_of_isToken element.range.type_.token (by decide)) _

/-- The parameters of a media range are those it is written with. -/
theorem parameters_text : parameters element.text =
    (element.slots.filterMap Slot.parameter).map fun parameter =>
      (parameter.name.text, parameter.value.text) := by
  rw [(cut_text fieldValue).parameters, List.filterMap_map, List.map_filterMap]
  refine List.filterMap_congr fun slot _ => ?_
  rw [Function.comp_apply, Slot.word]
  cases slot.parameter with
  | none => rfl
  | some parameter =>
      exact splitOnce_eq_some_iff.mpr
        ⟨notMem_of_isToken parameter.name.token (by decide), rfl⟩

theorem hasWellFormedParameters_text : hasWellFormedParameters element.text = true := by
  rw [(cut_text fieldValue).wellFormed, List.all_map, List.all_eq_true]
  intro slot member
  have fieldWord : isFieldValue slot.word = true := by
    rw [Element.text, isFieldValue_append] at fieldValue
    have inSlots : ∀ letter ∈ slot.word, letter ∈ element.slots.flatMap Slot.text :=
      fun letter inWord => List.mem_flatMap.mpr ⟨slot, member, by simp [Slot.text, inWord]⟩
    exact List.all_eq_true.mpr fun letter inWord =>
      isFieldLetter_of_mem fieldValue.2 (inSlots letter inWord)
  have solid : Solid Text.isOws slot.word :=
    (solid_word slot).mono fun _ => Text.isWhitespace_of_isOws
  exact (isWellFormedParameter_iff fieldWord solid).mpr ⟨slot.parameter, rfl⟩

end Element

/-- Between a first word and white space, a solid word is that word alone. -/
theorem eq_of_solid {left middle right : Text} (solid : Solid Text.isOws (left ++ middle ++ right))
    (leftBlank : ∀ letter ∈ left, Text.isOws letter = true)
    (rightBlank : ∀ letter ∈ right, Text.isOws letter = true) : left = [] ∧ right = [] := by
  constructor
  · cases left with
    | nil => rfl
    | cons letter left =>
        have visible := solid.first letter rfl
        rw [leftBlank letter List.mem_cons_self] at visible
        cases visible
  · by_contra nonempty
    have last : (left ++ middle ++ right).getLast? = some (right.getLast nonempty) := by
      rw [List.getLast?_append_of_ne_nil _ nonempty, List.getLast?_eq_getLast_of_ne_nil nonempty]
    have visible := solid.last _ last
    rw [rightBlank _ (List.getLast_mem nonempty)] at visible
    cases visible

/-- A media range is read exactly where the grammar has one. -/
theorem isMediaRange_iff {range : Text} : isMediaRange range = true ↔
    ∃ element : Element, element.text = range ∧ element.IsMediaRange := by
  rcases halves : typeAndSubtype range with ⟨type_, subtype⟩
  rw [isMediaRange_of_halves halves]
  simp only [Bool.and_eq_true, Bool.or_eq_true, decide_eq_true_eq, beq_iff_eq]
  constructor
  · rintro ⟨⟨⟨⟨fieldValue, typeToken, subtypeToken⟩, kept⟩, wellFormed⟩, star⟩
    obtain ⟨mediaRange, isEssence, isType, isSubtype⟩ :=
      exists_range halves typeToken subtypeToken
    have noQuote : '"' ∉ (splitAtByte ';' range).1 := by
      obtain ⟨left, right, cut, leftBlank, rightBlank⟩ :=
        exists_eq_trimBy isAsciiWhitespace (splitAtByte ';' range).1
      have essence : trimBy isAsciiWhitespace (splitAtByte ';' range).1 = mediaRange.text :=
        isEssence.symm
      rw [cut, essence, List.mem_append, List.mem_append]
      rintro ((inLeft | inRange) | inRight)
      · exact absurd (leftBlank _ inLeft) (by decide)
      · exact notMem_range (by decide) (by decide) mediaRange inRange
      · exact absurd (rightBlank _ inRight) (by decide)
    obtain ⟨before, pieces, whole, -, cut⟩ := exists_cut fieldValue noQuote
    obtain ⟨left, right, padded, leftBlank, rightBlank⟩ := exists_eq_trimBy Text.isOws before
    have essence : trimBy Text.isOws before = mediaRange.text := cut.essence.symm.trans isEssence.symm
    obtain ⟨slots, trail, joined⟩ := exists_slots (cut.wellFormed.symm.trans wellFormed)
      (fun piece member =>
        isFieldValue_of_mem_flatMap member (isFieldValue_append.mp (whole ▸ fieldValue)).2)
      ⟨right, rightBlank⟩
    have spelled : range = left ++ (mediaRange.text ++ slots.flatMap Slot.text) ++ trail.text := by
      rw [whole, padded, essence, List.append_assoc, joined]
      simp
    have solid := solid_of_length fieldValue kept
    obtain ⟨rfl, noTrail⟩ := eq_of_solid (spelled ▸ solid) leftBlank trail.blank
    have isText : Element.text ⟨mediaRange, slots⟩ = range := by
      rw [spelled, noTrail]
      simp [Element.text]
    refine ⟨⟨mediaRange, slots⟩, isText, isText ▸ fieldValue, isText ▸ solid, fun isStar => ?_⟩
    rw [isType] at isStar
    rw [isSubtype]
    exact star.resolve_left (not_not.mpr isStar)
  · rintro ⟨element, rfl, isMediaRange⟩
    rw [typeAndSubtype_text isMediaRange.fieldValue] at halves
    cases halves
    refine ⟨⟨⟨⟨isMediaRange.fieldValue, element.range.type_.token, element.range.subtype.token⟩, ?_⟩,
      hasWellFormedParameters_text isMediaRange.fieldValue⟩, ?_⟩
    · rw [trimAscii_of_solid isMediaRange.fieldValue isMediaRange.solid]
    · by_cases star : element.range.type_.text = ['*']
      · exact .inr (isMediaRange.meaningful star)
      · exact .inl star

end Kynos.Negotiate
