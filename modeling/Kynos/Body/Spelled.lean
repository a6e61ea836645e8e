import Kynos.Body.Offers

/-!
# The spellings of a Content-Type

RFC 9110 sections 5.6.6 and 8.3.1 leave a media type many spellings: the case of
names, white space and empty parameters around semicolons, and a value that is a
token or a quoted string, any letter of which may be escaped. The source takes
the quotes off a value and leaves its escapes in, so spellings without an escape
are answered alike, and a needless escape changes the answer.
-/

namespace Kynos.Body

open Kynos.Word Kynos.Http Kynos.Negotiate

/-! ## Values -/

/-- What stands within quotes, without its escapes. -/
def unescape : Text → Text
  | [] => []
  | '\\' :: letter :: rest => letter :: unescape rest
  | letter :: rest => letter :: unescape rest

/-- The value a token or a quoted string spells. -/
def valueOf : Value → Text
  | .token spelling => spelling.text
  | .quotedString content _ => unescape content

/-- What the source reads a value as. -/
def reading (value : Value) : Text :=
  trimQuotes value.text

/-- One parameter, spelled twice. -/
structure SameParameter (left right : Parameter) : Prop where
  name : Text.eqIgnoreAsciiCase left.name.text right.name.text = true
  value : valueOf left.value = valueOf right.value ∨
    Text.eqIgnoreAsciiCase left.name.text charset = true ∧
      Text.eqIgnoreAsciiCase (valueOf left.value) (valueOf right.value) = true

/-- The parameters of a media type, without the empty ones. -/
def parametersOf (element : Element) : List Parameter :=
  element.slots.filterMap Slot.parameter

/-- One media type, spelled twice. -/
structure Equivalent (left right : Element) : Prop where
  essence : Text.eqIgnoreAsciiCase left.range.text right.range.text = true
  parameters : List.Forall₂ SameParameter (parametersOf left) (parametersOf right)

/-- A request whose only `Content-Type` is spelled so. -/
def Carries (headers : HeaderMap) (element : Element) : Prop :=
  ∃ line : HeaderValue, headers.getAll Header.contentType = [line] ∧
    line.octets.map Char.ofUInt8 = element.text

/-! ## What the source reads -/

theorem parameter_trim (text : Text) : parameter (Text.trim text) = parameter text := by
  obtain ⟨left, right, whole, leftBlank, rightBlank⟩ := exists_eq_trimBy Text.isWhitespace text
  have absent {blank : Text} (isBlank : ∀ letter ∈ blank, Text.isWhitespace letter = true) :
      '=' ∉ blank := fun member => absurd (isBlank '=' member) (by decide)
  have parts : text = left ++ (Text.trim text ++ right) := by
    rw [← List.append_assoc]
    exact whole
  cases halves : splitOnce '=' (Text.trim text) with
  | none =>
      have outside := splitOnce_eq_none_iff.mp halves
      have none : splitOnce '=' text = none := by
        rw [splitOnce_eq_none_iff, parts]
        simp only [List.mem_append, not_or]
        exact ⟨absent leftBlank, outside, absent rightBlank⟩
      rw [parameter, parameter, halves, none]
  | some found =>
      obtain ⟨name, value⟩ := found
      obtain ⟨outside, same⟩ := splitOnce_eq_some_iff.mp halves
      have some : splitOnce '=' text = some (left ++ name, value ++ right) := by
        rw [splitOnce_eq_some_iff, parts, same]
        refine ⟨?_, by simp⟩
        rw [List.mem_append, not_or]
        exact ⟨absent leftBlank, outside⟩
      rw [parameter, parameter, halves, some]
      simp only [Option.map_some, Text.trim, trimBy_append_left leftBlank,
        trimBy_append_right rightBlank]

/-- A parameter of the grammar is read as its name and what its value is read as. -/
theorem parameter_text (named : Parameter) :
    parameter named.text = some (named.name.text, reading named.value) := by
  have absent : '=' ∉ named.name.text := notMem_of_isToken named.name.token (by decide)
  have halves : splitOnce '=' named.text = some (named.name.text, named.value.text) :=
    splitOnce_eq_some_iff.mpr ⟨absent, rfl⟩
  simp only [parameter, halves, Option.map_some, Text.trim, reading,
    trimBy_of_solid (solid_of_token named.name), trimBy_of_solid (solid_of_value named.value).1]

/-- What the source accepts of a parameter. -/
def accepts (mediaType : Text) (named : Parameter) : Bool :=
  isAcceptable (parametersRead (essenceOf mediaType).1) (essenceOf mediaType).2
    (named.name.text, reading named.value)

/-- Whether a letter is one that is read as text. -/
theorem isTextOctet_iff {octet : UInt8} :
    isTextOctet octet = true ↔ HeaderValue.IsTextCharacter (Char.ofUInt8 octet) := by
  simp only [isTextOctet, Bool.or_eq_true, Bool.and_eq_true, decide_eq_true_eq, beq_iff_eq,
    UInt8.le_iff_toNat_le, UInt8.lt_iff_toNat_lt, ← UInt8.toNat_inj]
  rw [HeaderValue.IsTextCharacter, Text.toNat_ofUInt8]
  rfl

/-- A text without a letter past ASCII. -/
def IsAscii (text : Text) : Prop :=
  ∀ letter ∈ text, HeaderValue.IsTextCharacter letter

theorem contentType_of_carries {headers : HeaderMap} {element : Element}
    (carries : Carries headers element) (ascii : IsAscii element.text) :
    contentType headers =
      some (Text.trim ((splitOnce ';' element.text).getD (element.text, [])).1,
        ((splitOnce ';' element.text).getD (element.text, [])).2) := by
  obtain ⟨line, lines, spells⟩ := carries
  have textual : line.octets.all isTextOctet = true := by
    refine List.all_eq_true.mpr fun octet member => isTextOctet_iff.mpr (ascii _ ?_)
    rw [← spells]
    exact List.mem_map_of_mem member
  rw [contentType, lines]
  simp only [HeaderValue.toStr, if_pos textual, spells, Option.map_some]

/-- A media type with a letter past ASCII is not read. -/
theorem offers_eq_false_of_not_isAscii {headers : HeaderMap} {element : Element}
    (carries : Carries headers element) (past : ¬ IsAscii element.text) (mediaType : Text) :
    offers headers mediaType = false := by
  obtain ⟨line, lines, spells⟩ := carries
  have untextual : ¬ line.octets.all isTextOctet = true := by
    intro textual
    refine past fun letter member => ?_
    rw [← spells] at member
    obtain ⟨octet, inLine, rfl⟩ := List.mem_map.mp member
    exact isTextOctet_iff.mp (List.all_eq_true.mp textual octet inLine)
  rw [offers_eq, contentType, lines]
  simp only [HeaderValue.toStr, if_neg untextual, Option.map_none, Option.any_none]

/-- Whether a piece is empty, or a parameter that is accepted. -/
def passes (accept : Text × Text → Bool) (word : Text) : Bool :=
  word.isEmpty || (parameter word).any accept

theorem passes_word (accept : Text × Text → Bool) (named : Option Parameter) :
    passes accept ((named.map Parameter.text).getD []) =
      named.all fun named => accept (named.name.text, reading named.value) := by
  cases named with
  | none => rfl
  | some named =>
      have filled : named.text.isEmpty = false := by
        rw [Parameter.text]
        cases named.name.text <;> rfl
      rw [Option.map_some, Option.getD_some, passes, filled, parameter_text]
      rfl

theorem parametersAreAcceptable_eq (essence declared parameters : Text) :
    parametersAreAcceptable essence declared parameters =
      ((semicolons.split parameters).map Text.trim).all
        (passes (isAcceptable (parametersRead essence) declared)) := by
  rw [parametersAreAcceptable, unquotedSplit_semicolon, List.all_filter, List.all_map]
  refine List.all_congr rfl fun piece => ?_
  rw [Function.comp_apply, passes, parameter_trim, Bool.not_not]

/-- The pieces after the type are the parameters. -/
theorem parametersAreAcceptable_text (essence declared : Text) (slot : Slot) (slots : List Slot) :
    parametersAreAcceptable essence declared
        (slot.after.text ++ slot.word ++ slots.flatMap Slot.text) =
      ((slot :: slots).filterMap Slot.parameter).all fun named =>
        isAcceptable (parametersRead essence) declared (named.name.text, reading named.value) := by
  have closed : semicolons.Closed (slot.after.text ++ slot.word) :=
    (closed_of_ows (by decide) slot.after).append (closed_of_word (by decide) (by decide) slot)
  have word : Text.trim (slot.after.text ++ slot.word) = slot.word := by
    rw [Text.trim, trimBy_append_left (isWhitespace_of_ows slot.after), trimBy_of_solid (solid_word slot)]
  have pieces := map_trim_split closed slots ⟨[], by simp⟩
  rw [List.append_nil, word] at pieces
  rw [parametersAreAcceptable_eq, pieces, ← List.map_cons (f := Slot.word), List.all_map, List.all_filterMap]
  refine List.all_congr rfl fun slot => ?_
  exact passes_word _ slot.parameter

theorem offers_of_carries {headers : HeaderMap} {element : Element}
    (carries : Carries headers element) (ascii : IsAscii element.text) (mediaType : Text) :
    offers headers mediaType =
      (Text.eqIgnoreAsciiCase element.range.text (essenceOf mediaType).1 &&
        (parametersOf element).all (accepts mediaType)) := by
  have absent : ';' ∉ element.range.text := notMem_range (by decide) (by decide) element.range
  rw [offers_eq, contentType_of_carries carries ascii, Option.any_some]
  obtain ⟨range, slots⟩ := element
  cases slots with
  | nil =>
      have whole : Element.text ⟨range, []⟩ = range.text := List.append_nil _
      rw [whole, splitOnce_eq_none_iff.mpr absent, Option.getD_none, Text.trim,
        trimBy_of_solid (solid_range range)]
      rfl
  | cons slot slots =>
      have halves : splitOnce ';' (Element.text ⟨range, slot :: slots⟩) =
          some (range.text ++ slot.before.text,
            slot.after.text ++ slot.word ++ slots.flatMap Slot.text) := by
        rw [splitOnce_eq_some_iff]
        refine ⟨?_, by simp [Element.text, Slot.text]⟩
        rw [List.mem_append, not_or]
        exact ⟨absent, fun member => absurd (slot.before.blank ';' member) (by decide)⟩
      rw [halves, Option.getD_some, parametersAreAcceptable_text, Text.trim,
        trimBy_append_right (isWhitespace_of_ows slot.before), trimBy_of_solid (solid_range range)]
      rfl

/-! ## What is accepted -/

/-- A parameter whose value is compared: it is declared, or is the charset. -/
def Compared (mediaType : Text) (named : Parameter) : Prop :=
  Text.eqIgnoreAsciiCase named.name.text charset = true ∨
    declaration (essenceOf mediaType).2 named.name.text ≠ none

theorem eqIgnoreAsciiCase_iff {left right : Text} : Text.eqIgnoreAsciiCase left right = true ↔
    Text.toAsciiLowercase left = Text.toAsciiLowercase right :=
  beq_iff_eq

/-- Names that are the same in any case are the same to every other. -/
theorem eqIgnoreAsciiCase_congr {left right : Text} (same : Text.eqIgnoreAsciiCase left right = true)
    (other : Text) : Text.eqIgnoreAsciiCase left other = Text.eqIgnoreAsciiCase right other := by
  rw [Text.eqIgnoreAsciiCase, Text.eqIgnoreAsciiCase, eqIgnoreAsciiCase_iff.mp same]

theorem declaration_congr {left right : Text} (same : Text.eqIgnoreAsciiCase left right = true)
    (declared : Text) : declaration declared left = declaration declared right := by
  rw [declaration, declaration]
  exact congrArg (fun chosen => List.find? chosen _) (funext fun other => eqIgnoreAsciiCase_congr same other.1)

theorem compared_congr {mediaType : Text} {left right : Parameter}
    (same : Text.eqIgnoreAsciiCase left.name.text right.name.text = true) :
    Compared mediaType left ↔ Compared mediaType right := by
  rw [Compared, Compared, eqIgnoreAsciiCase_congr same, declaration_congr same]

/-- Parameters of one name, whose values are read alike where they are compared, are
accepted alike. -/
theorem accepts_congr {mediaType : Text} {left right : Parameter}
    (name : Text.eqIgnoreAsciiCase left.name.text right.name.text = true)
    (value : Compared mediaType left → reading left.value = reading right.value ∨
      Text.eqIgnoreAsciiCase left.name.text charset = true ∧
        Text.eqIgnoreAsciiCase (reading left.value) (reading right.value) = true) :
    accepts mediaType left = accepts mediaType right := by
  simp only [accepts, isAcceptable, ← declaration_congr name, ← eqIgnoreAsciiCase_congr name]
  cases isCharset : Text.eqIgnoreAsciiCase left.name.text charset with
  | true =>
      have lowered : Text.toAsciiLowercase (reading left.value) =
          Text.toAsciiLowercase (reading right.value) := by
        rcases value (.inl isCharset) with same | ⟨-, same⟩
        · rw [same]
        · exact eqIgnoreAsciiCase_iff.mp same
      cases declaration (essenceOf mediaType).2 left.name.text <;>
        simp only [Text.eqIgnoreAsciiCase, lowered, if_true]
  | false =>
      cases found : declaration (essenceOf mediaType).2 left.name.text with
      | none => rfl
      | some entry =>
          have same : reading left.value = reading right.value :=
            (value (.inr (by simp [found]))).resolve_right fun charset => by
              rw [isCharset] at charset
              exact absurd charset.1 (by decide)
          simp only [same]

/-- Values that are compared and accepted are the same but for case. -/
theorem lowercase_eq_of_accepts {mediaType : Text} {left right : Parameter}
    (name : Text.eqIgnoreAsciiCase left.name.text right.name.text = true)
    (compared : Compared mediaType left) (acceptsLeft : accepts mediaType left = true)
    (acceptsRight : accepts mediaType right = true) :
    Text.toAsciiLowercase (reading left.value) = Text.toAsciiLowercase (reading right.value) := by
  simp only [accepts, isAcceptable, ← declaration_congr name, ← eqIgnoreAsciiCase_congr name]
    at acceptsLeft acceptsRight
  cases found : declaration (essenceOf mediaType).2 left.name.text with
  | none =>
      have isCharset := compared.resolve_right (not_not.mpr found)
      simp only [found, isCharset, if_true] at acceptsLeft acceptsRight
      rw [eqIgnoreAsciiCase_iff.mp acceptsLeft, eqIgnoreAsciiCase_iff.mp acceptsRight]
  | some entry =>
      simp only [found] at acceptsLeft acceptsRight
      split at acceptsLeft
      · rw [eqIgnoreAsciiCase_iff.mp acceptsLeft]
        rw [if_pos ‹_›] at acceptsRight
        exact (eqIgnoreAsciiCase_iff.mp acceptsRight).symm
      · rw [if_neg ‹_›] at acceptsRight
        rw [beq_iff_eq.mp acceptsLeft, beq_iff_eq.mp acceptsRight]

/-! ## Quoted strings -/

theorem unescape_cons_of_ne {letter : Char} (plain : letter ≠ '\\') (rest : Text) :
    unescape (letter :: rest) = letter :: unescape rest :=
  unescape.eq_3 letter rest fun _ _ escape _ => plain escape

theorem ne_of_isQdtext {letter : Char} (plain : IsQdtext letter) : letter ≠ '"' ∧ letter ≠ '\\' := by
  rcases plain with rfl | ⟨-, notQuote, notEscape, -⟩
  · exact ⟨by decide, by decide⟩
  · exact ⟨notQuote, notEscape⟩

theorem isQuotable_of_isQdtext {letter : Char} (plain : IsQdtext letter) : IsQuotable letter := by
  rcases plain with tab | ⟨visible, -, -, notDelete⟩
  · exact .inl tab
  · exact .inr ⟨visible, notDelete⟩

/-- Content without an escape is itself, and has no quotes. -/
theorem unescape_of_plain {content : Text} (quoted : QuotedContent content) (plain : '\\' ∉ content) :
    unescape content = content ∧ '"' ∉ content := by
  induction quoted with
  | nil => exact ⟨rfl, List.not_mem_nil⟩
  | qdtext isPlain _ ih =>
      obtain ⟨notQuote, notEscape⟩ := ne_of_isQdtext isPlain
      obtain ⟨same, absent⟩ := ih fun member => plain (List.mem_cons_of_mem _ member)
      rw [unescape_cons_of_ne notEscape, same]
      exact ⟨rfl, fun member => (List.mem_cons.mp member).elim (fun quote => notQuote quote.symm) absent⟩
  | quotedPair _ _ _ => exact absurd List.mem_cons_self plain

/-- A value without an escape is read as what it is. -/
theorem reading_of_plain {value : Value} (plain : '\\' ∉ value.text) : reading value = valueOf value := by
  cases value with
  | token spelling =>
      refine trimBy_eq_self_of_forall fun letter member => beq_eq_false_iff_ne.mpr ?_
      exact ne_of_isTchar (isTchar_of_mem spelling.token member) (by decide)
  | quotedString content quoted =>
      have inside : '\\' ∉ content := fun member =>
        plain (List.mem_append_left _ (List.mem_cons_of_mem _ member))
      obtain ⟨same, absent⟩ := unescape_of_plain quoted inside
      rw [valueOf, same]
      have solid : Solid (· == '"') content :=
        .of_forall fun letter member => beq_eq_false_iff_ne.mpr fun quote => absent (quote ▸ member)
      have quote : ∀ letter ∈ ['"'], (letter == '"') = true := List.all_eq_true.mp rfl
      exact trimBy_padded quote quote solid

/-- The escapes of a value are all read. -/
theorem count_reading (value : Value) : (reading value).count '\\' = value.text.count '\\' := by
  obtain ⟨left, right, whole, leftQuotes, rightQuotes⟩ := exists_eq_trimBy (· == '"') value.text
  have none {quotes : Text} (isQuotes : ∀ letter ∈ quotes, (letter == '"') = true) :
      quotes.count '\\' = 0 :=
    List.count_eq_zero.mpr fun member => absurd (isQuotes _ member) (by decide)
  calc
    (reading value).count '\\' = (left ++ reading value ++ right).count '\\' := by
      simp only [List.count_append, none leftQuotes, none rightQuotes, Nat.zero_add, Nat.add_zero]
    _ = value.text.count '\\' := congrArg _ whole.symm

/-- What a value may hold. -/
theorem isQuotable_of_mem_valueOf {value : Value} : ∀ letter ∈ valueOf value, IsQuotable letter := by
  cases value with
  | token spelling =>
      intro letter member
      have visible := toNat_of_isTchar (isTchar_of_mem spelling.token member)
      exact .inr (by omega)
  | quotedString content quoted =>
      rw [valueOf]
      induction quoted with
      | nil => exact fun _ member => absurd member List.not_mem_nil
      | qdtext plain _ ih =>
          rw [unescape_cons_of_ne (ne_of_isQdtext plain).2]
          exact List.forall_mem_cons.mpr ⟨isQuotable_of_isQdtext plain, ih⟩
      | quotedPair quotable _ ih => exact List.forall_mem_cons.mpr ⟨quotable, ih⟩

/-! ## Escaping -/

/-- A text with its chosen letters escaped. -/
def escape (chosen : Char → Bool) (text : Text) : Text :=
  text.flatMap fun letter => if chosen letter then ['\\', letter] else [letter]

/-- The letters that stand within quotes only escaped. -/
def isSpecial (letter : Char) : Bool :=
  letter == '"' || letter == '\\'

theorem escape_cons (chosen : Char → Bool) (letter : Char) (rest : Text) :
    escape chosen (letter :: rest) =
      (if chosen letter then ['\\', letter] else [letter]) ++ escape chosen rest :=
  List.flatMap_cons ..

theorem isQdtext_of_not_isSpecial {letter : Char} (quotable : IsQuotable letter)
    (plain : isSpecial letter = false) : IsQdtext letter := by
  rw [isSpecial, Bool.or_eq_false_iff, beq_eq_false_iff_ne, beq_eq_false_iff_ne] at plain
  rcases quotable with tab | ⟨visible, notDelete⟩
  · exact .inl tab
  · exact .inr ⟨visible, plain.1, plain.2, notDelete⟩

section Escape

variable {chosen : Char → Bool} {text : Text}

theorem quotedContent_escape (special : ∀ letter, isSpecial letter = true → chosen letter = true)
    (quotable : ∀ letter ∈ text, IsQuotable letter) : QuotedContent (escape chosen text) := by
  induction text with
  | nil => exact .nil
  | cons letter rest ih =>
      obtain ⟨first, others⟩ := List.forall_mem_cons.mp quotable
      rw [escape_cons]
      cases isChosen : chosen letter with
      | true => exact .quotedPair first (ih others)
      | false =>
          refine .qdtext (isQdtext_of_not_isSpecial first (Bool.eq_false_iff.mpr fun isSpecial => ?_)) (ih others)
          rw [special letter isSpecial] at isChosen
          cases isChosen

theorem unescape_escape (special : ∀ letter, isSpecial letter = true → chosen letter = true) :
    unescape (escape chosen text) = text := by
  induction text with
  | nil => rfl
  | cons letter rest ih =>
      rw [escape_cons]
      cases isChosen : chosen letter with
      | true => exact congrArg (letter :: ·) ih
      | false =>
          have plain : letter ≠ '\\' := by
            rintro rfl
            rw [special '\\' (by decide)] at isChosen
            cases isChosen
          exact (unescape_cons_of_ne plain _).trans (congrArg (letter :: ·) ih)

theorem count_escape : (escape chosen text).count '\\' = text.countP chosen + text.count '\\' := by
  induction text with
  | nil => rfl
  | cons letter rest ih =>
      rw [escape_cons, List.count_append, ih, List.countP_cons, List.count_cons]
      cases chosen letter
      · simp only [if_false, Bool.false_eq_true, List.count_singleton]
        omega
      · simp only [if_true, List.count_cons, List.count_nil, beq_self_eq_true]
        omega

end Escape

/-- Content of special letters has one spelling. -/
theorem eq_escape_of_special {content : Text} (quoted : QuotedContent content)
    (special : ∀ letter ∈ unescape content, isSpecial letter = true) :
    content = escape isSpecial (unescape content) := by
  induction quoted with
  | nil => rfl
  | qdtext plain _ ih =>
      obtain ⟨notQuote, notEscape⟩ := ne_of_isQdtext plain
      rw [unescape_cons_of_ne notEscape] at special
      have first := special _ List.mem_cons_self
      simp only [isSpecial, Bool.or_eq_true, beq_iff_eq] at first
      exact (first.elim notQuote notEscape).elim
  | @quotedPair letter content _ _ ih =>
      obtain ⟨first, others⟩ := List.forall_mem_cons.mp special
      have spelled : escape isSpecial (unescape ('\\' :: letter :: content)) =
          '\\' :: letter :: escape isSpecial (unescape content) := by
        rw [unescape, escape_cons, if_pos first]
        rfl
      rw [spelled, ← ih others]

/-- A value of special letters has one spelling. -/
theorem text_of_special {value : Value} (special : ∀ letter ∈ valueOf value, isSpecial letter = true) :
    value.text = '"' :: escape isSpecial (valueOf value) ++ ['"'] := by
  cases value with
  | token spelling =>
      obtain ⟨letter, member⟩ := List.exists_mem_of_ne_nil _ (ne_nil_of_isToken spelling.token)
      have isTchar := isTchar_of_mem spelling.token member
      have first := special letter member
      simp only [isSpecial, Bool.or_eq_true, beq_iff_eq] at first
      exact (first.elim (ne_of_isTchar isTchar (by decide)) (ne_of_isTchar isTchar (by decide))).elim
  | quotedString content quoted =>
      exact congrArg (fun inside => '"' :: inside ++ ['"']) (eq_escape_of_special quoted special)

/-- A value with its chosen letters escaped. -/
def respelling (chosen : Char → Bool) (special : ∀ letter, isSpecial letter = true → chosen letter = true)
    (value : Value) : Value :=
  .quotedString (escape chosen (valueOf value)) (quotedContent_escape special isQuotable_of_mem_valueOf)

/-- Unless a value has only special letters, it is read as more than one, even in lower case. -/
theorem exists_respellings {value : Value} (plain : ∃ letter ∈ valueOf value, isSpecial letter = false) :
    ∃ first second : Value, valueOf first = valueOf value ∧ valueOf second = valueOf value ∧
      Text.toAsciiLowercase (reading first) ≠ Text.toAsciiLowercase (reading second) := by
  have all : ∀ letter, isSpecial letter = true → (fun _ : Char => true) letter = true := fun _ _ => rfl
  have some : ∀ letter, isSpecial letter = true → isSpecial letter = true := fun _ isSpecial => isSpecial
  refine ⟨respelling _ all value, respelling _ some value, unescape_escape all, unescape_escape some,
    fun same => ?_⟩
  have lowered (text : Text) : (Text.toAsciiLowercase text).count '\\' = text.count '\\' := by
    rw [Text.toAsciiLowercase, List.count, List.countP_map]
    refine List.countP_congr fun letter _ => ?_
    rw [Function.comp_apply, beq_iff_eq, beq_iff_eq]
    exact Text.toAsciiLower_eq_iff (by decide) letter
  have spelled (chosen : Char → Bool) (special : ∀ letter, isSpecial letter = true → chosen letter = true) :
      (Text.toAsciiLowercase (reading (respelling chosen special value))).count '\\' =
        (valueOf value).countP chosen + (valueOf value).count '\\' := by
    rw [lowered, count_reading, ← count_escape]
    simp [respelling, Value.text]
  have counts := congrArg (List.count '\\') same
  rw [spelled, spelled, Nat.add_right_cancel_iff, List.countP_true] at counts
  have allSpecial := List.countP_eq_length.mp counts.symm
  obtain ⟨letter, member, isPlain⟩ := plain
  rw [allSpecial letter member] at isPlain
  cases isPlain

/-! ## Letters past ASCII -/

theorem isTextCharacter_of_isTchar {letter : Char} (tchar : isTchar letter = true) :
    HeaderValue.IsTextCharacter letter := by
  have visible := toNat_of_isTchar tchar
  exact .inl (by omega)

theorem isAscii_append {first second : Text} : IsAscii (first ++ second) ↔ IsAscii first ∧ IsAscii second :=
  List.forall_mem_append

theorem isAscii_cons {letter : Char} {rest : Text} :
    IsAscii (letter :: rest) ↔ HeaderValue.IsTextCharacter letter ∧ IsAscii rest :=
  List.forall_mem_cons

theorem isAscii_of_token (token : Token) : IsAscii token.text := fun _ member =>
  isTextCharacter_of_isTchar (isTchar_of_mem token.token member)

theorem isAscii_of_ows (ows : Ows) : IsAscii ows.text := by
  intro letter member
  have blank := ows.blank letter member
  simp only [Text.isOws, Bool.or_eq_true, beq_iff_eq] at blank
  rcases blank with rfl | rfl <;> decide

theorem isAscii_unescape {content : Text} (quoted : QuotedContent content) :
    IsAscii (unescape content) ↔ IsAscii content := by
  induction quoted with
  | nil => rfl
  | qdtext plain _ ih =>
      rw [unescape_cons_of_ne (ne_of_isQdtext plain).2, isAscii_cons, isAscii_cons, ih]
  | quotedPair _ _ ih =>
      have escape : HeaderValue.IsTextCharacter '\\' := by decide
      rw [unescape, isAscii_cons, isAscii_cons, isAscii_cons, ih]
      exact (and_iff_right escape).symm

theorem isAscii_valueOf (value : Value) : IsAscii (valueOf value) ↔ IsAscii value.text := by
  cases value with
  | token spelling => rfl
  | quotedString content quoted =>
      have quote : HeaderValue.IsTextCharacter '"' := by decide
      have closed : IsAscii ['"'] := isAscii_cons.mpr ⟨quote, fun _ member => absurd member List.not_mem_nil⟩
      rw [valueOf, isAscii_unescape quoted, Value.text, isAscii_append, isAscii_cons]
      exact ⟨fun inside => ⟨⟨quote, inside⟩, closed⟩, fun whole => whole.1.2⟩

/-- A media type is ASCII where the values of its parameters are. -/
theorem isAscii_text {element : Element} :
    IsAscii element.text ↔ ∀ named ∈ parametersOf element, IsAscii (valueOf named.value) := by
  have range : IsAscii element.range.text := isAscii_append.mpr
    ⟨isAscii_of_token _, isAscii_cons.mpr ⟨by decide, isAscii_of_token _⟩⟩
  have slot (slot : Slot) : IsAscii slot.text ↔
      ∀ named ∈ slot.parameter, IsAscii (valueOf named.value) := by
    have semicolon : HeaderValue.IsTextCharacter ';' := by decide
    rw [Slot.text, isAscii_append, isAscii_cons, isAscii_append, Slot.word]
    cases slot.parameter with
    | none =>
        refine iff_of_true ⟨isAscii_of_ows _, semicolon, isAscii_of_ows _, ?_⟩ (by simp)
        exact fun _ member => absurd member List.not_mem_nil
    | some named =>
        have equals : HeaderValue.IsTextCharacter '=' := by decide
        simp only [Option.map_some, Option.getD_some, Parameter.text, isAscii_append, isAscii_cons,
          isAscii_valueOf, Option.mem_some_iff, forall_eq']
        exact ⟨fun whole => whole.2.2.2.2.2, fun value =>
          ⟨isAscii_of_ows _, semicolon, isAscii_of_ows _, isAscii_of_token _, equals, value⟩⟩
  have slots : IsAscii (element.slots.flatMap Slot.text) ↔ ∀ slot ∈ element.slots, IsAscii slot.text :=
    List.forall_mem_flatMap
  rw [Element.text, isAscii_append, and_iff_right range, slots]
  simp only [slot, parametersOf, List.mem_filterMap, Option.mem_def, forall_exists_index, and_imp]
  exact ⟨fun each named slot member => each slot member named, fun each slot member named => each named slot member⟩

theorem isTextCharacter_toAsciiLower (letter : Char) :
    HeaderValue.IsTextCharacter (Text.toAsciiLower letter) ↔ HeaderValue.IsTextCharacter letter := by
  rw [HeaderValue.IsTextCharacter, HeaderValue.IsTextCharacter, Text.toNat_toAsciiLower]
  split <;> omega

theorem isAscii_toAsciiLowercase (text : Text) : IsAscii (Text.toAsciiLowercase text) ↔ IsAscii text := by
  rw [IsAscii, Text.toAsciiLowercase, List.forall_mem_map]
  exact forall₂_congr fun letter _ => isTextCharacter_toAsciiLower letter

theorem SameParameter.isAscii {left right : Parameter} (same : SameParameter left right) :
    IsAscii (valueOf left.value) ↔ IsAscii (valueOf right.value) := by
  rcases same.value with same | ⟨-, same⟩
  · rw [same]
  · rw [← isAscii_toAsciiLowercase, eqIgnoreAsciiCase_iff.mp same, isAscii_toAsciiLowercase]

theorem Equivalent.isAscii {left right : Element} (equivalent : Equivalent left right) :
    IsAscii left.text ↔ IsAscii right.text := by
  rw [isAscii_text, isAscii_text]
  have parameters := equivalent.parameters
  generalize parametersOf left = first, parametersOf right = second at parameters ⊢
  induction parameters with
  | nil => simp only [List.not_mem_nil]
  | cons same _ ih =>
      rw [List.forall_mem_cons, List.forall_mem_cons]
      exact and_congr same.isAscii ih

/-! ## Other spellings -/

theorem SameParameter.refl (named : Parameter) : SameParameter named named :=
  ⟨eqIgnoreAsciiCase_iff.mpr rfl, .inl rfl⟩

/-- A media type with each parameter in place of which stands another. -/
def respelled (change : Parameter → Parameter) (element : Element) : Element :=
  { element with
    slots := element.slots.map fun slot => { slot with parameter := slot.parameter.map change } }

theorem parametersOf_respelled (change : Parameter → Parameter) (element : Element) :
    parametersOf (respelled change element) = (parametersOf element).map change := by
  rw [parametersOf, respelled, List.filterMap_map, parametersOf, List.map_filterMap]
  rfl

theorem equivalent_respelled {change : Parameter → Parameter}
    (same : ∀ named, SameParameter named (change named)) (element : Element) :
    Equivalent element (respelled change element) := by
  refine ⟨eqIgnoreAsciiCase_iff.mpr rfl, ?_⟩
  rw [parametersOf_respelled, List.forall₂_map_right_iff]
  exact List.forall₂_same.mpr fun named _ => same named

/-- A media type in ASCII is one some request has. -/
theorem exists_carries {element : Element} (ascii : IsAscii element.text) :
    ∃ headers, Carries headers element := by
  obtain ⟨line, -, reads⟩ := HeaderValue.exists_fromStr ascii
  rw [HeaderValue.toStr, Option.ite_none_right_eq_some, Option.some.injEq] at reads
  refine ⟨HeaderMap.empty.append Header.contentType line, line, ?_, reads.2⟩
  rw [HeaderMap.getAll_append, if_pos rfl, HeaderMap.getAll_empty, List.nil_append]

/-! ## The answers -/

/-- A parameter that is refused, however it is spelled. -/
def Refused (mediaType : Text) (named : Parameter) : Prop :=
  ∀ other, SameParameter named other → accepts mediaType other = false

/-- A media type whose spellings are all answered alike. It is not read, or is another than
what is offered, or has a parameter that is always refused; else each value that is
compared has no letter but those that stand in a value only escaped. -/
def OneAnswer (mediaType : Text) (element : Element) : Prop :=
  ¬ IsAscii element.text ∨
    Text.eqIgnoreAsciiCase element.range.text (essenceOf mediaType).1 = false ∨
      (∃ named ∈ parametersOf element, Refused mediaType named) ∨
        ∀ named ∈ parametersOf element, Compared mediaType named →
          ∀ letter ∈ valueOf named.value, isSpecial letter = true

/-- A media type that escapes nothing in the values that are compared. -/
def Plain (mediaType : Text) (element : Element) : Prop :=
  ∀ named ∈ parametersOf element, Compared mediaType named → '\\' ∉ named.value.text

theorem all_accepts_congr {mediaType : Text} {left right : List Parameter}
    (same : List.Forall₂ SameParameter left right)
    (accepted : ∀ first ∈ left, ∀ second ∈ right, SameParameter first second →
      accepts mediaType first = accepts mediaType second) :
    left.all (accepts mediaType) = right.all (accepts mediaType) := by
  induction same with
  | nil => rfl
  | cons isSame _ ih =>
      rw [List.all_cons, List.all_cons,
        accepted _ List.mem_cons_self _ List.mem_cons_self isSame,
        ih fun first inFirst second inSecond =>
          accepted first (List.mem_cons_of_mem _ inFirst) second (List.mem_cons_of_mem _ inSecond)]

/-- Spellings whose parameters are accepted alike are answered alike. -/
theorem offers_eq_of_accepts {mediaType : Text} {left right : Element} {headers headers' : HeaderMap}
    (equivalent : Equivalent left right) (carries : Carries headers left) (carries' : Carries headers' right)
    (accepted : ∀ first ∈ parametersOf left, ∀ second ∈ parametersOf right,
      SameParameter first second → accepts mediaType first = accepts mediaType second) :
    offers headers mediaType = offers headers' mediaType := by
  by_cases ascii : IsAscii left.text
  · rw [offers_of_carries carries ascii, offers_of_carries carries' (equivalent.isAscii.mp ascii),
      eqIgnoreAsciiCase_congr equivalent.essence, all_accepts_congr equivalent.parameters accepted]
  · rw [offers_eq_false_of_not_isAscii carries ascii,
      offers_eq_false_of_not_isAscii carries' (equivalent.isAscii.not.mp ascii)]

/-- Spellings without escapes are answered alike. -/
theorem offers_eq_of_plain {mediaType : Text} {left right : Element} {headers headers' : HeaderMap}
    (equivalent : Equivalent left right) (carries : Carries headers left) (carries' : Carries headers' right)
    (plain : Plain mediaType left) (plain' : Plain mediaType right) :
    offers headers mediaType = offers headers' mediaType := by
  refine offers_eq_of_accepts equivalent carries carries' fun first inLeft second inRight same => ?_
  refine accepts_congr same.name fun compared => ?_
  rw [reading_of_plain (plain first inLeft compared),
    reading_of_plain (plain' second inRight ((compared_congr same.name).mp compared))]
  exact same.value

theorem exists_mem_of_forall₂ {α β : Type} {related : α → β → Prop} {left : List α} {right : List β}
    (pairs : List.Forall₂ related left right) {first : α} (member : first ∈ left) :
    ∃ second ∈ right, related first second := by
  induction pairs with
  | nil => cases member
  | @cons head other _ _ isRelated _ ih =>
      rcases List.mem_cons.mp member with rfl | inTail
      · exact ⟨other, List.mem_cons_self, isRelated⟩
      · obtain ⟨second, inRight, isSecond⟩ := ih inTail
        exact ⟨second, List.mem_cons_of_mem _ inRight, isSecond⟩

/-- A refused parameter refuses every spelling. -/
theorem offers_eq_false_of_refused {mediaType : Text} {left right : Element} {headers : HeaderMap}
    (equivalent : Equivalent left right) (carries : Carries headers right)
    (refused : ∃ named ∈ parametersOf left, Refused mediaType named) :
    offers headers mediaType = false := by
  by_cases ascii : IsAscii right.text
  · obtain ⟨named, member, refuses⟩ := refused
    obtain ⟨other, inRight, same⟩ := exists_mem_of_forall₂ equivalent.parameters member
    rw [offers_of_carries carries ascii, Bool.and_eq_false_iff]
    exact .inr (List.all_eq_false.mpr ⟨other, inRight, Bool.eq_false_iff.mp (refuses other same)⟩)
  · exact offers_eq_false_of_not_isAscii carries ascii mediaType

/-- Special letters have no case. -/
theorem eq_of_special {first second : Text} (special : ∀ letter ∈ first, isSpecial letter = true)
    (same : Text.toAsciiLowercase first = Text.toAsciiLowercase second) : first = second := by
  induction first generalizing second with
  | nil => exact (List.map_eq_nil_iff.mp same.symm).symm
  | cons letter rest ih =>
      cases second with
      | nil => cases same
      | cons other others =>
          obtain ⟨isSpecial, restSpecial⟩ := List.forall_mem_cons.mp special
          obtain ⟨sameLetter, sameRest⟩ := List.cons.inj same
          rw [ih restSpecial sameRest]
          simp only [Body.isSpecial, Bool.or_eq_true, beq_iff_eq] at isSpecial
          rcases isSpecial with rfl | rfl
          · obtain rfl : other = '"' := (Text.toAsciiLower_eq_iff (by decide) other).mp sameLetter.symm
            rfl
          · obtain rfl : other = '\\' := (Text.toAsciiLower_eq_iff (by decide) other).mp sameLetter.symm
            rfl

/-- Where one answer is given, it is given to every spelling. -/
theorem OneAnswer.offers_eq {mediaType : Text} {left right : Element} {headers headers' : HeaderMap}
    (oneAnswer : OneAnswer mediaType left) (equivalent : Equivalent left right)
    (carries : Carries headers left) (carries' : Carries headers' right) :
    offers headers mediaType = offers headers' mediaType := by
  rcases oneAnswer with past | other | refused | special
  · rw [offers_eq_false_of_not_isAscii carries past,
      offers_eq_false_of_not_isAscii carries' (equivalent.isAscii.not.mp past)]
  · by_cases ascii : IsAscii left.text
    · rw [offers_of_carries carries ascii, offers_of_carries carries' (equivalent.isAscii.mp ascii),
        ← eqIgnoreAsciiCase_congr equivalent.essence, other, Bool.false_and, Bool.false_and]
    · rw [offers_eq_false_of_not_isAscii carries ascii,
        offers_eq_false_of_not_isAscii carries' (equivalent.isAscii.not.mp ascii)]
  · obtain ⟨named, member, refuses⟩ := refused
    have reflexive : Equivalent left left :=
      ⟨eqIgnoreAsciiCase_iff.mpr rfl, List.forall₂_same.mpr fun named _ => .refl named⟩
    rw [offers_eq_false_of_refused reflexive carries ⟨named, member, refuses⟩,
      offers_eq_false_of_refused equivalent carries' ⟨named, member, refuses⟩]
  · refine offers_eq_of_accepts equivalent carries carries' fun first inLeft second _ same => ?_
    refine accepts_congr same.name fun compared => .inl ?_
    have isSpecial := special first inLeft compared
    have sameValue : valueOf first.value = valueOf second.value := by
      rcases same.value with same | ⟨-, same⟩
      · exact same
      · exact eq_of_special isSpecial (eqIgnoreAsciiCase_iff.mp same)
    rw [reading, reading, text_of_special isSpecial, text_of_special (sameValue ▸ isSpecial), sameValue]

/-- A value that is compared and has another letter is refused in some spelling. -/
theorem exists_refused_spelling {mediaType : Text} {named : Parameter} (compared : Compared mediaType named)
    (plain : ∃ letter ∈ valueOf named.value, isSpecial letter = false) :
    ∃ other, SameParameter named other ∧ accepts mediaType other = false := by
  obtain ⟨first, second, isFirst, isSecond, different⟩ := exists_respellings plain
  have same {value : Value} (isValue : valueOf value = valueOf named.value) :
      SameParameter named ⟨named.name, value⟩ :=
    ⟨eqIgnoreAsciiCase_iff.mpr rfl, .inl isValue.symm⟩
  cases acceptsFirst : accepts mediaType ⟨named.name, first⟩ with
  | false => exact ⟨_, same isFirst, acceptsFirst⟩
  | true =>
      refine ⟨_, same isSecond, Bool.eq_false_iff.mpr fun acceptsSecond => different ?_⟩
      refine lowercase_eq_of_accepts ?_ ?_ acceptsFirst acceptsSecond
      · exact eqIgnoreAsciiCase_iff.mpr rfl
      · exact (compared_congr (same isFirst).name).mp compared

/-- A media type each of whose parameters has a spelling that is accepted has one that is. -/
theorem exists_offered {mediaType : Text} {left : Element} (ascii : IsAscii left.text)
    (essence : Text.eqIgnoreAsciiCase left.range.text (essenceOf mediaType).1 = true)
    (accepted : ∀ named ∈ parametersOf left, ¬ Refused mediaType named) :
    ∃ right headers, Equivalent left right ∧ Carries headers right ∧ offers headers mediaType = true := by
  have total : ∀ named, ∃ other, SameParameter named other ∧
      (named ∈ parametersOf left → accepts mediaType other = true) := by
    intro named
    by_cases member : named ∈ parametersOf left
    · have some := accepted named member
      rw [Refused] at some
      push Not at some
      obtain ⟨other, same, accepts⟩ := some
      exact ⟨other, same, fun _ => eq_true_of_ne_false accepts⟩
    · exact ⟨named, .refl named, fun isMember => absurd isMember member⟩
  choose change same accepts using total
  have equivalent := equivalent_respelled same left
  have asciiRight := equivalent.isAscii.mp ascii
  obtain ⟨headers, carries⟩ := exists_carries asciiRight
  refine ⟨_, headers, equivalent, carries, ?_⟩
  rw [offers_of_carries carries asciiRight, parametersOf_respelled, List.all_map, Bool.and_eq_true]
  exact ⟨essence, List.all_eq_true.mpr accepts⟩

/-- A media type a parameter of which has a spelling that is refused has one that is. -/
theorem exists_not_offered {mediaType : Text} {left : Element} (ascii : IsAscii left.text)
    {named other : Parameter} (member : named ∈ parametersOf left) (same : SameParameter named other)
    (refused : accepts mediaType other = false) :
    ∃ right headers, Equivalent left right ∧ Carries headers right ∧ offers headers mediaType = false := by
  classical
  have isSame : ∀ read, SameParameter read (if read = named then other else read) := by
    intro read
    by_cases isNamed : read = named
    · rw [if_pos isNamed, isNamed]
      exact same
    · rw [if_neg isNamed]
      exact .refl read
  have equivalent := equivalent_respelled isSame left
  have asciiRight := equivalent.isAscii.mp ascii
  obtain ⟨headers, carries⟩ := exists_carries asciiRight
  refine ⟨_, headers, equivalent, carries, ?_⟩
  rw [offers_of_carries carries asciiRight, parametersOf_respelled, Bool.and_eq_false_iff]
  refine .inr (List.all_eq_false.mpr ⟨other, List.mem_map.mpr ⟨named, member, if_pos rfl⟩, ?_⟩)
  exact Bool.eq_false_iff.mp refused

/-- Where every spelling is given one answer, it is for what the media type is. -/
theorem oneAnswer_of_forall {mediaType : Text} {left : Element} {answer : Bool}
    (alike : ∀ right headers, Equivalent left right → Carries headers right →
      offers headers mediaType = answer) : OneAnswer mediaType left := by
  by_contra several
  rw [OneAnswer] at several
  push Not at several
  obtain ⟨ascii, essence, accepted, named, member, compared, letter, inValue, isPlain⟩ := several
  obtain ⟨right, headers, equivalent, carries, offered⟩ :=
    exists_offered ascii (eq_true_of_ne_false essence) accepted
  obtain ⟨other, same, refused⟩ :=
    exists_refused_spelling compared ⟨letter, inValue, eq_false_of_ne_true isPlain⟩
  obtain ⟨right', headers', equivalent', carries', notOffered⟩ := exists_not_offered ascii member same refused
  rw [alike right headers equivalent carries, ← alike right' headers' equivalent' carries', notOffered] at offered
  cases offered

/-- Spellings without an escape in what is compared are answered alike. All the spellings of
a media type are where one answer is given it. And of a nesting of bodies that may stand
beside each other, a request is offered to the one that reads it, and no other. -/
theorem offers_exact (mediaType : Text) :
    (∀ left right headers headers', Equivalent left right → Plain mediaType left → Plain mediaType right →
      Carries headers left → Carries headers' right →
        offers headers mediaType = offers headers' mediaType) ∧
    (∀ left headers, Carries headers left →
      ((∀ right headers', Equivalent left right → Carries headers' right →
          offers headers mediaType = offers headers' mediaType) ↔ OneAnswer mediaType left)) ∧
    ∀ body : Offered, body.evaluates = true → ∀ headers,
      body.codecs.filter (fun codec => offers headers codec.mediaType) =
        (body.fromRequest headers).toList := by
  refine ⟨fun left right headers headers' equivalent plain plain' carries carries' =>
    offers_eq_of_plain equivalent carries carries' plain plain', fun left headers carries => ⟨?_, ?_⟩,
    fun body evaluates headers => Offered.filter_codecs_eq evaluates⟩
  · intro alike
    exact oneAnswer_of_forall fun right headers' equivalent carries' =>
      (alike right headers' equivalent carries').symm
  · intro oneAnswer right headers' equivalent carries'
    exact oneAnswer.offers_eq equivalent carries carries'

/-! ## A needless escape -/

theorem isToken_text : isToken "text".toList = true := by decide

/-- `text/plain; charset=` and a value. -/
def plainCharset (value : Value) : Element where
  range := ⟨⟨"text".toList, isToken_text⟩, ⟨"plain".toList, by decide⟩⟩
  slots := [⟨⟨[], Text.isOws_of_mem_nil⟩, ⟨[' '], Text.isOws_of_mem_space⟩, some ⟨⟨charset, by decide⟩, value⟩⟩]

/-- `utf-8`, as a token. -/
def plainUtf8 : Value :=
  .token ⟨"utf-8".toList, by decide⟩

/-- `utf-8`, within quotes and with a letter escaped. -/
def escapedUtf8 : Value :=
  .quotedString ['u', 't', 'f', '\\', '-', '8']
    (.qdtext (.inr (by decide)) (.qdtext (.inr (by decide)) (.qdtext (.inr (by decide))
      (.quotedPair (.inr (by decide)) (.qdtext (.inr (by decide)) .nil)))))

theorem isAscii_plainCharset {value : Value} (utf8 : valueOf value = "utf-8".toList) :
    IsAscii (plainCharset value).text := by
  have letters : "utf-8".toList.all (decide <| HeaderValue.IsTextCharacter ·) = true := by decide
  refine isAscii_text.mpr fun named member => ?_
  rw [List.mem_singleton.mp member, utf8]
  exact fun letter inValue => of_decide_eq_true (List.all_eq_true.mp letters letter inValue)

/-- An escape keeps a body of UTF-8 text from being read. -/
theorem not_offers_escaped :
    (plainCharset plainUtf8).text = "text/plain; charset=utf-8".toList ∧
    (plainCharset escapedUtf8).text = "text/plain; charset=\"utf\\-8\"".toList ∧
      ¬ ∀ mediaType left right headers headers', Equivalent left right → Carries headers left →
        Carries headers' right → offers headers mediaType = offers headers' mediaType := by
  refine ⟨by decide, by decide, fun alike => ?_⟩
  have ascii : IsAscii (plainCharset plainUtf8).text := isAscii_plainCharset rfl
  have ascii' : IsAscii (plainCharset escapedUtf8).text := isAscii_plainCharset rfl
  obtain ⟨headers, carries⟩ := exists_carries ascii
  obtain ⟨headers', carries'⟩ := exists_carries ascii'
  have equivalent : Equivalent (plainCharset plainUtf8) (plainCharset escapedUtf8) :=
    ⟨by decide, .cons ⟨by decide, .inl rfl⟩ .nil⟩
  have same := alike textPlain _ _ headers headers' equivalent carries carries'
  rw [offers_of_carries carries ascii, offers_of_carries carries' ascii'] at same
  exact absurd same (by decide)

end Kynos.Body
