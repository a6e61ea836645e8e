import Kynos.Cache.Freshness
import Kynos.Http.Lists
import Kynos.Word.Padded

/-!
# `Cache-Control` as it is written

RFC 9111 section 5.2: a line is directives between commas, each a name with a
token or a quoted string for its argument, or with none. The cache cuts a line
at every comma, so it reads the name of a directive where the directive starts
and, where a quoted string holds commas, what stands after each of them.
-/

namespace Kynos.Cache.Control

open Kynos.Http Kynos.Word

/-! ## The grammar -/

/-- `obs-text`. -/
def isObsText (character : Char) : Bool :=
  0x80 ≤ character.toNat && character.toNat ≤ 0xff

/-- `qdtext`: what a quoted string holds as it is. -/
def isQdtext (character : Char) : Bool :=
  character == '\t' || character == ' ' || character == '!' ||
    (0x23 ≤ character.toNat && character.toNat ≤ 0x5b) ||
    (0x5d ≤ character.toNat && character.toNat ≤ 0x7e) || isObsText character

/-- What a backslash may stand before. -/
def isEscapable (character : Char) : Bool :=
  character == '\t' || (0x20 ≤ character.toNat && character.toNat ≤ 0x7e) || isObsText character

/-- A letter of a quoted string. -/
inductive QuotedLetter where
  | plain (letter : Char) (isPlain : isQdtext letter = true)
  | escaped (letter : Char) (isEscaped : isEscapable letter = true)

/-- The spelling of a letter of a quoted string. -/
def QuotedLetter.text : QuotedLetter → Text
  | .plain letter _ => [letter]
  | .escaped letter _ => ['\\', letter]

/-- The argument of a directive. -/
inductive Argument where
  | absent
  | token (value : Text) (isToken : Http.isToken value = true)
  | quoted (letters : List QuotedLetter)

/-- The spelling of an argument. -/
def Argument.text : Argument → Text
  | .absent => []
  | .token value _ => '=' :: value
  | .quoted letters => '=' :: '"' :: letters.flatMap QuotedLetter.text ++ ['"']

/-- `cache-directive`. -/
structure Directive where
  name : Text
  argument : Argument
  isToken : Http.isToken name = true

/-- The spelling of a directive. -/
def Directive.text (directive : Directive) : Text :=
  directive.name ++ directive.argument.text

/-- A directive, or nothing, and the optional whitespace around it. -/
structure Element where
  before : Text
  directive : Option Directive
  after : Text
  beforeBlank : ∀ letter ∈ before, Text.isOws letter = true
  afterBlank : ∀ letter ∈ after, Text.isOws letter = true

namespace Element

/-- The spelling of an element. -/
def text (element : Element) : Text :=
  element.before ++ (element.directive.elim [] Directive.text) ++ element.after

/-- An element is a directive of a name, in any case. -/
def Names (element : Element) (name : Text) : Prop :=
  ∃ directive, element.directive = some directive ∧ Text.toAsciiLowercase directive.name = name

/-- What stands after each comma of an element: the commas are those its quoted
string holds. -/
def later (element : Element) : List Text :=
  (element.text.splitOn ',').tail

end Element

/-- One line: elements between commas. -/
structure Line where
  elements : List Element
  nonempty : elements ≠ []

namespace Line

/-- The spelling of a line. -/
def text (line : Line) : Text :=
  [','].intercalate (line.elements.map Element.text)

/-- A line has a directive of a name, in any case. -/
def Names (line : Line) (name : Text) : Prop :=
  ∃ element ∈ line.elements, element.Names name

/-- No quoted string of a line holds `obs-text`. -/
def Legible (line : Line) : Prop :=
  ∀ character ∈ line.text, HeaderValue.IsTextCharacter character

/-- After a comma within a quoted string of a line stands text that means
something, read like a directive. -/
def Holds (line : Line) (means : Text → Prop) : Prop :=
  ∃ element ∈ line.elements, ∃ piece ∈ element.later,
    means (Text.toAsciiLowercase (Text.trim piece))

end Line

/-- The octets of characters below 256. -/
def latin1 (text : Text) : Octets :=
  text.map fun character => UInt8.ofNat character.toNat

/-- The values of a field are the lines that are written. -/
def Written (lines : List Line) (values : List HeaderValue) : Prop :=
  List.Forall₂ (fun line value => value.octets = latin1 line.text) lines values

/-! ## Characters -/

theorem toNat_lt_of_isToken {value : Text} (token : Http.isToken value = true) :
    ∀ character ∈ value, character.toNat < 256 := fun character member => by
  have bounds := toNat_of_isTchar (isTchar_of_mem token member)
  omega

theorem toNat_lt_of_blank {blanks : Text} (blank : ∀ letter ∈ blanks, Text.isOws letter = true) :
    ∀ character ∈ blanks, character.toNat < 256 := fun character member => by
  have isBlank := blank character member
  simp only [Text.isOws, Bool.or_eq_true, beq_iff_eq] at isBlank
  rcases isBlank with rfl | rfl <;> decide

theorem QuotedLetter.toNat_lt (quoted : QuotedLetter) :
    ∀ character ∈ quoted.text, character.toNat < 256 := by
  have obsolete : ∀ character : Char, isObsText character = true → character.toNat < 256 :=
    fun character isObs => by
      simp only [isObsText, Bool.and_eq_true, decide_eq_true_eq] at isObs
      omega
  have low : ∀ character : Char, character = '\t' → character.toNat < 256 := by
    rintro _ rfl
    decide
  cases quoted with
  | plain letter isPlain =>
      simp only [isQdtext, Bool.or_eq_true, Bool.and_eq_true, beq_iff_eq, decide_eq_true_eq] at isPlain
      simp only [text, List.mem_singleton, forall_eq]
      rcases isPlain with ((((tab | rfl) | rfl) | range) | range) | obs
      · exact low letter tab
      · decide
      · decide
      · omega
      · omega
      · exact obsolete letter obs
  | escaped letter isEscaped =>
      simp only [isEscapable, Bool.or_eq_true, Bool.and_eq_true, beq_iff_eq, decide_eq_true_eq] at isEscaped
      simp only [text, List.mem_cons, List.not_mem_nil, or_false, forall_eq_or_imp, forall_eq]
      refine ⟨by decide, ?_⟩
      rcases isEscaped with (tab | range) | obs
      · exact low letter tab
      · omega
      · exact obsolete letter obs

theorem Argument.toNat_lt (argument : Argument) :
    ∀ character ∈ argument.text, character.toNat < 256 := by
  cases argument with
  | absent => simp [text]
  | token value isToken =>
      exact List.forall_mem_cons.mpr ⟨by decide, toNat_lt_of_isToken isToken⟩
  | quoted letters =>
      have quote : ('"').toNat < 256 := by decide
      simp only [text, List.cons_append, List.mem_cons, List.mem_append, List.mem_flatMap]
      rintro character (rfl | rfl | ⟨quoted, -, member⟩ | member)
      · decide
      · exact quote
      · exact quoted.toNat_lt character member
      · obtain rfl : character = '"' := by simpa using member
        exact quote

theorem Element.toNat_lt (element : Element) :
    ∀ character ∈ element.text, character.toNat < 256 := by
  intro character member
  rw [text, List.mem_append, List.mem_append] at member
  rcases member with (before | directive) | after
  · exact toNat_lt_of_blank element.beforeBlank character before
  · cases isDirective : element.directive with
    | none => simp [isDirective] at directive
    | some written =>
        rw [isDirective, Option.elim_some, Directive.text, List.mem_append] at directive
        rcases directive with name | argument
        · exact toNat_lt_of_isToken written.isToken character name
        · exact written.argument.toNat_lt character argument
  · exact toNat_lt_of_blank element.afterBlank character after

theorem Line.toNat_lt (line : Line) : ∀ character ∈ line.text, character.toNat < 256 := by
  obtain ⟨elements, nonempty⟩ := line
  obtain ⟨first, rest, rfl⟩ := List.exists_cons_of_ne_nil nonempty
  intro character member
  rw [text, List.map_cons, intercalate_cons, List.mem_append, List.flatMap_map,
    List.mem_flatMap] at member
  rcases member with inFirst | ⟨element, -, inElement⟩
  · exact first.toNat_lt character inFirst
  · rcases List.mem_cons.mp inElement with rfl | inElement
    · decide
    · exact element.toNat_lt character inElement

theorem map_ofUInt8_latin1 {text : Text} (small : ∀ character ∈ text, character.toNat < 256) :
    (latin1 text).map Char.ofUInt8 = text := by
  rw [latin1, List.map_map]
  calc
    text.map _ = text.map id := List.map_congr_left fun character member => by
      rw [Function.comp_apply, ← Char.toNat_inj, Text.toNat_ofUInt8, UInt8.toNat_ofNat',
        Nat.mod_eq_of_lt (small character member), id]
    _ = text := List.map_id text

/-- A written line is read as text where no quoted string holds `obs-text`. -/
theorem toStr_eq_some_iff {line : Line} {value : HeaderValue}
    (written : value.octets = latin1 line.text) {text : Text} :
    value.toStr = some text ↔ text = line.text ∧ line.Legible := by
  rw [HeaderValue.toStr_eq_some_iff, written]
  constructor
  · rintro ⟨octets, isText⟩
    have same : text = line.text := by
      rw [HeaderValue.toOctets_eq_map isText] at octets
      have small : ∀ character ∈ text, character.toNat < 256 := fun character member => by
        rcases isText character member with visible | tab <;> omega
      rw [← map_ofUInt8_latin1 line.toNat_lt, octets, ← latin1, map_ofUInt8_latin1 small]
    subst same
    exact ⟨rfl, isText⟩
  · rintro ⟨rfl, isText⟩
    exact ⟨(HeaderValue.toOctets_eq_map isText).symm, isText⟩

/-! ## Pieces -/

/-- A member read from a line is a directive, with an argument or without. -/
def Reads (name member : Text) : Prop :=
  member = name ∨ ∃ argument, member = name ++ '=' :: argument

/-- A member read from a line lets a shared cache reuse the response. -/
def Shares (member : Text) : Prop :=
  member = "public".toList ∨ ∃ given, member = "s-maxage=".toList ++ given

theorem notMem_blank {blanks : Text} (blank : ∀ letter ∈ blanks, Text.isOws letter = true) :
    ',' ∉ blanks := fun member => absurd (blank ',' member) (by decide)

/-- A letter that is no comma starts the first piece. -/
theorem exists_of_splitOn_cons {letter : Char} {rest piece : Text} {pieces : List Text}
    (noComma : letter ≠ ',') (cut : (letter :: rest).splitOn ',' = piece :: pieces) :
    ∃ after, piece = letter :: after := by
  rw [List.splitOn_cons_eq_if_modifyHead, if_neg (by simpa using noComma)] at cut
  obtain ⟨first, others, split⟩ := List.exists_cons_of_ne_nil (List.splitOn_ne_nil ',' rest)
  rw [split, List.modifyHead_cons, List.cons.injEq] at cut
  exact ⟨first, cut.1.symm⟩

/-- Where nothing stands between two commas, nothing is read. -/
theorem Element.pieces_of_none {element : Element} (isNone : element.directive = none) :
    element.text.splitOn ',' = [element.text] ∧ element.later = [] ∧
      Text.trim element.text = [] := by
  have blanks : ∀ letter ∈ element.text, Text.isOws letter = true := by
    simp only [text, isNone, Option.elim_none, List.append_nil, List.mem_append]
    rintro letter (before | after)
    · exact element.beforeBlank letter before
    · exact element.afterBlank letter after
  have whole : element.text.splitOn ',' = [element.text] :=
    List.splitOn_eq_singleton (notMem_blank blanks)
  refine ⟨whole, by rw [later, whole, List.tail_cons], trimBy_eq_nil_iff.mpr ?_⟩
  exact fun letter member => Text.isWhitespace_of_isOws (blanks letter member)

/-- The first piece of a directive starts with its name. -/
theorem Element.pieces_of_some {element : Element} {directive : Directive}
    (isDirective : element.directive = some directive) :
    ∃ first rest, element.text.splitOn ',' = first :: element.later ∧
      Text.trim first = directive.name ++ rest ∧ (rest = [] ∨ ∃ given, rest = '=' :: given) := by
  have noComma : ',' ∉ element.before ++ directive.name := by
    rw [List.mem_append, not_or]
    exact ⟨notMem_blank element.beforeBlank, notMem_of_isToken directive.isToken (by decide)⟩
  have spelled : element.text =
      (element.before ++ directive.name) ++ (directive.argument.text ++ element.after) := by
    rw [text, isDirective, Option.elim_some, Directive.text]
    simp
  have beforeBlank : ∀ letter ∈ element.before, Text.isWhitespace letter = true :=
    fun letter member => Text.isWhitespace_of_isOws (element.beforeBlank letter member)
  have named : ∀ letter ∈ directive.name, Text.isWhitespace letter = false :=
    fun letter member => isWhitespace_of_isTchar (isTchar_of_mem directive.isToken member)
  have solid : Solid Text.isWhitespace directive.name := .of_forall named
  obtain ⟨piece, pieces, cut⟩ := List.exists_cons_of_ne_nil
    (List.splitOn_ne_nil ',' (directive.argument.text ++ element.after))
  have whole : element.text.splitOn ',' = (element.before ++ directive.name ++ piece) :: pieces := by
    rw [spelled, splitOn_append_of_notMem noComma, cut, List.modifyHead_cons]
  have isLater : element.later = pieces := by rw [later, whole, List.tail_cons]
  cases isArgument : directive.argument with
  | absent =>
      rw [isArgument, Argument.text, List.nil_append,
        List.splitOn_eq_singleton (notMem_blank element.afterBlank), List.cons.injEq] at cut
      obtain ⟨rfl, rfl⟩ := cut
      refine ⟨_, [], by rw [whole, isLater], ?_, .inl rfl⟩
      rw [Text.trim, trimBy_padded beforeBlank (fun letter member =>
        Text.isWhitespace_of_isOws (element.afterBlank letter member)) solid, List.append_nil]
  | _ =>
      have given : ∃ rest, piece = '=' :: rest := by
        simp only [isArgument, Argument.text, List.cons_append] at cut
        exact exists_of_splitOn_cons (by decide) cut
      obtain ⟨given, rfl⟩ := given
      have equals : Solid Text.isWhitespace (directive.name ++ ['=']) := by
        refine .of_forall fun letter member => ?_
        rcases List.mem_append.mp member with inName | isEquals
        · exact named letter inName
        · obtain rfl : letter = '=' := by simpa using isEquals
          decide
      obtain ⟨rest, trimmed⟩ := exists_trimBy_append (by simp) beforeBlank equals given
      refine ⟨_, '=' :: rest, by rw [whole, isLater], ?_, .inr ⟨rest, rfl⟩⟩
      simpa [Text.trim] using trimmed

theorem toAsciiLowercase_append (left right : Text) :
    Text.toAsciiLowercase (left ++ right) = Text.toAsciiLowercase left ++ Text.toAsciiLowercase right :=
  List.map_append

/-- What starts with a name, and goes on at most with an argument, is read as
the directive of that name alone. -/
theorem reads_iff {written rest name : Text} (token : Http.isToken written = true)
    (goesOn : rest = [] ∨ ∃ given, rest = '=' :: given) (noEquals : '=' ∉ name) :
    Reads name (Text.toAsciiLowercase (written ++ rest)) ↔ Text.toAsciiLowercase written = name := by
  have lowered : '=' ∉ Text.toAsciiLowercase written := by
    rw [Text.toAsciiLowercase, List.mem_map]
    rintro ⟨character, member, isEquals⟩
    rw [Text.toAsciiLower_eq_iff (by decide)] at isEquals
    exact notMem_of_isToken token (by decide) (isEquals ▸ member)
  rw [toAsciiLowercase_append, Reads]
  rcases goesOn with rfl | ⟨given, rfl⟩
  · refine ⟨?_, fun same => .inl (by rw [same]; exact List.append_nil _)⟩
    rintro (same | ⟨argument, same⟩)
    · rwa [Text.toAsciiLowercase, Text.toAsciiLowercase, List.map_nil, List.append_nil] at same
    · refine absurd ?_ lowered
      rw [Text.toAsciiLowercase, Text.toAsciiLowercase, List.map_nil, List.append_nil] at same
      rw [Text.toAsciiLowercase, same]
      simp
  · have isGiven : Text.toAsciiLowercase ('=' :: given) = '=' :: Text.toAsciiLowercase given := rfl
    rw [isGiven]
    refine ⟨?_, fun same => .inr ⟨_, by rw [same]⟩⟩
    rintro (same | ⟨argument, same⟩)
    · exact absurd (by rw [← same]; simp) noEquals
    · rcases append_cons_eq_append_cons same with ⟨sameName, -⟩ | ⟨middle, isName, -⟩ | ⟨middle, isWritten, -⟩
      · exact sameName
      · exact absurd (by simp [isName]) noEquals
      · exact absurd (by simp [isWritten]) lowered

theorem Reads.of_shares {member : Text} (shares : Shares member) :
    Reads "public".toList member ∨ Reads "s-maxage".toList member := by
  rcases shares with isPublic | ⟨given, isShared⟩
  · exact .inl (.inl isPublic)
  · exact .inr (.inr ⟨given, isShared⟩)

/-! ## What is read from a line -/

section Names

variable {name : Text} (written : name ≠ []) (noEquals : '=' ∉ name)

include written noEquals

/-- A name is read from an element that is a directive of it, or where a quoted
string holds it after a comma. -/
theorem Element.exists_reads_iff {element : Element} :
    (∃ piece ∈ element.text.splitOn ',', Reads name (Text.toAsciiLowercase (Text.trim piece))) ↔
      element.Names name ∨
        ∃ piece ∈ element.later, Reads name (Text.toAsciiLowercase (Text.trim piece)) := by
  cases isDirective : element.directive with
  | none =>
      obtain ⟨whole, isLater, trimmed⟩ := pieces_of_none isDirective
      have silent : ¬ Reads name (Text.toAsciiLowercase []) := by
        rintro (same | ⟨argument, same⟩)
        · exact written same.symm
        · exact absurd same (by simp [Text.toAsciiLowercase])
      simp [Names, isDirective, whole, isLater, trimmed, silent]
  | some directive =>
      obtain ⟨first, rest, whole, trimmed, goesOn⟩ := pieces_of_some isDirective
      rw [whole, List.exists_mem_cons_iff, trimmed, reads_iff directive.isToken goesOn noEquals, Names,
        isDirective]
      simp only [Option.some.injEq, exists_eq_left']

/-- A name is read from a line that has a directive of it, or where a quoted
string holds it after a comma. -/
theorem Line.exists_reads_iff {line : Line} :
    (∃ piece ∈ line.text.splitOn ',', Reads name (Text.toAsciiLowercase (Text.trim piece))) ↔
      line.Names name ∨ line.Holds (Reads name) := by
  have texts : line.elements.map Element.text ≠ [] := by simp [line.nonempty]
  rw [text, splitOn_intercalate_eq_flatMap texts]
  simp only [List.mem_flatMap, List.mem_map, Names, Holds, ← exists_or, ← and_or_left]
  constructor
  · rintro ⟨piece, ⟨_, ⟨element, inLine, rfl⟩, isPiece⟩, reads⟩
    exact ⟨element, inLine, (element.exists_reads_iff written noEquals).mp ⟨piece, isPiece, reads⟩⟩
  · rintro ⟨element, inLine, holds⟩
    obtain ⟨piece, isPiece, reads⟩ := (element.exists_reads_iff written noEquals).mpr holds
    exact ⟨piece, ⟨_, ⟨element, inLine, rfl⟩, isPiece⟩, reads⟩

end Names

/-- Where the response is read as shared, a line has a directive that shares it,
or a quoted string holds one after a comma. -/
theorem Line.of_shares {line : Line} {piece : Text} (isPiece : piece ∈ line.text.splitOn ',')
    (shares : Shares (Text.toAsciiLowercase (Text.trim piece))) :
    line.Names "public".toList ∨ line.Names "s-maxage".toList ∨ line.Holds Shares := by
  have texts : line.elements.map Element.text ≠ [] := by simp [line.nonempty]
  rw [text, splitOn_intercalate_eq_flatMap texts] at isPiece
  obtain ⟨_, inTexts, isPiece⟩ := List.mem_flatMap.mp isPiece
  obtain ⟨element, inLine, rfl⟩ := List.mem_map.mp inTexts
  cases isDirective : element.directive with
  | none =>
      obtain ⟨whole, -, trimmed⟩ := Element.pieces_of_none isDirective
      rw [whole, List.mem_singleton] at isPiece
      subst isPiece
      rw [trimmed] at shares
      rcases shares with same | ⟨given, same⟩ <;> exact absurd same (by simp [Text.toAsciiLowercase])
  | some directive =>
      obtain ⟨first, rest, whole, trimmed, goesOn⟩ := Element.pieces_of_some isDirective
      rw [whole, List.mem_cons] at isPiece
      rcases isPiece with rfl | isLater
      · rw [trimmed] at shares
        rcases Reads.of_shares shares with isPublic | isShared
        · rw [reads_iff directive.isToken goesOn (by decide)] at isPublic
          exact .inl ⟨element, inLine, directive, isDirective, isPublic⟩
        · rw [reads_iff directive.isToken goesOn (by decide)] at isShared
          exact .inr (.inl ⟨element, inLine, directive, isDirective, isShared⟩)
      · exact .inr (.inr ⟨element, inLine, piece, isLater, shares⟩)

theorem Line.exists_of_holds {line : Line} {means : Text → Prop} (holds : line.Holds means) :
    ∃ piece ∈ line.text.splitOn ',', means (Text.toAsciiLowercase (Text.trim piece)) := by
  have texts : line.elements.map Element.text ≠ [] := by simp [line.nonempty]
  obtain ⟨element, inLine, piece, isLater, isMeant⟩ := holds
  rw [text, splitOn_intercalate_eq_flatMap texts]
  exact ⟨piece, List.mem_flatMap.mpr
    ⟨element.text, List.mem_map.mpr ⟨element, inLine, rfl⟩, List.mem_of_mem_tail isLater⟩, isMeant⟩

/-! ## What is read from a field -/

section Field

variable {lines : List Line} {headers : HeaderMap}
  (written : Written lines (headers.getAll Header.cacheControl))

include written

/-- The members of `Cache-Control` are the pieces of its legible lines. -/
theorem exists_member_iff {means : Text → Prop} :
    (∃ member, Member headers Header.cacheControl member ∧ means member) ↔
      ∃ line ∈ lines, line.Legible ∧
        ∃ piece ∈ line.text.splitOn ',', means (Text.toAsciiLowercase (Text.trim piece)) := by
  constructor
  · rintro ⟨_, ⟨value, inField, text, reads, piece, isPiece, rfl⟩, isMeant⟩
    obtain ⟨line, inLines, isWritten⟩ := exists_of_mem_left written.flip value inField
    obtain ⟨rfl, legible⟩ := (toStr_eq_some_iff isWritten).mp reads
    exact ⟨line, inLines, legible, piece, isPiece, isMeant⟩
  · rintro ⟨line, inLines, legible, piece, isPiece, isMeant⟩
    obtain ⟨value, inField, isWritten⟩ := exists_of_mem_left written line inLines
    have reads : value.toStr = some line.text := (toStr_eq_some_iff isWritten).mpr ⟨rfl, legible⟩
    exact ⟨_, ⟨value, inField, line.text, reads, piece, isPiece, rfl⟩, isMeant⟩

theorem says_iff {name : Text} (isName : name ≠ []) (noEquals : '=' ∉ name) :
    Says headers name ↔
      ∃ line ∈ lines, line.Legible ∧ (line.Names name ∨ line.Holds (Reads name)) := by
  have pieces : Says headers name ↔ _ := @exists_member_iff lines headers written (Reads name)
  rw [pieces]
  exact exists_congr fun line => and_congr_right fun _ => and_congr_right fun _ =>
    line.exists_reads_iff isName noEquals

theorem shared_of_holds {line : Line} (inLines : line ∈ lines) (legible : line.Legible)
    (holds : line.Holds Shares) : shared (directives headers) = true := by
  rw [shared_directives_iff]
  obtain ⟨member, isMember, rfl | ⟨given, rfl⟩⟩ :=
    (exists_member_iff written).mpr ⟨line, inLines, legible, line.exists_of_holds holds⟩
  · exact .inl isMember
  · exact .inr ⟨given, isMember⟩

theorem exists_of_shared (isShared : shared (directives headers) = true) :
    ∃ line ∈ lines, line.Legible ∧
      (line.Names "public".toList ∨ line.Names "s-maxage".toList ∨ line.Holds Shares) := by
  have member : ∃ member, Member headers Header.cacheControl member ∧ Shares member := by
    rw [shared_directives_iff] at isShared
    rcases isShared with isPublic | ⟨given, isShared⟩
    · exact ⟨_, isPublic, .inl rfl⟩
    · exact ⟨_, isShared, .inr ⟨given, rfl⟩⟩
  obtain ⟨line, inLines, legible, piece, isPiece, shares⟩ := (exists_member_iff written).mp member
  exact ⟨line, inLines, legible, line.of_shares isPiece shares⟩

end Field

end Kynos.Cache.Control
