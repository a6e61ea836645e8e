import Mathlib
import Kynos.LanguageTag.Grammar
import Kynos.Net.IpAddr
import Kynos.Text.Percent
import Kynos.Text.Utf8
import Kynos.Word.Splice

/-!
# Translating patterns

The syntax tree of a pattern as the engine's parser reads it, each leaf with the
text it is written as, and the translator over it: what it rewrites, what it leaves
and what it refuses. Offsets count characters; a refusal that tells one counts the
octets before it.
-/

namespace Kynos.Pattern

open Kynos.Word

/-! ## The tree -/

/-- `HexLiteralKind`. -/
inductive HexLiteralKind where
  | x
  | unicodeShort
  | unicodeLong
  deriving DecidableEq, Repr

def HexLiteralKind.letter : HexLiteralKind → Char
  | .x => 'x'
  | .unicodeShort => 'u'
  | .unicodeLong => 'U'

/-- `HexLiteralKind::digits`. -/
def HexLiteralKind.digits : HexLiteralKind → Nat
  | .x => 2
  | .unicodeShort => 4
  | .unicodeLong => 8

/-- `SpecialLiteralKind`. -/
inductive SpecialLiteralKind where
  | bell
  | formFeed
  | tab
  | lineFeed
  | carriageReturn
  | verticalTab
  | space
  deriving DecidableEq, Repr

def SpecialLiteralKind.letter : SpecialLiteralKind → Char
  | .bell => 'a'
  | .formFeed => 'f'
  | .tab => 't'
  | .lineFeed => 'n'
  | .carriageReturn => 'r'
  | .verticalTab => 'v'
  | .space => ' '

def SpecialLiteralKind.character : SpecialLiteralKind → Char
  | .bell => Char.ofNat 0x07
  | .formFeed => Char.ofNat 0x0c
  | .tab => '\t'
  | .lineFeed => '\n'
  | .carriageReturn => '\r'
  | .verticalTab => Char.ofNat 0x0b
  | .space => ' '

/-- `LiteralKind`. -/
inductive LiteralKind where
  | verbatim
  /-- `Meta`: an escaped metacharacter. -/
  | escapedMeta
  | superfluous
  | octal
  | hexFixed (kind : HexLiteralKind)
  | hexBrace (kind : HexLiteralKind)
  | special (kind : SpecialLiteralKind)
  deriving DecidableEq, Repr

/-- The character that digits name. -/
def codePoint (radix : Nat) (digits : Text) : Option Char :=
  if digits.isEmpty then none
  else
    (digits.mapM (Net.IpAddr.toDigit radix)).bind fun values =>
      let code := values.foldl (fun code value => code * radix + value) 0
      if code.isValidChar then some (Char.ofNat code) else none

/-- The character a literal is, by how it is written. -/
def LiteralKind.read : LiteralKind → Text → Option Char
  | .verbatim, [character] => some character
  | .escapedMeta, ['\\', character] => some character
  | .superfluous, ['\\', character] => some character
  | .octal, '\\' :: digits => codePoint 8 digits
  | .hexFixed kind, '\\' :: letter :: digits =>
      if letter = kind.letter ∧ digits.length = kind.digits then codePoint 16 digits else none
  | .hexBrace kind, '\\' :: letter :: '{' :: braced =>
      if letter = kind.letter ∧ braced.getLast? = some '}' then codePoint 16 braced.dropLast else none
  | .special kind, ['\\', letter] => if letter = kind.letter then some kind.character else none
  | _, _ => none

/-- `Literal`, with its text in place of where it stands. -/
structure Literal where
  kind : LiteralKind
  c : Char
  text : Text
  spelled : kind.read text = some c

/-- `AssertionKind`. -/
inductive AssertionKind where
  | startLine
  | endLine
  | startText
  | endText
  | wordBoundary
  | notWordBoundary
  | wordBoundaryStart
  | wordBoundaryEnd
  | wordBoundaryStartAngle
  | wordBoundaryEndAngle
  | wordBoundaryStartHalf
  | wordBoundaryEndHalf
  deriving DecidableEq, Repr

def AssertionKind.text : AssertionKind → Text
  | .startLine => ['^']
  | .endLine => ['$']
  | .startText => ['\\', 'A']
  | .endText => ['\\', 'z']
  | .wordBoundary => ['\\', 'b']
  | .notWordBoundary => ['\\', 'B']
  | .wordBoundaryStart => "\\b\x7bstart\x7d".toList
  | .wordBoundaryEnd => "\\b\x7bend\x7d".toList
  | .wordBoundaryStartAngle => ['\\', '<']
  | .wordBoundaryEndAngle => ['\\', '>']
  | .wordBoundaryStartHalf => "\\b\x7bstart-half\x7d".toList
  | .wordBoundaryEndHalf => "\\b\x7bend-half\x7d".toList

/-- `ClassPerlKind`. -/
inductive ClassPerlKind where
  | digit
  | space
  | word
  deriving DecidableEq, Repr

/-- `ClassPerl`. -/
structure ClassPerl where
  kind : ClassPerlKind
  negated : Bool
  deriving DecidableEq, Repr

def ClassPerl.text : ClassPerl → Text
  | ⟨.digit, false⟩ => ['\\', 'd']
  | ⟨.digit, true⟩ => ['\\', 'D']
  | ⟨.space, false⟩ => ['\\', 's']
  | ⟨.space, true⟩ => ['\\', 'S']
  | ⟨.word, false⟩ => ['\\', 'w']
  | ⟨.word, true⟩ => ['\\', 'W']

/-- `ClassUnicodeOpKind`. -/
inductive ClassUnicodeOpKind where
  | equal
  | colon
  | notEqual
  deriving DecidableEq, Repr

def ClassUnicodeOpKind.text : ClassUnicodeOpKind → Text
  | .equal => ['=']
  | .colon => [':']
  | .notEqual => ['!', '=']

/-- `ClassUnicodeKind`. -/
inductive ClassUnicodeKind where
  | oneLetter (letter : Char)
  | named (name : Text)
  | namedValue (op : ClassUnicodeOpKind) (name value : Text)
  deriving DecidableEq, Repr

def ClassUnicodeKind.text : ClassUnicodeKind → Text
  | .oneLetter letter => [letter]
  | .named name => '{' :: name ++ ['}']
  | .namedValue op name value => '{' :: name ++ op.text ++ value ++ ['}']

/-- `ClassUnicode`. -/
structure ClassUnicode where
  negated : Bool
  kind : ClassUnicodeKind
  deriving DecidableEq, Repr

def ClassUnicode.text (unicode : ClassUnicode) : Text :=
  '\\' :: (if unicode.negated then 'P' else 'p') :: unicode.kind.text

/-- `ClassSetBinaryOpKind`. -/
inductive ClassSetBinaryOpKind where
  | intersection
  | difference
  | symmetricDifference
  deriving DecidableEq, Repr

def ClassSetBinaryOpKind.text : ClassSetBinaryOpKind → Text
  | .intersection => ['&', '&']
  | .difference => ['-', '-']
  | .symmetricDifference => ['~', '~']

mutual

/-- `ClassSet`. -/
inductive ClassSet where
  | item (item : ClassSetItem)
  | binaryOp (kind : ClassSetBinaryOpKind) (lhs rhs : ClassSet)

/-- `ClassSetItem`. -/
inductive ClassSetItem where
  | empty
  | literal (literal : Literal)
  | range (start stop : Literal)
  | ascii (text : Text)
  | unicode (unicode : ClassUnicode)
  | perl (perl : ClassPerl)
  | bracketed (negated : Bool) (kind : ClassSet)
  | union (items : List ClassSetItem)

end

/-- What a bracketed class begins with. -/
def opening (negated : Bool) : Text :=
  if negated then ['[', '^'] else ['[']

mutual

def ClassSet.text : ClassSet → Text
  | .item item => item.text
  | .binaryOp kind lhs rhs => lhs.text ++ kind.text ++ rhs.text

def ClassSetItem.text : ClassSetItem → Text
  | .empty => []
  | .literal literal => literal.text
  | .range start stop => start.text ++ '-' :: stop.text
  | .ascii text => text
  | .unicode unicode => unicode.text
  | .perl perl => perl.text
  | .bracketed negated kind => opening negated ++ kind.text ++ [']']
  | .union items => itemsText items

def itemsText : List ClassSetItem → Text
  | [] => []
  | item :: items => item.text ++ itemsText items

end

/-- `FlagsItemKind`. -/
inductive FlagsItem where
  | negation
  | flag (letter : Char)
  deriving DecidableEq, Repr

def FlagsItem.letter : FlagsItem → Char
  | .negation => '-'
  | .flag letter => letter

/-- `GroupKind`. -/
inductive GroupKind where
  | captureIndex
  | captureName (startsWithP : Bool) (name : Text)
  | nonCapturing (flags : List FlagsItem)
  deriving DecidableEq, Repr

/-- What a group begins with. -/
def GroupKind.text : GroupKind → Text
  | .captureIndex => ['(']
  | .captureName startsWithP name => (if startsWithP then ['(', '?', 'P', '<'] else ['(', '?', '<']) ++ name ++ ['>']
  | .nonCapturing flags => '(' :: '?' :: flags.map FlagsItem.letter ++ [':']

/-- The count of a repetition, with the blanks the parser skips on both sides of its
digits. -/
structure Count where
  before : Text
  digits : Text
  after : Text
  deriving DecidableEq, Repr

def Count.text (count : Count) : Text :=
  count.before ++ count.digits ++ count.after

def Count.value (count : Count) : Nat :=
  Nat.ofDigitChars 10 count.digits 0

/-- `RepetitionKind`, with the cases of `RepetitionRange`. -/
inductive RepetitionKind where
  | zeroOrOne
  | zeroOrMore
  | oneOrMore
  | exactly (count : Count)
  | atLeast (count : Count)
  | bounded (least most : Count)
  deriving DecidableEq, Repr

def RepetitionKind.text : RepetitionKind → Text
  | .zeroOrOne => ['?']
  | .zeroOrMore => ['*']
  | .oneOrMore => ['+']
  | .exactly count => '{' :: count.text ++ ['}']
  | .atLeast count => '{' :: count.text ++ [',', '}']
  | .bounded least most => '{' :: least.text ++ ',' :: most.text ++ ['}']

/-- What makes a repetition prefer fewer. -/
def laziness (greedy : Bool) : Text :=
  if greedy then [] else ['?']

/-- `Ast`. -/
inductive Ast where
  | empty
  | flags (items : List FlagsItem)
  | literal (literal : Literal)
  | dot
  | assertion (kind : AssertionKind)
  | classUnicode (unicode : ClassUnicode)
  | classPerl (perl : ClassPerl)
  | classBracketed (negated : Bool) (kind : ClassSet)
  | repetition (kind : RepetitionKind) (greedy : Bool) (ast : Ast)
  | group (kind : GroupKind) (ast : Ast)
  | alternation (asts : List Ast)
  | concat (asts : List Ast)

mutual

/-- The text a tree is written as. -/
def Ast.text : Ast → Text
  | .empty => []
  | .flags items => '(' :: '?' :: items.map FlagsItem.letter ++ [')']
  | .literal literal => literal.text
  | .dot => ['.']
  | .assertion kind => kind.text
  | .classUnicode unicode => unicode.text
  | .classPerl perl => perl.text
  | .classBracketed negated kind => opening negated ++ kind.text ++ [']']
  | .repetition kind greedy ast => ast.text ++ (kind.text ++ laziness greedy)
  | .group kind ast => kind.text ++ ast.text ++ [')']
  | .alternation asts => alternationText asts
  | .concat asts => concatText asts

def concatText : List Ast → Text
  | [] => []
  | ast :: asts => ast.text ++ concatText asts

def alternationText : List Ast → Text
  | [] => []
  | [ast] => ast.text
  | ast :: other :: asts => ast.text ++ '|' :: alternationText (other :: asts)

end

/-! ## What is written instead -/

/-- `DIGIT`. -/
def digit : Text := "[0-9]".toList

/-- `NOT_DIGIT`. -/
def notDigit : Text := "[^0-9]".toList

/-- `WORD`. -/
def word : Text := "[0-9A-Za-z_]".toList

/-- `NOT_WORD`. -/
def notWord : Text := "[^0-9A-Za-z_]".toList

/-- `SPACE`. -/
def space : Text :=
  ("[\\t\\n\\x0B\\x0C\\r \\xA0\\x\x7b1680\x7d\\x\x7b2000\x7d-\\x\x7b200A\x7d\\x\x7b2028\x7d" ++
    "\\x\x7b2029\x7d\\x\x7b202F\x7d\\x\x7b205F\x7d\\x\x7b3000\x7d\\x\x7bFEFF\x7d]").toList

/-- `NOT_SPACE`. -/
def notSpace : Text :=
  ("[^\\t\\n\\x0B\\x0C\\r \\xA0\\x\x7b1680\x7d\\x\x7b2000\x7d-\\x\x7b200A\x7d\\x\x7b2028\x7d" ++
    "\\x\x7b2029\x7d\\x\x7b202F\x7d\\x\x7b205F\x7d\\x\x7b3000\x7d\\x\x7bFEFF\x7d]").toList

/-- `DOT`. -/
def dot : Text := "[^\\n\\r\\x\x7b2028\x7d\\x\x7b2029\x7d]".toList

/-- `WORD_BOUNDARY`. -/
def wordBoundary : Text := "(?-u:\\b)".toList

/-- `NOT_WORD_BOUNDARY`. -/
def notWordBoundary : Text := "(?-u:\\B)".toList

/-- `NUL`. -/
def nul : Text := "\\x00".toList

/-- `BACKTRACKING`. -/
def backtracking : Text :=
  ("lookaround and backreferences are ECMA-262, but the `regex` engine the check runs with does not " ++
    "implement them: both need a backtracking search, and it matches in time linear in the input instead. " ++
    "Express the bound without them, or check it in the handler and describe it in prose").toList

/-- `IDENTITY_ESCAPES`. -/
def identityEscapes : Text := "^$\\.*+?()[]\x7b\x7d|/".toList

/-- The Unicode data of the build: what identifiers begin with and go on with, and the
spellings of the included tables. -/
structure Tables where
  idStart : Char → Bool
  idContinue : Char → Bool
  generalCategory : Text → Bool
  binaryProperty : Text → Bool
  script : Text → Bool

/-- `GROUP_NAME`. -/
def Tables.groupName (tables : Tables) : Text → Bool
  | [] => false
  | first :: rest => (tables.idStart first || first == '_') && rest.all tables.idContinue

/-! ## Refusals -/

/-- `not_ecma`. -/
def notEcma (construct : Text) : Text :=
  "this pattern writes ".toList ++ construct ++
    (". `pattern` is an ECMA-262 regular expression, and the check enforcing it reads only what " ++
      "ECMA-262 reads the same way").toList

/-- `ErrorKind`, as far as `unreadable` tells its cases apart. -/
inductive ErrorKind where
  | unsupportedLookAround
  | escapeUnrecognized
  | classEscapeInvalid
  | other
  deriving DecidableEq, Repr

/-- `Span`. -/
abbrev Span := Extent

/-- `ast::Error`, with what its kind is displayed as. -/
structure ParseError where
  kind : ErrorKind
  shown : Text
  pattern : Text
  span : Span
  deriving DecidableEq, Repr

/-- The octets before an offset, as a numeral. -/
def byteOffset (pattern : Text) (offset : Nat) : Text :=
  Nat.toDigits 10 (Text.toOctets (pattern.take offset)).length

/-- `unreadable`. -/
def unreadable (error : ParseError) : Text :=
  let written := slice error.pattern error.span.start error.span.stop
  let unread :=
    "this is not a regular expression: ".toList ++ error.shown ++ ", at byte ".toList ++
      byteOffset error.pattern error.span.start
  match error.kind with
  | .unsupportedLookAround => backtracking
  | .escapeUnrecognized =>
      if written = ['\\', '8'] ∨ written = ['\\', '9'] then backtracking
      else if written = ['\\', 'c'] then
        match (error.pattern.drop error.span.stop).head? with
        | some letter =>
            if LanguageTag.isAsciiAlphabetic letter then
              "this pattern writes `\\c".toList ++ letter ::
                "`, ECMA-262's control escape, which the `regex` engine does not read; write `\\x".toList ++
                [Text.Percent.hexDigit (letter.toNat % 32 / 16), Text.Percent.hexDigit (letter.toNat % 32 % 16), '`']
            else
              "this is not a regular expression: `\\c` takes an ASCII letter, at byte ".toList ++
                byteOffset error.pattern error.span.start
        | none =>
            "this is not a regular expression: `\\c` takes an ASCII letter, at byte ".toList ++
              byteOffset error.pattern error.span.start
      else unread
  | .classEscapeInvalid =>
      if written = ['\\', 'b'] then
        ("this pattern writes `[\\b]`, which ECMA-262 reads as U+0008 BACKSPACE and the `regex` engine refuses; " ++
          "write `\\x08`").toList
      else unread
  | .other => unread

/-- `literal_escape`. -/
def literalEscape (literal : Literal) (inClass : Bool) : Except Text Unit :=
  match literal.kind with
  | .verbatim =>
      if inClass ∧ literal.c = ']' then
        .error (notEcma ("a `]` first in a class, such as `[]a]`; ECMA-262 reads `[]` as the empty class, so " ++
          "escape it as `\\]`").toList)
      else if !inClass ∧ literal.c ∈ [']', '{', '}'] then
        .error (notEcma ("an unescaped `".toList ++ literal.c :: "`, which ECMA-262 refuses; write `\\".toList ++
          [literal.c, '`']))
      else .ok ()
  | .escapedMeta | .superfluous =>
      if literal.c ∈ identityEscapes ∨ (inClass ∧ literal.c = '-') then .ok ()
      else
        .error (notEcma ("`\\".toList ++ literal.c ::
          "`, an escape ECMA-262 refuses; write the character alone".toList))
  | .hexFixed .x | .hexFixed .unicodeShort | .hexBrace .unicodeShort => .ok ()
  | .special .formFeed | .special .tab | .special .lineFeed | .special .carriageReturn | .special .verticalTab => .ok ()
  | .hexFixed .unicodeLong | .hexBrace .x | .hexBrace .unicodeLong =>
      .error (notEcma ("a `\\U` or `\\x\x7b...\x7d` escape; ECMA-262 writes a code point as " ++
        "`\\u\x7b...\x7d`").toList)
  | .octal | .special .bell | .special .space =>
      .error (notEcma "an escape such as `\\a`; write the character as `\\u\x7b...\x7d`".toList)

/-- `unicode_class`. -/
def unicodeClass (tables : Tables) (unicode : ClassUnicode) : Except Text Unit :=
  let answer (spelled : Bool) (written : Text) : Except Text Unit :=
    if spelled then .ok ()
    else
      .error (notEcma ("`\\".toList ++ (if unicode.negated then 'P' else 'p') :: '{' :: written ++
        ("\x7d`, a property ECMA-262 does not spell. It spells a name and a value exactly as Unicode does, case " ++
          "and `_` included, and reads `\\p\x7bLu\x7d` as a General_Category value or a binary property and " ++
          "`\\p\x7bScript=Greek\x7d` as a script").toList))
  match unicode.kind with
  | .named name => answer (tables.generalCategory name || tables.binaryProperty name) name
  | .namedValue .equal name value =>
      answer
        (if name = "General_Category".toList ∨ name = "gc".toList then tables.generalCategory value
        else if name = "Script".toList ∨ name = "sc".toList ∨ name = "Script_Extensions".toList ∨
          name = "scx".toList then tables.script value
        else false)
        (name ++ '=' :: value)
  | .oneLetter _ =>
      .error (notEcma "a one-letter Unicode class such as `\\pL`; ECMA-262 writes it `\\p\x7bL\x7d`".toList)
  | .namedValue _ _ _ =>
      .error (notEcma ("a Unicode class written with `:` or `!=`; ECMA-262 writes `\\p\x7bname=value\x7d`, and " ++
        "`\\P\x7b...\x7d` for its complement").toList)

/-! ## The translator -/

/-- A span of the pattern, and what is written instead. -/
abbrev Replacement := Span × Text

/-- The span of a text at an offset. -/
def spanOf (offset : Nat) (text : Text) : Span :=
  ⟨offset, offset + text.length⟩

/-- What stands for a class of `\d`, `\s` and `\w`. -/
def perlText : ClassPerl → Text
  | ⟨.digit, false⟩ => digit
  | ⟨.digit, true⟩ => notDigit
  | ⟨.word, false⟩ => word
  | ⟨.word, true⟩ => notWord
  | ⟨.space, false⟩ => space
  | ⟨.space, true⟩ => notSpace

/-- `Translator::perl`. -/
def perl (offset : Nat) (perl : ClassPerl) : List Replacement :=
  [(spanOf offset perl.text, perlText perl)]

/-- `Translator::literal`. -/
def literal (source : Text) (offset : Nat) (literal : Literal) (inClass : Bool) : Except Text (List Replacement) :=
  if literal.kind ≠ .octal then (literalEscape literal inClass).map fun _ => []
  else
    let digitFollows := ((source.drop (offset + literal.text.length)).head?).any Text.isAsciiDigit
    if literal.text = ['\\', '0'] ∧ digitFollows = false then .ok [(spanOf offset literal.text, nul)]
    else if literal.text.take 2 = ['\\', '0'] then
      .error (notEcma ("`\\0` followed by a digit, such as `\\01`, which ECMA-262 refuses; write NUL as `\\x00` " ++
        "and the digit after it").toList)
    else if inClass then
      .error (notEcma ("a decimal escape such as `\\1` in a class, which ECMA-262 refuses; write the character as " ++
        "`\\u\x7b...\x7d`").toList)
    else .error backtracking

/-- `Translator::assertion`. -/
def assertion (offset : Nat) : AssertionKind → Except Text (List Replacement)
  | .startLine | .endLine => .ok []
  | .wordBoundary => .ok [(spanOf offset AssertionKind.wordBoundary.text, wordBoundary)]
  | .notWordBoundary => .ok [(spanOf offset AssertionKind.notWordBoundary.text, notWordBoundary)]
  | _ =>
      .error (notEcma ("an assertion such as `\\A`, `\\z` or `\\b\x7bstart\x7d`; ECMA-262 writes the ends of the " ++
        "input as `^` and `$`").toList)

section Visit

variable (tables : Tables) (source : Text)

mutual

/-- `visit_class_set_binary_op_pre`, and what is visited below a set. -/
def visitClassSet (offset : Nat) : ClassSet → Except Text (List Replacement)
  | .binaryOp _ _ _ =>
      .error (notEcma "a class set operation (`&&`, `--` or `~~`); ECMA-262 reads each as two characters".toList)
  | .item item => visitClassSetItem offset item

/-- `visit_class_set_item_pre`, and what is visited below an item. -/
def visitClassSetItem (offset : Nat) : ClassSetItem → Except Text (List Replacement)
  | .empty => .ok []
  | .union items => visitItems offset items
  | .literal written => literal source offset written true
  | .range start stop => do
      let first ← literal source offset start true
      let last ← literal source (offset + start.text.length + 1) stop true
      pure (first ++ last)
  | .ascii _ =>
      .error (notEcma ("a POSIX class such as `[[:alpha:]]`, which ECMA-262 reads as a class of the characters " ++
        "`[`, `:` and the letters, followed by `]`").toList)
  | .unicode unicode => (unicodeClass tables unicode).map fun _ => []
  | .perl class' => .ok (perl offset class')
  | .bracketed _ _ =>
      .error (notEcma ("a class nested in a class; ECMA-262 reads `[` inside a class as the character itself, so " ++
        "escape it as `\\[`").toList)

def visitItems (offset : Nat) : List ClassSetItem → Except Text (List Replacement)
  | [] => .ok []
  | item :: items => do
      let first ← visitClassSetItem offset item
      let rest ← visitItems (offset + item.text.length) items
      pure (first ++ rest)

end

/-- What `visit_pre` says of a repeated tree. -/
def repeatable : Ast → Except Text Unit
  | .repetition _ _ _ =>
      .error (notEcma ("a quantifier on a quantifier, such as `a**` or `x\x7b2\x7d\x7b3\x7d`, which ECMA-262 " ++
        "refuses; group the inner one as `(?:x\x7b2\x7d)\x7b3\x7d`").toList)
  | .assertion _ => .error (notEcma "a quantified assertion, such as `^*` or `\\b+`, which ECMA-262 refuses".toList)
  | _ => .ok ()

/-- What `visit_pre` says of a group. -/
def groupable : GroupKind → Except Text Unit
  | .captureIndex => .ok ()
  | .captureName false name =>
      if tables.groupName name then .ok ()
      else
        .error (notEcma ("a group name that is not an ECMA-262 identifier, such as `(?<a.b>...)`; it starts with a " ++
          "letter or `_` and holds no `.`, `[` or `]`").toList)
  | .captureName true _ => .error (notEcma "`(?P<name>...)`; ECMA-262 writes a named group `(?<name>...)`".toList)
  | .nonCapturing [] => .ok ()
  | .nonCapturing _ => .error (notEcma "a group setting flags, such as `(?i:...)`".toList)

mutual

/-- `visit_pre`, and what is visited below a tree. -/
def visit (offset : Nat) : Ast → Except Text (List Replacement)
  | .empty => .ok []
  | .flags _ => .error (notEcma "an inline flag group such as `(?i)`".toList)
  | .literal written => literal source offset written false
  | .dot => .ok [(spanOf offset Ast.dot.text, dot)]
  | .assertion kind => assertion offset kind
  | .classUnicode unicode => (unicodeClass tables unicode).map fun _ => []
  | .classPerl class' => .ok (perl offset class')
  | .classBracketed negated kind => visitClassSet tables source (offset + (opening negated).length) kind
  | .repetition _ _ ast => do
      repeatable ast
      visit offset ast
  | .group kind ast => do
      groupable tables kind
      visit (offset + kind.text.length) ast
  | .alternation asts => visitAlternation offset asts
  | .concat asts => visitConcat offset asts

def visitConcat (offset : Nat) : List Ast → Except Text (List Replacement)
  | [] => .ok []
  | ast :: asts => do
      let first ← visit offset ast
      let rest ← visitConcat (offset + ast.text.length) asts
      pure (first ++ rest)

def visitAlternation (offset : Nat) : List Ast → Except Text (List Replacement)
  | [] => .ok []
  | ast :: asts => do
      let first ← visit offset ast
      let rest ← visitAlternation (offset + ast.text.length + 1) asts
      pure (first ++ rest)

end

end Visit

/-- The replacements in the order they stand. -/
def sorted (replacements : List Replacement) : List Replacement :=
  replacements.insertionSort fun entry later => entry.1.start ≤ later.1.start

/-- `translated`: the parser and the engine's compiler are those of other crates. -/
def translated (tables : Tables) (parse : Text → Except ParseError Ast) (compile : Text → Except Text Unit)
    (source : Text) : Except Text Text := do
  let ast ← (parse source).mapError unreadable
  let replacements ← visit tables source 0 ast
  let translated := spliceFrom source 0 (sorted replacements)
  (compile translated).mapError fun error =>
    "the `regex` engine cannot compile this pattern: ".toList ++ error
  pure translated

end Kynos.Pattern
