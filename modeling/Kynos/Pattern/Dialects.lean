import Kynos.Pattern.Translate
import Kynos.Word.Regex

/-!
# Two dialects

What ECMA-262 reads a pattern as under Unicode support, by its grammar, with neither
lookaround nor backreferences; and what the engine reads a tree as. Both are regular
expressions, and what tells the dialects apart is which characters a leaf admits and
where an assertion stands.
-/

namespace Kynos.Pattern

open Kynos.Word

/-- Which characters hold a Unicode property, and which ones the engine reads in
`\d`, `\s` and `\w` under Unicode support. -/
structure Properties where
  named (name : Text) (character : Char) : Prop
  valued (name value : Text) (character : Char) : Prop
  perl (kind : ClassPerlKind) (character : Char) : Prop

/-- One part of a class. -/
inductive Member where
  | one (character : Char)
  | range (first last : Char)
  | inner (admits : Char → Prop)

def Member.Admits : Member → Char → Prop
  | .one other, character => character = other
  | .range first last, character => first ≤ character ∧ character ≤ last
  | .inner admits, character => admits character

/-- Whether a class admits a character. -/
def Among (members : List Member) (character : Char) : Prop :=
  ∃ member ∈ members, member.Admits character

/-- What a class admits, complemented or not. -/
def Complemented (negated : Bool) (admits : Char → Prop) (character : Char) : Prop :=
  if negated then ¬ admits character else admits character

def IsDigit (character : Char) : Prop :=
  '0' ≤ character ∧ character ≤ '9'

/-- An ASCII letter or digit, or `_`. -/
def IsWord (character : Char) : Prop :=
  IsDigit character ∨ ('A' ≤ character ∧ character ≤ 'Z') ∨ ('a' ≤ character ∧ character ≤ 'z') ∨ character = '_'

/-- Whether one of two neighbouring characters is in a word and the other is not. -/
def Boundary (isWord : Char → Prop) (before after : Text) : Prop :=
  ¬ ((∃ character ∈ before.getLast?, isWord character) ↔ ∃ character ∈ after.head?, isWord character)

/-! ## ECMA-262 -/

namespace Ecma

/-- `LineTerminator`. -/
def IsLineTerminator (character : Char) : Prop :=
  character.toNat ∈ [0x0a, 0x0d, 0x2028, 0x2029]

/-- `WhiteSpace`, or `LineTerminator`. -/
def IsSpace (character : Char) : Prop :=
  character.toNat ∈ [0x09, 0x0b, 0x0c, 0xfeff, 0x20, 0xa0, 0x1680, 0x202f, 0x205f, 0x3000] ∨
    (0x2000 ≤ character.toNat ∧ character.toNat ≤ 0x200a) ∨ IsLineTerminator character

/-- `SyntaxCharacter`. -/
def syntaxCharacters : Text := "^$\\.*+?()[]\x7b\x7d|".toList

/-- `CharacterEscape`, after its backslash and before what follows it. -/
inductive CharacterEscape : Text → Text → Char → Prop where
  | control {kind : SpecialLiteralKind} {rest : Text}
      (isControl : kind ∈ [.formFeed, .lineFeed, .carriageReturn, .tab, .verticalTab]) :
      CharacterEscape [kind.letter] rest kind.character
  | controlLetter {letter : Char} {rest : Text} (isLetter : LanguageTag.isAsciiAlphabetic letter = true) :
      CharacterEscape ['c', letter] rest (Char.ofNat (letter.toNat % 32))
  | nul {rest : Text} (noDigit : rest.head?.any Text.isAsciiDigit = false) : CharacterEscape ['0'] rest (Char.ofNat 0)
  | hexadecimal {digits rest : Text} {character : Char} (two : digits.length = 2)
      (isCode : codePoint 16 digits = some character) : CharacterEscape ('x' :: digits) rest character
  | unicode {digits rest : Text} {character : Char} (four : digits.length = 4)
      (isCode : codePoint 16 digits = some character) : CharacterEscape ('u' :: digits) rest character
  | braced {digits rest : Text} {character : Char} (isCode : codePoint 16 digits = some character) :
      CharacterEscape ('u' :: '{' :: digits ++ ['}']) rest character
  | identity {character : Char} {rest : Text} (isSyntax : character ∈ syntaxCharacters ∨ character = '/') :
      CharacterEscape [character] rest character

/-- The names a property's value is written after, by what spells the value. -/
def spelled (tables : Tables) (name value : Text) : Prop :=
  (name ∈ ["General_Category".toList, "gc".toList] ∧ tables.generalCategory value = true) ∨
    (name ∈ ["Script".toList, "sc".toList, "Script_Extensions".toList, "scx".toList] ∧ tables.script value = true)

/-- `CharacterClassEscape`, after its backslash. -/
inductive CharacterClassEscape (tables : Tables) (properties : Properties) : Text → (Char → Prop) → Prop where
  | digit (negated : Bool) :
      CharacterClassEscape tables properties [if negated then 'D' else 'd'] (Complemented negated IsDigit)
  | space (negated : Bool) :
      CharacterClassEscape tables properties [if negated then 'S' else 's'] (Complemented negated IsSpace)
  | word (negated : Bool) :
      CharacterClassEscape tables properties [if negated then 'W' else 'w'] (Complemented negated IsWord)
  | named (negated : Bool) {name : Text}
      (isSpelled : tables.generalCategory name = true ∨ tables.binaryProperty name = true) :
      CharacterClassEscape tables properties ((if negated then 'P' else 'p') :: '{' :: name ++ ['}'])
        (Complemented negated (properties.named name))
  | valued (negated : Bool) {name value : Text} (isSpelled : spelled tables name value) :
      CharacterClassEscape tables properties ((if negated then 'P' else 'p') :: '{' :: name ++ '=' :: value ++ ['}'])
        (Complemented negated (properties.valued name value))

/-- `ClassAtom`, or `ClassAtomNoDash` where it is not `dash`. -/
inductive ClassAtom (tables : Tables) (properties : Properties) : Bool → Text → Text → Member → Prop where
  | dash {rest : Text} : ClassAtom tables properties true ['-'] rest (.one '-')
  | source {dash : Bool} {character : Char} {rest : Text} (isSource : character ∉ ['\\', ']', '-']) :
      ClassAtom tables properties dash [character] rest (.one character)
  | backspace {dash : Bool} {rest : Text} : ClassAtom tables properties dash ['\\', 'b'] rest (.one (Char.ofNat 8))
  | escapedDash {dash : Bool} {rest : Text} : ClassAtom tables properties dash ['\\', '-'] rest (.one '-')
  | inner {dash : Bool} {text rest : Text} {admits : Char → Prop}
      (escape : CharacterClassEscape tables properties text admits) :
      ClassAtom tables properties dash ('\\' :: text) rest (.inner admits)
  | character {dash : Bool} {text rest : Text} {character : Char} (escape : CharacterEscape text rest character) :
      ClassAtom tables properties dash ('\\' :: text) rest (.one character)

/-- `ClassContents`, and the productions below it. -/
inductive Production where
  | contents
  /-- `NonemptyClassRanges`, or `NonemptyClassRangesNoDash`. -/
  | ranges (dash : Bool)

inductive ClassRanges (tables : Tables) (properties : Properties) :
    Production → Text → Text → List Member → Prop where
  | empty {rest : Text} : ClassRanges tables properties .contents [] rest []
  | contents {text rest : Text} {members : List Member}
      (ranges : ClassRanges tables properties (.ranges true) text rest members) :
      ClassRanges tables properties .contents text rest members
  | last {dash : Bool} {text rest : Text} {member : Member} (atom : ClassAtom tables properties true text rest member) :
      ClassRanges tables properties (.ranges dash) text rest [member]
  | more {dash : Bool} {text others rest : Text} {member : Member} {members : List Member}
      (atom : ClassAtom tables properties dash text (others ++ rest) member)
      (ranges : ClassRanges tables properties (.ranges false) others rest members) :
      ClassRanges tables properties (.ranges dash) (text ++ others) rest (member :: members)
  | range {dash : Bool} {start stop others rest : Text} {first last : Char} {members : List Member}
      (isStart : ClassAtom tables properties dash start ('-' :: stop ++ others ++ rest) (.one first))
      (isStop : ClassAtom tables properties true stop (others ++ rest) (.one last)) (ordered : first ≤ last)
      (contents : ClassRanges tables properties .contents others rest members) :
      ClassRanges tables properties (.ranges dash) (start ++ '-' :: stop ++ others) rest (.range first last :: members)

/-- `QuantifierPrefix`. -/
inductive QuantifierPrefix : Text → Nat → Option Nat → Prop where
  | star : QuantifierPrefix ['*'] 0 none
  | plus : QuantifierPrefix ['+'] 1 none
  | question : QuantifierPrefix ['?'] 0 (some 1)
  | exactly {digits : Text} (some' : digits ≠ []) (isDigits : digits.all Text.isAsciiDigit = true) :
      QuantifierPrefix ('{' :: digits ++ ['}']) (Nat.ofDigitChars 10 digits 0) (some (Nat.ofDigitChars 10 digits 0))
  | atLeast {digits : Text} (some' : digits ≠ []) (isDigits : digits.all Text.isAsciiDigit = true) :
      QuantifierPrefix ('{' :: digits ++ [',', '}']) (Nat.ofDigitChars 10 digits 0) none
  | bounded {least most : Text} (some' : least ≠ []) (isLeast : least.all Text.isAsciiDigit = true)
      (someMost : most ≠ []) (isMost : most.all Text.isAsciiDigit = true)
      (ordered : Nat.ofDigitChars 10 least 0 ≤ Nat.ofDigitChars 10 most 0) :
      QuantifierPrefix ('{' :: least ++ ',' :: most ++ ['}']) (Nat.ofDigitChars 10 least 0)
        (some (Nat.ofDigitChars 10 most 0))

/-- `RegExpIdentifierName`. -/
def IsIdentifier (tables : Tables) : Text → Prop
  | [] => False
  | first :: rest =>
      (tables.idStart first = true ∨ first ∈ ['$', '_']) ∧
        ∀ character ∈ rest,
          tables.idContinue character = true ∨ character ∈ ['$', Char.ofNat 0x200c, Char.ofNat 0x200d]

/-- What a group begins with: `(?:`, or `(` and `GroupSpecifier`. -/
inductive GroupSpecifier (tables : Tables) : Text → Prop where
  | unnamed : GroupSpecifier tables ['(']
  | named {name : Text} (isName : IsIdentifier tables name) : GroupSpecifier tables ('(' :: '?' :: '<' :: name ++ ['>'])
  | nonCapturing : GroupSpecifier tables ['(', '?', ':']

/-- `Assertion`. -/
inductive Assertion : Text → (Text → Text → Prop) → Prop where
  | start : Assertion ['^'] fun before _ => before = []
  | stop : Assertion ['$'] fun _ after => after = []
  | boundary : Assertion ['\\', 'b'] (Boundary IsWord)
  | notBoundary : Assertion ['\\', 'B'] fun before after => ¬ Boundary IsWord before after

mutual

/-- `Disjunction`. -/
inductive Disjunction (tables : Tables) (properties : Properties) : Text → Text → List (Regex Char) → Prop where
  | last {text rest : Text} {terms : List (Regex Char)} (alternative : Alternative tables properties text rest terms) :
      Disjunction tables properties text rest [.sequence terms]
  | more {text others rest : Text} {terms regexes : List (Regex Char)}
      (alternative : Alternative tables properties text ('|' :: others ++ rest) terms)
      (disjunction : Disjunction tables properties others rest regexes) :
      Disjunction tables properties (text ++ '|' :: others) rest (.sequence terms :: regexes)

/-- `Alternative`. -/
inductive Alternative (tables : Tables) (properties : Properties) : Text → Text → List (Regex Char) → Prop where
  | empty {rest : Text} : Alternative tables properties [] rest []
  | concat {text last rest : Text} {terms : List (Regex Char)} {regex : Regex Char}
      (earlier : Alternative tables properties text (last ++ rest) terms)
      (term : Term tables properties last rest regex) :
      Alternative tables properties (text ++ last) rest (terms ++ [regex])

/-- `Term`. -/
inductive Term (tables : Tables) (properties : Properties) : Text → Text → Regex Char → Prop where
  | assertion {text rest : Text} {holds : Text → Text → Prop} (assertion : Assertion text holds) :
      Term tables properties text rest (.stands holds)
  | atom {text rest : Text} {regex : Regex Char} (atom : Atom tables properties text rest regex) :
      Term tables properties text rest regex
  | quantified {text quantifier rest : Text} {regex : Regex Char} {least : Nat} {most : Option Nat} (greedy : Bool)
      (atom : Atom tables properties text (quantifier ++ laziness greedy ++ rest) regex)
      (isQuantifier : QuantifierPrefix quantifier least most) :
      Term tables properties (text ++ (quantifier ++ laziness greedy)) rest (.repeated least most regex)

/-- `Atom`. -/
inductive Atom (tables : Tables) (properties : Properties) : Text → Text → Regex Char → Prop where
  | patternCharacter {character : Char} {rest : Text} (notSyntax : character ∉ syntaxCharacters) :
      Atom tables properties [character] rest (.one (· = character))
  | dot {rest : Text} : Atom tables properties ['.'] rest (.one fun character => ¬ IsLineTerminator character)
  | inner {text rest : Text} {admits : Char → Prop} (escape : CharacterClassEscape tables properties text admits) :
      Atom tables properties ('\\' :: text) rest (.one admits)
  | escape {text rest : Text} {character : Char} (escape : CharacterEscape text rest character) :
      Atom tables properties ('\\' :: text) rest (.one (· = character))
  | characterClass {text rest : Text} {members : List Member} (negated : Bool)
      (plain : negated = false → text.head? ≠ some '^')
      (contents : ClassRanges tables properties .contents text (']' :: rest) members) :
      Atom tables properties (opening negated ++ text ++ [']']) rest (.one (Complemented negated (Among members)))
  | group {specifier text rest : Text} {regexes : List (Regex Char)} (isSpecifier : GroupSpecifier tables specifier)
      (disjunction : Disjunction tables properties text (')' :: rest) regexes) :
      Atom tables properties (specifier ++ text ++ [')']) rest (.choice regexes)

end

/-- What a whole pattern is read as. -/
def Reads (tables : Tables) (properties : Properties) (source : Text) (regex : Regex Char) : Prop :=
  ∃ regexes, Disjunction tables properties source [] regexes ∧ regex = .choice regexes

end Ecma

/-! ## The engine -/

namespace Engine

variable (properties : Properties)

/-- What `\d`, `\s` and `\w` admit, under Unicode support or without it. -/
def perlAdmits (unicode : Bool) (perl : ClassPerl) : Char → Prop :=
  Complemented perl.negated
    (if unicode then properties.perl perl.kind
    else
      match perl.kind with
      | .digit => IsDigit
      | .space => fun character => character ∈ ['\t', '\n', Char.ofNat 0x0b, Char.ofNat 0x0c, '\r', ' ']
      | .word => IsWord)

/-- A Unicode class, as far as its property is named or has a value. -/
def unicodeAdmits (unicode : ClassUnicode) : Option (Char → Prop) :=
  match unicode.kind with
  | .named name => some (Complemented unicode.negated (properties.named name))
  | .namedValue .equal name value => some (Complemented unicode.negated (properties.valued name value))
  | _ => none

/-- A literal's character; without octal support no digit is one. -/
def character (literal : Literal) : Option Char :=
  if literal.kind = .octal then none else some literal.c

mutual

/-- What a set admits; no set operation is read. -/
def classAdmits (unicode : Bool) : ClassSet → Option (Char → Prop)
  | .item item => (members unicode item).map Among
  | .binaryOp _ _ _ => none

def members (unicode : Bool) : ClassSetItem → Option (List Member)
  | .empty => some []
  | .literal literal => (character literal).map fun character => [.one character]
  | .range start stop => do
      let first ← character start
      let last ← character stop
      some [.range first last]
  | .ascii _ => none
  | .unicode class' => (unicodeAdmits properties class').map fun admits => [.inner admits]
  | .perl class' => some [.inner (perlAdmits properties unicode class')]
  | .bracketed negated kind => (classAdmits unicode kind).map fun admits => [.inner (Complemented negated admits)]
  | .union items => membersOf unicode items

def membersOf (unicode : Bool) : List ClassSetItem → Option (List Member)
  | [] => some []
  | item :: items => do
      let first ← members unicode item
      let rest ← membersOf unicode items
      some (first ++ rest)

end

/-- Whether Unicode is supported below a group, as far as it sets no other flag. -/
def supports (unicode : Bool) : GroupKind → Option Bool
  | .captureIndex | .captureName _ _ | .nonCapturing [] => some unicode
  | .nonCapturing [.flag 'u'] => some true
  | .nonCapturing [.negation, .flag 'u'] => some false
  | .nonCapturing _ => none

/-- Where an assertion stands, as far as translated patterns write it. -/
def standing (unicode : Bool) : AssertionKind → Option (Text → Text → Prop)
  | .startLine | .startText => some fun before _ => before = []
  | .endLine | .endText => some fun _ after => after = []
  | .wordBoundary => some (Boundary (if unicode then properties.perl .word else IsWord))
  | .notWordBoundary =>
      some fun before after => ¬ Boundary (if unicode then properties.perl .word else IsWord) before after
  | _ => none

/-- How often a repetition repeats. -/
def bounds : RepetitionKind → Nat × Option Nat
  | .zeroOrOne => (0, some 1)
  | .zeroOrMore => (0, none)
  | .oneOrMore => (1, none)
  | .exactly count => (count.value, some count.value)
  | .atLeast count => (count.value, none)
  | .bounded least most => (least.value, some most.value)

mutual

/-- What the engine reads a tree as, where it is one that translated patterns have. -/
def reads (unicode : Bool) : Ast → Option (Regex Char)
  | .empty => some (.concat [])
  | .flags _ => none
  | .literal literal => (character literal).map fun character => .one (· = character)
  | .dot => some (.one (· ≠ '\n'))
  | .assertion kind => (standing properties unicode kind).map .stands
  | .classUnicode class' => (unicodeAdmits properties class').map .one
  | .classPerl class' => some (.one (perlAdmits properties unicode class'))
  | .classBracketed negated kind =>
      (classAdmits properties unicode kind).map fun admits => .one (Complemented negated admits)
  | .repetition kind _ ast => (reads unicode ast).map (.repeated (bounds kind).1 (bounds kind).2)
  | .group kind ast => (supports unicode kind).bind fun unicode => reads unicode ast
  | .alternation asts => (readsAll unicode asts).map .choice
  | .concat asts => (readsAll unicode asts).map .sequence

def readsAll (unicode : Bool) : List Ast → Option (List (Regex Char))
  | [] => some []
  | ast :: asts => do
      let first ← reads unicode ast
      let rest ← readsAll unicode asts
      some (first :: rest)

end

end Engine

end Kynos.Pattern
