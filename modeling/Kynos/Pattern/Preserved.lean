import Kynos.Pattern.Dialects
import Kynos.Pattern.Rewritten

/-!
# What translating preserves

What the engine reads the rewritten tree of a pattern as is what ECMA-262 reads the
pattern as, wherever both parse it alike. The rewritten tree is one the parser may
give.
-/

namespace Kynos.Pattern

open Kynos.Word Kynos.Run

/-! ## Trees as they are parsed -/

/-- Whether a literal is a bare `-`. -/
def Literal.isDash (literal : Literal) : Bool :=
  literal.kind = .verbatim ∧ literal.c = '-'

/-- A bare character outside a class begins nothing else. -/
def Literal.Outside (literal : Literal) : Prop :=
  literal.kind = .verbatim → literal.c ∉ "^$\\.*+?()[|".toList

/-- A bare character inside a class begins no escape. -/
def Literal.Inside (literal : Literal) : Prop :=
  literal.kind = .verbatim → literal.c ≠ '\\'

/-- One of several parts of a class. -/
def ClassSetItem.IsPart : ClassSetItem → Prop
  | .literal written => written.Inside
  | .range start stop => start.Inside ∧ stop.Inside ∧ start.isDash = false ∧ start.c ≤ stop.c
  | .empty | .union _ => False
  | _ => True

/-- The parts of a class. -/
def ClassSetItem.parts : ClassSetItem → List ClassSetItem
  | .empty => []
  | .union items => items
  | item => [item]

def ClassSet.WellFormed : ClassSet → Prop
  | .item inner => ∀ part ∈ inner.parts, part.IsPart
  | .binaryOp _ _ _ => True

def Count.WellFormed (count : Count) : Prop :=
  count.digits ≠ [] ∧ count.digits.all Text.isAsciiDigit = true

def RepetitionKind.WellFormed : RepetitionKind → Prop
  | .exactly count | .atLeast count => count.WellFormed
  | .bounded least most => least.WellFormed ∧ most.WellFormed ∧ least.value ≤ most.value
  | _ => True

/-- Whether a tree stands in a concatenation without a group. -/
def Ast.isTerm : Ast → Bool
  | .empty | .alternation _ | .concat _ => false
  | _ => true

/-- Whether a tree stands among alternatives without a group. -/
def Ast.isAlternative : Ast → Bool
  | .alternation _ => false
  | _ => true

mutual

/-- What holds of every tree the parser gives. -/
def Ast.WellFormed : Ast → Prop
  | .literal written => written.Outside
  | .classBracketed negated kind => kind.WellFormed ∧ (negated = false → kind.text.head? ≠ some '^')
  | .repetition kind _ ast => kind.WellFormed ∧ ast.isTerm = true ∧ ast.WellFormed
  | .group _ ast => ast.WellFormed
  | .alternation asts => asts ≠ [] ∧ AlternativesWellFormed asts
  | .concat asts => TermsWellFormed asts
  | _ => True

def TermsWellFormed : List Ast → Prop
  | [] => True
  | ast :: asts => (ast.isTerm = true ∧ ast.WellFormed) ∧ TermsWellFormed asts

def AlternativesWellFormed : List Ast → Prop
  | [] => True
  | ast :: asts => (ast.isAlternative = true ∧ ast.WellFormed) ∧ AlternativesWellFormed asts

end

/-! ## What both dialects parse alike -/

/-- Whether a bare `-` stands last in a class or where ECMA-262 begins anew: at the start of
a class or after a range. Two dashes that begin a class and a third character are a range to it,
and three characters to the engine. -/
def dashesFit : Bool → List ClassSetItem → Bool
  | _, [] => true
  | fresh, .literal written :: rest =>
      (!written.isDash || fresh || rest.isEmpty) && dashesFit false rest
  | _, .range _ _ :: rest => dashesFit true rest
  | _, _ :: rest => dashesFit false rest

def ClassSet.Plain : ClassSet → Prop
  | .item inner => dashesFit true inner.parts = true
  | .binaryOp _ _ _ => True

/-- ECMA-262 reads no blanks in a quantifier. -/
def Count.Plain (count : Count) : Prop :=
  count.before = [] ∧ count.after = []

def RepetitionKind.Plain : RepetitionKind → Prop
  | .exactly count | .atLeast count => count.Plain
  | .bounded least most => least.Plain ∧ most.Plain
  | _ => True

mutual

/-- Whether no quantifier has blanks in it and dashes stand where both dialects read them
alike. -/
def Ast.Plain : Ast → Prop
  | .classBracketed _ kind => kind.Plain
  | .repetition kind _ ast => kind.Plain ∧ ast.Plain
  | .group _ ast => ast.Plain
  | .alternation asts | .concat asts => AllPlain asts
  | _ => True

def AllPlain : List Ast → Prop
  | [] => True
  | ast :: asts => ast.Plain ∧ AllPlain asts

end

/-! ## Literals -/

section Literals

theorem read_verbatim {text : Text} {c : Char} (isRead : LiteralKind.verbatim.read text = some c) : text = [c] := by
  rw [LiteralKind.read.eq_def] at isRead
  split at isRead <;> simp_all

theorem read_escaped {kind : LiteralKind} (isEscaped : kind = .escapedMeta ∨ kind = .superfluous) {text : Text}
    {c : Char} (isRead : kind.read text = some c) : text = ['\\', c] := by
  rw [LiteralKind.read.eq_def] at isRead
  split at isRead <;> simp_all

theorem read_hexFixed {kind : HexLiteralKind} {text : Text} {c : Char}
    (isRead : (LiteralKind.hexFixed kind).read text = some c) :
    ∃ digits, text = '\\' :: kind.letter :: digits ∧ digits.length = kind.digits ∧ codePoint 16 digits = some c := by
  rw [LiteralKind.read.eq_def] at isRead
  split at isRead <;> simp_all

theorem read_hexBrace {kind : HexLiteralKind} {text : Text} {c : Char}
    (isRead : (LiteralKind.hexBrace kind).read text = some c) :
    ∃ digits, text = '\\' :: kind.letter :: '{' :: digits ++ ['}'] ∧ codePoint 16 digits = some c := by
  rw [LiteralKind.read.eq_def] at isRead
  split at isRead <;> simp_all
  next letter braced kind =>
    obtain ⟨⟨-, last⟩, isCode⟩ := isRead
    exact ⟨braced.dropLast, (List.dropLast_append_getLast? _ last).symm, isCode⟩

theorem read_special {kind : SpecialLiteralKind} {text : Text} {c : Char}
    (isRead : (LiteralKind.special kind).read text = some c) : text = ['\\', kind.letter] ∧ c = kind.character := by
  rw [LiteralKind.read.eq_def] at isRead
  split at isRead <;> simp_all

variable {source rest : Text} {offset : Nat} {inClass : Bool} {replacements : List Replacement} {written : Literal}

/-- An octal escape that is not refused is a NUL, and no digit follows it. -/
theorem nul_of_octal (isOctal : written.kind = .octal)
    (isVisit : literal source offset written inClass = .ok replacements) :
    written.text = ['\\', '0'] ∧
      (source.drop (offset + written.text.length)).head?.any Text.isAsciiDigit = false := by
  rw [literal, if_neg (not_not.mpr isOctal)] at isVisit
  simp only at isVisit
  split at isVisit
  next isNul => exact isNul
  next =>
    split at isVisit
    next => cases isVisit
    next => split at isVisit <;> cases isVisit

theorem escape_of_not_octal (notOctal : written.kind ≠ .octal)
    (isVisit : literal source offset written inClass = .ok replacements) : literalEscape written inClass = .ok () := by
  rw [literal, if_pos notOctal] at isVisit
  cases allowed : literalEscape written inClass with
  | ok => rfl
  | error reason =>
      rw [allowed] at isVisit
      cases isVisit

theorem read_nul : LiteralKind.octal.read ['\\', '0'] = some (Char.ofNat 0) := by
  decide

theorem c_of_nul (isOctal : written.kind = .octal) (isNul : written.text = ['\\', '0']) : written.c = Char.ofNat 0 := by
  have spelled := written.spelled
  rw [isOctal, isNul, read_nul] at spelled
  exact (Option.some.inj spelled).symm

/-- The engine reads the character the literal is. -/
theorem character_rewriteLiteral (isVisit : literal source offset written inClass = .ok replacements) :
    Engine.character (rewriteLiteral written) = some written.c := by
  by_cases isOctal : written.kind = .octal
  · obtain ⟨isNul, -⟩ := nul_of_octal isOctal isVisit
    rw [rewriteLiteral, if_pos isOctal, c_of_nul isOctal isNul]
    rfl
  · rw [rewriteLiteral, if_neg isOctal, Engine.character, if_neg isOctal]

theorem isSyntax_of_mem {character : Char} (isEscape : character ∈ identityEscapes) :
    character ∈ Ecma.syntaxCharacters ∨ character = '/' := by
  have split : identityEscapes = Ecma.syntaxCharacters ++ ['/'] := by decide
  rw [split, List.mem_append, List.mem_singleton] at isEscape
  exact isEscape

/-- What is written as an escape and is not refused, ECMA-262 reads as the character it is. -/
theorem characterEscape_of_literal (isVisit : literal source offset written inClass = .ok replacements)
    (follows : source.drop (offset + written.text.length) = rest) (isEscape : written.kind ≠ .verbatim)
    (noDash : inClass = true → written.text ≠ ['\\', '-']) :
    ∃ text, written.text = '\\' :: text ∧ Ecma.CharacterEscape text rest written.c := by
  have spelled := written.spelled
  cases kind : written.kind with
  | verbatim => exact absurd kind isEscape
  | octal =>
      obtain ⟨isNul, noDigit⟩ := nul_of_octal kind isVisit
      rw [follows] at noDigit
      rw [c_of_nul kind isNul]
      exact ⟨['0'], isNul, .nul noDigit⟩
  | escapedMeta | superfluous =>
      have allowed := escape_of_not_octal (by rw [kind]; exact nofun) isVisit
      have isText := read_escaped (by rw [kind]; simp) spelled
      refine ⟨[written.c], isText, .identity (isSyntax_of_mem ?_)⟩
      simp only [literalEscape, kind] at allowed
      split at allowed
      next isMember =>
        rcases isMember with isMember | ⟨isInside, isDash⟩
        · exact isMember
        · exact absurd (by rw [isText, isDash]) (noDash isInside)
      next => cases allowed
  | hexFixed hex =>
      have allowed := escape_of_not_octal (by rw [kind]; exact nofun) isVisit
      rw [kind] at spelled
      obtain ⟨digits, isText, length, isCode⟩ := read_hexFixed spelled
      refine ⟨_, isText, ?_⟩
      cases hex with
      | x => exact .hexadecimal length isCode
      | unicodeShort => exact .unicode length isCode
      | unicodeLong =>
          simp only [literalEscape, kind] at allowed
          cases allowed
  | hexBrace hex =>
      have allowed := escape_of_not_octal (by rw [kind]; exact nofun) isVisit
      rw [kind] at spelled
      obtain ⟨digits, isText, isCode⟩ := read_hexBrace spelled
      refine ⟨_, isText, ?_⟩
      cases hex with
      | unicodeShort => exact .braced isCode
      | x | unicodeLong =>
          simp only [literalEscape, kind] at allowed
          cases allowed
  | special special =>
      have allowed := escape_of_not_octal (by rw [kind]; exact nofun) isVisit
      rw [kind] at spelled
      obtain ⟨isText, isCharacter⟩ := read_special spelled
      refine ⟨_, isText, ?_⟩
      rw [isCharacter]
      apply Ecma.CharacterEscape.control
      simp only [literalEscape, kind] at allowed
      cases special with
      | bell | space => cases allowed
      | _ => simp

end Literals

/-! ## Classes -/

section Classes

variable {tables : Tables} {properties : Properties} {source rest : Text}

/-- What ECMA-262 has for `\d`, `\s` and `\w`. -/
def ecmaPerl : ClassPerlKind → Char → Prop
  | .digit => IsDigit
  | .space => Ecma.IsSpace
  | .word => IsWord

theorem eq_iff_toNat {character other : Char} : character = other ↔ character.toNat = other.toNat :=
  Char.toNat_inj.symm

theorem le_iff_toNat {character other : Char} : character ≤ other ↔ character.toNat ≤ other.toNat :=
  Iff.rfl

theorem perlSet_admits (unicode : Bool) (kind : ClassPerlKind) :
    Engine.classAdmits properties unicode (perlSet kind) = some (ecmaPerl kind) := by
  cases kind with
  | digit =>
      apply congrArg some
      funext character
      simp [Among, Member.Admits, ecmaPerl, IsDigit, verbatim]
  | word =>
      apply congrArg some
      funext character
      simp [Among, Member.Admits, ecmaPerl, IsDigit, IsWord, verbatim]
  | space =>
      apply congrArg some
      funext character
      have codes : ∀ code ∈ [0xb, 0xc, 0xa0, 0x1680, 0x2000, 0x200a, 0x2028, 0x2029, 0x202f, 0x205f, 0x3000, 0xfeff],
          (Char.ofNat code).toNat = code := by decide
      simp only [List.forall_mem_cons] at codes
      simp [Among, Member.Admits, ecmaPerl, Ecma.IsSpace, Ecma.IsLineTerminator, verbatim, special, hexFixed, hexBrace,
        SpecialLiteralKind.character, eq_iff_toNat, le_iff_toNat, codes]
      omega

theorem dotSet_admits (unicode : Bool) :
    (Engine.classAdmits properties unicode dotSet).map (Complemented true) =
      some fun character => ¬ Ecma.IsLineTerminator character := by
  have codes : ∀ code ∈ [0x2028, 0x2029], (Char.ofNat code).toNat = code := by decide
  simp only [List.forall_mem_cons] at codes
  apply congrArg some
  funext character
  simp [Complemented, Among, Member.Admits, Ecma.IsLineTerminator, special, hexBrace, SpecialLiteralKind.character,
    eq_iff_toNat, codes]

variable (tables properties) in
theorem perl_reads (class' : ClassPerl) : ∃ text, class'.text = '\\' :: text ∧
    Ecma.CharacterClassEscape tables properties text (Complemented class'.negated (ecmaPerl class'.kind)) := by
  rcases class' with ⟨kind, negated⟩
  cases kind with
  | digit => exact ⟨_, by cases negated <;> rfl, .digit negated⟩
  | space => exact ⟨_, by cases negated <;> rfl, .space negated⟩
  | word => exact ⟨_, by cases negated <;> rfl, .word negated⟩

variable (properties) in
/-- A Unicode class that is not refused is one ECMA-262 spells. -/
theorem unicode_reads {unicode : ClassUnicode} (allowed : unicodeClass tables unicode = .ok ()) :
    ∃ text admits, unicode.text = '\\' :: text ∧ Ecma.CharacterClassEscape tables properties text admits ∧
      Engine.unicodeAdmits properties unicode = some admits := by
  rcases unicode with ⟨negated, kind⟩
  cases kind with
  | oneLetter letter => cases allowed
  | named name =>
      simp only [unicodeClass] at allowed
      split at allowed
      next isSpelled => exact ⟨_, _, rfl, .named negated (Bool.or_eq_true_iff.mp isSpelled), rfl⟩
      next => cases allowed
  | namedValue op name value =>
      cases op with
      | colon | notEqual => cases allowed
      | equal =>
          simp only [unicodeClass] at allowed
          have isSpelled : Ecma.spelled tables name value := by
            rw [Ecma.spelled]
            split at allowed
            next isName =>
              split at allowed
              next isSpelled => exact .inl ⟨by simpa using isName, isSpelled⟩
              next => cases allowed
            next =>
              split at allowed
              next isName =>
                split at allowed
                next isSpelled => exact .inr ⟨by simpa using isName, isSpelled⟩
                next => cases allowed
              next => cases allowed
          refine ⟨_, _, ?_, .valued negated isSpelled, rfl⟩
          simp [ClassUnicode.text, ClassUnicodeKind.text, ClassUnicodeOpKind.text]

section Parts

variable {offset : Nat} {replacements : List Replacement} {written : Literal}

theorem c_of_escapedDash (isText : written.text = ['\\', '-']) : written.c = '-' := by
  have spelled := written.spelled
  rw [isText] at spelled
  cases kind : written.kind with
  | escapedMeta | superfluous =>
      rw [kind] at spelled
      exact (Option.some.inj spelled).symm
  | verbatim | hexBrace =>
      rw [kind] at spelled
      cases spelled
  | octal =>
      have none : LiteralKind.octal.read ['\\', '-'] = none := by decide
      rw [kind, none] at spelled
      cases spelled
  | hexFixed hex =>
      rw [kind] at spelled
      obtain ⟨digits, isDash, -⟩ := read_hexFixed spelled
      cases hex <;> cases isDash
  | special special =>
      rw [kind] at spelled
      cases special <;> cases (read_special spelled).1

/-- A character of a class that is not refused is one to ECMA-262, where a bare `-` may stand. -/
theorem literal_reads (inside : written.Inside)
    (isVisit : literal source offset written true = .ok replacements)
    (follows : source.drop (offset + written.text.length) = rest) {dash : Bool}
    (fits : written.isDash = true → dash = true) :
    Ecma.ClassAtom tables properties dash written.text rest (.one written.c) := by
  by_cases isVerbatim : written.kind = .verbatim
  · have spelled := written.spelled
    rw [isVerbatim] at spelled
    rw [read_verbatim spelled]
    by_cases isDash : written.c = '-'
    · have fits := fits (by simp [Literal.isDash, isVerbatim, isDash])
      rw [isDash, fits]
      exact .dash
    · apply Ecma.ClassAtom.source
      have allowed := escape_of_not_octal (by rw [isVerbatim]; exact nofun) isVisit
      simp only [literalEscape, isVerbatim] at allowed
      split at allowed
      next => cases allowed
      next notClosing => simpa [isDash, inside isVerbatim] using notClosing
  · by_cases isDash : written.text = ['\\', '-']
    · rw [c_of_escapedDash isDash, isDash]
      exact .escapedDash
    · obtain ⟨text, isText, escape⟩ := characterEscape_of_literal isVisit follows isVerbatim fun _ => isDash
      rw [isText]
      exact .character escape

theorem drop_of_append {first second : Text} (isRest : source.drop offset = first ++ second) :
    source.drop (offset + first.length) = second := by
  rw [← List.drop_drop, isRest, List.drop_left]

theorem members_rewriteLiteral {inClass : Bool} (isVisit : literal source offset written inClass = .ok replacements) :
    Engine.members properties true (.literal (rewriteLiteral written)) = some [.one written.c] := by
  rw [Engine.members, character_rewriteLiteral isVisit]
  rfl

variable (properties) in
/-- A part of a class that is no range is one atom to ECMA-262. -/
theorem part_reads {item : ClassSetItem} (isPart : item.IsPart) (notRange : ∀ start stop, item ≠ .range start stop)
    (isVisit : visitClassSetItem tables source offset item = .ok replacements)
    (follows : source.drop (offset + item.text.length) = rest) :
    ∃ member, Engine.members properties true (rewriteItem item) = some [member] ∧
      ∀ dash, (∀ written, item = .literal written → written.isDash = true → dash = true) →
        Ecma.ClassAtom tables properties dash item.text rest member := by
  cases item with
  | literal written =>
      refine ⟨.one written.c, members_rewriteLiteral isVisit, ?_⟩
      intro dash fits
      exact literal_reads isPart isVisit follows (fits written rfl)
  | range start stop => exact absurd rfl (notRange start stop)
  | empty | union => cases isPart
  | ascii | bracketed => cases isVisit
  | unicode unicode =>
      cases allowed : unicodeClass tables unicode with
      | error reason =>
          rw [visitClassSetItem, allowed] at isVisit
          cases isVisit
      | ok =>
          obtain ⟨text, admits, isText, escape, isRead⟩ := unicode_reads properties allowed
          refine ⟨.inner admits, by rw [rewriteItem, Engine.members, isRead]; rfl, ?_⟩
          intro dash fits
          rw [ClassSetItem.text, isText]
          exact .inner escape
  | perl class' =>
      obtain ⟨text, isText, escape⟩ := perl_reads tables properties class'
      refine ⟨.inner (Complemented class'.negated (ecmaPerl class'.kind)), ?_, ?_⟩
      · rw [rewriteItem, Engine.members, perlSet_admits]
        rfl
      · intro dash fits
        rw [ClassSetItem.text, isText]
        exact .inner escape

variable (properties) in
theorem range_reads {start stop : Literal} (isPart : (ClassSetItem.range start stop).IsPart)
    (isVisit : visitClassSetItem tables source offset (.range start stop) = .ok replacements)
    (follows : source.drop offset = (ClassSetItem.range start stop).text ++ rest) :
    Engine.members properties true (rewriteItem (.range start stop)) = some [.range start.c stop.c] ∧
      start.c ≤ stop.c ∧ (∀ dash, Ecma.ClassAtom tables properties dash start.text ('-' :: stop.text ++ rest) (.one start.c)) ∧
        Ecma.ClassAtom tables properties true stop.text rest (.one stop.c) := by
  obtain ⟨first, isFirst, isVisit⟩ := bind_eq_ok_iff.mp isVisit
  obtain ⟨last, isLast, -⟩ := bind_eq_ok_iff.mp isVisit
  obtain ⟨insideStart, insideStop, noDash, ordered⟩ := isPart
  rw [ClassSetItem.text, List.append_assoc] at follows
  have afterStart := drop_of_append follows
  have afterStop : source.drop (offset + start.text.length + 1 + stop.text.length) = rest := by
    apply drop_of_append
    rw [← List.drop_drop, afterStart]
    rfl
  refine ⟨?_, ordered, ?_, ?_⟩
  · rw [rewriteItem, Engine.members, character_rewriteLiteral isFirst, character_rewriteLiteral isLast]
    rfl
  · intro dash
    apply literal_reads insideStart isFirst afterStart
    intro isDash
    rw [noDash] at isDash
    cases isDash
  · exact literal_reads insideStop isLast afterStop fun _ => rfl

theorem fits_of_cons {dash : Bool} {item next : ClassSetItem} {items : List ClassSetItem}
    (notRange : ∀ start stop, item ≠ .range start stop) (fits : dashesFit dash (item :: next :: items) = true) :
    (∀ written, item = .literal written → written.isDash = true → dash = true) ∧
      dashesFit false (next :: items) = true := by
  cases item with
  | literal written =>
      rw [dashesFit, Bool.and_eq_true] at fits
      constructor
      · rintro _ ⟨⟩ isDash
        simpa [isDash] using fits.1
      · exact fits.2
  | range start stop => exact absurd rfl (notRange start stop)
  | _ => exact ⟨nofun, fits⟩

/-- Parts of a class read one after another, from where a bare `-` may stand or may not. -/
theorem items_read {items : List ClassSetItem} (some' : items ≠ []) (areParts : ∀ part ∈ items, part.IsPart)
    {dash : Bool} (fits : dashesFit dash items = true)
    (isVisit : visitItems tables source offset items = .ok replacements)
    (follows : source.drop offset = itemsText items ++ rest) :
    ∃ members, Engine.membersOf properties true (rewriteItems items) = some members ∧
      Ecma.ClassRanges tables properties (.ranges dash) (itemsText items) rest members := by
  induction items generalizing dash offset replacements with
  | nil => exact absurd rfl some'
  | cons item items ih =>
      obtain ⟨first, isFirst, isVisit⟩ := bind_eq_ok_iff.mp isVisit
      obtain ⟨more, isMore, -⟩ := bind_eq_ok_iff.mp isVisit
      obtain ⟨isPart, othersAreParts⟩ := List.forall_mem_cons.mp areParts
      rw [itemsText, List.append_assoc] at follows
      have afterItem := drop_of_append follows
      by_cases isRange : ∃ start stop, item = .range start stop
      · obtain ⟨start, stop, rfl⟩ := isRange
        obtain ⟨isMember, ordered, isStart, isStop⟩ := range_reads properties isPart isFirst follows
        have contents : ∃ members, Engine.membersOf properties true (rewriteItems items) = some members ∧
            Ecma.ClassRanges tables properties .contents (itemsText items) rest members := by
          cases items with
          | nil => exact ⟨[], rfl, .empty⟩
          | cons next items =>
              obtain ⟨members, areMembers, ranges⟩ := ih nofun othersAreParts fits isMore afterItem
              exact ⟨members, areMembers, .contents ranges⟩
        obtain ⟨members, areMembers, contents⟩ := contents
        refine ⟨.range start.c stop.c :: members, ?_, ?_⟩
        · rw [rewriteItems, Engine.membersOf, isMember, areMembers]
          rfl
        · have starts := isStart dash
          rw [← List.append_assoc] at starts
          exact .range starts isStop ordered contents
      · have notRange : ∀ start stop, item ≠ .range start stop := fun start stop same => isRange ⟨start, stop, same⟩
        obtain ⟨member, isMember, atom⟩ := part_reads properties isPart notRange isFirst afterItem
        cases items with
        | nil =>
            refine ⟨[member], ?_, ?_⟩
            · rw [rewriteItems, Engine.membersOf, isMember]
              rfl
            · rw [itemsText, itemsText, List.append_nil]
              exact .last (atom true fun _ _ _ => rfl)
        | cons next items =>
            have fitsBoth := fits_of_cons notRange fits
            obtain ⟨members, areMembers, ranges⟩ := ih nofun othersAreParts fitsBoth.2 isMore afterItem
            refine ⟨member :: members, ?_, ?_⟩
            · rw [rewriteItems, Engine.membersOf, isMember, areMembers]
              rfl
            · exact .more (atom dash fitsBoth.1) ranges

theorem visitItems_singleton {item : ClassSetItem}
    (isVisit : visitClassSetItem tables source offset item = .ok replacements) :
    visitItems tables source offset [item] = .ok (replacements ++ []) := by
  rw [visitItems, isVisit]
  rfl

theorem membersOf_singleton {unicode : Bool} {item : ClassSetItem} :
    Engine.membersOf properties unicode [item] = Engine.members properties unicode item := by
  rw [Engine.membersOf]
  cases Engine.members properties unicode item with
  | none => rfl
  | some members => exact congrArg some (List.append_nil members)

variable (properties) in
/-- What a class that is not refused admits is the same to both dialects. -/
theorem set_reads {set : ClassSet} (wellFormed : set.WellFormed) (plain : set.Plain)
    (isVisit : visitClassSet tables source offset set = .ok replacements)
    (follows : source.drop offset = set.text ++ rest) :
    ∃ members, Engine.classAdmits properties true (rewriteSet set) = some (Among members) ∧
      Ecma.ClassRanges tables properties .contents set.text rest members := by
  cases set with
  | binaryOp => cases isVisit
  | item inner =>
      have ofParts : ∀ items : List ClassSetItem, (∀ part ∈ items, part.IsPart) → dashesFit true items = true →
          itemsText items = inner.text →
          visitItems tables source offset items = .ok (replacements ++ []) →
          Engine.membersOf properties true (rewriteItems items) = Engine.members properties true (rewriteItem inner) →
          ∃ members, Engine.classAdmits properties true (rewriteSet (.item inner)) = some (Among members) ∧
            Ecma.ClassRanges tables properties .contents inner.text rest members := by
        intro items areParts fits isText isVisit same
        rw [rewriteSet, Engine.classAdmits, ← same]
        rw [ClassSet.text, ← isText] at follows
        rw [← isText]
        cases items with
        | nil => exact ⟨[], rfl, .empty⟩
        | cons item items =>
            obtain ⟨members, areMembers, ranges⟩ :=
              items_read (List.cons_ne_nil item items) areParts fits isVisit follows
            exact ⟨members, by rw [areMembers]; rfl, .contents ranges⟩
      cases inner with
      | empty =>
          cases isVisit
          exact ofParts [] wellFormed plain rfl rfl rfl
      | union items =>
          rw [List.append_nil] at ofParts
          exact ofParts items wellFormed plain rfl isVisit rfl
      | _ =>
          exact ofParts [_] wellFormed plain (List.append_nil _) (visitItems_singleton isVisit) membersOf_singleton

end Parts

end Classes

/-! ## Trees -/

section Trees

variable {tables : Tables} {properties : Properties} {source rest : Text} {ast : Ast} {regex : Regex Char}

/-- What ECMA-262 reads a tree's text as, at the level where the tree stands. -/
def Understood (tables : Tables) (properties : Properties) (ast : Ast) (rest : Text) (regex : Regex Char) : Prop :=
  match ast with
  | .alternation _ => ∃ regexes, Ecma.Disjunction tables properties ast.text rest regexes ∧ regex = .choice regexes
  | .empty | .concat _ => ∃ terms, Ecma.Alternative tables properties ast.text rest terms ∧ regex = .sequence terms
  | .flags _ | .assertion _ | .repetition _ _ _ => Ecma.Term tables properties ast.text rest regex
  | _ => Ecma.Atom tables properties ast.text rest regex

theorem Understood.term (understood : Understood tables properties ast rest regex) (isTerm : ast.isTerm = true) :
    Ecma.Term tables properties ast.text rest regex := by
  cases ast with
  | empty | alternation | concat => cases isTerm
  | flags | assertion | repetition => exact understood
  | _ => exact .atom understood

theorem Understood.alternative (understood : Understood tables properties ast rest regex)
    (isAlternative : ast.isAlternative = true) :
    ∃ terms, Ecma.Alternative tables properties ast.text rest terms ∧ regex = .sequence terms := by
  by_cases isTerm : ast.isTerm = true
  · exact ⟨[regex], .concat .empty (understood.term isTerm), rfl⟩
  · cases ast with
    | empty | concat => exact understood
    | alternation => cases isAlternative
    | _ => exact absurd rfl isTerm

theorem Understood.disjunction (understood : Understood tables properties ast rest regex) :
    ∃ regexes, Ecma.Disjunction tables properties ast.text rest regexes ∧ regex = .choice regexes := by
  by_cases isAlternative : ast.isAlternative = true
  · obtain ⟨terms, alternative, isSequence⟩ := understood.alternative isAlternative
    exact ⟨[.sequence terms], .last alternative, isSequence⟩
  · cases ast with
    | alternation => exact understood
    | _ => exact absurd rfl isAlternative

/-- What may be repeated is an atom. -/
theorem Understood.atom {offset : Nat} {replacements : List Replacement}
    (understood : Understood tables properties ast rest regex) (isTerm : ast.isTerm = true)
    (allowed : repeatable ast = .ok ()) (isVisit : visit tables source offset ast = .ok replacements) :
    Ecma.Atom tables properties ast.text rest regex := by
  cases ast with
  | empty | alternation | concat => cases isTerm
  | flags => cases isVisit
  | assertion | repetition => cases allowed
  | _ => exact understood

theorem Count.text_eq {count : Count} (plain : count.Plain) : count.text = count.digits := by
  rw [Count.text, plain.1, plain.2, List.nil_append, List.append_nil]

theorem quantifier_reads {kind : RepetitionKind} (wellFormed : kind.WellFormed) (plain : kind.Plain) :
    Ecma.QuantifierPrefix kind.text (Engine.bounds kind).1 (Engine.bounds kind).2 := by
  cases kind with
  | zeroOrOne => exact .question
  | zeroOrMore => exact .star
  | oneOrMore => exact .plus
  | exactly count =>
      rw [RepetitionKind.text, Count.text_eq plain]
      exact .exactly wellFormed.1 wellFormed.2
  | atLeast count =>
      rw [RepetitionKind.text, Count.text_eq plain]
      exact .atLeast wellFormed.1 wellFormed.2
  | bounded least most =>
      obtain ⟨isLeast, isMost, ordered⟩ := wellFormed
      rw [RepetitionKind.text, Count.text_eq plain.1, Count.text_eq plain.2]
      exact .bounded isLeast.1 isLeast.2 isMost.1 isMost.2 ordered

/-- A group that is not refused is one to ECMA-262, and changes no flag. -/
theorem group_reads {kind : GroupKind} (allowed : groupable tables kind = .ok ()) :
    Ecma.GroupSpecifier tables kind.text ∧ Engine.supports true kind = some true := by
  cases kind with
  | captureIndex => exact ⟨.unnamed, rfl⟩
  | captureName startsWithP name =>
      cases startsWithP with
      | true => cases allowed
      | false =>
          simp only [groupable] at allowed
          split at allowed
          next isName =>
            refine ⟨.named ?_, rfl⟩
            cases name with
            | nil => cases isName
            | cons first others =>
                simp only [Tables.groupName, Bool.and_eq_true, Bool.or_eq_true, beq_iff_eq, List.all_eq_true] at isName
                constructor
                · rcases isName.1 with starts | isUnderscore
                  · exact .inl starts
                  · exact .inr (by simp [isUnderscore])
                · exact fun character member => .inl (isName.2 character member)
          next => cases allowed
  | nonCapturing flags =>
      cases flags with
      | nil => exact ⟨.nonCapturing, rfl⟩
      | cons => cases allowed

variable (properties) in
theorem assertion_reads {offset : Nat} {replacements : List Replacement} {kind : AssertionKind}
    (isVisit : assertion offset kind = .ok replacements) :
    ∃ holds, Engine.reads properties true (rewrite (.assertion kind)) = some (.stands holds) ∧
      Ecma.Assertion kind.text holds := by
  cases kind with
  | startLine => exact ⟨_, rfl, .start⟩
  | endLine => exact ⟨_, rfl, .stop⟩
  | wordBoundary => exact ⟨_, rfl, .boundary⟩
  | notWordBoundary => exact ⟨_, rfl, .notBoundary⟩
  | _ => cases isVisit

/-- A character outside a class that is not refused is one to ECMA-262. -/
theorem literal_reads_outside {offset : Nat} {replacements : List Replacement} {written : Literal}
    (outside : written.Outside) (isVisit : literal source offset written false = .ok replacements)
    (follows : source.drop (offset + written.text.length) = rest) :
    Ecma.Atom tables properties written.text rest (.one (· = written.c)) := by
  by_cases isVerbatim : written.kind = .verbatim
  · have spelled := written.spelled
    rw [isVerbatim] at spelled
    rw [read_verbatim spelled]
    apply Ecma.Atom.patternCharacter
    have allowed := escape_of_not_octal (by rw [isVerbatim]; exact nofun) isVisit
    simp only [literalEscape, isVerbatim] at allowed
    split at allowed
    next isClosing => cases isClosing.1
    next =>
      split at allowed
      next => cases allowed
      next notBrace =>
        have outside := outside isVerbatim
        have split : Ecma.syntaxCharacters.Perm ("^$\\.*+?()[|".toList ++ [']', '{', '}']) := by decide
        intro isSyntax
        rcases List.mem_append.mp (split.mem_iff.mp isSyntax) with isOutside | isBrace
        · exact outside isOutside
        · exact notBrace ⟨rfl, isBrace⟩
  · obtain ⟨text, isText, escape⟩ := characterEscape_of_literal isVisit follows isVerbatim nofun
    rw [isText]
    exact .escape escape

mutual

/-- What ECMA-262 reads the text of a tree as, the engine reads the rewritten tree as. -/
theorem reads_of_visit (offset : Nat) (replacements : List Replacement) (rest : Text) : (ast : Ast) →
    ast.WellFormed → ast.Plain → visit tables source offset ast = .ok replacements →
    source.drop offset = ast.text ++ rest →
      ∃ regex, Engine.reads properties true (rewrite ast) = some regex ∧
        Understood tables properties ast rest regex
  | .empty, _, _, _, _ => ⟨_, rfl, [], .empty, rfl⟩
  | .flags _, _, _, isVisit, _ => by cases isVisit
  | .literal written, wellFormed, _, isVisit, follows => by
      refine ⟨.one (· = written.c), ?_, literal_reads_outside wellFormed isVisit (drop_of_append follows)⟩
      rw [rewrite, Engine.reads, character_rewriteLiteral isVisit]
      rfl
  | .dot, _, _, _, _ => by
      refine ⟨.one fun character => ¬ Ecma.IsLineTerminator character, ?_, .dot⟩
      rw [rewrite, Engine.reads]
      exact (Option.map_map _ _ _).symm.trans (congrArg (Option.map Regex.one) (dotSet_admits true))
  | .assertion kind, _, _, isVisit, _ => by
      obtain ⟨holds, isRead, isAssertion⟩ := assertion_reads properties isVisit
      exact ⟨.stands holds, isRead, .assertion isAssertion⟩
  | .classUnicode unicode, _, _, isVisit, _ => by
      cases allowed : unicodeClass tables unicode with
      | error reason =>
          rw [visit, allowed] at isVisit
          cases isVisit
      | ok =>
          obtain ⟨text, admits, isText, escape, isRead⟩ := unicode_reads properties allowed
          refine ⟨.one admits, by rw [rewrite, Engine.reads, isRead]; rfl, ?_⟩
          change Ecma.Atom tables properties unicode.text rest (.one admits)
          rw [isText]
          exact .inner escape
  | .classPerl class', _, _, _, _ => by
      obtain ⟨text, isText, escape⟩ := perl_reads tables properties class'
      refine ⟨.one (Complemented class'.negated (ecmaPerl class'.kind)), ?_, ?_⟩
      · rw [rewrite, Engine.reads, perlSet_admits]
        rfl
      · change Ecma.Atom tables properties class'.text rest _
        rw [isText]
        exact .inner escape
  | .classBracketed negated kind, wellFormed, plain, isVisit, follows => by
      rw [Ast.text, List.append_assoc, List.append_assoc] at follows
      have inner := drop_of_append follows
      obtain ⟨members, isRead, ranges⟩ := set_reads properties wellFormed.1 plain isVisit inner
      refine ⟨.one (Complemented negated (Among members)), ?_, .characterClass negated wellFormed.2 ranges⟩
      rw [rewrite, Engine.reads, isRead]
      rfl
  | .repetition kind greedy ast, wellFormed, plain, isVisit, follows => by
      obtain ⟨_, allowed, isVisit⟩ := bind_eq_ok_iff.mp isVisit
      rw [Ast.text, List.append_assoc] at follows
      obtain ⟨regex, isRead, understood⟩ :=
        reads_of_visit offset replacements _ ast wellFormed.2.2 plain.2 isVisit follows
      refine ⟨.repeated (Engine.bounds kind).1 (Engine.bounds kind).2 regex, ?_, ?_⟩
      · rw [rewrite, Engine.reads, isRead]
        rfl
      · exact .quantified greedy (understood.atom wellFormed.2.1 allowed isVisit)
          (quantifier_reads wellFormed.1 plain.1)
  | .group kind ast, wellFormed, plain, isVisit, follows => by
      obtain ⟨_, allowed, isVisit⟩ := bind_eq_ok_iff.mp isVisit
      obtain ⟨isSpecifier, isSupported⟩ := group_reads allowed
      rw [Ast.text, List.append_assoc, List.append_assoc] at follows
      have inner := drop_of_append follows
      obtain ⟨regex, isRead, understood⟩ := reads_of_visit _ replacements _ ast wellFormed plain isVisit inner
      obtain ⟨regexes, disjunction, rfl⟩ := understood.disjunction
      refine ⟨.choice regexes, ?_, .group isSpecifier disjunction⟩
      rw [rewrite, Engine.reads, isSupported]
      exact isRead
  | .alternation asts, wellFormed, plain, isVisit, follows => by
      obtain ⟨regexes, areRead, disjunction⟩ :=
        disjunction_of_visit offset replacements rest asts wellFormed.1 wellFormed.2 plain isVisit follows
      refine ⟨.choice regexes, ?_, regexes, disjunction, rfl⟩
      rw [rewrite, Engine.reads, areRead]
      rfl
  | .concat asts, wellFormed, plain, isVisit, follows => by
      obtain ⟨regexes, areRead, alternative⟩ :=
        alternative_of_visit offset replacements rest asts wellFormed plain isVisit follows [] [] .empty
      refine ⟨.sequence regexes, ?_, regexes, alternative, rfl⟩
      rw [rewrite, Engine.reads, areRead]
      rfl

/-- Terms after those of an alternative are read as one alternative with them. -/
theorem alternative_of_visit (offset : Nat) (replacements : List Replacement) (rest : Text) : (asts : List Ast) →
    TermsWellFormed asts → AllPlain asts → visitConcat tables source offset asts = .ok replacements →
    source.drop offset = concatText asts ++ rest → (earlier : Text) → (terms : List (Regex Char)) →
    Ecma.Alternative tables properties earlier (concatText asts ++ rest) terms →
      ∃ regexes, Engine.readsAll properties true (rewriteAll asts) = some regexes ∧
        Ecma.Alternative tables properties (earlier ++ concatText asts) rest (terms ++ regexes)
  | [], _, _, _, _, earlier, terms, alternative => by
      refine ⟨[], rfl, ?_⟩
      rw [concatText, List.append_nil, List.append_nil]
      exact alternative
  | ast :: asts, wellFormed, plain, isVisit, follows, earlier, terms, alternative => by
      obtain ⟨first, isFirst, isVisit⟩ := bind_eq_ok_iff.mp isVisit
      obtain ⟨more, isMore, -⟩ := bind_eq_ok_iff.mp isVisit
      rw [concatText, List.append_assoc] at follows alternative
      obtain ⟨regex, isRead, understood⟩ :=
        reads_of_visit offset first _ ast wellFormed.1.2 plain.1 isFirst follows
      obtain ⟨regexes, areRead, alternative⟩ :=
        alternative_of_visit _ more rest asts wellFormed.2 plain.2 isMore (drop_of_append follows) _ _
          (alternative.concat (understood.term wellFormed.1.1))
      refine ⟨regex :: regexes, ?_, ?_⟩
      · rw [rewriteAll, Engine.readsAll, isRead, areRead]
        rfl
      · rwa [List.append_assoc, List.append_assoc] at alternative

theorem disjunction_of_visit (offset : Nat) (replacements : List Replacement) (rest : Text) : (asts : List Ast) →
    asts ≠ [] → AlternativesWellFormed asts → AllPlain asts →
    visitAlternation tables source offset asts = .ok replacements →
    source.drop offset = alternationText asts ++ rest →
      ∃ regexes, Engine.readsAll properties true (rewriteAll asts) = some regexes ∧
        Ecma.Disjunction tables properties (alternationText asts) rest regexes
  | [], some', _, _, _, _ => absurd rfl some'
  | [ast], _, wellFormed, plain, isVisit, follows => by
      obtain ⟨first, isFirst, -⟩ := bind_eq_ok_iff.mp isVisit
      obtain ⟨regex, isRead, understood⟩ :=
        reads_of_visit offset first rest ast wellFormed.1.2 plain.1 isFirst follows
      obtain ⟨terms, alternative, rfl⟩ := understood.alternative wellFormed.1.1
      refine ⟨[.sequence terms], ?_, .last alternative⟩
      rw [rewriteAll, Engine.readsAll, isRead]
      rfl
  | ast :: other :: asts, _, wellFormed, plain, isVisit, follows => by
      obtain ⟨first, isFirst, isVisit⟩ := bind_eq_ok_iff.mp isVisit
      obtain ⟨more, isMore, -⟩ := bind_eq_ok_iff.mp isVisit
      rw [alternationText, List.append_assoc] at follows
      obtain ⟨regex, isRead, understood⟩ :=
        reads_of_visit offset first _ ast wellFormed.1.2 plain.1 isFirst follows
      have after := drop_of_append follows
      have others : source.drop (offset + ast.text.length + 1) = alternationText (other :: asts) ++ rest := by
        rw [← List.drop_drop, after]
        rfl
      obtain ⟨terms, alternative, rfl⟩ := understood.alternative wellFormed.1.1
      obtain ⟨regexes, areRead, disjunction⟩ :=
        disjunction_of_visit _ more rest (other :: asts) (List.cons_ne_nil other asts) wellFormed.2 plain.2 isMore
          others
      refine ⟨.sequence terms :: regexes, ?_, ?_⟩
      · rw [rewriteAll, Engine.readsAll, isRead, areRead]
        rfl
      · exact .more alternative disjunction

end

/-! ## Rewritten trees -/

theorem rewriteLiteral_outside {written : Literal} (outside : written.Outside) : (rewriteLiteral written).Outside := by
  rw [rewriteLiteral]
  split
  next =>
    intro isVerbatim
    cases isVerbatim
  next => exact outside

theorem rewriteLiteral_inside {written : Literal} (inside : written.Inside) : (rewriteLiteral written).Inside := by
  rw [rewriteLiteral]
  split
  next =>
    intro isVerbatim
    cases isVerbatim
  next => exact inside

theorem rewriteLiteral_isDash {written : Literal} (noDash : written.isDash = false) :
    (rewriteLiteral written).isDash = false := by
  rw [rewriteLiteral]
  split
  next => rfl
  next => exact noDash

theorem rewriteLiteral_c {offset : Nat} {inClass : Bool} {replacements : List Replacement} {written : Literal}
    (isVisit : literal source offset written inClass = .ok replacements) : (rewriteLiteral written).c = written.c := by
  have isCharacter := character_rewriteLiteral isVisit
  rw [Engine.character] at isCharacter
  split at isCharacter
  next => cases isCharacter
  next => exact Option.some.inj isCharacter

theorem Literal.text_ne_nil (written : Literal) : written.text ≠ [] := by
  intro isNil
  have spelled := written.spelled
  rw [isNil] at spelled
  cases kind : written.kind <;> rw [kind] at spelled <;> cases spelled

theorem rewriteLiteral_head {written : Literal} (starts : (rewriteLiteral written).text.head? = some '^') :
    written.text.head? = some '^' := by
  rw [rewriteLiteral] at starts
  split at starts
  next => cases starts
  next => exact starts

/-- A rewritten part of a class is one still, and begins with no `^` unless it did. -/
theorem rewriteItem_isPart {offset : Nat} {replacements : List Replacement} {item : ClassSetItem}
    (isPart : item.IsPart) (isVisit : visitClassSetItem tables source offset item = .ok replacements) :
    (rewriteItem item).IsPart ∧ (rewriteItem item).text ≠ [] ∧ item.text ≠ [] ∧
      ((rewriteItem item).text.head? = some '^' → item.text.head? = some '^') := by
  cases item with
  | literal written =>
      exact ⟨rewriteLiteral_inside isPart, (rewriteLiteral written).text_ne_nil, written.text_ne_nil,
        rewriteLiteral_head⟩
  | range start stop =>
      obtain ⟨first, isFirst, isVisit⟩ := bind_eq_ok_iff.mp isVisit
      obtain ⟨last, isLast, -⟩ := bind_eq_ok_iff.mp isVisit
      obtain ⟨insideStart, insideStop, noDash, ordered⟩ := isPart
      have ordered : (rewriteLiteral start).c ≤ (rewriteLiteral stop).c := by
        rw [rewriteLiteral_c isFirst, rewriteLiteral_c isLast]
        exact ordered
      refine ⟨⟨rewriteLiteral_inside insideStart, rewriteLiteral_inside insideStop, rewriteLiteral_isDash noDash,
        ordered⟩, by simp [rewriteItem, ClassSetItem.text], by simp [ClassSetItem.text], ?_⟩
      rw [rewriteItem, ClassSetItem.text, ClassSetItem.text,
        List.head?_append_of_ne_nil _ (rewriteLiteral start).text_ne_nil,
        List.head?_append_of_ne_nil _ start.text_ne_nil]
      exact rewriteLiteral_head
  | empty | union => cases isPart
  | ascii | bracketed => cases isVisit
  | unicode => exact ⟨isPart, nofun, nofun, id⟩
  | perl class' =>
      rcases class' with ⟨kind, negated⟩
      cases negated <;> cases kind <;> exact ⟨trivial, nofun, nofun, nofun⟩

theorem rewriteItems_areParts {offset : Nat} {replacements : List Replacement} {items : List ClassSetItem}
    (areParts : ∀ part ∈ items, part.IsPart) (isVisit : visitItems tables source offset items = .ok replacements) :
    (∀ part ∈ rewriteItems items, part.IsPart) ∧
      ((itemsText (rewriteItems items)).head? = some '^' → (itemsText items).head? = some '^') := by
  induction items generalizing offset replacements with
  | nil => exact ⟨nofun, nofun⟩
  | cons item items ih =>
      obtain ⟨first, isFirst, isVisit⟩ := bind_eq_ok_iff.mp isVisit
      obtain ⟨more, isMore, -⟩ := bind_eq_ok_iff.mp isVisit
      obtain ⟨isPart, areParts⟩ := List.forall_mem_cons.mp areParts
      obtain ⟨isPart, someRewritten, some', starts⟩ := rewriteItem_isPart isPart isFirst
      constructor
      · exact List.forall_mem_cons.mpr ⟨isPart, (ih areParts isMore).1⟩
      · rw [rewriteItems, itemsText, itemsText, List.head?_append_of_ne_nil _ someRewritten,
          List.head?_append_of_ne_nil _ some']
        exact starts

theorem rewriteSet_wellFormed {offset : Nat} {replacements : List Replacement} {set : ClassSet}
    (wellFormed : set.WellFormed) (isVisit : visitClassSet tables source offset set = .ok replacements) :
    (rewriteSet set).WellFormed ∧ ((rewriteSet set).text.head? = some '^' → set.text.head? = some '^') := by
  cases set with
  | binaryOp => cases isVisit
  | item inner =>
      cases inner with
      | empty => exact ⟨nofun, nofun⟩
      | union items => exact rewriteItems_areParts wellFormed isVisit
      | ascii | bracketed => cases isVisit
      | literal | range | unicode | perl =>
          rw [visitClassSet] at isVisit
          obtain ⟨isPart, -, -, starts⟩ := rewriteItem_isPart (wellFormed _ (List.mem_singleton_self _)) isVisit
          exact ⟨List.forall_mem_singleton.mpr isPart, starts⟩

theorem rewrite_isTerm (isTerm : ast.isTerm = true) : (rewrite ast).isTerm = true := by
  cases ast with
  | empty | alternation | concat => cases isTerm
  | assertion kind => cases kind <;> rfl
  | _ => rfl

theorem rewrite_isAlternative (isAlternative : ast.isAlternative = true) : (rewrite ast).isAlternative = true := by
  cases ast with
  | alternation => cases isAlternative
  | assertion kind => cases kind <;> rfl
  | _ => rfl

theorem perlSet_wellFormed (kind : ClassPerlKind) (negated : Bool) :
    (Ast.classBracketed negated (perlSet kind)).WellFormed := by
  constructor
  · cases kind <;>
      simp [perlSet, spaceItems, ClassSet.WellFormed, ClassSetItem.parts, ClassSetItem.IsPart, Literal.Inside,
        Literal.isDash, verbatim, special, hexFixed, hexBrace, SpecialLiteralKind.character]
  · intro _
    cases kind <;> exact nofun

theorem dotSet_wellFormed : (Ast.classBracketed true dotSet).WellFormed := by
  constructor
  · simp [dotSet, ClassSet.WellFormed, ClassSetItem.parts, ClassSetItem.IsPart, Literal.Inside, special, hexBrace,
      SpecialLiteralKind.character]
  · exact nofun

mutual

/-- A rewritten tree is one the parser may give. -/
theorem rewrite_wellFormed (offset : Nat) (replacements : List Replacement) : (ast : Ast) → ast.WellFormed →
    visit tables source offset ast = .ok replacements → (rewrite ast).WellFormed
  | .empty, _, _ => trivial
  | .flags _, _, _ => trivial
  | .literal _, wellFormed, _ => rewriteLiteral_outside wellFormed
  | .dot, _, _ => dotSet_wellFormed
  | .assertion kind, _, _ => by cases kind <;> trivial
  | .classUnicode _, _, _ => trivial
  | .classPerl class', _, _ => perlSet_wellFormed class'.kind class'.negated
  | .classBracketed negated kind, wellFormed, isVisit => by
      obtain ⟨areParts, starts⟩ := rewriteSet_wellFormed wellFormed.1 isVisit
      exact ⟨areParts, fun plain isCaret => wellFormed.2 plain (starts isCaret)⟩
  | .repetition kind greedy ast, wellFormed, isVisit => by
      obtain ⟨_, allowed, isVisit⟩ := bind_eq_ok_iff.mp isVisit
      exact ⟨wellFormed.1, rewrite_isTerm wellFormed.2.1, rewrite_wellFormed _ _ ast wellFormed.2.2 isVisit⟩
  | .group kind ast, wellFormed, isVisit => by
      obtain ⟨_, allowed, isVisit⟩ := bind_eq_ok_iff.mp isVisit
      exact rewrite_wellFormed _ _ ast wellFormed isVisit
  | .alternation asts, wellFormed, isVisit => by
      refine ⟨?_, rewriteAll_alternatives _ _ asts wellFormed.2 isVisit⟩
      cases asts with
      | nil => exact absurd rfl wellFormed.1
      | cons ast asts => exact nofun
  | .concat asts, wellFormed, isVisit => rewriteAll_terms _ _ asts wellFormed isVisit

theorem rewriteAll_terms (offset : Nat) (replacements : List Replacement) : (asts : List Ast) →
    TermsWellFormed asts → visitConcat tables source offset asts = .ok replacements → TermsWellFormed (rewriteAll asts)
  | [], _, _ => trivial
  | ast :: asts, wellFormed, isVisit => by
      obtain ⟨first, isFirst, isVisit⟩ := bind_eq_ok_iff.mp isVisit
      obtain ⟨more, isMore, -⟩ := bind_eq_ok_iff.mp isVisit
      exact ⟨⟨rewrite_isTerm wellFormed.1.1, rewrite_wellFormed _ _ ast wellFormed.1.2 isFirst⟩,
        rewriteAll_terms _ _ asts wellFormed.2 isMore⟩

theorem rewriteAll_alternatives (offset : Nat) (replacements : List Replacement) : (asts : List Ast) →
    AlternativesWellFormed asts → visitAlternation tables source offset asts = .ok replacements →
      AlternativesWellFormed (rewriteAll asts)
  | [], _, _ => trivial
  | ast :: asts, wellFormed, isVisit => by
      obtain ⟨first, isFirst, isVisit⟩ := bind_eq_ok_iff.mp isVisit
      obtain ⟨more, isMore, -⟩ := bind_eq_ok_iff.mp isVisit
      exact ⟨⟨rewrite_isAlternative wellFormed.1.1, rewrite_wellFormed _ _ ast wellFormed.1.2 isFirst⟩,
        rewriteAll_alternatives _ _ asts wellFormed.2 isMore⟩

end

/-- What is translated, ECMA-262 reads as a regular expression, and the engine reads the tree the
translation is written as as the same one. -/
theorem translated_reads {parse : Text → Except ParseError Ast} {compile : Text → Except Text Unit} {result : Text}
    (parses : ∀ ast, parse source = .ok ast → ast.text = source ∧ ast.WellFormed ∧ ast.Plain)
    (isTranslated : translated tables parse compile source = .ok result) :
    ∃ ast regex, parse source = .ok ast ∧ result = (rewrite ast).text ∧ (rewrite ast).WellFormed ∧
      Engine.reads properties true (rewrite ast) = some regex ∧ Ecma.Reads tables properties source regex := by
  cases isParse : parse source with
  | error error =>
      rw [translated, isParse] at isTranslated
      cases isTranslated
  | ok ast =>
      obtain ⟨written, wellFormed, plain⟩ := parses ast isParse
      have isResult := translated_eq isParse written isTranslated
      rw [translated, isParse] at isTranslated
      obtain ⟨_, isAst, isTranslated⟩ := bind_eq_ok_iff.mp isTranslated
      cases isAst
      obtain ⟨replacements, isVisit, -⟩ := bind_eq_ok_iff.mp isTranslated
      have follows : source.drop 0 = ast.text ++ [] := by rw [written, List.append_nil, List.drop_zero]
      obtain ⟨regex, isRead, understood⟩ := reads_of_visit 0 replacements [] ast wellFormed plain isVisit follows
      obtain ⟨regexes, disjunction, isChoice⟩ := understood.disjunction
      rw [written] at disjunction
      exact ⟨ast, regex, rfl, isResult, rewrite_wellFormed 0 replacements ast wellFormed isVisit, isRead, regexes,
        disjunction, isChoice⟩

end Trees

/-- A class of digits and dashes, repeated, a word boundary, any character and a NUL. -/
def sample : Ast :=
  .concat [.assertion .startLine,
    .repetition .oneOrMore true
      (.classBracketed false (.item (.union [.perl ⟨.digit, false⟩, .literal (verbatim '-')]))),
    .assertion .wordBoundary, .dot, .literal ⟨.octal, Char.ofNat 0, ['\\', '0'], read_nul⟩, .assertion .endLine]

def noTables : Tables :=
  ⟨fun _ => false, fun _ => false, fun _ => false, fun _ => false, fun _ => false⟩

def noProperties : Properties :=
  ⟨fun _ _ => False, fun _ _ _ => False, fun _ _ => False⟩

theorem translated_reads_sample :
    ∃ ast regex, (Except.ok sample : Except ParseError Ast) = .ok ast ∧
      "^[[0-9]-]+(?-u:\\b)[^\\n\\r\\x\x7b2028\x7d\\x\x7b2029\x7d]\\x00$".toList = (rewrite ast).text ∧
      (rewrite ast).WellFormed ∧ Engine.reads noProperties true (rewrite ast) = some regex ∧
      Ecma.Reads noTables noProperties "^[\\d-]+\\b.\\0$".toList regex := by
  have parses : ∀ ast, (Except.ok sample : Except ParseError Ast) = .ok ast →
      ast.text = "^[\\d-]+\\b.\\0$".toList ∧ ast.WellFormed ∧ ast.Plain := by
    rintro _ ⟨⟩
    refine ⟨rfl, ?_, ?_⟩
    · simp [sample, Ast.WellFormed, TermsWellFormed, RepetitionKind.WellFormed, ClassSet.WellFormed,
        ClassSetItem.parts, ClassSetItem.IsPart, Literal.Inside, Literal.Outside, Ast.isTerm, verbatim]
      exact nofun
    · simp [sample, Ast.Plain, AllPlain, RepetitionKind.Plain, ClassSet.Plain, ClassSetItem.parts, dashesFit]
  have isTranslated : translated noTables (fun _ => .ok sample) (fun _ => .ok ()) "^[\\d-]+\\b.\\0$".toList =
      .ok "^[[0-9]-]+(?-u:\\b)[^\\n\\r\\x\x7b2028\x7d\\x\x7b2029\x7d]\\x00$".toList := by
    decide +kernel
  exact translated_reads parses isTranslated

end Kynos.Pattern
