import Kynos.Pattern.Translate
import Kynos.Run.Traced

/-!
# Rewriting trees

The tree that a translation is written as: some leaves of the pattern's tree become
classes, groups or other literals, and all else stays. Splicing the replacements into
the pattern writes that tree.
-/

namespace Kynos.Pattern

open Kynos.Word Kynos.Run

/-! ## Rewriting -/

def verbatim (c : Char) : Literal :=
  ⟨.verbatim, c, [c], rfl⟩

def special (kind : SpecialLiteralKind) : Literal :=
  ⟨.special kind, kind.character, ['\\', kind.letter], if_pos rfl⟩

/-- A character as two hexadecimal digits. -/
def hexFixed (digits : Text) (c : Char) (two : digits.length = 2) (isCode : codePoint 16 digits = some c) : Literal :=
  ⟨.hexFixed .x, c, '\\' :: 'x' :: digits, (if_pos ⟨rfl, two⟩).trans isCode⟩

/-- A character as hexadecimal digits in braces. -/
def hexBrace (digits : Text) (c : Char) (isCode : codePoint 16 digits = some c) : Literal where
  kind := .hexBrace .x
  c := c
  text := '\\' :: 'x' :: '{' :: digits ++ ['}']
  spelled := by simpa [LiteralKind.read, HexLiteralKind.letter] using isCode

/-- `NUL`. -/
def nulLiteral : Literal := hexFixed ['0', '0'] (Char.ofNat 0) rfl rfl

def spaceItems : List ClassSetItem :=
  [.literal (special .tab), .literal (special .lineFeed), .literal (hexFixed ['0', 'B'] (Char.ofNat 0x0b) rfl rfl),
    .literal (hexFixed ['0', 'C'] (Char.ofNat 0x0c) rfl rfl), .literal (special .carriageReturn),
    .literal (verbatim ' '), .literal (hexFixed ['A', '0'] (Char.ofNat 0xa0) rfl rfl),
    .literal (hexBrace "1680".toList (Char.ofNat 0x1680) rfl),
    .range (hexBrace "2000".toList (Char.ofNat 0x2000) rfl) (hexBrace "200A".toList (Char.ofNat 0x200a) rfl),
    .literal (hexBrace "2028".toList (Char.ofNat 0x2028) rfl), .literal (hexBrace "2029".toList (Char.ofNat 0x2029) rfl),
    .literal (hexBrace "202F".toList (Char.ofNat 0x202f) rfl), .literal (hexBrace "205F".toList (Char.ofNat 0x205f) rfl),
    .literal (hexBrace "3000".toList (Char.ofNat 0x3000) rfl), .literal (hexBrace "FEFF".toList (Char.ofNat 0xfeff) rfl)]

/-- The class that stands for `\d`, `\s` or `\w`. -/
def perlSet : ClassPerlKind → ClassSet
  | .digit => .item (.range (verbatim '0') (verbatim '9'))
  | .word =>
      .item (.union [.range (verbatim '0') (verbatim '9'), .range (verbatim 'A') (verbatim 'Z'),
        .range (verbatim 'a') (verbatim 'z'), .literal (verbatim '_')])
  | .space => .item (.union spaceItems)

/-- The class that stands for `.`, but for its complement. -/
def dotSet : ClassSet :=
  .item (.union [.literal (special .lineFeed), .literal (special .carriageReturn),
    .literal (hexBrace "2028".toList (Char.ofNat 0x2028) rfl), .literal (hexBrace "2029".toList (Char.ofNat 0x2029) rfl)])

/-- An assertion without Unicode support. -/
def asciiOnly (kind : AssertionKind) : Ast :=
  .group (.nonCapturing [.negation, .flag 'u']) (.assertion kind)

def rewriteLiteral (literal : Literal) : Literal :=
  if literal.kind = .octal then nulLiteral else literal

mutual

def rewriteSet : ClassSet → ClassSet
  | .item item => .item (rewriteItem item)
  | .binaryOp kind lhs rhs => .binaryOp kind lhs rhs

def rewriteItem : ClassSetItem → ClassSetItem
  | .literal literal => .literal (rewriteLiteral literal)
  | .range start stop => .range (rewriteLiteral start) (rewriteLiteral stop)
  | .perl perl => .bracketed perl.negated (perlSet perl.kind)
  | .union items => .union (rewriteItems items)
  | .empty => .empty
  | .ascii text => .ascii text
  | .unicode unicode => .unicode unicode
  | .bracketed negated kind => .bracketed negated kind

def rewriteItems : List ClassSetItem → List ClassSetItem
  | [] => []
  | item :: items => rewriteItem item :: rewriteItems items

end

mutual

def rewrite : Ast → Ast
  | .literal literal => .literal (rewriteLiteral literal)
  | .dot => .classBracketed true dotSet
  | .assertion .wordBoundary => asciiOnly .wordBoundary
  | .assertion .notWordBoundary => asciiOnly .notWordBoundary
  | .classPerl perl => .classBracketed perl.negated (perlSet perl.kind)
  | .classBracketed negated kind => .classBracketed negated (rewriteSet kind)
  | .repetition kind greedy ast => .repetition kind greedy (rewrite ast)
  | .group kind ast => .group kind (rewrite ast)
  | .alternation asts => .alternation (rewriteAll asts)
  | .concat asts => .concat (rewriteAll asts)
  | .empty => .empty
  | .flags items => .flags items
  | .assertion kind => .assertion kind
  | .classUnicode unicode => .classUnicode unicode

def rewriteAll : List Ast → List Ast
  | [] => []
  | ast :: asts => rewrite ast :: rewriteAll asts

end

/-! ## The text of the translation -/

theorem perlText_eq (perl : ClassPerl) :
    opening perl.negated ++ (perlSet perl.kind).text ++ [']'] = perlText perl := by
  rcases perl with ⟨kind, negated⟩
  cases kind <;> cases negated <;> decide +kernel

theorem dotText_eq : opening true ++ dotSet.text ++ [']'] = dot := by
  decide +kernel

section Text

variable {tables : Tables} {source : Text} {replacements : List Replacement}

theorem Literal.replaced {offset : Nat} {written : Literal} {inClass : Bool}
    (isVisit : literal source offset written inClass = .ok replacements) :
    Replaced offset written.text replacements (rewriteLiteral written).text := by
  rw [literal] at isVisit
  split at isVisit
  next notOctal =>
    cases allowed : literalEscape written inClass with
    | error reason =>
        rw [allowed] at isVisit
        cases isVisit
    | ok =>
        rw [allowed] at isVisit
        cases isVisit
        rw [rewriteLiteral, if_neg notOctal]
        exact .kept offset written.text
  next isOctal =>
    simp only at isVisit
    split at isVisit
    next =>
      cases isVisit
      rw [rewriteLiteral, if_pos (not_not.mp isOctal)]
      exact .replaced offset written.text nul
    next =>
      split at isVisit
      next => cases isVisit
      next => split at isVisit <;> cases isVisit

theorem perl_replaced (offset : Nat) (class' : ClassPerl) :
    Replaced offset class'.text (perl offset class')
      (opening class'.negated ++ (perlSet class'.kind).text ++ [']']) := by
  rw [perlText_eq]
  exact .replaced offset class'.text (perlText class')

theorem ok_of_map {β : Type} {checked : Except Text β} {none : List Replacement}
    (isVisit : (checked.map fun _ => none) = .ok replacements) : replacements = none := by
  cases checked with
  | error reason => cases isVisit
  | ok => exact (Except.ok.inj isVisit).symm

mutual

theorem visitClassSet_replaced (offset : Nat) (replacements : List Replacement) : (set : ClassSet) →
    visitClassSet tables source offset set = .ok replacements →
      Replaced offset set.text replacements (rewriteSet set).text
  | .item item, isVisit => visitClassSetItem_replaced offset replacements item isVisit
  | .binaryOp _ _ _, isVisit => by cases isVisit

theorem visitClassSetItem_replaced (offset : Nat) (replacements : List Replacement) : (item : ClassSetItem) →
    visitClassSetItem tables source offset item = .ok replacements →
      Replaced offset item.text replacements (rewriteItem item).text
  | .empty, isVisit => by
      cases isVisit
      exact .kept offset []
  | .union items, isVisit => visitItems_replaced offset replacements items isVisit
  | .literal _, isVisit => Literal.replaced isVisit
  | .range start stop, isVisit => by
      obtain ⟨first, isFirst, isVisit⟩ := bind_eq_ok_iff.mp isVisit
      obtain ⟨last, isLast, isVisit⟩ := bind_eq_ok_iff.mp isVisit
      cases isVisit
      exact (Literal.replaced isFirst).between ['-'] (Literal.replaced isLast)
  | .ascii _, isVisit => by cases isVisit
  | .unicode unicode, isVisit => by
      cases ok_of_map isVisit
      exact .kept offset unicode.text
  | .perl class', isVisit => by
      cases isVisit
      exact perl_replaced offset class'
  | .bracketed _ _, isVisit => by cases isVisit

theorem visitItems_replaced (offset : Nat) (replacements : List Replacement) : (items : List ClassSetItem) →
    visitItems tables source offset items = .ok replacements →
      Replaced offset (itemsText items) replacements (itemsText (rewriteItems items))
  | [], isVisit => by
      cases isVisit
      exact .kept offset []
  | item :: items, isVisit => by
      obtain ⟨first, isFirst, isVisit⟩ := bind_eq_ok_iff.mp isVisit
      obtain ⟨rest, isRest, isVisit⟩ := bind_eq_ok_iff.mp isVisit
      cases isVisit
      exact (visitClassSetItem_replaced offset first item isFirst).append
        (visitItems_replaced (offset + item.text.length) rest items isRest)

end

theorem assertion_replaced {offset : Nat} {kind : AssertionKind} (isVisit : assertion offset kind = .ok replacements) :
    Replaced offset kind.text replacements (rewrite (.assertion kind)).text := by
  cases kind with
  | startLine | endLine =>
      cases isVisit
      exact .kept offset _
  | wordBoundary =>
      cases isVisit
      exact .replaced offset _ _
  | notWordBoundary =>
      cases isVisit
      exact .replaced offset _ _
  | _ => cases isVisit

mutual

/-- What a visit replaces makes of a tree's text that of the rewritten tree. -/
theorem visit_replaced (offset : Nat) (replacements : List Replacement) : (ast : Ast) →
    visit tables source offset ast = .ok replacements → Replaced offset ast.text replacements (rewrite ast).text
  | .empty, isVisit => by
      cases isVisit
      exact .kept offset []
  | .flags _, isVisit => by cases isVisit
  | .literal _, isVisit => Literal.replaced isVisit
  | .dot, isVisit => by
      cases isVisit
      rw [rewrite, Ast.text, Ast.text, dotText_eq]
      exact .replaced offset Ast.dot.text dot
  | .assertion _, isVisit => assertion_replaced isVisit
  | .classUnicode unicode, isVisit => by
      cases ok_of_map isVisit
      exact .kept offset unicode.text
  | .classPerl class', isVisit => by
      cases isVisit
      exact perl_replaced offset class'
  | .classBracketed negated kind, isVisit => by
      rw [rewrite, Ast.text, Ast.text]
      exact (visitClassSet_replaced _ replacements kind isVisit).enclosed
  | .repetition kind greedy ast, isVisit => by
      obtain ⟨_, _, isVisit⟩ := bind_eq_ok_iff.mp isVisit
      have inner := visit_replaced offset replacements ast isVisit
      rw [rewrite, Ast.text, Ast.text, ← List.append_nil replacements]
      exact inner.append (.kept _ _)
  | .group kind ast, isVisit => by
      obtain ⟨_, _, isVisit⟩ := bind_eq_ok_iff.mp isVisit
      rw [rewrite, Ast.text, Ast.text]
      exact (visit_replaced _ replacements ast isVisit).enclosed
  | .alternation asts, isVisit => visitAlternation_replaced offset replacements asts isVisit
  | .concat asts, isVisit => visitConcat_replaced offset replacements asts isVisit

theorem visitConcat_replaced (offset : Nat) (replacements : List Replacement) : (asts : List Ast) →
    visitConcat tables source offset asts = .ok replacements →
      Replaced offset (concatText asts) replacements (concatText (rewriteAll asts))
  | [], isVisit => by
      cases isVisit
      exact .kept offset []
  | ast :: asts, isVisit => by
      obtain ⟨first, isFirst, isVisit⟩ := bind_eq_ok_iff.mp isVisit
      obtain ⟨rest, isRest, isVisit⟩ := bind_eq_ok_iff.mp isVisit
      cases isVisit
      exact (visit_replaced offset first ast isFirst).append
        (visitConcat_replaced (offset + ast.text.length) rest asts isRest)

theorem visitAlternation_replaced (offset : Nat) (replacements : List Replacement) : (asts : List Ast) →
    visitAlternation tables source offset asts = .ok replacements →
      Replaced offset (alternationText asts) replacements (alternationText (rewriteAll asts))
  | [], isVisit => by
      cases isVisit
      exact .kept offset []
  | [ast], isVisit => by
      obtain ⟨first, isFirst, isVisit⟩ := bind_eq_ok_iff.mp isVisit
      obtain ⟨rest, isRest, isVisit⟩ := bind_eq_ok_iff.mp isVisit
      cases isRest
      cases isVisit
      rw [List.append_nil]
      exact visit_replaced offset first ast isFirst
  | ast :: other :: asts, isVisit => by
      obtain ⟨first, isFirst, isVisit⟩ := bind_eq_ok_iff.mp isVisit
      obtain ⟨rest, isRest, isVisit⟩ := bind_eq_ok_iff.mp isVisit
      cases isVisit
      exact (visit_replaced offset first ast isFirst).between ['|']
        (visitAlternation_replaced (offset + ast.text.length + 1) rest (other :: asts) isRest)

end

/-- The translation is what the rewritten tree is written as. -/
theorem translated_eq {parse : Text → Except ParseError Ast} {compile : Text → Except Text Unit} {ast : Ast}
    {result : Text} (isParse : parse source = .ok ast) (written : ast.text = source)
    (isTranslated : translated tables parse compile source = .ok result) : result = (rewrite ast).text := by
  rw [translated, isParse] at isTranslated
  obtain ⟨_, isAst, isTranslated⟩ := bind_eq_ok_iff.mp isTranslated
  cases isAst
  obtain ⟨replacements, isVisit, isTranslated⟩ := bind_eq_ok_iff.mp isTranslated
  obtain ⟨_, -, isTranslated⟩ := bind_eq_ok_iff.mp isTranslated
  cases isTranslated
  have replaced := visit_replaced 0 replacements ast isVisit
  rw [written] at replaced
  rw [sorted, replaced.pairwise.insertionSort_eq, replaced.spliceFrom_eq]

end Text

end Kynos.Pattern
