import Kynos.Http.Quality
import Kynos.Http.Lists
import Kynos.Word.Quoted

/-!
# Reading `Accept`

The field is split at its commas, each element at its semicolons, and each
parameter at its equals sign, the first two outside quoted strings only.
-/

namespace Kynos.Negotiate

open Kynos.Word Kynos.Http

/-- A media range of the field, its weight in thousandths, and its place among
the elements of the list. -/
structure Preference where
  type_ : Text
  subtype : Text
  quality : Nat
  order : Nat
  deriving DecidableEq, Repr

/-- Why a field is refused. -/
inductive NegotiationRejection where
  | malformedAccept (detail : Text)
  deriving DecidableEq, Repr

def invalidAccept : NegotiationRejection :=
  .malformedAccept "expected comma-separated media ranges with q values from 0 to 1".toList

/-- The pieces of a text between delimiters outside any quoted string, `quoted`
and `escaped` being what was read of the first of them. -/
def unquotedPieces (delimiter : Char) (quoted escaped : Bool) : Text → List Text
  | [] => [[]]
  | letter :: rest =>
      if escaped then
        (unquotedPieces delimiter quoted false rest).modifyHead (letter :: ·)
      else if quoted ∧ letter = '\\' then
        (unquotedPieces delimiter quoted true rest).modifyHead (letter :: ·)
      else if letter = '"' then
        (unquotedPieces delimiter (!quoted) false rest).modifyHead (letter :: ·)
      else if !quoted ∧ letter = delimiter then
        [] :: unquotedPieces delimiter false false rest
      else
        (unquotedPieces delimiter quoted false rest).modifyHead (letter :: ·)

/-- `unquoted_split`. -/
def unquotedSplit (delimiter : Char) (text : Text) : List Text :=
  unquotedPieces delimiter false false text

/-- One element of the list, trimmed. -/
def parseItem (order : Nat) (item : Text) : Except NegotiationRejection Preference :=
  let segments := unquotedSplit ';' item
  match splitOnce '/' (Text.trim (segments.headD [])) with
  | none => .error invalidAccept
  | some (type_, subtype) =>
      if type_.isEmpty ∨ subtype.isEmpty ∨ (type_ = ['*'] ∧ subtype ≠ ['*']) then
        .error invalidAccept
      else
        match Quality.weight segments.tail with
        | none => .error invalidAccept
        | some quality =>
            .ok ⟨Text.toAsciiLowercase type_, Text.toAsciiLowercase subtype, quality, order⟩

/-- The elements of the list from one on; empty ones are skipped. -/
def parseItems (order : Nat) : List Text → Except NegotiationRejection (List Preference)
  | [] => .ok []
  | item :: rest =>
      if (Text.trim item).isEmpty then
        parseItems (order + 1) rest
      else
        match parseItem order (Text.trim item) with
        | .error rejection => .error rejection
        | .ok preference => (parseItems (order + 1) rest).map (preference :: ·)

/-- `Accept::parse`. -/
def parse (value : Text) : Except NegotiationRejection (List Preference) :=
  parseItems 0 (unquotedSplit ',' value)

/-! ## The splitter -/

theorem quote_ne_backslash : '"' ≠ '\\' := by decide

theorem semicolon_ne_quote : ';' ≠ '"' := by decide

theorem semicolon_ne_backslash : ';' ≠ '\\' := by decide

/-- Quoted strings that hide a delimiter. -/
def quoting (delimiter : Char) (notQuote : delimiter ≠ '"') (notEscape : delimiter ≠ '\\') :
    Quoting Char where
  quote := '"'
  escape := '\\'
  separator := delimiter
  quote_ne_escape := quote_ne_backslash
  separator_ne_quote := notQuote
  separator_ne_escape := notEscape

def commas : Quoting Char :=
  quoting ',' (by decide) (by decide)

def semicolons : Quoting Char :=
  quoting ';' semicolon_ne_quote semicolon_ne_backslash

theorem unquotedPieces_eq_scan {delimiter : Char} (notQuote : delimiter ≠ '"')
    (notEscape : delimiter ≠ '\\') (quoted escaped : Bool) (text : Text) :
    unquotedPieces delimiter quoted escaped text =
      scan (quoting delimiter notQuote notEscape).step (false, false) (quoted, escaped) text := by
  induction text generalizing quoted escaped with
  | nil => rfl
  | cons letter rest ih =>
      rw [unquotedPieces]
      simp only [ih]
      split_ifs with isEscaped isEscape isQuote isDelimiter
      · have reads : (quoting delimiter notQuote notEscape).step (quoted, escaped) letter =
            some (quoted, false) := by
          simp [Quoting.step, isEscaped]
        rw [scan_cons_of_some reads]
      · have reads : (quoting delimiter notQuote notEscape).step (quoted, escaped) letter =
            some (quoted, true) := by
          simp [Quoting.step, quoting, isEscaped, isEscape.1, isEscape.2]
        rw [scan_cons_of_some reads]
      · have reads : (quoting delimiter notQuote notEscape).step (quoted, escaped) letter =
            some (!quoted, false) := by
          simp [Quoting.step, quoting, isEscaped, isQuote]
        rw [scan_cons_of_some reads]
      · have stops : (quoting delimiter notQuote notEscape).step (quoted, escaped) letter = none := by
          rw [Bool.not_eq_true'] at isDelimiter
          simp [Quoting.step, quoting, isEscaped, isDelimiter.1, isDelimiter.2, notQuote]
        rw [scan_cons_of_none stops]
      · have reads : (quoting delimiter notQuote notEscape).step (quoted, escaped) letter =
            some (quoted, false) := by
          rw [Bool.not_eq_true'] at isDelimiter
          simp [Quoting.step, quoting, isEscaped, isEscape, isQuote]
          exact fun unquoted isDelimiter' => isDelimiter ⟨unquoted, isDelimiter'⟩
        rw [scan_cons_of_some reads]

theorem unquotedSplit_comma (text : Text) : unquotedSplit ',' text = commas.split text :=
  unquotedPieces_eq_scan (by decide) (by decide) false false text

theorem unquotedSplit_semicolon (text : Text) : unquotedSplit ';' text = semicolons.split text :=
  unquotedPieces_eq_scan (by decide) (by decide) false false text

/-! ## Trimming -/

theorem trim_trim (text : Text) : Text.trim (Text.trim text) = Text.trim text :=
  trimBy_trimBy _ _

theorem weightFrom_map_trim (quality : Nat) (parameters : List Text) :
    Quality.weightFrom quality (parameters.map Text.trim) = Quality.weightFrom quality parameters := by
  induction parameters generalizing quality with
  | nil => rfl
  | cons parameter rest ih => simp only [List.map_cons, Quality.weightFrom, trim_trim, ih]

/-- An element as its trimmed segments. -/
def readWords (order : Nat) (words : List Text) : Except NegotiationRejection Preference :=
  match splitOnce '/' (words.headD []) with
  | none => .error invalidAccept
  | some (type_, subtype) =>
      if type_.isEmpty ∨ subtype.isEmpty ∨ (type_ = ['*'] ∧ subtype ≠ ['*']) then
        .error invalidAccept
      else
        match Quality.weight words.tail with
        | none => .error invalidAccept
        | some quality =>
            .ok ⟨Text.toAsciiLowercase type_, Text.toAsciiLowercase subtype, quality, order⟩

theorem parseItem_eq_readWords (order : Nat) (item : Text) :
    parseItem order item = readWords order ((semicolons.split item).map Text.trim) := by
  have head : ∀ segments : List Text,
      (segments.map Text.trim).headD [] = Text.trim (segments.headD []) := fun segments => by
    cases segments <;> rfl
  simp only [parseItem, readWords, unquotedSplit_semicolon, head, ← List.map_tail,
    Quality.weight, weightFrom_map_trim]

/-- Trimming an element first changes none of its trimmed segments. -/
theorem map_trim_split_trim (item : Text) :
    (semicolons.split (Text.trim item)).map Text.trim = (semicolons.split item).map Text.trim := by
  refine map_trimBy_scan_trimBy (fun state letter blank => ?_) (fun letter blank => ?_) item
  · have notSemicolon : letter ≠ ';' := by
      rintro rfl
      cases blank
    unfold Quoting.step
    simp only [semicolons, quoting, notSemicolon, and_false, if_false]
    split_ifs <;> simp
  · have notSemicolon : letter ≠ ';' := by
      rintro rfl
      cases blank
    have notQuote : letter ≠ '"' := by
      rintro rfl
      cases blank
    simp [Quoting.step, semicolons, quoting, notSemicolon, notQuote]

theorem parseItem_trim (order : Nat) (item : Text) :
    parseItem order (Text.trim item) = readWords order ((semicolons.split item).map Text.trim) := by
  rw [parseItem_eq_readWords, map_trim_split_trim]

end Kynos.Negotiate
