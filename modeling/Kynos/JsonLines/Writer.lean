import Kynos.JsonLines.Chunks
import Kynos.Text.Utf8
import Kynos.Word.Padded

/-!
# Streamed JSON, written and read back

The writer puts each JSON text between a prefix and a newline. A body written
so is cut where the texts were joined, and each text is read back as it was
written, where the limit leaves room for what the framing holds with it.
-/

namespace Kynos.JsonLines

open Kynos.Http
open Kynos.Word
open Document

universe u v

/-- How items are serialized: each that can be, as a JSON text, which is never
empty and has no white space around it. -/
structure Serializer (T : Type u) where
  toWriter : T → Option Octets
  nonempty : ∀ item text, toWriter item = some text → text ≠ []
  solid : ∀ item text, toWriter item = some text → Octets.trimAscii text = text

variable {T : Type u} {V : Type v}

/-- What is written in front of an item. -/
def Framing.writtenPrefix : Framing → Octets
  | .lines => []
  | .sequence => [recordSeparator]

/-- The newline written after an item. -/
def newline : Octets :=
  [10]

/-- `encode`: one item in its frame. -/
def encode (serializer : Serializer T) (item : T) (lead suffix : Octets) : Option Octets :=
  (serializer.toWriter item).map fun text => lead ++ text ++ suffix

/-- The body of items that can all be serialized. -/
def write (serializer : Serializer T) (framing : Framing) (items : List T) : Option Octets :=
  (items.mapM fun item => encode serializer item framing.writtenPrefix newline).map List.flatten

/-- The newline an item is held with until the next one begins. -/
def Framing.heldSuffix : Framing → Octets
  | .lines => []
  | .sequence => newline

/-- A reader of records that takes them as they are. -/
def verbatim : Document Octets where
  fromSlice := .ok
  violations _ _ := []
  constraintType := none

/-! ## Reading pieces that all fit -/

/-- Pieces within the limit are read in order, the blank ones left out. -/
theorem readPieces_of_fits (document : Document V) {limit : Nat} {pieces : List Octets}
    (fits : ∀ piece ∈ pieces, piece.length ≤ limit)
    (goes : ∀ piece ∈ pieces, Octets.trimAscii piece ≠ [] →
      document.ends (Octets.trimAscii piece) = false) (index : Nat) :
    document.readPieces limit none index pieces =
      ((pieces.map Octets.trimAscii).filter (· ≠ [])).mapIdx fun position record =>
        document.read (index + position) record := by
  fun_induction readPieces document limit none index pieces with
  | case1 index => rfl
  | case2 index piece =>
      rw [readLast.eq_def, if_neg (Nat.not_lt.mpr (fits piece List.mem_cons_self))]
      by_cases blank : Octets.trimAscii piece = [] <;> simp [blank]
  | case3 index piece next rest large =>
      exact absurd (fits piece List.mem_cons_self) (Nat.not_le.mpr large)
  | case4 index piece next rest within blank ih =>
      have later := ih (fun other member => fits other (List.mem_cons_of_mem _ member))
        fun other member => goes other (List.mem_cons_of_mem _ member)
      rw [later]
      simp [blank]
  | case5 index piece next rest within present ih =>
      have later := ih (fun other member => fits other (List.mem_cons_of_mem _ member))
        fun other member => goes other (List.mem_cons_of_mem _ member)
      have going : ¬ document.ends (Octets.trimAscii piece) = true := by
        simp [goes piece List.mem_cons_self present]
      rw [if_neg going, later]
      simp [present, Nat.add_assoc, Nat.add_comm 1]

/-! ## What is written -/

/-- The texts of items, each in its frame. -/
def framed (framing : Framing) (texts : List Octets) : Octets :=
  (texts.map fun text => framing.writtenPrefix ++ text ++ newline).flatten

theorem write_eq {serializer : Serializer T} {items : List T} {texts : List Octets}
    (serialized : items.map serializer.toWriter = texts.map some) (framing : Framing) :
    write serializer framing items = some (framed framing texts) := by
  have each : items.mapM (fun item => encode serializer item framing.writtenPrefix newline) =
      some (texts.map fun text => framing.writtenPrefix ++ text ++ newline) := by
    induction items generalizing texts with
    | nil =>
        cases texts with
        | nil => rfl
        | cons text rest => cases serialized
    | cons item items ih =>
        cases texts with
        | nil => cases serialized
        | cons text rest =>
            rw [List.map_cons, List.map_cons, List.cons.injEq] at serialized
            rw [List.mapM_cons, encode, serialized.1, ih serialized.2]
            rfl
  rw [write, each, Option.map_some, framed]

/-- A text the writer can write: no raw control character, and no white space
around it. -/
structure Writable (text : Octets) : Prop where
  nonempty : text ≠ []
  solid : Octets.trimAscii text = text
  plain : ∀ octet ∈ text, 32 ≤ octet

theorem Writable.delimiter_notMem {text : Octets} (writable : Writable text) (framing : Framing) :
    framing.delimiter ∉ text := fun member => by
  have low := writable.plain _ member
  cases framing <;> exact absurd low (by decide)

/-- A newline after a text is trimmed. -/
theorem Writable.trimAscii_newline {text : Octets} (writable : Writable text) :
    Octets.trimAscii (text ++ newline) = text := by
  have solid : Solid Octets.isAsciiWhitespace text := by
    rw [← writable.solid]
    exact solid_trimBy _ _
  have trimmed := @trimBy_padded _ Octets.isAsciiWhitespace [] text newline (by simp)
    (List.all_eq_true.mp (by decide)) solid
  rwa [List.nil_append] at trimmed

theorem splitOn_lines {texts : List Octets} (writable : ∀ text ∈ texts, Writable text) :
    (framed .lines texts).splitOn 10 = texts ++ [[]] := by
  induction texts with
  | nil => rfl
  | cons text rest ih =>
      have later := ih fun other member => writable other (List.mem_cons_of_mem _ member)
      have plain : 10 ∉ text := (writable text List.mem_cons_self).delimiter_notMem .lines
      have cut : framed .lines (text :: rest) = text ++ 10 :: framed .lines rest := by
        simp [framed, Framing.writtenPrefix, newline]
      rw [cut, List.splitOn_append_cons_self_of_not_mem plain, later, List.cons_append]

theorem splitOn_sequence {text : Octets} {rest : List Octets}
    (writable : ∀ other ∈ text :: rest, Writable other) :
    (text ++ newline ++ framed .sequence rest).splitOn recordSeparator =
      (text :: rest).map (· ++ newline) := by
  have plain : ∀ other ∈ text :: rest, recordSeparator ∉ other ++ newline := by
    intro other member
    have notIn := (writable other member).delimiter_notMem .sequence
    exact List.not_mem_append notIn (by decide)
  induction rest generalizing text with
  | nil =>
      have alone : text ++ newline ++ framed .sequence [] = text ++ newline := by simp [framed]
      rw [alone, List.splitOn_eq_singleton (plain text List.mem_cons_self), List.map_singleton]
  | cons next rest ih =>
      have later := @ih next (fun other member => writable other (List.mem_cons_of_mem _ member))
        fun other member => plain other (List.mem_cons_of_mem _ member)
      have cut : framed .sequence (next :: rest) =
          recordSeparator :: (next ++ newline ++ framed .sequence rest) := by
        simp [framed, Framing.writtenPrefix]
      rw [cut, List.splitOn_append_cons_self_of_not_mem (plain text List.mem_cons_self), later]
      rfl

/-- Texts with what they are held with are read as the texts. -/
theorem readPieces_texts (document : Document V) (framing : Framing) {limit : Nat}
    {texts : List Octets} (writable : ∀ text ∈ texts, Writable text)
    (fits : ∀ text ∈ texts, text.length + framing.heldSuffix.length ≤ limit)
    (goes : ∀ text ∈ texts, document.ends text = false) {blanks : List Octets}
    (blank : ∀ piece ∈ blanks, piece = []) :
    document.readPieces limit none 0 (texts.map (· ++ framing.heldSuffix) ++ blanks) =
      texts.mapIdx document.read := by
  have trimmed : ∀ text ∈ texts, Octets.trimAscii (text ++ framing.heldSuffix) = text := by
    intro text member
    cases framing with
    | lines => rw [Framing.heldSuffix, List.append_nil, (writable text member).solid]
    | sequence => exact (writable text member).trimAscii_newline
  have records : ((texts.map (· ++ framing.heldSuffix) ++ blanks).map
      Octets.trimAscii).filter (· ≠ []) = texts := by
    have ofTexts : (texts.map (· ++ framing.heldSuffix)).map Octets.trimAscii = texts := by
      conv_rhs => rw [← List.map_id texts]
      rw [List.map_map]
      exact List.map_congr_left trimmed
    have ofBlanks : (blanks.map Octets.trimAscii).filter (· ≠ []) = [] := by
      rw [List.filter_eq_nil_iff]
      intro record member
      obtain ⟨piece, inBlanks, rfl⟩ := List.mem_map.mp member
      rw [blank piece inBlanks]
      decide
    have kept : texts.filter (· ≠ []) = texts :=
      List.filter_eq_self.mpr fun text member => decide_eq_true (writable text member).nonempty
    rw [List.map_append, ofTexts, List.filter_append, ofBlanks, kept, List.append_nil]
  rw [readPieces_of_fits document ?_ ?_ 0, records]
  · simp
  · intro piece member
    rcases List.mem_append.mp member with isText | inBlanks
    · obtain ⟨text, inTexts, rfl⟩ := List.mem_map.mp isText
      rw [List.length_append]
      exact fits text inTexts
    · rw [blank piece inBlanks]
      exact Nat.zero_le _
  · intro piece member present
    rcases List.mem_append.mp member with isText | inBlanks
    · obtain ⟨text, inTexts, rfl⟩ := List.mem_map.mp isText
      rw [trimmed text inTexts]
      exact goes text inTexts
    · exact absurd (by rw [blank piece inBlanks]; rfl) present

/-- A written body is read as its texts. -/
theorem readWhole_framed (document : Document V) (framing : Framing) {limit : Nat}
    {texts : List Octets} (writable : ∀ text ∈ texts, Writable text)
    (fits : ∀ text ∈ texts, text.length + framing.heldSuffix.length ≤ limit)
    (goes : ∀ text ∈ texts, document.ends text = false) :
    document.readWhole framing limit none 0 (framed framing texts) = texts.mapIdx document.read := by
  cases framing with
  | lines =>
      have pieces : (framed .lines texts).splitOn 10 =
          texts.map (· ++ Framing.lines.heldSuffix) ++ [[]] := by
        rw [splitOn_lines writable]
        simp [Framing.heldSuffix]
      have whole := @readWhole_lead _ document .lines limit 0 none (framed .lines texts)
      rw [Framing.lead, List.nil_append] at whole
      rw [whole, Framing.delimiter, pieces]
      exact readPieces_texts document .lines writable fits goes (by simp)
  | sequence =>
      cases texts with
      | nil => rfl
      | cons text rest =>
          have octets : framed .sequence (text :: rest) =
              Framing.sequence.lead ++ (text ++ newline ++ framed .sequence rest) := by
            simp [framed, Framing.writtenPrefix, Framing.lead]
          rw [octets, readWhole_lead, Framing.delimiter, splitOn_sequence writable,
            ← List.append_nil ((text :: rest).map _)]
          exact readPieces_texts document .sequence writable fits goes (by simp)

/-- What a serializer writes can be written, where it holds no raw control
character. -/
theorem Serializer.writable (serializer : Serializer T) {items : List T} {texts : List Octets}
    (serialized : items.map serializer.toWriter = texts.map some)
    (plain : ∀ text ∈ texts, ∀ octet ∈ text, 32 ≤ octet) : ∀ text ∈ texts, Writable text := by
  intro text member
  have written : some text ∈ items.map serializer.toWriter :=
    serialized ▸ List.mem_map_of_mem member
  obtain ⟨item, -, isText⟩ := List.mem_map.mp written
  exact ⟨serializer.nonempty item text isText, serializer.solid item text isText,
    plain text member⟩

/-- Chunking does not matter: however the octets of a body arrive, and whatever
cuts them short, a consumer reads one list, that of the whole body. A body the
writer produced for JSON texts without raw control characters, each within the
limit together with the newline a sequence holds it with, is read back as these
texts. -/
theorem chunking_does_not_matter (document : Document V) (framing : Framing) (limit : Nat)
    (serializer : Serializer T) :
    (∀ body other : List Arrival, arrived body = arrived other → ∃ items, ∀ read,
      (Yields document (.new limit framing) body read ↔ read = items) ∧
        (Yields document (.new limit framing) other read ↔ read = items)) ∧
    ∀ (items : List T) (texts : List Octets), items.map serializer.toWriter = texts.map some →
      (∀ text ∈ texts, ∀ octet ∈ text, 32 ≤ octet) →
      (∀ text ∈ texts, text.length + framing.heldSuffix.length ≤ limit) →
      ∃ octets, write serializer framing items = some octets ∧
        ∀ body : List Arrival, arrived body = (octets, none) →
          (∀ records, Yields verbatim (.new limit framing) body records ↔
            records = texts.map .ok) ∧
          ((∀ text ∈ texts, document.ends text = false) →
            ∀ read, Yields document (.new limit framing) body read ↔
              read = texts.mapIdx document.read) := by
  constructor
  · intro body other same
    refine ⟨document.readWhole framing limit (arrived body).2 0 (arrived body).1, fun read => ?_⟩
    constructor
    · exact yields_iff document limit framing body read
    · rw [same]
      exact yields_iff document limit framing other read
  · intro items texts serialized plain fits
    have writable := serializer.writable serialized plain
    refine ⟨framed framing texts, write_eq serialized framing, fun body isBody => ⟨?_, ?_⟩⟩
    · intro records
      have asTheyAre : texts.mapIdx verbatim.read = texts.map .ok := by
        refine List.ext_getElem (by simp) fun index inside inTexts => ?_
        rw [List.getElem_mapIdx, List.getElem_map]
        rfl
      rw [yields_iff, isBody, readWhole_framed verbatim framing writable fits fun _ _ => rfl, asTheyAre]
    · intro goes read
      rw [yields_iff, isBody, readWhole_framed document framing writable fits goes]

/-- Numbers, as JSON. -/
def numbers : Serializer Nat where
  toWriter number := some (Text.toOctets (Text.decimal number))
  nonempty := by
    rintro number _ ⟨rfl⟩ empty
    exact Text.decimal_ne_nil number (Text.toOctets_injective empty)
  solid := by
    rintro number _ ⟨rfl⟩
    refine trimBy_eq_self_of_forall fun octet member => ?_
    obtain ⟨digit, inDecimal, code⟩ := HeaderValue.exists_of_mem_toOctets
      (HeaderValue.isTextCharacter_of_mem_decimal number) member
    have visible := Text.toNat_of_isAsciiDigit (Text.isAsciiDigit_of_mem_decimal inDecimal)
    rw [← code] at visible
    simp only [Octets.isAsciiWhitespace, Bool.or_eq_false_iff, beq_eq_false_iff_ne]
    refine ⟨⟨⟨⟨?_, ?_⟩, ?_⟩, ?_⟩, ?_⟩ <;>
      · rintro rfl
        exact absurd visible.1 (by decide)

theorem chunking_does_not_matter_numbers :
    ∃ octets, write numbers .sequence [7, 42] = some octets ∧
      Yields verbatim (.new 3 .sequence)
        [.chunk (octets.take 2), .pending, .chunk [], .chunk (octets.drop 2)]
        [.ok [55], .ok [52, 50]] := by
  obtain ⟨octets, written, read⟩ := (chunking_does_not_matter verbatim .sequence 3 numbers).2
    [7, 42] [[55], [52, 50]] rfl (by simp) (by simp [Framing.heldSuffix, newline])
  refine ⟨octets, written, ((read _ ?_).1 _).mpr rfl⟩
  simp [arrived]

/-- A text as long as the limit is refused in a sequence, where it is held with
its newline. -/
theorem not_read_back_at_limit :
    ∃ octets, write numbers .sequence [7] = some octets ∧
      Yields verbatim (.new 1 .sequence) [.chunk octets] [.error (.tooLarge 1)] ∧
      ¬ Yields verbatim (.new 1 .sequence) [.chunk octets] [.ok [55]] := by
  refine ⟨[0x1e, 55, 10], rfl, ?_, ?_⟩
  · rw [yields_iff]
    rfl
  · rw [yields_iff]
    decide

end Kynos.JsonLines
