import Kynos.Numeral.Unsigned
import Kynos.Text.Utf8
import Kynos.Word.Lines

/-!
# Server-Sent Events as they are written

An event is a record of labelled lines: its comment, name, id, retry and data,
each cut at its line ends into a line per line of its value, then a blank line.
A stream is a sequence of such records, with a keep-alive comment in between
where nothing was sent for a while.
-/

namespace Kynos.Sse

open Kynos.Http
open Kynos.Numeral
open Kynos.Word

universe u

/-- One Server-Sent Event. -/
structure Event (T : Type u) where
  data : T
  event : Option Text
  id : Option Text
  retry : Option Duration
  comment : Option Text

/-! ## Fields -/

/-- One line of a field: its name, a colon, a space, the line and a line feed. -/
def push (name : Text) (record line : Octets) : Octets :=
  record ++ name.toOctets ++ Text.toOctets ": ".toList ++ line ++ [10]

/-- A carriage return or a line feed. -/
def isBreak (octet : UInt8) : Bool :=
  octet == 13 || octet == 10

/-- `field`: one line per line of the value. -/
def field (record : Octets) (name : Text) (rest : Octets) : Octets :=
  match found : rest.findIdx? isBreak with
  | none => push name record rest
  | some finish =>
      let width := if [13, 10].isPrefixOf (rest.drop finish) then 2 else 1
      field (push name record (rest.take finish)) name (rest.drop (finish + width))
termination_by rest.length
decreasing_by
  have inside := (List.findIdx?_eq_some_iff_getElem.mp found).1
  rw [List.length_drop]
  split <;> omega

/-- A reconnect delay in whole milliseconds, rounded up. -/
def milliseconds (retry : Duration) : Nat :=
  let whole := retry.asMillis
  if retry % 1000000000 % 1000000 > 0 then whole + 1 else whole

/-! ## Records -/

section Encode

variable {T : Type u}

/-- `encode`: an event as one record, where its data can be serialized. -/
def encode (toJson : T → Option Text) (event : Event T) : Option Octets :=
  match toJson event.data with
  | none => none
  | some data =>
      let record : Octets := []
      let record := match event.comment with
        | some comment => field record [] comment.toOctets
        | none => record
      let record := match event.event with
        | some name => field record "event".toList name.toOctets
        | none => record
      let record := match event.id with
        | some id => field record "id".toList id.toOctets
        | none => record
      let record := match event.retry with
        | some retry => field record "retry".toList (Text.decimal (milliseconds retry)).toOctets
        | none => record
      let record := field record "data".toList data.toOctets
      some (record ++ [10])

/-- The record of a keep-alive message. -/
def heartbeatRecord (comment : Text) : Octets :=
  field [] [] comment.toOctets ++ [10]

/-- What a stream sends next: an event, or a keep-alive message. -/
inductive Frame (T : Type u) where
  | next (event : Event T)
  | heartbeat

/-- The record of a frame, where it has one. -/
def Frame.record (toJson : T → Option Text) (keepAlive : Text) : Frame T → Option Octets
  | .next event => encode toJson event
  | .heartbeat => some (heartbeatRecord keepAlive)

/-- The records of the frames, one after the other. -/
def body (toJson : T → Option Text) (keepAlive : Text) (frames : List (Frame T)) : Octets :=
  (frames.filterMap (Frame.record toJson keepAlive)).flatten

end Encode

/-! ## What a record says, line by line -/

/-- The lines of a text. -/
abbrev linesOf (text : Text) : List Text :=
  breaks '\r' '\n' text

/-- The lines of a field: each line of the value, under the field's name. -/
def labelled (name : Text) (value : Option Text) : List Text :=
  match value with
  | none => []
  | some text => (linesOf text).map fun line => name ++ ": ".toList ++ line

/-- The lines of an event's record, the blank line last. -/
def Event.lines (event : Event T) (data : Text) : List Text :=
  labelled [] event.comment ++ labelled "event".toList event.event ++
    labelled "id".toList event.id ++
    labelled "retry".toList (event.retry.map fun retry => Text.decimal (milliseconds retry)) ++
    labelled "data".toList (some data) ++ [[]]

/-- The text of a record: its lines, each ended by a line feed. -/
def written (lines : List Text) : Text :=
  lines.flatMap (· ++ ['\n'])

/-! ## The loop writes the lines -/

theorem keepsBreaks_utf8 : KeepsBreaks String.utf8EncodeChar '\r' '\n' 13 10 where
  encode_cr := by decide
  encode_lf := by decide
  nonempty := Text.utf8EncodeChar_ne_nil
  unbroken letter notCr notLf := by
    have apart : ∀ octet : UInt8, octet.toNat < 128 → octet ∈ String.utf8EncodeChar letter →
        letter.toNat = octet.toNat := by
      intro octet ascii member
      have inText : octet ∈ Text.toOctets [letter] := by
        rwa [Text.toOctets_cons, Text.toOctets_nil, List.append_nil]
      obtain ⟨character, single, code⟩ := Text.exists_of_mem_toOctets ascii inText
      rwa [List.mem_singleton.mp single] at code
    refine ⟨fun member => notCr ?_, fun member => notLf ?_⟩
    · exact Char.toNat_inj.mp (apart 13 (by decide) member)
    · exact Char.toNat_inj.mp (apart 10 (by decide) member)

/-- Lines of a text are cut where its octets are. -/
theorem breaks_toOctets (text : Text) :
    breaks 13 10 text.toOctets = (linesOf text).map Text.toOctets :=
  breaks_flatMap keepsBreaks_utf8 (by decide) text

@[simp]
theorem written_nil : written [] = [] :=
  rfl

@[simp]
theorem written_cons (line : Text) (lines : List Text) :
    written (line :: lines) = line ++ '\n' :: written lines := by
  simp [written]

@[simp]
theorem written_append (lines more : List Text) :
    written (lines ++ more) = written lines ++ written more :=
  List.flatMap_append

theorem push_eq (name : Text) (record : Octets) (line : Text) :
    push name record line.toOctets =
      record ++ (written [name ++ ": ".toList ++ line]).toOctets := by
  have lineFeed : String.utf8EncodeChar '\n' = [10] := by decide
  simp [push, lineFeed]

/-- What stands before the first line end is the first line, and the scan goes on
after the end, two octets wide where both letters make it. -/
theorem breaks_at_break {rest : Octets} {finish : Nat}
    (found : rest.findIdx? isBreak = some finish) :
    breaks 13 10 rest = rest.take finish :: breaks 13 10
      (rest.drop (finish + if [13, 10].isPrefixOf (rest.drop finish) then 2 else 1)) := by
  obtain ⟨inside, ends, before⟩ := List.findIdx?_eq_some_iff_getElem.mp found
  have unbroken : Unbroken 13 10 (rest.take finish) := by
    have plain : ∀ octet ∈ rest.take finish, isBreak octet = false := by
      intro octet member
      obtain ⟨index, bound, rfl⟩ := List.mem_take_iff_getElem.mp member
      exact Bool.not_eq_true _ ▸ before index (by omega)
    exact ⟨fun member => absurd (plain 13 member) (by decide),
      fun member => absurd (plain 10 member) (by decide)⟩
  have halves : breaks 13 10 rest =
      (breaks 13 10 (rest.drop finish)).modifyHead (rest.take finish ++ ·) := by
    rw [← breaks_append unbroken, List.take_append_drop]
  rw [halves]
  by_cases both : [13, 10].isPrefixOf (rest.drop finish)
  · obtain ⟨more, isMore⟩ := List.isPrefixOf_iff_prefix.mp both
    have next : rest.drop (finish + 2) = more := by
      rw [← List.drop_drop, ← isMore]
      rfl
    rw [if_pos both, next, ← isMore, List.cons_append, List.cons_append, List.nil_append,
      breaks_cr_lf, List.modifyHead_cons, List.append_nil]
  · have first : rest.drop finish = rest[finish] :: rest.drop (finish + 1) :=
      List.drop_eq_getElem_cons inside
    rw [if_neg both]
    simp only [isBreak, Bool.or_eq_true, beq_iff_eq] at ends
    rcases ends with isCr | isLf
    · have alone : (rest.drop (finish + 1)).head? ≠ some 10 := by
        intro head
        obtain ⟨more, isMore⟩ := List.head?_eq_some_iff.mp head
        rw [first, isCr, isMore] at both
        exact both rfl
      rw [first, isCr, breaks_cons_cr alone, List.modifyHead_cons, List.append_nil]
    · rw [first, isLf, breaks_cons_lf (by decide), List.modifyHead_cons, List.append_nil]

/-- The loop writes each line of the value under the field's name. -/
theorem field_eq_foldl (record : Octets) (name : Text) (rest : Octets) :
    field record name rest = (breaks 13 10 rest).foldl (push name) record := by
  fun_induction field record name rest with
  | case1 record rest found =>
      have plain := List.findIdx?_eq_none_iff.mp found
      have unbroken : Unbroken 13 10 rest :=
        ⟨fun member => absurd (plain 13 member) (by decide),
          fun member => absurd (plain 10 member) (by decide)⟩
      rw [breaks_of_unbroken unbroken]
      rfl
  | case2 record rest finish found width ih =>
      rw [ih, breaks_at_break found, List.foldl_cons]
      rfl

theorem foldl_push (name : Text) (record : Octets) (lines : List Text) :
    (lines.map Text.toOctets).foldl (push name) record =
      record ++ (written (lines.map fun line => name ++ ": ".toList ++ line)).toOctets := by
  induction lines generalizing record with
  | nil => simp
  | cons line rest ih =>
      rw [List.map_cons, List.foldl_cons, ih, push_eq, List.append_assoc, ← Text.toOctets_append,
        ← written_append]
      rfl

/-- A field is written as its lines. -/
theorem field_toOctets (record : Octets) (name text : Text) :
    field record name text.toOctets =
      record ++ (written (labelled name (some text))).toOctets := by
  rw [field_eq_foldl, breaks_toOctets, foldl_push, labelled]

theorem heartbeatRecord_eq (comment : Text) :
    heartbeatRecord comment = (written (labelled [] (some comment) ++ [[]])).toOctets := by
  have lineFeed : String.utf8EncodeChar '\n' = [10] := by decide
  rw [heartbeatRecord, field_toOctets, List.nil_append, written_append, Text.toOctets_append]
  simp [lineFeed]

/-- An event is written as its lines. -/
theorem encode_eq (toJson : T → Option Text) (event : Event T) :
    encode toJson event =
      (toJson event.data).map fun data => (written (event.lines data)).toOctets := by
  have lineFeed : String.utf8EncodeChar '\n' = [10] := by decide
  have absent : ∀ name : Text, written (labelled name none) = [] := fun _ => rfl
  cases written : toJson event.data with
  | none => rw [encode, written]; rfl
  | some data =>
      obtain ⟨_, name, id, retry, comment⟩ := event
      rw [encode, written]
      cases comment <;> cases name <;> cases id <;> cases retry <;>
        simp [Event.lines, field_toOctets, absent, lineFeed]

end Kynos.Sse
