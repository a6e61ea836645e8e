import Kynos.Sse.Record

/-!
# Server-Sent Events as they are read

The event-stream algorithm of the HTML standard: the client cuts the stream
into lines, keeps a data buffer, an event type buffer and a last event ID
buffer between them, and dispatches a message at each blank line.
-/

namespace Kynos.Sse

open Kynos.Http
open Kynos.Word

/-- A message as it is dispatched. -/
structure Message where
  type : Text
  data : Text
  lastEventId : Text
  deriving DecidableEq, Repr

/-- An event source: its buffers, its last event ID, its reconnection time
where one was set, and the messages dispatched so far. -/
structure Client where
  data : Text
  eventType : Text
  idBuffer : Text
  lastEventId : Text
  reconnectionTime : Option Nat
  dispatched : List Message
  deriving DecidableEq, Repr

namespace Client

/-- An event source that read nothing yet. -/
def start : Client :=
  ⟨[], [], [], [], none, []⟩

/-- Processing a field. -/
def process (client : Client) (name value : Text) : Client :=
  if name = "event".toList then
    { client with eventType := value }
  else if name = "data".toList then
    { client with data := client.data ++ value ++ ['\n'] }
  else if name = "id".toList then
    if '\x00' ∈ value then client else { client with idBuffer := value }
  else if name = "retry".toList then
    if value ≠ [] ∧ value.all Text.isAsciiDigit then
      { client with reconnectionTime := some (Nat.ofDigitChars 10 value 0) }
    else
      client
  else
    client

/-- Dispatching what the buffers hold. -/
def dispatch (client : Client) : Client :=
  let client := { client with lastEventId := client.idBuffer }
  if client.data = [] then
    { client with eventType := [] }
  else
    let message : Message :=
      { type := if client.eventType = [] then "message".toList else client.eventType
        data := if client.data.getLast? = some '\n' then client.data.dropLast else client.data
        lastEventId := client.lastEventId }
    { client with data := [], eventType := [], dispatched := client.dispatched ++ [message] }

/-- Reading one line. -/
def line (client : Client) (text : Text) : Client :=
  if text = [] then
    client.dispatch
  else if text.head? = some ':' then
    client
  else
    match splitOnce ':' text with
    | some (name, value) =>
        client.process name (if value.head? = some ' ' then value.tail else value)
    | none => client.process text []

/-- The text without a byte order mark in front. -/
def withoutMark (text : Text) : Text :=
  if text.head? = some '\uFEFF' then text.tail else text

/-- Reading a whole stream: every line that was ended. -/
def read (text : Text) : Client :=
  (linesOf (withoutMark text)).dropLast.foldl line start

/-- Reading the octets of a stream. -/
def listen (octets : Octets) : Option Client :=
  (Octets.fromUtf8 octets).map read

/-! ## One line -/

variable {client : Client} {name : Text}

theorem line_nil : client.line [] = client.dispatch :=
  rfl

/-- A line without a field name is a comment. -/
theorem line_comment (text : Text) : client.line ([] ++ ": ".toList ++ text) = client := by
  simp [line]

/-- A labelled line is its field. -/
theorem line_labelled (named : name ≠ []) (noColon : ':' ∉ name) (text : Text) :
    client.line (name ++ ": ".toList ++ text) = client.process name text := by
  have cut : splitOnce ':' (name ++ ": ".toList ++ text) = some (name, ' ' :: text) :=
    splitOnce_eq_some_iff.mpr ⟨noColon, by simp⟩
  have first : (name ++ ": ".toList ++ text).head? ≠ some ':' := by
    rw [List.append_assoc, List.head?_append_of_ne_nil _ named]
    exact fun head => noColon (List.mem_of_mem_head? head)
  rw [line, if_neg (by simp [named]), if_neg first, cut]
  rfl

/-! ## The lines of one field -/

/-- The lines of a field, each processed under its name. -/
theorem foldl_labelled (named : name ≠ []) (noColon : ':' ∉ name) (text : Text) :
    (labelled name (some text)).foldl line client =
      (linesOf text).foldl (fun client text => client.process name text) client := by
  rw [labelled, List.foldl_map]
  simp only [line_labelled named noColon]

/-- A comment changes nothing. -/
theorem foldl_comment (value : Option Text) : (labelled [] value).foldl line client = client := by
  cases value with
  | none => rfl
  | some text =>
      rw [labelled, List.foldl_map]
      simp only [line_comment]
      induction linesOf text with
      | nil => rfl
      | cons first rest ih => exact ih

/-- The last line of a text. -/
def lastLine (text : Text) : Text :=
  (linesOf text).getLast (breaks_ne_nil _ _ _)

/-- The type buffer an event's name leaves. -/
def typed (event : Option Text) (previous : Text) : Text :=
  match event with
  | none => previous
  | some name => lastLine name

/-- The ID buffer an event's id leaves: its last line without a null. -/
def identified (id : Option Text) (previous : Text) : Text :=
  match id with
  | none => previous
  | some id => ((linesOf id).filter fun text => '\x00' ∉ text).getLastD previous

theorem foldl_event (event : Option Text) :
    (labelled "event".toList event).foldl line client =
      { client with eventType := typed event client.eventType } := by
  have last : ∀ (lines : List Text) (nonempty : lines ≠ []) (client : Client),
      lines.foldl (fun client text => client.process "event".toList text) client =
        { client with eventType := lines.getLast nonempty } := by
    intro lines
    induction lines with
    | nil => exact fun nonempty => absurd rfl nonempty
    | cons first rest ih =>
        intro nonempty client
        rw [List.foldl_cons]
        cases rest with
        | nil => rfl
        | cons second rest => rw [ih (by simp), List.getLast_cons_cons]; rfl
  cases event with
  | none => rfl
  | some name => rw [foldl_labelled (by simp) (by decide), last _ (breaks_ne_nil _ _ _)]; rfl

theorem foldl_id (id : Option Text) :
    (labelled "id".toList id).foldl line client =
      { client with idBuffer := identified id client.idBuffer } := by
  have last : ∀ (lines : List Text) (client : Client),
      lines.foldl (fun client text => client.process "id".toList text) client =
        { client with
          idBuffer := (lines.filter fun text => '\x00' ∉ text).getLastD client.idBuffer } := by
    intro lines
    induction lines with
    | nil => exact fun client => rfl
    | cons first rest ih =>
        intro client
        rw [List.foldl_cons, ih]
        by_cases null : '\x00' ∈ first
        · have ignored : client.process "id".toList first = client := by simp [process, null]
          rw [ignored, List.filter_cons_of_neg (by simpa using null)]
        · have kept : client.process "id".toList first = { client with idBuffer := first } := by
            simp [process, null]
          rw [kept, List.filter_cons_of_pos (by simpa using null), List.getLastD_cons]
  cases id with
  | none => rfl
  | some id => rw [foldl_labelled (by simp) (by decide), last]; rfl

/-- Digits are one line. -/
theorem linesOf_decimal (number : Nat) : linesOf (Text.decimal number) = [Text.decimal number] := by
  refine breaks_of_unbroken ⟨fun member => ?_, fun member => ?_⟩
  · exact absurd (Text.isAsciiDigit_of_mem_decimal member) (by decide)
  · exact absurd (Text.isAsciiDigit_of_mem_decimal member) (by decide)

theorem foldl_retry (retry : Option Nat) :
    (labelled "retry".toList (retry.map Text.decimal)).foldl line client =
      { client with reconnectionTime := retry.or client.reconnectionTime } := by
  cases retry with
  | none => rfl
  | some number =>
      have read (client : Client) : client.process "retry".toList (Text.decimal number) =
          { client with reconnectionTime := some number } := by
        have digits := Text.all_isAsciiDigit_decimal number
        have isRead : Text.decimal number ≠ [] ∧ (Text.decimal number).all Text.isAsciiDigit = true :=
          ⟨Text.decimal_ne_nil number, digits⟩
        rw [process, if_neg (by decide), if_neg (by decide), if_neg (by decide), if_pos rfl,
          if_pos isRead, Text.ofDigitChars_decimal]
      rw [Option.map_some, foldl_labelled (by simp) (by decide), linesOf_decimal,
        List.foldl_cons, List.foldl_nil, read, Option.some_or]

theorem foldl_data (text : Text) :
    (labelled "data".toList (some text)).foldl line client =
      { client with data := client.data ++ written (linesOf text) } := by
  have appended : ∀ (lines : List Text) (client : Client),
      lines.foldl (fun client text => client.process "data".toList text) client =
        { client with data := client.data ++ written lines } := by
    intro lines
    induction lines with
    | nil => simp
    | cons first rest ih =>
        intro client
        rw [List.foldl_cons, ih]
        simp [process]
  rw [foldl_labelled (by simp) (by decide), appended]

end Client

end Kynos.Sse
