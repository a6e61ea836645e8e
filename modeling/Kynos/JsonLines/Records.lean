import Kynos.Http.Field
import Kynos.Numeral.Unsigned

/-!
# Records of a streamed JSON body

The reader of a newline-delimited body or of a JSON text sequence. It holds the
octets that arrived and were not framed yet, together with how far it has
searched them for a delimiter, and asks the body for more where they hold no
whole record.
-/

namespace Kynos.JsonLines

open Kynos.Http
open Kynos.Numeral

universe u

/-- The record separator of a JSON text sequence. -/
def recordSeparator : UInt8 := 0x1e

/-- Which octets separate one record from the next. -/
inductive Framing where
  | lines
  | sequence
  deriving DecidableEq, Repr

/-- What stands before each record. -/
def Framing.lead : Framing → Octets
  | .lines => []
  | .sequence => [recordSeparator]

/-- What ends a record, or begins the next one. -/
def Framing.delimiter : Framing → UInt8
  | .lines => 10
  | .sequence => recordSeparator

/-- How much more of the body there is to read. -/
inductive State where
  | reading
  | ended
  | fused
  deriving DecidableEq, Repr

/-- Why a body or a record of one is refused. -/
inductive BodyRejection where
  | badSyntax (detail : Text)
  | schema (failures : List (Text × Text)) (typeUri : Option Text)
  | tooLarge (limit : Nat)
  | stalled (after : Duration)
  deriving DecidableEq, Repr

/-- Why a body could not be read on. -/
inductive TransportError where
  | stalled (after : Duration)
  | other (detail : Text)
  deriving DecidableEq, Repr

/-- `BodyRejection::read_failed`. -/
def BodyRejection.readFailed : TransportError → BodyRejection
  | .stalled after => .stalled after
  | .other detail => .badSyntax detail

/-! ## Decoding one record -/

/-- A step of a JSON Pointer. -/
inductive Step where
  | member (name : Text)
  | index (position : Nat)
  deriving DecidableEq, Repr

/-- A step as a JSON Pointer spells it. -/
def Step.text : Step → Text
  | .member name => '/' :: name.flatMap fun letter =>
      if letter = '/' then "~1".toList else if letter = '~' then "~0".toList else [letter]
  | .index position => '/' :: Text.decimal position

/-- Why a document did not read: whether it was well-formed JSON, the steps to
the position that failed, the innermost first, and what was wrong there. -/
structure Failure where
  isSchemaFailure : Bool
  path : List Step
  error : Text
  deriving DecidableEq, Repr

/-- `Failure::pointer`, under the pointer of the document. -/
def Failure.pointer (failure : Failure) (base : Text) : Text :=
  base ++ failure.path.reverse.flatMap Step.text

/-- How records are read as values of a type: its deserializer, the bounds its
schema declares, and the problem type of a broken one. -/
structure Document (V : Type u) where
  fromSlice : Octets → Except Failure V
  violations : V → Text → List (Text × Text)
  constraintType : Option Text

/-- `checked`: a value, held to its bounds. -/
def Document.checked {V : Type u} (document : Document V) (value : V) (pointer : Text) :
    Except BodyRejection V :=
  match document.violations value pointer with
  | [] => .ok value
  | failures => .error (.schema failures document.constraintType)

/-! ## Reading -/

/-- What a body gives next: nothing yet, a chunk, or a failure of the
transport. -/
inductive Arrival where
  | pending
  | chunk (octets : Octets)
  | failed (error : TransportError)
  deriving DecidableEq, Repr

/-- The reader, apart from the body it reads. -/
structure Records where
  limit : Nat
  buffer : Octets
  scanned : Nat
  index : Nat
  framing : Framing
  state : State
  deriving DecidableEq, Repr

namespace Records

/-- A reader that read nothing yet. -/
def new (limit : Nat) (framing : Framing) : Records where
  limit := limit
  buffer := []
  scanned := 0
  index := 0
  framing := framing
  state := .reading

/-- Where the next delimiter stands, searching from where the last search
ended. -/
def found (records : Records) : Option Nat :=
  let start := max records.scanned records.framing.lead.length
  ((records.buffer.drop start).findIdx? (· == records.framing.delimiter)).map (start + ·)

/-- The frame up to a delimiter, or all that is left of a body that ended, and
the reader without it. -/
def takeFrame (records : Records) : Option (Octets × Records) :=
  match records.found with
  | some finish =>
      let taken := match records.framing with
        | .lines => finish + 1
        | .sequence => finish
      let frame := (records.buffer.take taken).take finish
      some (frame, { records with buffer := records.buffer.drop taken, scanned := 0 })
  | none =>
      if records.state = .ended then
        some (records.buffer, { records with buffer := [], scanned := 0 })
      else
        none

/-- A frame is taken out of the buffer, and nothing else changes but the search
for the next delimiter. -/
theorem takeFrame_eq_some {records rest : Records} {frame : Octets}
    (taken : records.takeFrame = some (frame, rest)) :
    rest.limit = records.limit ∧ rest.index = records.index ∧ rest.framing = records.framing ∧
      rest.state = records.state := by
  rw [takeFrame] at taken
  split at taken
  · simp only [Option.some.injEq, Prod.mk.injEq] at taken
    rw [← taken.2]
    exact ⟨rfl, rfl, rfl, rfl⟩
  · split at taken
    · simp only [Option.some.injEq, Prod.mk.injEq] at taken
      rw [← taken.2]
      exact ⟨rfl, rfl, rfl, rfl⟩
    · contradiction

theorem length_takeFrame {records rest : Records} {frame : Octets} (nonempty : records.buffer ≠ [])
    (taken : records.takeFrame = some (frame, rest)) :
    rest.buffer.length < records.buffer.length := by
  have positive : 0 < records.buffer.length := List.length_pos_of_ne_nil nonempty
  rw [takeFrame] at taken
  cases found : records.found with
  | none =>
      rw [found] at taken
      simp only at taken
      split at taken
      · simp only [Option.some.injEq, Prod.mk.injEq] at taken
        rw [← taken.2]
        exact positive
      · contradiction
  | some finish =>
      rw [found] at taken
      simp only [Option.some.injEq, Prod.mk.injEq] at taken
      obtain ⟨-, rfl⟩ := taken
      rw [Records.found, Option.map_eq_some_iff] at found
      obtain ⟨position, -, rfl⟩ := found
      simp only [List.length_drop]
      cases framing : records.framing with
      | lines => simp only; omega
      | sequence => simp [Framing.lead]; omega

/-- `next_frame`: the octets of the next record that is not blank. -/
def nextFrame (records : Records) : Option (Except BodyRejection Octets) × Records :=
  if _ : records.buffer = [] then
    (none, records)
  else if records.framing = .sequence ∧ records.buffer.head? ≠ some recordSeparator then
    (some (.error (.badSyntax
      "an `application/json-seq` body must begin with a record separator".toList)),
      { records with state := .fused })
  else
    let held := (records.found.getD records.buffer.length) - records.framing.lead.length
    if records.limit < held then
      (some (.error (.tooLarge records.limit)), { records with state := .fused })
    else
      match _ : records.takeFrame with
      | none => (none, { records with scanned := records.buffer.length })
      | some (frame, rest) =>
          let record := Octets.trimAscii (frame.drop (min records.framing.lead.length frame.length))
          if record = [] then rest.nextFrame else (some (.ok record), rest)
termination_by records.buffer.length
decreasing_by exact length_takeFrame ‹_› ‹_›

section Poll

variable {V : Type u}

/-- `decode`: one record as a value. -/
def decode (document : Document V) (records : Records) (record : Octets) :
    Except BodyRejection V × Records :=
  let index := records.index
  let records := { records with index := records.index + 1 }
  let pointer := (Step.index index).text
  match document.fromSlice record with
  | .error failure =>
      if failure.isSchemaFailure then
        (.error (.schema [(failure.pointer pointer, failure.error)] none), records)
      else
        (.error (.badSyntax ("record ".toList ++ Text.decimal index ++ ": ".toList ++ failure.error)),
          { records with state := .fused })
  | .ok value => (document.checked value pointer, records)

/-- What a poll answers. -/
inductive Poll (V : Type u) where
  | pending
  | ready (item : Option (Except BodyRejection V))

/-- Looking for a record does not end the body. -/
theorem state_nextFrame {records rest : Records} (next : records.nextFrame = (none, rest)) :
    rest.state = records.state := by
  fun_induction nextFrame records with
  | case1 records empty =>
      rw [← (Prod.mk.inj next).2]
  | case2 records nonempty unled => simp at next
  | case3 records nonempty led held large => simp at next
  | case4 records nonempty led held within taken =>
      rw [← (Prod.mk.inj next).2]
  | case5 records nonempty led held within frame left taken record blank ih =>
      rw [ih next, (takeFrame_eq_some taken).2.2.2]
  | case6 records nonempty led held within frame left taken record present => simp at next

/-- `poll_record`: one record, the body asked for more where the buffer holds no
whole one. -/
def pollRecord (document : Document V) (records : Records) (body : List Arrival) :
    Poll V × Records × List Arrival :=
  if records.state = .fused then
    (.ready none, records, body)
  else
    match _ : records.nextFrame with
    | (some (.ok record), records) =>
        let (item, records) := records.decode document record
        (.ready (some item), records, body)
    | (some (.error rejection), records) => (.ready (some (.error rejection)), records, body)
    | (none, records) =>
        if records.state = .ended then
          (.ready none, records, body)
        else
          match body with
          | .pending :: body => (.pending, records, body)
          | .chunk octets :: body =>
              pollRecord document { records with buffer := records.buffer ++ octets } body
          | .failed error :: body =>
              (.ready (some (.error (.readFailed error))), { records with state := .fused }, body)
          | [] => pollRecord document { records with state := .ended } []
termination_by (body.length, if records.state = .ended then 0 else 1)
decreasing_by
  · exact Prod.Lex.left _ _ (by simp)
  · rename_i going
    rw [state_nextFrame ‹_›] at going
    rw [if_neg going]
    exact Prod.Lex.right _ (by simp)

end Poll

end Records

end Kynos.JsonLines
