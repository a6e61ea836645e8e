import Kynos.JsonLines.Records

/-!
# Streamed JSON bodies, read whole

What a body holds, whatever chunks it arrives in: its octets cut at every
delimiter, each piece within the limit and trimmed, the blank ones left out and
the others decoded in order, up to the first that is too long or is no JSON.
-/

namespace Kynos.JsonLines

open Kynos.Http

universe u

/-- The octets of a body, and the failure that cuts it short. -/
def arrived : List Arrival → Octets × Option TransportError
  | [] => ([], none)
  | .pending :: body => arrived body
  | .chunk octets :: body => (octets ++ (arrived body).1, (arrived body).2)
  | .failed error :: _ => ([], some error)

namespace Document

variable {V : Type u}

/-- What a record is read as. -/
def read (document : Document V) (index : Nat) (record : Octets) : Except BodyRejection V :=
  let pointer := (Step.index index).text
  match document.fromSlice record with
  | .error failure =>
      if failure.isSchemaFailure then
        .error (.schema [(failure.pointer pointer, failure.error)] none)
      else
        .error (.badSyntax
          ("record ".toList ++ Text.decimal index ++ ": ".toList ++ failure.error))
  | .ok value => document.checked value pointer

/-- Whether a record is no JSON, so that nothing is read after it. -/
def ends (document : Document V) (record : Octets) : Bool :=
  match document.fromSlice record with
  | .error failure => !failure.isSchemaFailure
  | .ok _ => false

/-- The last piece of a body, which is whole only where the body was not cut
short. -/
def readLast (document : Document V) (limit : Nat) (ending : Option TransportError) (index : Nat)
    (piece : Octets) : List (Except BodyRejection V) :=
  if limit < piece.length then
    [.error (.tooLarge limit)]
  else
    match ending with
    | some error => [.error (.readFailed error)]
    | none =>
        if Octets.trimAscii piece = [] then
          []
        else
          [document.read index (Octets.trimAscii piece)]

/-- The pieces of a body as records, the first of them numbered `index`. -/
def readPieces (document : Document V) (limit : Nat) (ending : Option TransportError) :
    Nat → List Octets → List (Except BodyRejection V)
  | _, [] => []
  | index, [piece] => document.readLast limit ending index piece
  | index, piece :: next :: rest =>
      if limit < piece.length then
        [.error (.tooLarge limit)]
      else if Octets.trimAscii piece = [] then
        readPieces document limit ending index (next :: rest)
      else
        document.read index (Octets.trimAscii piece) ::
          if document.ends (Octets.trimAscii piece) then
            []
          else
            readPieces document limit ending (index + 1) (next :: rest)

/-- The octets of a body as records, the first of them numbered `index`. -/
def readWhole (document : Document V) (framing : Framing) (limit : Nat)
    (ending : Option TransportError) (index : Nat) (octets : Octets) :
    List (Except BodyRejection V) :=
  if octets = [] then
    ending.toList.map fun error => .error (.readFailed error)
  else if framing.lead.isPrefixOf octets then
    document.readPieces limit ending index
      ((octets.drop framing.lead.length).splitOn framing.delimiter)
  else
    [.error (.badSyntax
      "an `application/json-seq` body must begin with a record separator".toList)]

/-! ## Pieces one by one -/

variable {document : Document V} {framing : Framing} {limit index : Nat}
  {ending : Option TransportError}

/-- A piece past the limit ends the reading, whatever follows it. -/
theorem readPieces_of_large {piece : Octets} (large : limit < piece.length) (rest : List Octets) :
    document.readPieces limit ending index (piece :: rest) = [.error (.tooLarge limit)] := by
  cases rest with
  | nil => rw [readPieces, readLast.eq_def, if_pos large]
  | cons next rest => rw [readPieces, if_pos large]

theorem isPrefixOf_lead_append (framing : Framing) (octets : Octets) :
    framing.lead.isPrefixOf (framing.lead ++ octets) = true :=
  List.isPrefixOf_iff_prefix.mpr (List.prefix_append _ _)

/-- A body that begins as its framing has it is read by its pieces. -/
theorem readWhole_lead (octets : Octets) :
    document.readWhole framing limit ending index (framing.lead ++ octets) =
      document.readPieces limit ending index (octets.splitOn framing.delimiter) := by
  rw [readWhole]
  split
  · rename_i empty
    obtain ⟨noLead, rfl⟩ := List.append_eq_nil_iff.mp empty
    rw [List.splitOn_nil, readPieces, readLast.eq_def, List.length_nil,
      if_neg (Nat.not_lt_zero limit)]
    cases ending <;> rfl
  · rw [if_pos (isPrefixOf_lead_append framing octets), List.drop_left]

/-- The first piece of a body, and the rest of it. -/
theorem readWhole_piece {piece : Octets} (plain : framing.delimiter ∉ piece) (rest : Octets) :
    document.readWhole framing limit ending index
        (framing.lead ++ piece ++ framing.delimiter :: rest) =
      if limit < piece.length then
        [.error (.tooLarge limit)]
      else if Octets.trimAscii piece = [] then
        document.readWhole framing limit ending index (framing.lead ++ rest)
      else
        document.read index (Octets.trimAscii piece) ::
          if document.ends (Octets.trimAscii piece) then
            []
          else
            document.readWhole framing limit ending (index + 1) (framing.lead ++ rest) := by
  rw [List.append_assoc, readWhole_lead, readWhole_lead, readWhole_lead,
    List.splitOn_append_cons_self_of_not_mem plain]
  cases cut : rest.splitOn framing.delimiter with
  | nil => exact absurd cut (List.splitOn_ne_nil _ _)
  | cons next rest => rw [readPieces]

/-- The last piece of a body. -/
theorem readWhole_last {piece : Octets} (plain : framing.delimiter ∉ piece) :
    document.readWhole framing limit ending index (framing.lead ++ piece) =
      document.readLast limit ending index piece := by
  rw [readWhole_lead, List.splitOn_eq_singleton plain, readPieces]

/-- A body whose first piece is past the limit already is refused, whatever
follows. -/
theorem readWhole_of_large {piece : Octets} (plain : framing.delimiter ∉ piece)
    (large : limit < piece.length) (more : Octets) :
    document.readWhole framing limit ending index (framing.lead ++ piece ++ more) =
      [.error (.tooLarge limit)] := by
  by_cases inMore : framing.delimiter ∈ more
  · obtain ⟨before, after, rfl, notBefore⟩ := List.eq_append_cons_of_mem inMore
    have plainAll : framing.delimiter ∉ piece ++ before := by simp [plain, notBefore]
    rw [← List.append_assoc, List.append_assoc framing.lead, readWhole_piece plainAll, if_pos]
    rw [List.length_append]
    omega
  · have plainAll : framing.delimiter ∉ piece ++ more := by simp [plain, inMore]
    rw [List.append_assoc, readWhole_last plainAll, readLast.eq_def, if_pos]
    rw [List.length_append]
    omega

/-- A body that does not begin as its framing has it is refused. -/
theorem readWhole_of_not_lead {octets : Octets} (nonempty : octets ≠ [])
    (unled : ¬ framing.lead.isPrefixOf octets) :
    document.readWhole framing limit ending index octets =
      [.error (.badSyntax
        "an `application/json-seq` body must begin with a record separator".toList)] := by
  rw [readWhole, if_neg nonempty, if_neg unled]

end Document

end Kynos.JsonLines
