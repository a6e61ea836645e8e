import Kynos.Compression.Settle
import Kynos.Numeral.Unsigned

/-!
# Decompressing a request

A request body is read under the limit, the codings its head declares are undone
from the last applied to the first, no layer decoding past the bound, and what
comes of it is handed on. The decoders are a parameter: what each reads from some
octets, chunk by chunk.
-/

namespace Kynos

open Kynos.Http Kynos.Body Kynos.Range Kynos.Numeral Kynos.Compression

namespace Decompression

/-- The longest chain of codings that will be decoded. -/
def maxCodings : Nat :=
  4

/-- Why a body would not be handed on. -/
inductive Reason where
  | unsupportedCoding
  | malformed
  | tooLarge (limit : Nat)
  deriving DecidableEq, Repr

/-- The status a refusal answers. -/
def Reason.status : Reason → Nat
  | .unsupportedCoding => 415
  | .malformed => 400
  | .tooLarge _ => 413

/-! ## Draining a decoder -/

/-- A decoder over some octets: the chunks its reads find, whether it fails after
them, and how many of the octets it has then consumed. -/
structure Decoder where
  chunks : List Octets
  fails : Bool
  consumed : Nat
  deriving DecidableEq, Repr

/-- Why a drain stopped before its source ended. -/
inductive DrainError where
  | read
  | pastCap
  deriving DecidableEq, Repr

/-- Reads a source to its end, producing no more than the cap. -/
def drain (fails : Bool) (cap : Option Nat) (drained : Octets) :
    List Octets → Except DrainError Octets
  | [] => if fails then .error .read else .ok drained
  | chunk :: rest =>
      if chunk = [] then .ok drained
      else if cap.any (drained.length + chunk.length > ·) then .error .pastCap
      else drain fails cap (drained ++ chunk) rest

/-- Removes a coding, producing no more than `limit` octets. -/
def decode (decoder : Coding → Octets → Decoder) (coding : Coding) (octets : Octets) (limit : Nat) :
    Except Reason Octets :=
  let source := decoder coding octets
  match drain source.fails (some limit) [] source.chunks with
  | .error .read => .error .malformed
  | .error .pastCap => .error (.tooLarge limit)
  | .ok decoded => if source.consumed < octets.length then .error .malformed else .ok decoded

/-! ## The codings declared -/

/-- The codings after those the tokens of one line name. -/
def declaredTokens (codings : List Coding) : List Text → Option (List Coding)
  | [] => some codings
  | token :: rest =>
      let token := Text.trim token
      if token = [] ∨ Text.eqIgnoreAsciiCase token "identity".toList then
        declaredTokens codings rest
      else
        match Coding.fromToken token with
        | none => none
        | some coding =>
            if (codings ++ [coding]).length > maxCodings then none
            else declaredTokens (codings ++ [coding]) rest

/-- The codings a head declares, in the order they were applied. -/
def declared (headers : HeaderMap) : Option (List Coding) :=
  (headers.getAll Header.contentEncoding).foldlM (fun codings value =>
    value.toStr.bind fun text => declaredTokens codings (text.splitOn ',')) []

/-! ## The body -/

/-- A request body: the frames a read finds, and the error it ends with, if it
does. -/
structure Incoming (Error : Type) where
  frames : List Frame
  failure : Option Error

/-- What a read under a limit comes to. -/
inductive Capped (Error : Type) where
  | whole (octets : Octets)
  | exceeded (limit : Nat)
  | failedPartWay (arrived : Octets) (error : Error)

variable {Error : Type}

/-- Reads while the running total stays within a limit. -/
def collectCapped (failure : Option Error) (limit : Nat) (arrived : Octets) :
    List Frame → Capped Error
  | [] => failure.elim (.whole arrived) (.failedPartWay arrived)
  | .trailers _ :: rest => collectCapped failure limit arrived rest
  | .data octets :: rest =>
      if octets = [] then collectCapped failure limit arrived rest
      else if arrived.length + octets.length > limit then .exceeded limit
      else collectCapped failure limit (arrived ++ octets) rest

/-- A body that is handed on. -/
inductive Handed (Error : Type) where
  | fromBytes (octets : Octets)
  | failedAfter (arrived : Octets) (error : Error)
  deriving DecidableEq

/-- A request that is handed on: its fields, the limit its extractor reads
under, and its body. -/
structure Request (Error : Type) where
  headers : HeaderMap
  bodyLimit : Nat
  body : Handed Error
  deriving DecidableEq

/-- The digests of the coded form. -/
def stale : List Text :=
  ["content-digest".toList, "digest".toList, "content-md5".toList]

end Decompression

open Kynos.Decompression

/-- The interceptor: the largest body that will be handed on, decoded, and the
largest ratio of decoded to arrived octets. -/
structure Decompression where
  limit : Nat
  maxRatio : Option Nat
  limit_le : limit ≤ u64Max

namespace Decompression

variable {Error : Type}

/-- The tighter of the two caps, given how much arrived. -/
def bound (this : Decompression) (encoded : Nat) : Nat :=
  match this.maxRatio with
  | some ratio => min this.limit (min u64Max (encoded * ratio))
  | none => this.limit

/-- The octets that arrived with the codings undone, in the reverse of the order
they were applied. -/
def undo (decoder : Coding → Octets → Decoder) (this : Decompression) (codings : List Coding)
    (arrived : Octets) : Except Reason Octets :=
  codings.reverse.foldlM (fun octets coding => decode decoder coding octets
    (this.bound arrived.length)) arrived

/-- The fields of a request whose body was decoded. -/
def decodedFields (headers : HeaderMap) (length : Nat) : HeaderMap :=
  (stale.foldl HeaderMap.remove (headers.remove Header.contentEncoding)).insert
    Header.contentLength (decimal length)

/-- Decodes a request: refuses it, or hands one on. -/
def intercept (decoder : Coding → Octets → Decoder) (this : Decompression) (headers : HeaderMap)
    (body : Incoming Error) : Except Reason (Request Error) :=
  match declared headers with
  | none => .error .unsupportedCoding
  | some codings =>
      match collectCapped body.failure this.limit [] body.frames with
      | .exceeded limit => .error (.tooLarge limit)
      | .failedPartWay arrived error =>
          if codings.isEmpty then .ok ⟨headers, this.limit, .failedAfter arrived error⟩
          else .ok ⟨headers.remove Header.contentEncoding, this.limit, .failedAfter [] error⟩
      | .whole arrived =>
          match this.undo decoder codings arrived with
          | .error reason => .error reason
          | .ok octets =>
              if codings.isEmpty then .ok ⟨headers, this.limit, .fromBytes octets⟩
              else .ok ⟨decodedFields headers octets.length, this.limit, .fromBytes octets⟩

end Decompression

end Kynos
