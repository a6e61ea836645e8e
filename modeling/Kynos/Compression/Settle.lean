import Kynos.Compression.Streamed
import Kynos.Http.Coding
import Kynos.Http.ETag
import Kynos.Http.Lists
import Kynos.Http.Vary
import Kynos.Range.Served

/-!
# Compressing a response

What negotiation, the handler's own policy and the response itself decide, and
the response that is sent. The encoders are parameters: one that encodes octets
at once, and one whose calls are those of a body encoded as it arrives.
-/

namespace Kynos

open Kynos.Http Kynos.Body Kynos.Range

namespace Compression

/-! ## Codings -/

/-- A content coding, in the order the server prefers them. -/
inductive Coding where
  | zstd
  | brotli
  | gzip
  deriving DecidableEq, Repr

namespace Coding

/-- Every coding, most preferred first. -/
def all : List Coding :=
  [.zstd, .brotli, .gzip]

/-- The token a coding is named by. -/
def token : Coding → Text
  | .zstd => "zstd".toList
  | .brotli => "br".toList
  | .gzip => "gzip".toList

/-- The coding a token names. -/
def fromToken (token : Text) : Option Coding :=
  all.find? fun coding => Http.Coding.names token coding.token

/-- The token as a field value. -/
def fieldValue (coding : Coding) : HeaderValue :=
  ⟨coding.token.toOctets, by cases coding <;> decide⟩

theorem fromToken_token (coding : Coding) : fromToken coding.token = some coding := by
  cases coding <;> decide

end Coding

/-- What negotiation decided. -/
inductive Negotiated where
  | encode (coding : Coding)
  | unstated
  | identity
  | nothing
  deriving DecidableEq, Repr

/-- The coding to apply. -/
def negotiate (headers : HeaderMap) : Negotiated :=
  match fieldLines headers Header.acceptEncoding with
  | none => .unstated
  | some accept =>
      match (Http.Coding.preferred accept (Coding.all.map Coding.token)).bind Coding.fromToken with
      | some coding => .encode coding
      | none => if Http.Coding.identityQuality accept > 0 then .identity else .nothing

/-- What a handler asks compression to do with one response. -/
inductive Encoding where
  | automatic
  | disabled
  | required
  deriving DecidableEq, Repr

/-! ## Bodies -/

/-- The body the chain produced: its exact length where it is known, the frames
a read finds, and the error the read ends with, if it does. -/
structure Produced (Error : Type) where
  exactLength : Option Nat
  frames : List Frame
  failure : Option Error

/-- A body that is sent. -/
inductive Sent (Error : Type) where
  | produced (body : Produced Error)
  | fromBytes (octets : Octets)
  | failedAfter (arrived : Octets) (error : Error)
  | streamed (body : Produced Error) (coding : Coding) (latency : LatencyMode)

variable {Error : Type}

namespace Produced

/-- What polls for a frame find, one after another. -/
def answers (body : Produced Error) : List (Answer Error) :=
  body.frames.map (fun frame => .ready (some (.ok frame))) ++
    [.ready (body.failure.map .error)]

/-- The octets read to the end, or the error. -/
def collect (body : Produced Error) : Except Error Octets :=
  match body.failure with
  | none => .ok (dataOf body.answers)
  | some error => .error error

end Produced

/-! ## Responses -/

/-- What the chain produced, and the policy its extensions state. -/
structure Continued (Error : Type) extends Response (Produced Error) where
  extension : Option Encoding

/-- The refusal of every representation there is, a 406. -/
inductive NotAcceptable where
  | notAcceptable

/-- What compression sets on a response: the coding applied, and the encoded
length where it is known. -/
structure ContentEncoding where
  coding : Option Coding
  length : Option Nat

namespace ContentEncoding

/-- What is set on a response left as it is. -/
def none : ContentEncoding :=
  ⟨.none, .none⟩

/-- The field names that vary every response. -/
def varies : List Text :=
  [Header.acceptEncoding]

/-- The fields, in order. -/
def encode (this : ContentEncoding) : List (Text × HeaderValue) :=
  match this.coding with
  | .none => []
  | some coding =>
      (Header.contentEncoding, coding.fieldValue) ::
        (this.length.map fun length => (Header.contentLength, decimal length)).toList

/-- Writes the fields, each in place of what its name had, and what varies. -/
def write (this : ContentEncoding) (headers : HeaderMap) : HeaderMap :=
  varyOn (this.encode.foldl (fun headers field => headers.insert field.1 field.2) headers) varies

end ContentEncoding

/-- Whether the response carries a strong validator. -/
def stronglyTagged (headers : HeaderMap) : Bool :=
  match (headers.get Header.etag).bind HeaderValue.toStr with
  | none => false
  | some tag => !ETag.isWeak (Text.trim tag)

/-- Whether a response is already encoded, or one a byte range is or may be
calculated against. -/
def leaveAlone (response : Response (Produced Error)) : Bool :=
  response.headers.containsKey Header.contentEncoding ||
    stronglyTagged response.headers ||
    response.headers.containsKey Header.acceptRanges ||
    (response.status == 206 || response.status == 416) ||
    response.headers.containsKey Header.contentRange

/-- The coding a response is to be encoded with, if it is; the policy outranks
negotiation in both directions. -/
def chosen (negotiated : Negotiated) (policy : Encoding) (refused : Bool) :
    Except NotAcceptable (Option Coding) :=
  let otherwise : Except NotAcceptable (Option Coding) :=
    if policy = .required then .error .notAcceptable else .ok none
  match negotiated with
  | .encode coding => if !refused then .ok (some coding) else otherwise
  | .unstated => if !refused && policy = .required then .ok (some .zstd) else otherwise
  | .identity => otherwise
  | .nothing => otherwise

end Compression

open Kynos.Compression

/-- The interceptor: the smallest response worth encoding, and how eagerly a
streamed body is handed on. -/
structure Compression where
  minSize : Nat
  latency : LatencyMode
  deriving DecidableEq, Repr

namespace Compression

variable {Error : Type}

/-- The smallest body encoded by default. -/
def defaultMinSize : Nat :=
  2048

/-- Every coding, for bodies of at least the default size. -/
def new : Compression :=
  ⟨defaultMinSize, .interactive⟩

/-- Whether a body of this length is encoded. -/
def worthEncoding (this : Compression) (policy : Encoding) : Option Nat → Bool
  | some length => length > 0 && (length ≥ this.minSize || policy = .required)
  | none => true

/-- A response of known length: encoded, sent as it is where the encoder fails,
or failing where the read does. -/
def buffered (encode : Coding → Octets → Option Octets) (continued : Continued Error)
    (coding : Coding) : Response (Sent Error) :=
  match continued.body.collect with
  | .ok octets =>
      match encode coding octets with
      | some encoded =>
          ⟨continued.status,
            (ContentEncoding.mk (some coding) (some encoded.length)).write continued.headers,
            .fromBytes encoded⟩
      | none =>
          ⟨continued.status, ContentEncoding.none.write continued.headers, .fromBytes octets⟩
  | .error error =>
      ⟨continued.status, ContentEncoding.none.write continued.headers, .failedAfter [] error⟩

/-- A response left as it is. -/
def leave (continued : Continued Error) : Response (Sent Error) :=
  ⟨continued.status, ContentEncoding.none.write continued.headers, .produced continued.body⟩

/-- Decides whether to encode what the chain produced, and encodes it. -/
def settle (encode : Coding → Octets → Option Octets) (this : Compression)
    (continued : Continued Error) (negotiated : Negotiated) :
    Except NotAcceptable (Response (Sent Error)) :=
  let policy := continued.extension.getD .automatic
  let refused := policy = .disabled || leaveAlone continued.toResponse
  match chosen negotiated policy refused with
  | .error refusal => .error refusal
  | .ok none => .ok (leave continued)
  | .ok (some coding) =>
      if !this.worthEncoding policy continued.body.exactLength then
        if policy = .required then .error .notAcceptable else .ok (leave continued)
      else if continued.body.exactLength = none then
        .ok ⟨continued.status,
          (ContentEncoding.mk (some coding) none).write
            (continued.headers.remove Header.contentLength),
          .streamed continued.body coding this.latency⟩
      else
        .ok (buffered encode continued coding)

/-- Compresses what the rest of the chain answers a request. -/
def intercept (encode : Coding → Octets → Option Octets) (this : Compression)
    (headers : HeaderMap) (next : HeaderMap → Continued Error) :
    Except NotAcceptable (Response (Sent Error)) :=
  let negotiated := negotiate headers
  if negotiated = .nothing then .error .notAcceptable
  else this.settle encode (next headers) negotiated

end Compression

end Kynos

namespace Kynos.Compression

open Kynos.Http Kynos.Http.Coding

/-- A coding that is preferred of those there are names one. -/
theorem exists_fromToken_of_preferred {accept token : Text}
    (found : preferred accept (Coding.all.map Coding.token) = some token) :
    ∃ coding, Coding.fromToken token = some coding := by
  obtain ⟨entry, thousandths, prefers⟩ := preferred_eq_some found
  obtain ⟨before, after, split, -⟩ := prefers.earliest
  have member : token ∈ Coding.all.map Coding.token := by
    rw [split]
    exact List.mem_append_right _ List.mem_cons_self
  obtain ⟨coding, -, rfl⟩ := List.mem_map.mp member
  exact ⟨coding, Coding.fromToken_token coding⟩

/-- Nothing is acceptable exactly where every coding is passed over and identity
is excluded. -/
theorem negotiate_eq_nothing_iff {headers : HeaderMap} :
    negotiate headers = .nothing ↔
      ∃ accept, fieldLines headers Header.acceptEncoding = some accept ∧
        (∀ coding : Coding, PassedOver accept coding.token) ∧ IdentityExcluded accept := by
  rw [negotiate]
  cases lines : fieldLines headers Header.acceptEncoding with
  | none => simp
  | some accept =>
      have codings : (∀ coding : Coding, PassedOver accept coding.token) ↔
          preferred accept (Coding.all.map Coding.token) = none := by
        rw [preferred_eq_none_iff, List.forall_mem_map]
        exact ⟨fun passed coding _ => passed coding,
          fun passed coding => passed coding (by cases coding <;> decide)⟩
      simp only [Option.some.injEq, exists_eq_left', codings, ← identityQuality_eq_zero_iff]
      cases found : preferred accept (Coding.all.map Coding.token) with
      | some token =>
          obtain ⟨coding, named⟩ := exists_fromToken_of_preferred found
          simp [named]
      | none =>
          simp only [Option.bind_none, true_and]
          split
          next positive => simp; omega
          next zero => simp; omega

/-- The coding that is preferred of those on offer is the earliest that no other
outweighs; where none is, each is passed over; and nothing at all is acceptable
where, besides, identity is excluded. -/
theorem preferred_exact (accept : Text) (available : List Text) (headers : HeaderMap) :
    (∀ token, preferred accept available = some token →
      ∃ entry thousandths, Prefers accept available token entry thousandths) ∧
    (preferred accept available = none ↔ ∀ token ∈ available, PassedOver accept token) ∧
    (negotiate headers = .nothing ↔
      ∃ accept, fieldLines headers Header.acceptEncoding = some accept ∧
        (∀ coding : Coding, PassedOver accept coding.token) ∧ IdentityExcluded accept) :=
  ⟨fun _ => preferred_eq_some, preferred_eq_none_iff, negotiate_eq_nothing_iff⟩

end Kynos.Compression
