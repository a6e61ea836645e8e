import Kynos.Http.Date
import Kynos.Http.Disposition
import Kynos.Http.ETag
import Kynos.Http.Problem
import Kynos.Range.Select
import Kynos.Range.Source

/-!
# Delivering a representation from a byte source

The conditional and ranged algorithm of RFC 9110, in the order section 13.2.2
puts it: `If-Match`, else `If-Unmodified-Since`; then `If-None-Match`, else
`If-Modified-Since`; then `If-Range` and the `Range` field it guards; then send.
-/

namespace Kynos.Range

open Kynos.Http Kynos.Numeral

/-! ## The response fields of a ranged answer -/

/-- Which part of a representation a response carries, or how long the whole of
it is. -/
inductive ContentRange where
  | satisfied (first last completeLength : Nat)
  | unsatisfied (completeLength : Nat)
  deriving DecidableEq, Repr

namespace ContentRange

/-- The field value. -/
def fieldValue : ContentRange → Text
  | .satisfied first last completeLength =>
      "bytes ".toList ++ Text.decimal first ++ ['-'] ++ Text.decimal last ++ ['/'] ++
        Text.decimal completeLength
  | .unsatisfied completeLength => "bytes */".toList ++ Text.decimal completeLength

/-- The field as it is sent. -/
def encode (field : ContentRange) : Option HeaderValue :=
  HeaderValue.fromStr field.fieldValue

end ContentRange

/-- `Accept-Ranges: bytes`. -/
def acceptRanges : HeaderValue :=
  ⟨unit.toOctets, by decide⟩

variable {Stream Error : Type}

/-- Marks a response as carrying a selection. -/
def writeSelection (response : Response (Content Stream)) (selection : Selection) :
    Option (Response (Content Stream)) :=
  let fields := response.headers.insert Header.acceptRanges acceptRanges
  match selection with
  | .whole _ => some { response with headers := fields }
  | .part first last completeLength =>
      (ContentRange.satisfied first last completeLength).encode.map fun value =>
        { response with status := 206, headers := fields.insert Header.contentRange value }

/-- The 416 a rejection is sent as. -/
def RangeRejection.intoResponse : RangeRejection → Response (Content Stream)
  | .notSatisfiable completeLength =>
      let response :=
        Problem.intoResponse ⟨416, some "no requested range is satisfiable".toList⟩
      match (ContentRange.unsatisfied completeLength).encode with
      | none => refused
      | some value =>
          { response with headers := response.headers.insert Header.contentRange value }

/-! ## The request -/

/-- The request fields a ranged delivery reads, and the method. -/
structure Conditions where
  method : Method
  fields : HeaderMap

/-- The fields that are kept. -/
def readNames : List Text :=
  [Header.range, Header.ifRange, Header.ifMatch, Header.ifUnmodifiedSince, Header.ifNoneMatch,
    Header.ifModifiedSince]

/-- Only the fields that are read, every line of each. -/
def Conditions.fromRequestParts (method : Method) (headers : HeaderMap) : Conditions where
  method := method
  fields := ⟨readNames.flatMap fun name => (headers.getAll name).map fun value => (name, value)⟩

/-- Whether a method is a retrieval its cache validators answer with 304. -/
def validated (method : Method) : Bool :=
  method = Method.get || method = Method.head || method = Method.query

/-- The HTTP-date a name carries, where it is sent on exactly one line holding
one. -/
def singleDate (fields : HeaderMap) (name : Text) : Option Date.SystemTime :=
  match fields.getAll name with
  | [line] => line.toStr.bind Date.parse
  | _ => none

/-- Whole seconds since the epoch, or zero for anything before it, whose natural
part is zero. -/
def seconds (time : Date.SystemTime) : Nat :=
  time.toNat / Date.nanosecond

/-! ## The representation -/

/-- A representation, ready to be delivered from its source. -/
structure Served (Error : Type) where
  source : ByteSource Error
  etag : Option ETag
  lastModified : Option Date.SystemTime
  cacheControl : Option Text
  disposition : Option ContentDisposition

/-- The content a delivery streams: the source, and the spans read from it. -/
abbrev Delivered (Error : Type) := ByteSource Error × Spans

/-- A length as a `Content-Length` value. -/
def decimal (length : Nat) : HeaderValue :=
  ⟨(Text.decimal length).toOctets, by
    obtain ⟨value, sent, -⟩ :=
      HeaderValue.exists_fromStr (HeaderValue.isTextCharacter_of_mem_decimal length)
    unfold HeaderValue.fromStr HeaderValue.fromBytes at sent
    split at sent
    · assumption
    · contradiction⟩

namespace Served

/-- The status and the range fields a selection frames, or the 304 where there
is none. -/
def framed (selection : Option Selection) : Option (Response (Content Stream)) :=
  match selection with
  | some selection => writeSelection ⟨200, HeaderMap.empty, .empty⟩ selection
  | none => some ⟨304, HeaderMap.empty, .empty⟩

/-- The fields that label a representation, where one is carried. -/
def labelled (served : Served Error) (selection : Option Selection)
    (contentType : Option HeaderValue) (fields : HeaderMap) : Option HeaderMap :=
  match selection with
  | none => some fields
  | some _ =>
      match contentType with
      | none => none
      | some contentType =>
          let fields := fields.insert Header.contentType contentType
          match served.disposition with
          | none => some fields
          | some disposition =>
              disposition.encode.map fun value => fields.insert Header.contentDisposition value

/-- The validators: the tag, and the modification instant where it can be
spelled. -/
def validators (served : Served Error) (tag : Option HeaderValue) (fields : HeaderMap) :
    HeaderMap :=
  let fields :=
    match tag with
    | some tag => fields.insert Header.etag tag
    | none => fields
  match (served.lastModified.bind Date.format).bind HeaderValue.fromStr with
  | some value => fields.insert Header.lastModified value
  | none => fields

/-- How long the representation may be reused, where it says so. -/
def cached (served : Served Error) (fields : HeaderMap) : Option HeaderMap :=
  match served.cacheControl with
  | none => some fields
  | some value =>
      (HeaderValue.fromStr value).map fun value => fields.insert Header.cacheControl value

/-- The length of what is sent. -/
def sized (selection : Option Selection) (completeLength : Nat) (fields : HeaderMap) :
    HeaderMap :=
  match selection with
  | some (.part first last _) => fields.insert Header.contentLength (decimal (last - first + 1))
  | some (.whole _) => fields.insert Header.contentLength (decimal completeLength)
  | none => fields

/-- The response fields: the 200 or 206 a selection frames, or the 304 where
there is none; `none` where a field cannot be encoded. -/
def head (served : Served Error) (selection : Option Selection) (completeLength : Nat)
    (tag contentType : Option HeaderValue) : Option (Response (Content Stream)) := do
  let response ← framed selection
  let fields ← served.labelled selection contentType response.headers
  let fields ← served.cached (served.validators tag fields)
  some { response with headers := sized selection completeLength fields }

/-- Whether section 13.2.2's first two steps refuse the request. -/
def preconditionFailed (served : Served Error) (conditions : Conditions)
    (current : Option Text) : Bool :=
  match ETag.ifMatch conditions.fields current with
  | some holds => !holds
  | none =>
      match served.lastModified, singleDate conditions.fields Header.ifUnmodifiedSince with
      | some modified, some since => seconds modified > seconds since
      | _, _ => false

/-- Whether section 13.1's preconditions say the client's copy is current. -/
def unmodified (served : Served Error) (conditions : Conditions) (current : Option Text) : Bool :=
  match ETag.ifNoneMatch conditions.fields current with
  | some named => named
  | none =>
      if !validated conditions.method then
        false
      else
        match served.lastModified, singleDate conditions.fields Header.ifModifiedSince with
        | some modified, some since => seconds modified ≤ seconds since
        | _, _ => false

/-- The first and the last octet a selection sends of a representation that is
not empty. -/
def enclosed (selection : Selection) (completeLength : Nat) : Nat × Nat :=
  match selection with
  | .whole _ => (0, completeLength - 1)
  | .part first last _ => (first, last)

/-- The 200 or 206 of a selection, its content only under the fields that
describe it. -/
def send (served : Served Error) (method : Method) (selection : Selection) (completeLength : Nat)
    (tag contentType : Option HeaderValue) : Response (Content (Delivered Error)) :=
  let (first, last) := enclosed selection completeLength
  match served.head (some selection) completeLength tag contentType with
  | none => refused
  | some response =>
      if method ≠ Method.head ∧ completeLength > 0 then
        { response with body := .stream (served.source, Spans.new first last) }
      else
        response

/-- Section 13.2.2's algorithm, once the tag is encoded. -/
def answerTagged (served : Served Error) (conditions : Conditions)
    (tag contentType : Option HeaderValue) :
    Except Error (Response (Content (Delivered Error))) :=
  let current := tag.bind HeaderValue.toStr
  match served.source.completeLength with
  | .error error => .error error
  | .ok completeLength =>
      if served.preconditionFailed conditions current then
        .ok (bodiless 412)
      else if served.unmodified conditions current then
        if !validated conditions.method then
          .ok (bodiless 412)
        else
          .ok ((served.head none completeLength tag contentType).getD refused)
      else
        match select (read conditions.method conditions.fields current) completeLength with
        | .error rejection => .ok rejection.intoResponse
        | .ok selection =>
            .ok (served.send conditions.method selection completeLength tag contentType)

/-- Section 13.2.2's algorithm, labelling a 200 or 206 `contentType`. A tag that
cannot be spelled is refused before any precondition reads it. -/
def answer (served : Served Error) (conditions : Conditions) (contentType : Option HeaderValue) :
    Except Error (Response (Content (Delivered Error))) :=
  match served.etag.map ETag.encode with
  | some none => .ok refused
  | some (some tag) => served.answerTagged conditions (some tag) contentType
  | none => served.answerTagged conditions none contentType

/-- Answers a request head, labelling a 200 or 206 `contentType`. -/
def deliver (served : Served Error) (method : Method) (headers : HeaderMap)
    (contentType : Option HeaderValue) :
    Except Error (Response (Content (Delivered Error))) :=
  served.answer (Conditions.fromRequestParts method headers) contentType

end Served

end Kynos.Range
