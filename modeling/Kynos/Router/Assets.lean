import Kynos.Http.Coding
import Kynos.Http.Lists
import Kynos.Range.Served

/-!
# Serving files compiled into the binary

One file, served at one path: the form of it a request gets, the conditions and
the range read against this form's strong tag, and the response fields.
-/

namespace Kynos.Router.Assets

open Kynos.Http Kynos.Numeral Kynos.Range

/-! ## Files -/

/-- One stored content coding of a file, with a validator of its own. -/
structure Encoded where
  coding : Text
  bytes : Octets
  etag : Text
  deriving DecidableEq, Repr

/-- One file an asset set serves. A slice has no more octets than an address
counts. -/
structure Asset where
  path : Text
  bytes : Octets
  bounded : bytes.length ≤ u64Max
  etag : Text
  encodings : List Encoded

/-- Every extension the built-in table names. -/
def extensions : List (String × String) :=
  [(".atom", "application/atom+xml"), (".avif", "image/avif"), (".bmp", "image/bmp"),
    (".css", "text/css; charset=utf-8"), (".csv", "text/csv; charset=utf-8"),
    (".eot", "application/vnd.ms-fontobject"), (".gif", "image/gif"), (".gz", "application/gzip"),
    (".htm", "text/html; charset=utf-8"), (".html", "text/html; charset=utf-8"),
    (".ico", "image/vnd.microsoft.icon"), (".jpeg", "image/jpeg"), (".jpg", "image/jpeg"),
    (".js", "text/javascript; charset=utf-8"), (".json", "application/json"),
    (".map", "application/json"), (".md", "text/markdown; charset=utf-8"),
    (".mjs", "text/javascript; charset=utf-8"), (".mp3", "audio/mpeg"), (".mp4", "video/mp4"),
    (".ogg", "audio/ogg"), (".otf", "font/otf"), (".pdf", "application/pdf"),
    (".png", "image/png"), (".rss", "application/rss+xml"), (".svg", "image/svg+xml"),
    (".ttf", "font/ttf"), (".txt", "text/plain; charset=utf-8"), (".wasm", "application/wasm"),
    (".wav", "audio/wav"), (".webm", "video/webm"),
    (".webmanifest", "application/manifest+json"), (".webp", "image/webp"),
    (".woff", "font/woff"), (".woff2", "font/woff2"), (".xml", "application/xml"),
    (".zip", "application/zip")]

/-- The longer extension, the later one of two as long. -/
def longer (best : Option (String × String)) (row : String × String) : Option (String × String) :=
  match best with
  | none => some row
  | some kept => if kept.1.length ≤ row.1.length then some row else best

/-- The media type a path's extension names, or `none`. -/
def forPath (path : Text) : Option Text :=
  let lowered := Text.toAsciiLowercase path
  let named := extensions.filter fun row => row.1.toList.isSuffixOf lowered
  (named.foldl longer none).map fun row => row.2.toList

/-- The media type, from the table. -/
def Asset.mediaType (asset : Asset) : Text :=
  (forPath asset.path).getD "application/octet-stream".toList

/-! ## Response fields -/

/-- The fields an asset response carries. -/
structure AssetHeaders where
  etag : Text
  cacheControl : Option HeaderValue
  coding : Option Text
  negotiable : Bool

namespace AssetHeaders

/-- The same group, as a 304 is allowed to carry it. -/
def notModified (group : AssetHeaders) : AssetHeaders :=
  { group with coding := none }

/-- The fields of the group; one that cannot be spelled is left out. -/
def encode (group : AssetHeaders) : List (Text × HeaderValue) :=
  ((HeaderValue.fromStr group.etag).map fun value => (Header.etag, value)).toList ++
    (group.cacheControl.map fun value => (Header.cacheControl, value)).toList ++
    ((group.coding.bind HeaderValue.fromStr).map fun value =>
      (Header.contentEncoding, value)).toList ++
    if group.negotiable then
      [(Header.vary, ⟨Header.acceptEncoding.toOctets, by decide⟩)]
    else
      []

end AssetHeaders

/-- Writes a group onto the fields of a response. -/
def write (fields : HeaderMap) (group : List (Text × HeaderValue)) : HeaderMap :=
  group.foldl (fun fields line => fields.insert line.1 line.2) fields

/-! ## Answers -/

/-- The 412 of an `If-Match` that fails for a file tagged `current`. -/
def preconditionFailed (fields : HeaderMap) (current : Option Text) :
    Option (Response (Content Octets)) :=
  match ETag.ifMatch fields current with
  | none => none
  | some true => none
  | some false => some (bodiless 412)

/-- The fields of a response that has a media type, where it can be sent. -/
def typed (mediaType : Text) : HeaderMap :=
  match HeaderValue.fromStr mediaType with
  | some value => HeaderMap.empty.insert Header.contentType value
  | none => HeaderMap.empty

/-- The response carrying a body, which is whatever the selection said to
send. -/
def assembled (body : Octets) (selection : Selection) (mediaType : Text)
    (headers : AssetHeaders) : Response (Content Octets) :=
  (writeSelection ⟨200, write (typed mediaType) headers.encode, .stream body⟩ selection).getD
    refused

/-- The octets a selection takes of those in hand. -/
def taken (octets : Octets) : Selection → Octets
  | .whole _ => octets
  | .part first last _ => clamped octets first last

/-- The whole representation, the part a `Range` asked for, or a 416. -/
def respond (octets : Octets) (mediaType : Text) (headers : AssetHeaders)
    (requested : Except Ignored (List Spec)) : Response (Content Octets) :=
  match select requested (min octets.length u64Max) with
  | .error rejection => rejection.intoResponse
  | .ok selection => assembled (taken octets selection) selection mediaType headers

/-- The form of an asset one request receives. -/
structure Representation where
  bytes : Octets
  etag : Text
  coding : Option Text
  deriving DecidableEq, Repr

/-- One file, served at one path. -/
structure AssetEndpoint where
  asset : Asset
  cacheControl : Option HeaderValue

namespace AssetEndpoint

/-- The group both a success and a 304 carry, for the representation chosen. -/
def headers (endpoint : AssetEndpoint) (chosen : Representation) : AssetHeaders where
  etag := chosen.etag
  cacheControl := endpoint.cacheControl
  coding := chosen.coding
  negotiable := !endpoint.asset.encodings.isEmpty

/-- The identity representation. -/
def identity (endpoint : AssetEndpoint) : Representation :=
  ⟨endpoint.asset.bytes, endpoint.asset.etag, none⟩

/-- The representation a request gets. -/
def choose (endpoint : AssetEndpoint) (fields : HeaderMap) : Representation :=
  if endpoint.asset.encodings.isEmpty then
    endpoint.identity
  else
    match fieldLines fields Header.acceptEncoding with
    | none => endpoint.identity
    | some accept =>
        match Coding.preferred accept (endpoint.asset.encodings.map Encoded.coding) with
        | none => endpoint.identity
        | some coding =>
            match endpoint.asset.encodings.find? fun encoded => encoded.coding = coding with
            | none => endpoint.identity
            | some encoded => ⟨encoded.bytes, encoded.etag, some encoded.coding⟩

/-- `call`: answers a request. -/
def call (endpoint : AssetEndpoint) (method : Method) (fields : HeaderMap) :
    Response (Content Octets) :=
  let chosen := endpoint.choose fields
  match preconditionFailed fields (some chosen.etag) with
  | some refusal => refusal
  | none =>
      if ETag.ifNoneMatch fields (some chosen.etag) = some true then
        { (bodiless 304 : Response (Content Octets)) with
          headers := write HeaderMap.empty (endpoint.headers chosen).notModified.encode }
      else
        respond chosen.bytes endpoint.asset.mediaType (endpoint.headers chosen)
          (read method fields (some chosen.etag))

end AssetEndpoint

end Kynos.Router.Assets
