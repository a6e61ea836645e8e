import Kynos.Cache.Store

/-!
# Serving from a store

What a cache does with one request: a response it holds is served, or the chain
is run, what its answer invalidates is dropped, and the answer is stored where
the rules let it be.
-/

namespace Kynos.Cache

open Kynos.Http Kynos.Numeral
open Kynos.Http.Date (SystemTime)

/-! ## Bodies -/

/-- A body, as far as a cache reads it: the length it states, and the octets it
reads as, unless reading it fails. -/
structure Body where
  exactLength : Option Nat
  collected : Option Octets
  deriving DecidableEq

namespace Body

def fromBytes (bytes : Octets) : Body :=
  ⟨some bytes.length, some bytes⟩

/-- A body that fails before any octet of it arrives. -/
def failed : Body :=
  ⟨none, none⟩

end Body

/-- A body read whole, or handed back unread where its length is unknown or past
the limit. -/
def bounded (body : Body) (limit : Nat) : Except Body Octets :=
  match body.exactLength with
  | none => .error body
  | some length =>
      if limit < length then
        .error body
      else
        match body.collected with
        | some bytes => .ok bytes
        | none => .error .failed

/-! ## Exchanges -/

/-- The part of a request that a cache reads: its target is its path and query,
exactly as it arrived. -/
structure Request where
  method : Http.Method
  authority : Option Text
  target : Text
  headers : HeaderMap

/-- What routing recorded of a request an operation answers: whether that is
secured, where a router dispatched it. -/
structure Routed where
  secured : Option Bool

/-- The readings of the clock while one request is handled: as each candidate is
examined, as a stored response is served, as the rules are applied, and as a
response is recorded. -/
structure Clock where
  examined : Nat → SystemTime
  served : SystemTime
  received : SystemTime
  recorded : SystemTime

/-- One request, what routing made of it, what the chain answers if it is run,
and when. -/
structure Exchange where
  request : Request
  routed : Option Routed
  answer : Response Body
  clock : Clock

/-- What is handed back: a stored response replayed, or the answer of the chain. -/
inductive Outcome where
  | served (stored : StoredResponse) (response : Response Body)
  | forwarded (response : Response Body)

def Outcome.response : Outcome → Response Body
  | .served _ response => response
  | .forwarded response => response

/-! ## Keys -/

/-- The request's own authority, from the target or from `Host`. -/
def ownAuthority (headers : HeaderMap) (authority : Option Text) : Option Text :=
  ((((authority.or ((headers.get Header.host).bind HeaderValue.toStr)).map Text.trim).filter
    (· ≠ []))).map Text.toAsciiLowercase

end Kynos.Cache

/-- A cache: what it prefixes keys with, how large a stored body may be, the
lifetime of a response that stated none, and whether it derives entity tags. -/
structure Kynos.Cache where
  nameSpace : Text
  maxBodyBytes : Nat
  defaultFreshness : Option Numeral.Duration
  derives : Bool

namespace Kynos.Cache

open Kynos.Http Kynos.Numeral
open Kynos.Http.Date (SystemTime)

/-- What a request is filed under, for the operation at a path. -/
def primaryKey (cache : Cache) (keyed : Router.Method) (request : Request) (route : Text) :
    PrimaryKey where
  nameSpace := cache.nameSpace
  method := keyed
  authority := ownAuthority request.headers request.authority
  route := route
  target := request.target

/-- Whether a method is safe. -/
def isSafe (method : Http.Method) : Bool :=
  [Method.get, Method.head, Method.options, "TRACE".toList, Method.query].contains method

/-- Whether a status is a success or a redirection. -/
def isNonError (status : Nat) : Bool :=
  decide (200 ≤ status ∧ status < 400)

/-! ## Entity tags and ages -/

/-- A number in hexadecimal, of at least sixteen digits. -/
def hexadecimal (number : Nat) : Text :=
  let digits := Nat.toDigits 16 number
  List.replicate (16 - digits.length) '0' ++ digits

/-- A strong entity tag over a body: FNV-1a with the length folded in. -/
def derivedEtag (body : Octets) : Text :=
  let offset : UInt64 := 0xcbf29ce484222325
  let prime : UInt64 := 0x100000001b3
  let hashed := body.foldl (fun hash octet => (hash ^^^ octet.toUInt64) * prime) offset
  let folded := (hashed ^^^ UInt64.ofNat body.length) * prime
  '"' :: hexadecimal folded.toNat ++ ['"']

/-- The entity tag sent beside fields and a body: the one they carry, where it is
visible ASCII, else a derived one. -/
def tag (derives : Bool) (headers : HeaderMap) (body : Octets) : Option HeaderValue :=
  if derives then
    ((headers.get Header.etag).filter fun value => value.toStr.isSome).or
      (HeaderValue.fromStr (derivedEtag body))
  else
    none

/-- Fields with one set, where there is a value for it. -/
def written (fields : HeaderMap) (name : Text) (value : Option HeaderValue) : HeaderMap :=
  match value with
  | none => fields
  | some value => fields.insert name value

/-- A response with the group a cache adds. -/
def added (response : Response Body) (age : Duration) (etag : Option HeaderValue) :
    Response Body :=
  { response with
    headers := written
      (written response.headers Header.age
        (HeaderValue.fromStr (Text.decimal (age / 1000000000)))) Header.etag etag }

/-- A stored response, replayed. -/
def replayed (cache : Cache) (stored : StoredResponse) (now : SystemTime) : Response Body :=
  added ⟨stored.status, stored.headers, Body.fromBytes stored.body⟩ (stored.ageAt now)
    (tag cache.derives stored.headers stored.body)

/-! ## One request -/

/-- The first response that is fresh when it is examined. -/
def findFresh (examined : Nat → SystemTime) : List StoredResponse → Option StoredResponse
  | [] => none
  | stored :: rest =>
      if stored.isFreshAt (examined 0) then some stored
      else findFresh (fun reading => examined (reading + 1)) rest

/-- The stored response a request is answered with: one it selects, that may be
served to it and is fresh. -/
def lookup (candidates : List StoredResponse) (secured : Bool) (exchange : Exchange) :
    Option StoredResponse :=
  if (Requested.of exchange.request.headers).forbidsReuse then
    none
  else
    findFresh exchange.clock.examined
      ((candidates.filter fun stored => stored.selectedBy exchange.request.headers).filter
        fun stored => !secured || servableWhenSecured stored.headers)

/-- Whether storing a response would risk serving one origin's answer to
another. -/
def refusesCrossOrigin (headers : HeaderMap) (vary : List Text) : Bool :=
  headers.lines.any (fun line => "access-control-".toList.isPrefixOf line.1) &&
    !vary.contains "origin".toList

/-- What the answer of the chain becomes: what is handed back, and what is
stored. -/
def kept (cache : Cache) (secured : Bool) (exchange : Exchange) :
    Response Body × Option StoredResponse :=
  let answer := exchange.answer
  match storable exchange.request.method answer.status (Requested.of exchange.request.headers)
      answer.headers secured cache.defaultFreshness exchange.clock.received with
  | .error _ => (added answer 0 none, none)
  | .ok (freshness, vary) =>
      match bounded answer.body cache.maxBodyBytes with
      | .error unbuffered => (added { answer with body := unbuffered } 0 none, none)
      | .ok bytes =>
          let headers := strip answer.headers
          let response :=
            added { answer with body := Body.fromBytes bytes } 0 (tag cache.derives headers bytes)
          if refusesCrossOrigin headers vary then
            (response, none)
          else
            (response, some (StoredResponse.recordedOf exchange.clock.recorded answer.status headers
              bytes vary exchange.request.headers freshness))

section Intercept

variable {State : Type} (cache : Cache) (store : CacheStore State) (template : Text → Text)

/-- A store without what the URI of a key has stored. -/
def invalidated (state : State) (key : PrimaryKey) : State :=
  store.invalidate (store.invalidate state { key with method := .get }) { key with method := .head }

/-- A request is run past the store: what its answer invalidates is dropped, and
the answer is stored where it may be. -/
def run (state : State) (key : PrimaryKey) (secured : Bool) (exchange : Exchange) :
    State × Outcome :=
  let method := exchange.request.method
  let state :=
    if !isSafe method && isNonError exchange.answer.status then invalidated store state key else state
  if storableMethod method && !(Requested.of exchange.request.headers).forbidsStoring then
    let (response, stored) := kept cache secured exchange
    match stored with
    | some stored => (store.put state key stored, .forwarded response)
    | none => (state, .forwarded response)
  else
    (state, .forwarded (added exchange.answer 0 none))

/-- What a request is filed under, where an operation answers it. The path an
operation is declared at is a matter of the target it is reached by. -/
def keyOf (exchange : Exchange) : Option PrimaryKey :=
  match exchange.routed, Router.Method.fromWireStr exchange.request.method with
  | some _, some keyed =>
      some (primaryKey cache keyed exchange.request (template exchange.request.target))
  | _, _ => none

/-- Whether the operation that answers a request is secured, where that is known. -/
def Exchange.secured (exchange : Exchange) : Bool :=
  (exchange.routed.bind Routed.secured).getD true

/-- `Cache::intercept`: a request no operation answers is passed on untouched. -/
def intercept (state : State) (exchange : Exchange) : State × Outcome :=
  match keyOf cache template exchange with
  | none => (state, .forwarded exchange.answer)
  | some key =>
      match lookup (store.get state key) exchange.secured exchange with
      | some stored => (state, .served stored (replayed cache stored exchange.clock.served))
      | none => run cache store state key exchange.secured exchange

end Intercept

end Kynos.Cache
