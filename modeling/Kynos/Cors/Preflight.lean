import Kynos.Http.Vary
import Kynos.Numeral.Unsigned
import Kynos.Router.Fallback
import Kynos.Router.Method

/-!
# Preflights

What one path answers a browser's preflight with, once one or more `Cors` cover
it, and what a `Cors` permits.
-/

namespace Kynos.Http.Header

def accessControlAllowCredentials : Text := "access-control-allow-credentials".toList
def accessControlAllowHeaders : Text := "access-control-allow-headers".toList
def accessControlAllowMethods : Text := "access-control-allow-methods".toList
def accessControlAllowOrigin : Text := "access-control-allow-origin".toList
def accessControlMaxAge : Text := "access-control-max-age".toList
def accessControlRequestHeaders : Text := "access-control-request-headers".toList
def accessControlRequestMethod : Text := "access-control-request-method".toList
def origin : Text := "origin".toList

end Kynos.Http.Header

namespace Kynos.Cors

open Kynos.Http Kynos.Numeral Kynos.Router

/-! ## Configurations -/

/-- The places a configuration can say "any". -/
structure Wildcards where
  origin : Bool
  header : Bool

/-- What a `Cors` was configured with, as far as a preflight reads it. -/
structure CorsConfig where
  origins : List Text
  predicates : List (Text → Bool)
  any : Wildcards
  credentials : Bool
  methods : Option (List Router.Method)
  headers : List Text
  maxAge : Option Duration

namespace CorsConfig

/-- Whether an origin is one of the permitted ones. -/
def permits (config : CorsConfig) (origin : HeaderValue) : Bool :=
  config.any.origin ||
    match origin.toStr with
    | none => false
    | some origin =>
        config.origins.any (Text.eqIgnoreAsciiCase · origin) ||
          config.predicates.any fun permits => permits origin

/-- A field value that is a star. -/
def starValue : HeaderValue :=
  ⟨Text.toOctets "*".toList, by decide⟩

/-- The `Access-Control-Allow-Origin` value answering a permitted origin. -/
def allowOriginValue (config : CorsConfig) (origin : HeaderValue) : HeaderValue :=
  if config.any.origin && !config.credentials then starValue else origin

end CorsConfig

/-! ## Scopes -/

/-- Whether methods name the one a preflight proposed, in any case. -/
def names (methods : List Router.Method) (proposed : HeaderValue) : Bool :=
  methods.any fun method =>
    Octets.eqIgnoreAsciiCase proposed.octets (Text.toOctets method.asWireStr)

/-- One `Cors` covering a path, the methods on that path it covers, and those it
advertises. -/
structure Scope where
  config : CorsConfig
  covered : List Router.Method
  advertised : List Router.Method

namespace Scope

/-- The scope of a configuration: it advertises what it covers, unless it was
told otherwise. -/
def new (config : CorsConfig) (covered : List Router.Method) : Scope :=
  ⟨config, covered, config.methods.getD covered⟩

def covers (scope : Scope) (proposed : HeaderValue) : Bool :=
  names scope.covered proposed

def overridesFor (scope : Scope) (proposed : HeaderValue) : Bool :=
  scope.config.methods.any (names · proposed)

end Scope

/-! ## The answer of a path -/

/-- What a path answers an `OPTIONS` request with. -/
structure Preflight where
  scopes : List Scope
  served : List Router.Method
  allow : Option HeaderValue
  fallback : FallbackPolicy
  acceptQuery : Option HeaderValue

namespace Preflight

/-- The methods the path serves under no `Cors`. -/
def uncovered (scopes : List Scope) (served : List Router.Method) : List Router.Method :=
  served.filter fun method => !scopes.any fun scope => scope.covered.contains method

/-- The answer for one path; no scope advertises a method the path serves under
no `Cors`. -/
def new (scopes : List Scope) (served : List Router.Method) (allow : Option HeaderValue)
    (fallback : FallbackPolicy) (acceptQuery : Option HeaderValue) : Preflight where
  scopes := scopes.map fun scope =>
    { scope with
      advertised := scope.advertised.filter fun method =>
        !(uncovered scopes served).contains method }
  served := served
  allow := allow
  fallback := fallback
  acceptQuery := acceptQuery

/-- The scope that answers a preflight proposing a method: the one that covers
it, or for a method the path does not serve the first whose override names it. -/
def scopeFor (preflight : Preflight) (method : HeaderValue) : Option Scope :=
  match preflight.scopes.find? (·.covers method) with
  | some covering => some covering
  | none =>
      if names preflight.served method then
        none
      else
        preflight.scopes.find? (·.overridesFor method)

/-- What the answer depends on. -/
def varies : List Text :=
  ["origin".toList, "access-control-request-method".toList,
    "access-control-request-headers".toList]

def advertisedMethods (methods : List Router.Method) : Option HeaderValue :=
  joinNames (methods.map Router.Method.asWireStr)

/-- `*, authorization`. -/
def anyHeaderValue : HeaderValue :=
  ⟨Text.toOctets "*, authorization".toList, by decide⟩

def advertisedHeaders (config : CorsConfig) (request : HeaderMap) : Option HeaderValue :=
  if config.any.header then
    if config.credentials then
      request.get Header.accessControlRequestHeaders
    else
      some anyHeaderValue
  else
    joinNames config.headers

/-- A field in place of any it had, where there is a value for it. -/
def insertSome (fields : HeaderMap) (name : Text) (value : Option HeaderValue) : HeaderMap :=
  match value with
  | none => fields
  | some value => fields.insert name value

/-- `true`. -/
def trueValue : HeaderValue :=
  ⟨Text.toOctets "true".toList, by decide⟩

/-- The fields a permitted origin is answered with. -/
def permission (scope : Scope) (origin : HeaderValue) (request fields : HeaderMap) : HeaderMap :=
  let config := scope.config
  let fields := fields.insert Header.accessControlAllowOrigin (config.allowOriginValue origin)
  let fields := insertSome fields Header.accessControlAllowCredentials
    (if config.credentials then some trueValue else none)
  let fields := insertSome fields Header.accessControlAllowMethods
    (advertisedMethods scope.advertised)
  let fields := insertSome fields Header.accessControlAllowHeaders
    (advertisedHeaders config request)
  insertSome fields Header.accessControlMaxAge
    (config.maxAge.bind fun age => HeaderValue.fromStr (Text.decimal (Duration.wholeSeconds age)))

variable {Stream : Type}

/-- The dispatcher's own answer, for an `OPTIONS` that is not a preflight. -/
def notAPreflight (preflight : Preflight) : Response (Content Stream) :=
  match preflight.allow, preflight.acceptQuery with
  | some allow, some acceptQuery => optionsAnswer allow acceptQuery
  | allow, _ => methodRefusal allow preflight.fallback

/-- The answer to a preflight of an origin that proposes a method. -/
def answerTo (preflight : Preflight) (origin method : HeaderValue) (request : HeaderMap) :
    Response (Content Stream) :=
  let fields := varyOn HeaderMap.empty varies
  match preflight.scopeFor method with
  | none => ⟨204, fields, .empty⟩
  | some scope =>
      if scope.config.permits origin then
        ⟨204, permission scope origin request fields, .empty⟩
      else
        ⟨204, fields, .empty⟩

/-- The answer to an `OPTIONS` request: one that lacks its origin or the method
it proposes is not a preflight. -/
def answer (preflight : Preflight) (request : HeaderMap) : Response (Content Stream) :=
  match request.get Header.origin, request.get Header.accessControlRequestMethod with
  | some origin, some method => preflight.answerTo origin method request
  | _, _ => preflight.notAPreflight

theorem status_answerTo (preflight : Preflight) (origin method : HeaderValue)
    (request : HeaderMap) :
    (preflight.answerTo origin method request : Response (Content Stream)).status = 204 := by
  unfold answerTo
  split
  · rfl
  · split <;> rfl

end Preflight

end Kynos.Cors
