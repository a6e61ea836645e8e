import Kynos.Cors.Preflight

/-!
# The route table

The runtime half of a built router: which operation answers a request, or why
none does. The match table is a parameter; it is only ever filled with the
places of the paths.

The paths as they were declared become entries with their `Allow`; the methods
the service implements are read off these; and then every path a `Cors` covers
gets the operation that answers preflights, unless it declares `OPTIONS` itself.
-/

namespace Kynos.Router

open Kynos.Http Kynos.Cors

/-- The part of a request that routing reads. -/
structure Request where
  method : Text
  path : Text
  query : Option Text
  headers : HeaderMap

/-- What an operation's chain ends in: its endpoint, or a preflight's answer. -/
inductive Terminal where
  | endpoint
  | preflight (preflight : Preflight)

variable {Mount : Type}

/-- One operation, ready to serve: its interceptors are named by where they were
mounted, outermost first. -/
structure Served (Mount : Type) where
  method : Method
  interceptors : List Mount
  terminal : Terminal

/-- Every operation of one path. -/
structure PathEntry (Mount : Type) where
  allow : HeaderValue
  acceptQuery : Option HeaderValue
  operations : List (Served Mount)

/-- A field value without a member. -/
def emptyValue : HeaderValue :=
  ⟨[], rfl⟩

/-- The `Allow` value for a set of methods: the `HEAD` a `GET` answers where none
is declared is named right after it. -/
def allowHeader (methods : List Method) : HeaderValue :=
  let derivesHead := !methods.contains .head
  (joinNames ((methods.flatMap fun method =>
    method :: if derivesHead && method = .get then [.head] else []).map
      Method.asWireStr)).getD emptyValue

namespace PathEntry

variable (entry : PathEntry Mount)

/-- Where a method is declared. -/
def declared (method : Method) : Option Nat :=
  entry.operations.findIdx? fun operation => operation.method = method

/-- Where the operation answering a method sits: an undeclared `HEAD` falls back
to the `GET`. -/
def position (method : Method) : Option Nat :=
  (entry.declared method).or (if method = .head then entry.declared .get else none)

/-- Whether the path answers a plain `OPTIONS` no operation declares. -/
def answersOptions : Bool :=
  entry.acceptQuery.isSome && (entry.position .options).isNone

/-- `Allow` from the operations declared on the path. -/
def deriveAllow : PathEntry Mount :=
  { entry with
    allow := allowHeader (entry.operations.map Served.method ++
      if entry.answersOptions then [.options] else []) }

end PathEntry

/-- A method added to those it is not among. -/
def pushNew (methods : List Method) (method : Method) : List Method :=
  if methods.contains method then methods else methods ++ [method]

/-- The methods an operation answers. -/
def answeredBy (operation : Served Mount) : List Method :=
  operation.method :: if operation.method = .get then [.head] else []

/-- The methods a path answers, added to those that were answered. -/
def implementedBy (methods : List Method) (entry : PathEntry Mount) : List Method :=
  let methods := entry.operations.foldl
    (fun methods operation => (answeredBy operation).foldl pushNew methods) methods
  if entry.answersOptions then pushNew methods .options else methods

/-- Every method some operation of the paths answers. -/
def implemented (paths : List (PathEntry Mount)) : List Method :=
  paths.foldl implementedBy []

/-- The whole table: the place of the path a request's matches, the paths, and
the policies for what none of them answers. -/
structure Dispatch (Mount : Type) (count : Nat) where
  matcher : Text → Option (Fin count)
  paths : Fin count → PathEntry Mount
  notFound : FallbackPolicy
  methodNotAllowed : FallbackPolicy
  trailingSlashes : TrailingSlashPolicy
  implemented : List Method

/-- Why no operation answers a request: no path matched; none answers its
method, on the path named where the method is implemented somewhere; or it is a
plain `OPTIONS` the path named answers. -/
inductive Unanswered (count : Nat) where
  | path
  | method (path : Option (Fin count))
  | options (path : Fin count)

/-- What becomes of a request: the operation of a path is run, or it is
answered without one. -/
inductive Outcome (count : Nat) (Stream : Type) where
  | dispatched (path : Fin count) (position : Nat)
  | answered (response : Response (Content Stream))

namespace Dispatch

variable {count : Nat} {Stream : Type} (table : Dispatch Mount count)

/-- Whether some operation in the service answers a method. -/
def implements (method : Option Method) : Bool :=
  method.any table.implemented.contains

/-- Where the operation answering a request sits, or why none does. -/
def route (request : Request) : Except (Unanswered count) (Fin count × Nat) :=
  let method := Method.fromWireStr request.method
  match table.matcher request.path with
  | none => .error (if table.implements method then .path else .method none)
  | some index =>
      let entry := table.paths index
      match method.bind entry.position with
      | some position => .ok (index, position)
      | none =>
          if method = some .options && entry.answersOptions then
            .error (.options index)
          else
            .error (.method (if table.implements method then some index else none))

/-- The same path with its final slash added or removed, where that reaches a
declared route. -/
def flipped (path : Text) : Option Text :=
  (flipTrailingSlash path).filter fun candidate => (table.matcher candidate).isSome

/-- What a request that matched no route gets. -/
def unmatched (request : Request) : Response (Content Stream) :=
  match if table.trailingSlashes = .redirect then table.flipped request.path else none with
  | some target => redirect target request.query
  | none => fallback 404 table.notFound

/-- The fallback for a request no operation answers. -/
def answer (unanswered : Unanswered count) (request : Request) : Response (Content Stream) :=
  match unanswered with
  | .path => table.unmatched request
  | .method path => methodRefusal (path.map fun path => (table.paths path).allow) table.methodNotAllowed
  | .options path =>
      let entry := table.paths path
      match entry.acceptQuery with
      | some acceptQuery => optionsAnswer entry.allow acceptQuery
      | none => methodRefusal (some entry.allow) table.methodNotAllowed

/-- What becomes of a request, up to what the interceptors and the transport make
of an answer. A synthesized preflight is no operation: it answers. -/
def serve (request : Request) : Outcome count Stream :=
  match table.route request with
  | .error unanswered => .answered (table.answer unanswered request)
  | .ok (index, position) =>
      match ((table.paths index).operations[position]?).map Served.terminal with
      | some (.preflight preflight) => .answered (preflight.answer request.headers)
      | _ => .dispatched index position

end Dispatch

end Kynos.Router

namespace Kynos

open Http Cors

namespace Router

variable {Mount : Type} [DecidableEq Mount]

/-! ## Preflights -/

section Install

variable (cors : Mount → Option CorsConfig)

/-- A method recorded as covered by a mounted `Cors`. -/
def record (found : Mount) (method : Method) :
    List (Mount × List Method) → List (Mount × List Method)
  | [] => [(found, [method])]
  | (mounted, covered) :: rest =>
      if mounted = found then
        (mounted, covered ++ [method]) :: rest
      else
        (mounted, covered) :: record found method rest

/-- The `Cors` an operation runs under, the outermost. -/
def corsOf (operation : Served Mount) : Option Mount :=
  operation.interceptors.find? fun interceptor => (cors interceptor).isSome

/-- The scopes, once an operation's method is recorded. -/
def cover (scopes : List (Mount × List Method)) (operation : Served Mount) :
    List (Mount × List Method) :=
  match corsOf cors operation with
  | none => scopes
  | some found => record found operation.method scopes

/-- Each `Cors` covering some operations, with the methods it covers. -/
def coveringScopes (operations : List (Served Mount)) : List (Mount × List Method) :=
  operations.foldl (cover cors) []

/-- An undeclared `HEAD` after the first `GET`. -/
def withHead (covered : List Method) : List Method :=
  match covered.idxOf? .get with
  | some at_ => covered.insertIdx (at_ + 1) .head
  | none => covered

/-- What is covered where some methods of a path are recorded: their `HEAD` too,
where the path declares none. -/
def coveredMethods (entry : PathEntry Mount) (recorded : List Method) : List Method :=
  if entry.operations.any (·.method = .head) then recorded else withHead recorded

/-- The scopes of a path. -/
def scopesOf (entry : PathEntry Mount) : List Scope :=
  (coveringScopes cors entry.operations).filterMap fun (mounted, recorded) =>
    (cors mounted).map fun config => Scope.new config (coveredMethods entry recorded)

/-- What a path answers a preflight with; `none` where it declares `OPTIONS`
itself or no `Cors` covers it. -/
def preflightOf (methodNotAllowed : FallbackPolicy) (implementedMethods : List Method)
    (entry : PathEntry Mount) : Option Preflight :=
  if entry.operations.any (·.method = .options) || (coveringScopes cors entry.operations).isEmpty then
    none
  else
    some (Preflight.new (scopesOf cors entry) (implemented [entry])
      (if implementedMethods.contains .options then some entry.allow else none)
      methodNotAllowed entry.acceptQuery)

/-- `install_preflight`, on one path. -/
def installPreflight (methodNotAllowed : FallbackPolicy) (implementedMethods : List Method)
    (entry : PathEntry Mount) : PathEntry Mount :=
  match preflightOf cors methodNotAllowed implementedMethods entry with
  | none => entry
  | some preflight =>
      { entry with
        operations := entry.operations ++ [⟨.options, [], .preflight preflight⟩] }

end Install

/-! ## Routers -/

/-- The operations declared on a path, no method twice, and the `Accept-Query`
its `QUERY` names. -/
structure Declared (Mount : Type) where
  operations : List (Method × List Mount)
  acceptQuery : Option HeaderValue
  distinct : (operations.map Prod.fst).Nodup

/-- The entry a declared path is served from. -/
def Declared.entry (declared : Declared Mount) : PathEntry Mount :=
  PathEntry.deriveAllow
    { allow := allowHeader []
      acceptQuery := declared.acceptQuery
      operations := declared.operations.map fun (method, interceptors) =>
        ⟨method, interceptors, .endpoint⟩ }

end Router

/-- A router whose description was accepted. -/
structure Router (Mount : Type) (count : Nat) where
  matcher : Text → Option (Fin count)
  declared : Fin count → Router.Declared Mount
  notFound : Router.FallbackPolicy
  methodNotAllowed : Router.FallbackPolicy
  trailingSlashes : Router.TrailingSlashPolicy

namespace Router

variable {Mount : Type} [DecidableEq Mount] {count : Nat} (router : Router Mount count)

/-- The table before preflights are installed. -/
def table : Dispatch Mount count where
  matcher := router.matcher
  paths := fun index => (router.declared index).entry
  notFound := router.notFound
  methodNotAllowed := router.methodNotAllowed
  trailingSlashes := router.trailingSlashes
  implemented := implemented (List.ofFn fun index => (router.declared index).entry)

/-- The table a service is built with. -/
def build (cors : Mount → Option CorsConfig) : Dispatch Mount count :=
  { router.table with
    paths := fun index => installPreflight cors router.methodNotAllowed router.table.implemented
      (router.table.paths index) }

end Router

end Kynos
