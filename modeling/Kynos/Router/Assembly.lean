import Kynos.Collection.Assoc
import Kynos.OpenApi.PathTemplate
import Kynos.Router.Method

/-!
# Assembling a router

Routers and groups are assembled by fluent calls in any order. What a scope
contributes to the operations in it is kept beside them until the scope is put
into another one; only then is it put in front of what they carry. The point
where an operation's guard runs is kept as a number of interceptors.
-/

namespace Kynos.Router

open Kynos.OpenApi

/-- `matches("\x7b\x7d").count()`. -/
def expressionCount : Text → Nat
  | [] => 0
  | '\x7b' :: '\x7d' :: rest => expressionCount rest + 1
  | _ :: rest => expressionCount rest

/-- Whether a template is not routed: a catch-all, or a segment with two
variables. -/
def unroutable (path : PathTemplate) : Bool :=
  let catchAll := path.variableNames.any fun name => name.head? = some '*'
  let crowded := ((path.normalized.getD []).splitOn '/').any fun segment =>
    expressionCount segment > 1
  catchAll || crowded

end Kynos.Router

namespace Kynos.Assembly

open Kynos.OpenApi Kynos.Router

/-- One operation as it is declared: the tags are those it adds itself, and
`guarded` says that its handler takes a guard. -/
structure Endpoint where
  method : Method
  path : PathTemplate
  tags : List Text
  guarded : Bool
  deriving DecidableEq, Repr

/-- Where in the description something is wrong: at its paths, or at one. -/
inductive Location where
  | paths
  | path (key : Text)
  deriving DecidableEq, Repr

inductive SpecError where
  | invalidPathTemplate (template : Text) (reason : InvalidPathTemplate)
  | opaqueRoute (pattern : Text)
  deriving DecidableEq, Repr

/-- What assembling a router found wrong, which its calls cannot return. -/
structure Violation where
  location : Location
  error : SpecError
  deriving DecidableEq, Repr

variable {Interceptor : Type}

/-- An endpoint, and what the scopes it passed through contributed to it. -/
structure Mounted (Interceptor : Type) where
  endpoint : Endpoint
  path : PathTemplate
  interceptors : List Interceptor
  guardAt : Option Nat
  tags : List Text
  catchPanics : Bool

/-- A set of operations that share a leading path, tags and interceptors.
`catches` is its panic policy. -/
structure Group (Interceptor : Type) where
  outer : Text
  endpoints : List Endpoint
  interceptors : List Interceptor
  guardFirstAt : Option Nat
  tags : List Text
  catches : Bool
  violations : List Violation

/-- A router as it is assembled. -/
structure Router (Interceptor : Type) where
  mounted : List (Mounted Interceptor)
  interceptors : List Interceptor
  guardFirstAt : Option Nat
  tags : List Text
  catches : Bool
  violations : List Violation

/-- A path under a leading one, or the violation that refuses it. -/
def prefixed (path : PathTemplate) (outer : Text) : Except Violation PathTemplate :=
  match path.withPrefix outer with
  | .error reason => .error ⟨.path path.raw, .invalidPathTemplate path.raw reason⟩
  | .ok under =>
      if unroutable under then
        .error ⟨.path under.raw, .opaqueRoute under.raw⟩
      else
        .ok under

/-- Where an operation's guard runs once a scope's interceptors are put in front
of those it ran among: the scope's own point wins. -/
def guardPoint (outerAt : Option Nat) (outerLength : Nat) (innerAt : Option Nat) : Option Nat :=
  outerAt.or (innerAt.map (· + outerLength))

/-! ## Groups -/

namespace Group

/-- `Group::new`: a malformed leading path is recorded, and none used. -/
def new (outer : Text) : Group Interceptor :=
  match PathTemplate.parse outer with
  | .ok template => ⟨template.raw, [], [], none, [], false, []⟩
  | .error reason => ⟨[], [], [], none, [], false, [⟨.paths, .invalidPathTemplate outer reason⟩]⟩

variable (group : Group Interceptor)

def intercept (interceptor : Interceptor) : Group Interceptor :=
  { group with interceptors := group.interceptors ++ [interceptor] }

/-- The first call counts. -/
def guardFirst : Group Interceptor :=
  { group with guardFirstAt := group.guardFirstAt.or (some group.interceptors.length) }

def tag (name : Text) : Group Interceptor :=
  { group with tags := group.tags ++ [name] }

def catchPanics : Group Interceptor :=
  { group with catches := true }

def mount (endpoints : List Endpoint) : Group Interceptor :=
  { group with endpoints := group.endpoints ++ endpoints }

end Group

/-! ## Routers -/

namespace Router

def new : Router Interceptor :=
  ⟨[], [], none, [], false, []⟩

variable (router : Router Interceptor)

def intercept (interceptor : Interceptor) : Router Interceptor :=
  { router with interceptors := router.interceptors ++ [interceptor] }

/-- The first call counts. -/
def guardFirst : Router Interceptor :=
  { router with guardFirstAt := router.guardFirstAt.or (some router.interceptors.length) }

def tag (name : Text) : Router Interceptor :=
  { router with tags := router.tags ++ [name] }

def catchPanics : Router Interceptor :=
  { router with catches := true }

/-- One operation taken in, or why it is not. -/
def take : Except Violation (Mounted Interceptor) → Router Interceptor
  | .ok mounted => { router with mounted := router.mounted ++ [mounted] }
  | .error violation => { router with violations := router.violations ++ [violation] }

/-- Takes in endpoints under a leading path, with what the scope contributes. -/
def absorb (endpoints : List Endpoint) (outer : Text) (tags : List Text)
    (interceptors : List Interceptor) (guardAt : Option Nat) (catchPanics : Bool) :
    Router Interceptor :=
  endpoints.foldl (fun router endpoint =>
    router.take ((prefixed endpoint.path outer).map fun path =>
      ⟨endpoint, path, interceptors, guardAt, tags, catchPanics⟩)) router

/-- Takes in what another router holds, under a leading path. -/
def absorbRouter (other : Router Interceptor) (outer : Text) (catchPanics : Bool) :
    Router Interceptor :=
  let router := other.mounted.foldl (fun router mounted =>
    router.take ((prefixed mounted.path outer).map fun path =>
      { mounted with
        path := path
        interceptors := other.interceptors ++ mounted.interceptors
        guardAt := guardPoint other.guardFirstAt other.interceptors.length mounted.guardAt
        tags := other.tags ++ mounted.tags
        catchPanics := mounted.catchPanics || catchPanics })) router
  { router with violations := router.violations ++ other.violations }

def mount (endpoints : List Endpoint) : Router Interceptor :=
  router.absorb endpoints [] [] [] none false

def group (group : Group Interceptor) : Router Interceptor :=
  { router with violations := router.violations ++ group.violations }.absorb group.endpoints
    group.outer group.tags group.interceptors group.guardFirstAt group.catches

def nest (outer : Text) (other : Router Interceptor) : Router Interceptor :=
  router.absorbRouter other outer other.catches

def merge (other : Router Interceptor) : Router Interceptor :=
  router.absorbRouter other [] other.catches

end Router

/-! ## What is served -/

/-- What runs around an operation: an interceptor, or its guard. -/
inductive Layer (Interceptor : Type) where
  | interceptor (interceptor : Interceptor)
  | guard (endpoint : Endpoint)
  deriving DecidableEq, Repr

/-- An operation as it is described and served. -/
structure Operation (Interceptor : Type) where
  endpoint : Endpoint
  path : Text
  described : List Interceptor
  tags : List Text
  recoveryDescribed : Bool
  layers : List (Layer Interceptor)
  catchPanics : Bool

/-- `add_tag`. -/
def addTag (tags : List Text) (name : Text) : List Text :=
  if tags.contains name then tags else tags ++ [name]

/-- `Endpoint::guard_ahead`. -/
def Endpoint.guardAhead (endpoint : Endpoint) : Option (Layer Interceptor) :=
  if endpoint.guarded then some (.guard endpoint) else none

namespace Router

variable (router : Router Interceptor)

/-- `covering`: everything that runs around an operation, outermost first. -/
def covering (mounted : Mounted Interceptor) : List (Layer Interceptor) :=
  let layers := (router.interceptors ++ mounted.interceptors).map .interceptor
  match guardPoint router.guardFirstAt router.interceptors.length mounted.guardAt with
  | none => layers
  | some position =>
      match mounted.endpoint.guardAhead with
      | none => layers
      | some guard => layers.insertIdx position guard

/-- What `describe` says about an operation, and what `build` installs for it. -/
def operation (mounted : Mounted Interceptor) : Operation Interceptor where
  endpoint := mounted.endpoint
  path := mounted.path.raw
  described := router.interceptors ++ mounted.interceptors
  tags := (router.tags ++ mounted.tags).foldl addTag (mounted.endpoint.tags.foldl addTag [])
  recoveryDescribed := mounted.catchPanics || router.catches
  layers := router.covering mounted
  catchPanics := mounted.catchPanics || router.catches

/-- The operations a router serves, unless assembling it found something wrong. -/
def build : Except (List Violation) (List (Operation Interceptor)) :=
  if router.violations.isEmpty then .ok (router.mounted.map router.operation) else .error router.violations

end Router

end Kynos.Assembly
