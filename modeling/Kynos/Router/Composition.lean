import Kynos.OpenApi.PathGrammar
import Kynos.Router.Assembly

/-!
# Scopes compose

A router is read as the tree of calls that assembled it. Every operation in it
stands in scopes, from the router itself to the group or router it was mounted
in, and what a scope contributes is told by its own calls alone.
-/

namespace Kynos.Assembly

open Kynos.OpenApi

variable {Interceptor : Type}

/-! ## Trees of calls -/

/-- A call that contributes to the operations of a scope. -/
inductive Contribution (Interceptor : Type) where
  | interceptor (interceptor : Interceptor)
  | guardFirst
  | tag (name : Text)
  | catchPanics

/-- A scope: the path it stands under, and its contributions in call order. -/
structure Scope (Interceptor : Type) where
  outer : Text
  calls : List (Contribution Interceptor)

/-- An operation and the scopes it stands in, outermost first. -/
structure Placed (Interceptor : Type) where
  endpoint : Endpoint
  scopes : List (Scope Interceptor)

/-- The same operation in one more scope. -/
def Placed.within (scope : Scope Interceptor) (placed : Placed Interceptor) : Placed Interceptor :=
  { placed with scopes := scope :: placed.scopes }

/-- The calls that assemble a group. -/
inductive GroupTree (Interceptor : Type) where
  | new (outer : Text)
  | intercept (group : GroupTree Interceptor) (interceptor : Interceptor)
  | guardFirst (group : GroupTree Interceptor)
  | tag (group : GroupTree Interceptor) (name : Text)
  | catchPanics (group : GroupTree Interceptor)
  | mount (group : GroupTree Interceptor) (endpoints : List Endpoint)

/-- The calls that assemble a router. -/
inductive RouterTree (Interceptor : Type) where
  | new
  | intercept (router : RouterTree Interceptor) (interceptor : Interceptor)
  | guardFirst (router : RouterTree Interceptor)
  | tag (router : RouterTree Interceptor) (name : Text)
  | catchPanics (router : RouterTree Interceptor)
  | mount (router : RouterTree Interceptor) (endpoints : List Endpoint)
  | group (router : RouterTree Interceptor) (group : GroupTree Interceptor)
  | nest (router : RouterTree Interceptor) (outer : Text) (other : RouterTree Interceptor)
  | merge (router other : RouterTree Interceptor)

namespace GroupTree

/-- The group the calls assemble. -/
def value : GroupTree Interceptor → Group Interceptor
  | .new outer => .new outer
  | .intercept group interceptor => group.value.intercept interceptor
  | .guardFirst group => group.value.guardFirst
  | .tag group name => group.value.tag name
  | .catchPanics group => group.value.catchPanics
  | .mount group endpoints => group.value.mount endpoints

def outer : GroupTree Interceptor → Text
  | .new outer => outer
  | .intercept group _ | .guardFirst group | .tag group _ | .catchPanics group | .mount group _ =>
      group.outer

/-- What the group contributes, in call order. -/
def calls : GroupTree Interceptor → List (Contribution Interceptor)
  | .new _ => []
  | .intercept group interceptor => group.calls ++ [.interceptor interceptor]
  | .guardFirst group => group.calls ++ [.guardFirst]
  | .tag group name => group.calls ++ [.tag name]
  | .catchPanics group => group.calls ++ [.catchPanics]
  | .mount group _ => group.calls

def endpoints : GroupTree Interceptor → List Endpoint
  | .new _ => []
  | .mount group endpoints => group.endpoints ++ endpoints
  | .intercept group _ | .guardFirst group | .tag group _ | .catchPanics group => group.endpoints

def scope (group : GroupTree Interceptor) : Scope Interceptor :=
  ⟨group.outer, group.calls⟩

end GroupTree

namespace RouterTree

/-- The router the calls assemble. -/
def value : RouterTree Interceptor → Router Interceptor
  | .new => .new
  | .intercept router interceptor => router.value.intercept interceptor
  | .guardFirst router => router.value.guardFirst
  | .tag router name => router.value.tag name
  | .catchPanics router => router.value.catchPanics
  | .mount router endpoints => router.value.mount endpoints
  | .group router mounted => router.value.group mounted.value
  | .nest router outer other => router.value.nest outer other.value
  | .merge router other => router.value.merge other.value

/-- What the router itself contributes, in call order. -/
def calls : RouterTree Interceptor → List (Contribution Interceptor)
  | .new => []
  | .intercept router interceptor => router.calls ++ [.interceptor interceptor]
  | .guardFirst router => router.calls ++ [.guardFirst]
  | .tag router name => router.calls ++ [.tag name]
  | .catchPanics router => router.calls ++ [.catchPanics]
  | .mount router _ | .group router _ | .nest router _ _ | .merge router _ => router.calls

/-- The operations of the router, each in the scopes between it and the router. -/
def inner : RouterTree Interceptor → List (Placed Interceptor)
  | .new => []
  | .intercept router _ | .guardFirst router | .tag router _ | .catchPanics router => router.inner
  | .mount router endpoints => router.inner ++ endpoints.map (⟨·, []⟩)
  | .group router mounted => router.inner ++ mounted.endpoints.map (⟨·, [mounted.scope]⟩)
  | .nest router outer other => router.inner ++ other.inner.map (Placed.within ⟨outer, other.calls⟩)
  | .merge router other => router.inner ++ other.inner.map (Placed.within ⟨[], other.calls⟩)

/-- The operations of the router, each in all the scopes it stands in. -/
def placed (router : RouterTree Interceptor) : List (Placed Interceptor) :=
  router.inner.map (Placed.within ⟨[], router.calls⟩)

end RouterTree

/-! ## What scopes contribute -/

namespace Contribution

def interceptor? : Contribution Interceptor → Option Interceptor
  | .interceptor applied => some applied
  | _ => none

def tag? : Contribution Interceptor → Option Text
  | .tag name => some name
  | _ => none

def isGuardFirst : Contribution Interceptor → Bool
  | .guardFirst => true
  | _ => false

def isCatchPanics : Contribution Interceptor → Bool
  | .catchPanics => true
  | _ => false

end Contribution

/-- The interceptors among some contributions. -/
def interceptorsOf (calls : List (Contribution Interceptor)) : List Interceptor :=
  calls.filterMap Contribution.interceptor?

namespace Scope

def interceptors (scope : Scope Interceptor) : List Interceptor :=
  interceptorsOf scope.calls

def tags (scope : Scope Interceptor) : List Text :=
  scope.calls.filterMap Contribution.tag?

/-- The path of a scope without its final slashes. -/
def leading (scope : Scope Interceptor) : Text :=
  scope.outer.rdropWhile (· == '/')

end Scope

/-- What an operation in some scopes is described and served as. -/
structure Composes (placed : Placed Interceptor) (operation : Operation Interceptor) : Prop where
  endpoint : operation.endpoint = placed.endpoint
  path : operation.path = placed.scopes.flatMap Scope.leading ++ placed.endpoint.path.raw
  described : operation.described = placed.scopes.flatMap Scope.interceptors
  tags : operation.tags =
    Collection.fresh id [] (placed.endpoint.tags ++ placed.scopes.flatMap Scope.tags)
  recovery : operation.catchPanics = true ↔ ∃ scope ∈ placed.scopes, .catchPanics ∈ scope.calls
  recoveryDescribed : operation.recoveryDescribed = operation.catchPanics
  unguarded : (placed.endpoint.guarded = true → ∀ scope ∈ placed.scopes, .guardFirst ∉ scope.calls) →
    operation.layers = (placed.scopes.flatMap Scope.interceptors).map .interceptor
  guarded : placed.endpoint.guarded = true → ∀ outside scope inside before after,
    placed.scopes = outside ++ scope :: inside → (∀ other ∈ outside, .guardFirst ∉ other.calls) →
    scope.calls = before ++ .guardFirst :: after → .guardFirst ∉ before →
      operation.layers =
        (outside.flatMap Scope.interceptors ++ interceptorsOf before).map .interceptor ++
          .guard placed.endpoint ::
            (interceptorsOf after ++ inside.flatMap Scope.interceptors).map .interceptor

end Kynos.Assembly
