import Kynos.Collection.Assoc
import Kynos.OpenApi.ComponentName
import Kynos.Run.Traced
import Kynos.Security.Carrier

/-!
# What a guard demands

A requirement is one scheme, any of several, or all of several together. A guard
declares it as an operation's `security` and enforces it on a request. Declaring
reads the schemes alone; enforcing also what the context answers for each.
-/

namespace Kynos.Security

open Kynos.Collection Kynos.OpenApi Kynos.Run

/-- `Scope`: a scope by the name a description spells it with. -/
class Scope (Grant : Type) where
  name : Grant → Text

/-- `SecurityScheme`, its scopes being values of a type common to the schemes of
a requirement. -/
structure SecurityScheme (Grant Description : Type) where
  name : Text
  typeName : Text
  typeNamed : typeName ≠ []
  scopes : List Grant
  describe : Description
  challenge : Option Text
  insufficientScopeChallenge : Option Text

/-- A scheme, and what its carrier and the context's `Authenticator` answer. -/
structure Member (Request Presented Credential Grant Description : Type) extends
    SecurityScheme Grant Description where
  present : Request → Except AuthRejection (Option Presented)
  authenticate : Presented → Except AuthRejection Credential
  authorize : Credential → List Grant → Except AuthRejection Unit

/-- Two to four schemes. -/
structure Schemes (α : Type) where
  items : List α
  arity : 2 ≤ items.length ∧ items.length ≤ 4

/-- `Requirement`: a scheme, `AnyOf` or `AllOf`. -/
inductive Requirement (α : Type) where
  | one (scheme : α)
  | anyOf (schemes : Schemes α)
  | allOf (schemes : Schemes α)

/-- `Scopable`: a scheme or `AnyOf`. -/
inductive Scopable (α : Type) where
  | one (scheme : α)
  | anyOf (schemes : Schemes α)

/-- The guards: `Auth`, `MaybeAuth` and `Scoped`, the last with the scopes it
requires. -/
inductive Guard (α Grant : Type) where
  | auth (requirement : Requirement α)
  | maybeAuth (requirement : Requirement α)
  | scopedBy (requirement : Scopable α) (required : List Grant)

/-! ## Scopes -/

section Scopes

variable {Grant Description : Type} [Scope Grant] (scheme : SecurityScheme Grant Description)

/-- `owed_defaults`. -/
def owedDefaults : Option (List Grant) :=
  if scheme.scopes.isEmpty then none else some scheme.scopes

/-- `owed_scope_challenge`. -/
def owedScopeChallenge : Option Text :=
  (owedDefaults scheme).bind fun _ => scheme.insufficientScopeChallenge

/-- `defaults`. -/
def defaults : List Text :=
  scheme.scopes.map Scope.name

/-- `demanded`. -/
def demanded (required : List Grant) : List Grant :=
  if scheme.scopes.isEmpty then
    required
  else
    required.foldl (fun union scope =>
      if union.any fun held => Scope.name held == Scope.name scope then union else union ++ [scope])
      scheme.scopes

/-- `demanded_names`. -/
def demandedNames (required : List Grant) : List Text :=
  ((demanded scheme required).map Scope.name).foldl (fun names name =>
    if names.contains name then names else names ++ [name]) []

/-- `component_name`. -/
def componentName : Text :=
  (((ComponentName.sanitized scheme.name).or (ComponentName.sanitized scheme.typeName)).map
    ComponentName.text).getD []

end Scopes

/-! ## Declaring -/

/-- `SecurityRequirement`: names of schemes, and the scope names listed for
each. -/
abbrev SecurityRequirement := List (Text × List Text)

/-- What describing a guard adds: the schemes it registers, and the operation's
`security`. -/
structure Declared (Description : Type) where
  registered : List (Text × Description)
  security : List SecurityRequirement

section Declare

variable {Grant Description : Type} [Scope Grant]

/-- `require`: the requirement that names a scheme. -/
def require (scopes : SecurityScheme Grant Description → List Text)
    (scheme : SecurityScheme Grant Description) : SecurityRequirement :=
  [(componentName scheme, scopes scheme)]

/-- `alternative`. -/
def alternative (alternatives : List SecurityRequirement) (requirement : SecurityRequirement) :
    List SecurityRequirement :=
  if requirement ∈ alternatives then alternatives else alternatives ++ [requirement]

/-- The alternatives of `AnyOf`. -/
def anyAlternatives (scopes : SecurityScheme Grant Description → List Text)
    (schemes : List (SecurityScheme Grant Description)) : List SecurityRequirement :=
  schemes.foldl (fun alternatives scheme => alternative alternatives (require scopes scheme)) []

/-- The one alternative of `AllOf`. -/
def together (schemes : List (SecurityScheme Grant Description)) : SecurityRequirement :=
  schemes.foldl (fun together scheme => extend together (require defaults scheme)) []

/-- The schemes of a requirement. -/
def Requirement.schemes {α : Type} : Requirement α → List α
  | .one scheme => [scheme]
  | .anyOf schemes => schemes.items
  | .allOf schemes => schemes.items

/-- The schemes of a requirement that may demand scopes. -/
def Scopable.schemes {α : Type} : Scopable α → List α
  | .one scheme => [scheme]
  | .anyOf schemes => schemes.items

/-- The schemes of a guard. -/
def Guard.schemes {α : Type} : Guard α Grant → List α
  | .auth requirement => requirement.schemes
  | .maybeAuth requirement => requirement.schemes
  | .scopedBy requirement _ => requirement.schemes

/-- `Requirement::declare`: the alternatives. -/
def Requirement.declare :
    Requirement (SecurityScheme Grant Description) → List SecurityRequirement
  | .one scheme => [require defaults scheme]
  | .anyOf schemes => anyAlternatives defaults schemes.items
  | .allOf schemes => [together schemes.items]

/-- `Scopable::declare_scoped`: the alternatives. -/
def Scopable.declareScoped (required : List Grant) :
    Scopable (SecurityScheme Grant Description) → List SecurityRequirement
  | .one scheme => [require (demandedNames · required) scheme]
  | .anyOf schemes => anyAlternatives (demandedNames · required) schemes.items

/-- `Describe::describe` of a guard: what it registers and the `security` it
sets. -/
def Guard.describe (guard : Guard (SecurityScheme Grant Description) Grant) : Declared Description where
  registered := guard.schemes.map fun scheme => (componentName scheme, scheme.describe)
  security :=
    match guard with
    | .auth requirement => requirement.declare
    | .maybeAuth requirement => [] :: requirement.declare
    | .scopedBy requirement required => requirement.declareScoped required

end Declare

/-! ## Enforcing -/

namespace AuthRejection

/-- `with_challenge`. -/
def withChallenge (challenge : Option Text) : AuthRejection → AuthRejection
  | .unauthenticated _ => .unauthenticated challenge
  | other => other

/-- `with_scope_challenge`. -/
def withScopeChallenge (challenge : Option Text) : AuthRejection → AuthRejection
  | .forbidden typeUri _ => .forbidden typeUri challenge
  | other => other

end AuthRejection

/-- A call of an authenticator. -/
inductive Call where
  | authenticate (name : Text)
  | authorize (name : Text)
  deriving DecidableEq, Repr

/-- What satisfying a requirement yields: a scheme's credential, the credential
of one of several, or all of them. -/
inductive Admission (Credential : Type) where
  | one (credential : Credential)
  | either (index : Nat) (credential : Credential)
  | every (credentials : List Credential)
  deriving DecidableEq, Repr

/-- The computations of a guard. -/
abbrev Checked := Traced Call AuthRejection

section Check

variable {Request Presented Credential Grant Description : Type} [Scope Grant]

/-- `authenticate`. -/
def authenticate (member : Member Request Presented Credential Grant Description)
    (presented : Presented) : Checked Credential :=
  .call (.authenticate (componentName member.toSecurityScheme))
    ((member.authenticate presented).mapError (AuthRejection.withScopeChallenge none))

/-- `authorize`. -/
def authorize (member : Member Request Presented Credential Grant Description)
    (credential : Credential) : Option (List Grant) → Checked Credential
  | none => .settle (.ok credential)
  | some scopes =>
      .call (.authorize (componentName member.toSecurityScheme))
        (((member.authorize credential scopes).mapError
          (AuthRejection.withScopeChallenge member.insufficientScopeChallenge)).map fun _ => credential)

/-- `verify`. -/
def verify (member : Member Request Presented Credential Grant Description)
    (presented : Presented) (scopes : Option (List Grant)) : Checked Credential :=
  (authenticate member presented).bind fun credential => authorize member credential scopes

variable (request : Request)

/-- `present_and_verify`. -/
def presentAndVerify (scopes : SecurityScheme Grant Description → Option (List Grant))
    (member : Member Request Presented Credential Grant Description) :
    Checked (Option Credential) :=
  match member.present request with
  | .error rejection => .settle (.error rejection)
  | .ok none => .settle (.ok none)
  | .ok (some presented) =>
      (verify member presented (scopes member.toSecurityScheme)).bind fun credential =>
        .settle (.ok (some credential))

/-- `AnyOf`'s `check` and `check_scoped`, from the scheme at an index on:
`satisfied` keeps the first refusal. -/
def checkAny (scopes : SecurityScheme Grant Description → Option (List Grant)) (index : Nat)
    (refused : Option AuthRejection) :
    List (Member Request Presented Credential Grant Description) →
      Checked (Option (Admission Credential))
  | [] => .settle (refused.elim (.ok none) .error)
  | member :: rest =>
      let checked := presentAndVerify request scopes member
      match checked.answer with
      | .ok (some credential) => ⟨checked.calls, .ok (some (.either index credential))⟩
      | .ok none =>
          let others := checkAny scopes (index + 1) refused rest
          ⟨checked.calls ++ others.calls, others.answer⟩
      | .error rejection =>
          let others := checkAny scopes (index + 1) (refused.or (some rejection)) rest
          ⟨checked.calls ++ others.calls, others.answer⟩

/-- `AllOf`'s `check`: every carrier, then every authentication, then every
authorization. -/
def checkAll (members : List (Member Request Presented Credential Grant Description)) :
    Checked (Option (Admission Credential)) :=
  (Traced.each (fun member => .settle (member.present request)) members).bind fun presented =>
    if presented.all Option.isNone then
      .settle (.ok none)
    else
      match presented.mapM id with
      | none => .settle (.error .unchallenged)
      | some presented =>
          (Traced.each (fun pair => authenticate pair.1 pair.2) (members.zip presented)).bind
            fun credentials =>
              (Traced.each (fun pair => authorize pair.1 pair.2 (owedDefaults pair.1.toSecurityScheme))
                (members.zip credentials)).bind fun credentials =>
                  .settle (.ok (some (.every credentials)))

/-- A single scheme's `check` and `check_scoped`. -/
def checkOne (scopes : SecurityScheme Grant Description → Option (List Grant))
    (member : Member Request Presented Credential Grant Description) :
    Checked (Option (Admission Credential)) :=
  (presentAndVerify request scopes member).mapAnswer (Except.map (Option.map .one))

/-- `CheckedBy::check`. -/
def Requirement.check :
    Requirement (Member Request Presented Credential Grant Description) →
      Checked (Option (Admission Credential))
  | .one member => checkOne request owedDefaults member
  | .anyOf members => checkAny request owedDefaults 0 none members.items
  | .allOf members => checkAll request members.items

/-- `ScopeCheckedBy::check_scoped`. -/
def Scopable.checkScoped (required : List Grant) :
    Scopable (Member Request Presented Credential Grant Description) →
      Checked (Option (Admission Credential))
  | .one member => checkOne request (fun scheme => some (demanded scheme required)) member
  | .anyOf members =>
      checkAny request (fun scheme => some (demanded scheme required)) 0 none members.items

/-- `first_challenge` of the schemes' challenges. -/
def firstChallenge (members : List (Member Request Presented Credential Grant Description)) :
    Option Text :=
  members.findSome? fun member => member.challenge

/-- An absent credential is a refusal. -/
def demand : Except AuthRejection (Option (Admission Credential)) →
    Except AuthRejection (Option (Admission Credential))
  | .ok none => .error .unchallenged
  | answer => answer

/-- `Guard::guard`: the credential admitted with, or none. -/
def Guard.guard (guard : Guard (Member Request Presented Credential Grant Description) Grant) :
    Checked (Option (Admission Credential)) :=
  let challenged := Except.mapError (AuthRejection.withChallenge (firstChallenge guard.schemes))
  match guard with
  | .auth requirement => (requirement.check request).mapAnswer fun answer => challenged (demand answer)
  | .maybeAuth requirement => (requirement.check request).mapAnswer challenged
  | .scopedBy requirement required =>
      (requirement.checkScoped request required).mapAnswer fun answer => challenged (demand answer)

end Check

end Kynos.Security
