import Kynos.Cors.Preflight

/-!
# What a preflight is answered with

The fields of an answer, read back: whether an origin is permitted, whether its
credentials are, and which methods are approved.
-/

namespace Kynos.Cors

open Kynos.Http Kynos.Router

/-! ## Names of methods -/

/-- The wire name of a method as a field value. -/
def wireValue (method : Router.Method) : HeaderValue :=
  ⟨Text.toOctets method.asWireStr, by cases method <;> decide⟩

theorem names_iff {methods : List Router.Method} {proposed : HeaderValue} :
    names methods proposed = true ↔ ∃ method ∈ methods,
      Octets.eqIgnoreAsciiCase proposed.octets (Text.toOctets method.asWireStr) = true := by
  rw [names, List.any_eq_true]

/-- No two methods have wire names that differ in case only. -/
theorem eqIgnoreAsciiCase_wireValue_iff {method other : Router.Method} :
    Octets.eqIgnoreAsciiCase (wireValue other).octets (Text.toOctets method.asWireStr) = true ↔
      method = other := by
  cases method <;> cases other <;> decide

theorem names_wireValue_iff {methods : List Router.Method} {method : Router.Method} :
    names methods (wireValue method) = true ↔ method ∈ methods := by
  rw [names_iff]
  simp only [eqIgnoreAsciiCase_wireValue_iff, exists_eq_right]

/-! ## Fields -/

section Fields

variable {fields request : HeaderMap} {name other : Text} {value : Option HeaderValue}

theorem get_insertSome_self :
    (Preflight.insertSome fields name value).get name = value.or (fields.get name) := by
  cases value with
  | none => rfl
  | some value => rw [Preflight.insertSome, HeaderMap.get_insert, if_pos rfl, Option.some_or]

theorem get_insertSome_of_ne (different : name ≠ other) :
    (Preflight.insertSome fields name value).get other = fields.get other := by
  cases value with
  | none => rfl
  | some value => rw [Preflight.insertSome, HeaderMap.get_insert, if_neg different]

theorem get_varyOn_of_ne (different : name ≠ Header.vary) (names : List Text) :
    (varyOn fields names).get name = fields.get name := by
  rw [HeaderMap.get, HeaderMap.get, Vary.getAll_varyOn_of_ne different]

end Fields

/-! ## Answers -/

/-- A response names a method in its `Access-Control-Allow-Methods`. -/
def Approves {Body : Type} (response : Response Body) (method : Router.Method) : Prop :=
  ∃ value, response.headers.get Header.accessControlAllowMethods = some value ∧
    Lists value method.asWireStr

namespace Preflight

variable {Stream : Type} {preflight : Preflight} {origin proposed : HeaderValue}
  {request : HeaderMap}

/-- The scope that answers a preflight of an origin, where it permits it. -/
def permitting (preflight : Preflight) (origin proposed : HeaderValue) : Option Scope :=
  (preflight.scopeFor proposed).filter fun scope => scope.config.permits origin

theorem permitting_eq_some_iff {scope : Scope} :
    preflight.permitting origin proposed = some scope ↔
      preflight.scopeFor proposed = some scope ∧ scope.config.permits origin = true :=
  Option.filter_eq_some_iff

/-- The fields of an answer, before what it says of its `Vary`. -/
theorem headers_answerTo :
    (preflight.answerTo origin proposed request : Response (Content Stream)).headers =
      match preflight.permitting origin proposed with
      | none => varyOn HeaderMap.empty varies
      | some scope => permission scope origin request (varyOn HeaderMap.empty varies) := by
  rw [answerTo, permitting]
  cases preflight.scopeFor proposed with
  | none => rfl
  | some scope =>
      simp only [Option.filter_some]
      split <;> rfl

theorem get_permission_allowMethods {scope : Scope} {fields : HeaderMap} :
    (permission scope origin request fields).get Header.accessControlAllowMethods =
      (advertisedMethods scope.advertised).or (fields.get Header.accessControlAllowMethods) := by
  simp only [permission]
  rw [get_insertSome_of_ne (by decide), get_insertSome_of_ne (by decide), get_insertSome_self,
    get_insertSome_of_ne (by decide), HeaderMap.get_insert, if_neg (by decide)]

theorem get_permission_allowCredentials {scope : Scope} {fields : HeaderMap} :
    (permission scope origin request fields).get Header.accessControlAllowCredentials =
      (if scope.config.credentials then some trueValue else none).or
        (fields.get Header.accessControlAllowCredentials) := by
  simp only [permission]
  rw [get_insertSome_of_ne (by decide), get_insertSome_of_ne (by decide),
    get_insertSome_of_ne (by decide), get_insertSome_self, HeaderMap.get_insert,
    if_neg (show Header.accessControlAllowOrigin ≠ Header.accessControlAllowCredentials by decide)]

/-- Only a permitted origin is named. -/
theorem exists_of_allowOrigin
    (named : ((preflight.answerTo origin proposed request : Response (Content Stream)).headers.get
      Header.accessControlAllowOrigin).isSome) :
    ∃ scope, preflight.permitting origin proposed = some scope := by
  rw [headers_answerTo] at named
  cases permits : preflight.permitting origin proposed with
  | none =>
      simp [permits, get_varyOn_of_ne (show Header.accessControlAllowOrigin ≠ Header.vary by decide)]
        at named
  | some scope => exact ⟨scope, rfl⟩

/-- An answer approves what the scope that permits its origin advertises. -/
theorem approves_answerTo_iff {method : Router.Method} :
    Approves (preflight.answerTo origin proposed request : Response (Content Stream)) method ↔
      ∃ scope, preflight.permitting origin proposed = some scope ∧ method ∈ scope.advertised := by
  have unset : (varyOn HeaderMap.empty varies).get Header.accessControlAllowMethods = none := by
    rw [get_varyOn_of_ne (by decide), HeaderMap.get_empty]
  rw [Approves, headers_answerTo]
  cases permits : preflight.permitting origin proposed with
  | none => simp [unset]
  | some scope =>
      simp only [get_permission_allowMethods, unset, Option.or_none, Option.some.injEq,
        exists_eq_left']
      rw [advertisedMethods, exists_lists_joinNames_iff Router.Method.isListName_of_mem_map,
        List.mem_map_of_injective Router.Method.asWireStr_injective]

theorem allowsCredentials_answerTo_iff :
    ((preflight.answerTo origin proposed request : Response (Content Stream)).headers.get
        Header.accessControlAllowCredentials).isSome ↔
      ∃ scope, preflight.permitting origin proposed = some scope ∧
        scope.config.credentials = true := by
  have unset : (varyOn HeaderMap.empty varies).get Header.accessControlAllowCredentials = none := by
    rw [get_varyOn_of_ne (by decide), HeaderMap.get_empty]
  rw [headers_answerTo]
  cases permits : preflight.permitting origin proposed with
  | none => simp [unset]
  | some scope => simp [get_permission_allowCredentials, unset]

end Preflight

end Kynos.Cors
