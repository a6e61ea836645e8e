import Kynos.Cors.Answer
import Kynos.Router.Scopes

/-!
# What a preflight approves

A browser that was approved a method does not ask again before it sends it. So
what a preflight approves for an origin must be what the `Cors` of each approved
method permits. That is so unless some `Cors` that permits the origin was told to
advertise a method of another that does not.
-/

namespace Kynos.Cors

open Kynos.Http Kynos.Router

variable {Mount : Type} [DecidableEq Mount] {cors : Mount → Option CorsConfig}
  {entry : PathEntry Mount} {origin : HeaderValue}

/-! ## The scopes of a preflight -/

/-- What a scope of a path's preflight is. -/
structure ScopeOf (cors : Mount → Option CorsConfig) (entry : PathEntry Mount) (mounted : Mount)
    (scope : Scope) : Prop where
  isConfig : cors mounted = some scope.config
  isMounted : ∃ operation ∈ entry.operations, corsOf cors operation = some mounted
  covers : ∀ method ∈ scope.covered, CoveredBy cors entry method mounted
  /-- It advertises what it covers or was told to, and no method the path serves
  under no `Cors`. -/
  advertises : ∀ method, method ∈ scope.advertised ↔
    method ∈ scope.config.methods.getD scope.covered ∧
      (entry.Answers method → ∃ other, CoveredBy cors entry method other)

theorem mem_uncovered {method : Router.Method} :
    method ∈ Preflight.uncovered (scopesOf cors entry) (implemented [entry]) ↔
      entry.Answers method ∧ ¬ ∃ other, CoveredBy cors entry method other := by
  rw [Preflight.uncovered, List.mem_filter, mem_implemented]
  simp only [List.mem_singleton, exists_eq_left, Bool.not_eq_true', ← Bool.not_eq_true,
    List.any_eq_true, List.contains_iff_mem]
  refine and_congr_right fun _ => not_congr ⟨?_, ?_⟩
  · rintro ⟨scope, member, inside⟩
    obtain ⟨mounted, -, -, covers, -⟩ := exists_of_mem_scopesOf member
    exact ⟨mounted, covers method inside⟩
  · rintro ⟨other, covered⟩
    obtain ⟨scope, member, -, inside⟩ := exists_scope_of_coveredBy covered
    exact ⟨scope, member, inside⟩

variable {policy : FallbackPolicy} {methods : List Router.Method} {preflight : Preflight}

theorem preflight_eq (installed : preflightOf cors policy methods entry = some preflight) :
    preflight.scopes = (scopesOf cors entry).map fun scope =>
      { scope with
        advertised := scope.advertised.filter fun method =>
          !(Preflight.uncovered (scopesOf cors entry) (implemented [entry])).contains method } := by
  obtain ⟨-, isNew⟩ := Option.ite_none_left_eq_some.mp installed
  rw [← Option.some.inj isNew]
  rfl

theorem exists_scopeOf (installed : preflightOf cors policy methods entry = some preflight)
    {scope : Scope} (member : scope ∈ preflight.scopes) : ∃ mounted, ScopeOf cors entry mounted scope := by
  rw [preflight_eq installed] at member
  obtain ⟨original, isScope, rfl⟩ := List.mem_map.mp member
  obtain ⟨mounted, isConfig, isMounted, covers, advertised⟩ := exists_of_mem_scopesOf isScope
  refine ⟨mounted, isConfig, isMounted, covers, fun method => ?_⟩
  simp only [List.mem_filter, advertised, Bool.not_eq_true', ← Bool.not_eq_true,
    List.contains_iff_mem, mem_uncovered, not_and, not_not]

/-- A covered method has a scope that covers it, of its own `Cors`. -/
theorem exists_scope_mem (installed : preflightOf cors policy methods entry = some preflight)
    {method : Router.Method} {mounted : Mount} (covered : CoveredBy cors entry method mounted) :
    ∃ scope ∈ preflight.scopes, method ∈ scope.covered := by
  obtain ⟨scope, member, -, inside⟩ := exists_scope_of_coveredBy covered
  rw [preflight_eq installed]
  exact ⟨_, List.mem_map_of_mem member, inside⟩

theorem mem_of_scopeFor {proposed : HeaderValue} {scope : Scope}
    (answers : preflight.scopeFor proposed = some scope) : scope ∈ preflight.scopes := by
  unfold Preflight.scopeFor at answers
  split at answers
  · rename_i found
    obtain rfl := Option.some.inj answers
    exact List.mem_of_find?_eq_some found
  · rw [Option.ite_none_left_eq_some] at answers
    exact List.mem_of_find?_eq_some answers.2

/-- The preflight of a covered method is answered by the scope of its `Cors`. -/
theorem exists_scopeFor_wireValue
    (distinct : (entry.operations.map Served.method).Nodup)
    (installed : preflightOf cors policy methods entry = some preflight)
    {method : Router.Method} {mounted : Mount} (covered : CoveredBy cors entry method mounted) :
    ∃ scope, preflight.scopeFor (wireValue method) = some scope ∧
      ScopeOf cors entry mounted scope := by
  obtain ⟨scope, member, inside⟩ := exists_scope_mem installed covered
  have isFound : (preflight.scopes.find? (·.covers (wireValue method))).isSome :=
    List.find?_isSome.mpr ⟨scope, member, names_wireValue_iff.mpr inside⟩
  obtain ⟨answering, found⟩ := Option.isSome_iff_exists.mp isFound
  obtain ⟨other, isScope⟩ := exists_scopeOf installed (List.mem_of_find?_eq_some found)
  have isCovering : answering.covers (wireValue method) = true := by
    simpa using List.find?_some found
  have covers : method ∈ answering.covered := names_wireValue_iff.mp isCovering
  obtain rfl := (isScope.covers method covers).unique distinct covered
  refine ⟨answering, ?_, isScope⟩
  rw [Preflight.scopeFor, found]

/-! ## Safety -/

/-- Every preflight of an origin is answered safely on a path: each method the
answer approves that the path serves is covered by a `Cors` that permits the
origin, with credentials where the answer allows them; and the origin is named
only where the scope that answers permits it. -/
def Safe (cors : Mount → Option CorsConfig) (entry : PathEntry Mount) (origin : HeaderValue) : Prop :=
  ∀ policy methods preflight, preflightOf cors policy methods entry = some preflight →
    ∀ request proposed, request.get Header.origin = some origin →
      request.get Header.accessControlRequestMethod = some proposed →
      let response := (preflight.answer request : Response (Content Empty))
      (∀ method, entry.Answers method → Approves response method →
        ∃ mounted config, CoveredBy cors entry method mounted ∧ cors mounted = some config ∧
          config.permits origin = true ∧
          ((response.headers.get Header.accessControlAllowCredentials).isSome →
            config.credentials = true)) ∧
      ((response.headers.get Header.accessControlAllowOrigin).isSome →
        ∃ scope, preflight.scopeFor proposed = some scope ∧ scope.config.permits origin = true)

/-- No `Cors` that permits an origin on a path was told to advertise a method of
another there that refuses it, or that refuses its credentials where the first
allows them. -/
def NoneOversteps (cors : Mount → Option CorsConfig) (entry : PathEntry Mount) (origin : HeaderValue) :
    Prop :=
  ∀ mounted config, (∃ operation ∈ entry.operations, corsOf cors operation = some mounted) →
    cors mounted = some config → config.permits origin = true →
    ∀ methods, config.methods = some methods → ∀ method ∈ methods,
      ∀ other otherConfig, CoveredBy cors entry method other → cors other = some otherConfig →
        otherConfig.permits origin = true ∧
          (config.credentials = true → otherConfig.credentials = true)

theorem answer_eq {request : HeaderMap} {proposed : HeaderValue}
    (isOrigin : request.get Header.origin = some origin)
    (isMethod : request.get Header.accessControlRequestMethod = some proposed) :
    (preflight.answer request : Response (Content Empty)) =
      preflight.answerTo origin proposed request := by
  simp only [Preflight.answer, isOrigin, isMethod]

theorem safe_of_noneOversteps (noneOversteps : NoneOversteps cors entry origin) : Safe cors entry origin := by
  intro policy methods preflight installed request proposed isOrigin isMethod
  rw [answer_eq isOrigin isMethod]
  refine ⟨fun method answers approved => ?_, fun named => ?_⟩
  · obtain ⟨scope, permitting, advertised⟩ := Preflight.approves_answerTo_iff.mp approved
    obtain ⟨answering, permits⟩ := Preflight.permitting_eq_some_iff.mp permitting
    obtain ⟨mounted, isConfig, isMounted, covers, advertises⟩ :=
      exists_scopeOf installed (mem_of_scopeFor answering)
    obtain ⟨wanted, isCovered⟩ := (advertises method).mp advertised
    rw [Preflight.allowsCredentials_answerTo_iff]
    simp only [permitting, Option.some.injEq, exists_eq_left']
    cases overridden : scope.config.methods with
    | none =>
        rw [overridden, Option.getD_none] at wanted
        exact ⟨mounted, scope.config, covers method wanted, isConfig, permits, id⟩
    | some told =>
        rw [overridden, Option.getD_some] at wanted
        obtain ⟨other, covered⟩ := isCovered answers
        obtain ⟨otherConfig, isOther⟩ := covered.exists_config
        exact ⟨other, otherConfig, covered, isOther, noneOversteps mounted scope.config isMounted isConfig
          permits told overridden method wanted other otherConfig covered isOther⟩
  · obtain ⟨scope, permitting⟩ := Preflight.exists_of_allowOrigin named
    exact ⟨scope, Preflight.permitting_eq_some_iff.mp permitting⟩

/-- A preflight of an origin that proposes a method. -/
def asking (origin proposed : HeaderValue) : HeaderMap :=
  (HeaderMap.empty.insert Header.origin origin).insert Header.accessControlRequestMethod proposed

theorem get_asking (origin proposed : HeaderValue) :
    (asking origin proposed).get Header.origin = some origin ∧
      (asking origin proposed).get Header.accessControlRequestMethod = some proposed := by
  have different : Header.accessControlRequestMethod ≠ Header.origin := by decide
  simp [asking, HeaderMap.get_insert, different]

theorem noneOversteps_of_safe (distinct : (entry.operations.map Served.method).Nodup)
    (undeclared : ¬ entry.Declares .options) (safe : Safe cors entry origin) :
    NoneOversteps cors entry origin := by
  rintro mounted config ⟨operation, isOperation, found⟩ isConfig permits methods overridden method told
    other otherConfig covered isOther
  have installs : (preflightOf cors .problem [] entry).isSome :=
    isSome_preflightOf.mpr ⟨undeclared, operation, isOperation, Option.isSome_of_mem found⟩
  obtain ⟨preflight, installed⟩ := Option.isSome_iff_exists.mp installs
  -- its own operation is proposed, which its own scope answers
  obtain ⟨scope, answering, isScope⟩ := exists_scopeFor_wireValue distinct installed
    ⟨operation, isOperation, found, .inl rfl⟩
  obtain rfl := Option.some.inj (isScope.isConfig.symm.trans isConfig)
  have permitting : preflight.permitting origin (wireValue operation.method) = some scope :=
    Preflight.permitting_eq_some_iff.mpr ⟨answering, permits⟩
  have advertised : method ∈ scope.advertised := by
    rw [isScope.advertises, overridden]
    exact ⟨told, fun _ => ⟨other, covered⟩⟩
  obtain ⟨isOrigin, isMethod⟩ := get_asking origin (wireValue operation.method)
  obtain ⟨approvals, -⟩ := safe _ _ preflight installed _ _ isOrigin isMethod
  rw [answer_eq isOrigin isMethod] at approvals
  obtain ⟨owner, ownerConfig, isOwner, isOwnerConfig, ownerPermits, credentials⟩ :=
    approvals method covered.answers (Preflight.approves_answerTo_iff.mpr ⟨scope, permitting, advertised⟩)
  obtain rfl := isOwner.unique distinct covered
  obtain rfl := Option.some.inj (isOwnerConfig.symm.trans isOther)
  exact ⟨ownerPermits, fun stated => credentials
    (Preflight.allowsCredentials_answerTo_iff.mpr ⟨scope, permitting, stated⟩)⟩

/-- The preflights of a declared path are safe for an origin exactly when it
answers none, or no `Cors` that permits the origin there was told to advertise a
method of one that does not. -/
theorem safe_iff (cors : Mount → Option CorsConfig) (declared : Declared Mount)
    (origin : HeaderValue) :
    Safe cors declared.entry origin ↔
      declared.entry.Declares .options ∨ NoneOversteps cors declared.entry origin := by
  have distinct : (declared.entry.operations.map Served.method).Nodup := by
    simpa [Declared.entry, PathEntry.deriveAllow, Function.comp_def] using declared.distinct
  by_cases declares : declared.entry.Declares .options
  · refine iff_of_true (fun policy methods preflight installed => ?_) (.inl declares)
    exact absurd declares (not_declares_options installed)
  · rw [or_iff_right declares]
    exact ⟨noneOversteps_of_safe distinct declares, safe_of_noneOversteps⟩

/-! ## A method of a sibling -/

/-- A `Cors` that permits one origin, and was perhaps told what to advertise. -/
def permitting (origin : Text) (methods : Option (List Router.Method)) : CorsConfig where
  origins := [origin]
  predicates := []
  any := ⟨false, false⟩
  credentials := false
  methods := methods
  headers := []
  maxAge := none

/-- One sibling permits `a` and was told to advertise `GET` and `DELETE`; the other
permits `b`. -/
def siblings (mounted : Bool) : Option CorsConfig :=
  if mounted then some (permitting "https://a".toList (some [.get, .delete]))
  else some (permitting "https://b".toList none)

/-- The first covers the `GET` of the path, the second its `DELETE`. -/
def siblingPath : Declared Bool :=
  ⟨[(.get, [true]), (.delete, [false])], none, by decide⟩

/-- The origin the second sibling refuses. -/
def refusedOrigin : HeaderValue :=
  ⟨Text.toOctets "https://a".toList, by decide⟩

/-- A preflight that proposes the `GET` approves the `DELETE`, which the path
serves under a `Cors` that refuses the origin. -/
theorem not_safe_siblings :
    ¬ Safe siblings siblingPath.entry refusedOrigin ∧
      ∃ preflight, preflightOf siblings .problem [] siblingPath.entry = some preflight ∧
        Approves (preflight.answer (asking refusedOrigin (wireValue .get)) :
          Response (Content Empty)) .delete ∧
        CoveredBy siblings siblingPath.entry .delete false ∧
        (permitting "https://b".toList none).permits refusedOrigin = false := by
  obtain ⟨preflight, installed, approved⟩ : ∃ preflight,
      preflightOf siblings .problem [] siblingPath.entry = some preflight ∧
        Approves (preflight.answer (asking refusedOrigin (wireValue .get)) :
          Response (Content Empty)) .delete :=
    ⟨_, rfl, _, rfl, "GET, DELETE".toList, by decide, by decide⟩
  have covered : CoveredBy siblings siblingPath.entry .delete false :=
    ⟨⟨.delete, [false], .endpoint⟩,
      by simp [siblingPath, Declared.entry, PathEntry.deriveAllow], by decide, .inl rfl⟩
  have refuses : (permitting "https://b".toList none).permits refusedOrigin = false := by decide
  refine ⟨fun safe => ?_, preflight, installed, approved, covered, refuses⟩
  obtain ⟨isOrigin, isMethod⟩ := get_asking refusedOrigin (wireValue .get)
  obtain ⟨approvals, -⟩ := safe _ _ _ installed _ _ isOrigin isMethod
  obtain ⟨owner, config, isOwner, isConfig, permits, -⟩ := approvals _ covered.answers approved
  obtain rfl := isOwner.unique (by decide) covered
  obtain rfl := Option.some.inj isConfig
  exact absurd (refuses.symm.trans permits) Bool.false_ne_true

end Kynos.Cors
