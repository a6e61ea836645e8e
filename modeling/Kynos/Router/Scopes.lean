import Kynos.Router.Allow

/-!
# The scopes of a path

Which `Cors` covers which methods of a path: those of the operations that run
under it, and the `HEAD` its `GET` answers where the path declares none.
-/

namespace Kynos.Router

open Kynos.Http Kynos.Cors

variable {Mount : Type}

/-! ## Recorded methods -/

/-- A method is recorded under a mounted `Cors`. -/
def Recorded (scopes : List (Mount × List Method)) (mounted : Mount) (method : Method) : Prop :=
  ∃ covered, (mounted, covered) ∈ scopes ∧ method ∈ covered

theorem recorded_cons {scope : Mount × List Method} {scopes : List (Mount × List Method)}
    {mounted : Mount} {method : Method} :
    Recorded (scope :: scopes) mounted method ↔
      (scope.1 = mounted ∧ method ∈ scope.2) ∨ Recorded scopes mounted method := by
  constructor
  · rintro ⟨covered, member, inside⟩
    rcases List.mem_cons.mp member with rfl | member
    · exact .inl ⟨rfl, inside⟩
    · exact .inr ⟨covered, member, inside⟩
  · rintro (⟨rfl, inside⟩ | ⟨covered, member, inside⟩)
    · exact ⟨scope.2, List.mem_cons_self, inside⟩
    · exact ⟨covered, List.mem_cons_of_mem _ member, inside⟩

theorem recorded_record [DecidableEq Mount] {scopes : List (Mount × List Method)} {found mounted : Mount}
    {method wanted : Method} :
    Recorded (record found method scopes) mounted wanted ↔
      Recorded scopes mounted wanted ∨ (found = mounted ∧ wanted = method) := by
  induction scopes with
  | nil =>
      rw [record, recorded_cons]
      simp [Recorded]
  | cons scope rest ih =>
      obtain ⟨first, covered⟩ := scope
      rw [record]
      split
      · rename_i same
        subst first
        simp only [recorded_cons, List.mem_append, List.mem_singleton]
        tauto
      · rw [recorded_cons, recorded_cons, ih, or_assoc]

/-- No method is recorded under nothing. -/
theorem ne_nil_of_mem_record [DecidableEq Mount] {scopes : List (Mount × List Method)}
    {found : Mount} {method : Method} (nonempty : ∀ scope ∈ scopes, scope.2 ≠ []) :
    ∀ scope ∈ record found method scopes, scope.2 ≠ [] := by
  induction scopes with
  | nil => simp [record]
  | cons scope rest ih =>
      obtain ⟨first, covered⟩ := scope
      obtain ⟨head, tail⟩ := List.forall_mem_cons.mp nonempty
      rw [record]
      split
      · exact List.forall_mem_cons.mpr ⟨by simp, tail⟩
      · exact List.forall_mem_cons.mpr ⟨head, ih tail⟩

/-! ## Covering scopes -/

section Covering

variable [DecidableEq Mount] {cors : Mount → Option CorsConfig} {operations : List (Served Mount)}

theorem recorded_cover {scopes : List (Mount × List Method)} {operation : Served Mount}
    {mounted : Mount} {method : Method} :
    Recorded (cover cors scopes operation) mounted method ↔
      Recorded scopes mounted method ∨
        (corsOf cors operation = some mounted ∧ operation.method = method) := by
  rw [cover]
  cases found : corsOf cors operation with
  | none => simp
  | some found => rw [recorded_record, Option.some.injEq, @eq_comm _ method]

theorem recorded_foldl_cover {scopes : List (Mount × List Method)} {mounted : Mount}
    {method : Method} :
    Recorded (operations.foldl (cover cors) scopes) mounted method ↔
      Recorded scopes mounted method ∨
        ∃ operation ∈ operations, corsOf cors operation = some mounted ∧
          operation.method = method := by
  induction operations generalizing scopes with
  | nil => simp
  | cons operation rest ih =>
      rw [List.foldl_cons, ih, recorded_cover, List.exists_mem_cons_iff, or_assoc]

/-- A `Cors` is recorded to cover the methods of the operations under it. -/
theorem recorded_coveringScopes {mounted : Mount} {method : Method} :
    Recorded (coveringScopes cors operations) mounted method ↔
      ∃ operation ∈ operations, corsOf cors operation = some mounted ∧
        operation.method = method := by
  rw [coveringScopes, recorded_foldl_cover]
  exact or_iff_right fun ⟨_, member, _⟩ => absurd member List.not_mem_nil

theorem ne_nil_of_mem_foldl_cover {scopes : List (Mount × List Method)}
    (nonempty : ∀ scope ∈ scopes, scope.2 ≠ []) :
    ∀ scope ∈ operations.foldl (cover cors) scopes, scope.2 ≠ [] := by
  induction operations generalizing scopes with
  | nil => exact nonempty
  | cons operation rest ih =>
      rw [List.foldl_cons]
      refine ih ?_
      rw [cover]
      split
      · exact nonempty
      · exact ne_nil_of_mem_record nonempty

/-- Every scope of a path is that of some operation. -/
theorem exists_operation_of_mem_coveringScopes {mounted : Mount} {recorded : List Method}
    (member : (mounted, recorded) ∈ coveringScopes cors operations) :
    ∃ operation ∈ operations, corsOf cors operation = some mounted := by
  have nonempty := ne_nil_of_mem_foldl_cover (fun _ none => absurd none List.not_mem_nil) _ member
  obtain ⟨method, inside⟩ := List.exists_mem_of_ne_nil _ nonempty
  obtain ⟨operation, isOperation, found, -⟩ := recorded_coveringScopes.mp ⟨recorded, member, inside⟩
  exact ⟨operation, isOperation, found⟩

theorem foldl_cover_of_forall {scopes : List (Mount × List Method)}
    (none : ∀ operation ∈ operations, corsOf cors operation = none) :
    operations.foldl (cover cors) scopes = scopes := by
  induction operations with
  | nil => rfl
  | cons operation rest ih =>
      rw [List.foldl_cons, cover, none operation List.mem_cons_self]
      exact ih fun other member => none other (List.mem_cons_of_mem _ member)

/-- A path is covered when some operation of it runs under a `Cors`. -/
theorem coveringScopes_eq_nil_iff :
    coveringScopes cors operations = [] ↔
      ∀ operation ∈ operations, corsOf cors operation = none := by
  constructor
  · intro uncovered operation member
    by_contra found
    obtain ⟨mounted, found⟩ := Option.ne_none_iff_exists'.mp found
    obtain ⟨covered, scope, -⟩ := recorded_coveringScopes.mpr ⟨operation, member, found, rfl⟩
    rw [uncovered] at scope
    exact absurd scope List.not_mem_nil
  · exact foldl_cover_of_forall

end Covering

/-! ## The preflight of a path -/

section Preflight

variable [DecidableEq Mount] {cors : Mount → Option CorsConfig} {policy : FallbackPolicy}
  {methods : List Method} {entry : PathEntry Mount}

/-- A path gets a preflight when it declares no `OPTIONS` and some operation of it
runs under a `Cors`. -/
theorem isSome_preflightOf :
    (preflightOf cors policy methods entry).isSome ↔
      ¬ entry.Declares .options ∧
        ∃ operation ∈ entry.operations, (corsOf cors operation).isSome := by
  have uncovered : (coveringScopes cors entry.operations).isEmpty = true ↔
      ¬ ∃ operation ∈ entry.operations, (corsOf cors operation).isSome := by
    rw [List.isEmpty_iff, coveringScopes_eq_nil_iff]
    simp
  have skipped : (entry.operations.any (·.method = .options) ||
      (coveringScopes cors entry.operations).isEmpty) = true ↔
        entry.Declares .options ∨
          ¬ ∃ operation ∈ entry.operations, (corsOf cors operation).isSome := by
    rw [Bool.or_eq_true, PathEntry.any_eq_true_iff_declares, uncovered]
  rw [preflightOf]
  split
  · rename_i skips
    exact iff_of_false Bool.false_ne_true fun ⟨undeclared, found⟩ =>
      (skipped.mp skips).elim undeclared (· found)
  · rename_i installs
    rw [skipped, not_or, not_not] at installs
    exact iff_of_true rfl installs

theorem not_declares_options {preflight : Preflight}
    (installed : preflightOf cors policy methods entry = some preflight) :
    ¬ entry.Declares .options :=
  (isSome_preflightOf.mp (Option.isSome_of_mem installed)).1

end Preflight

/-! ## What a scope covers -/

section Covered

variable {cors : Mount → Option CorsConfig} {entry : PathEntry Mount}

/-- A mounted `Cors` covers a method of a path: an operation of the method runs
under it, or the `GET` an undeclared `HEAD` falls back to. -/
def CoveredBy (cors : Mount → Option CorsConfig) (entry : PathEntry Mount) (method : Method)
    (mounted : Mount) : Prop :=
  ∃ operation ∈ entry.operations, corsOf cors operation = some mounted ∧
    (operation.method = method ∨
      (method = .head ∧ operation.method = .get ∧ ¬ entry.Declares .head))

theorem mem_withHead {covered : List Method} {method : Method} :
    method ∈ withHead covered ↔ method ∈ covered ∨ (method = .head ∧ .get ∈ covered) := by
  unfold withHead
  split
  · rename_i place found
    obtain ⟨inside, isGet, -⟩ := List.idxOf?_eq_some_iff.mp found
    have getMember : .get ∈ covered := isGet ▸ List.getElem_mem inside
    rw [List.mem_insertIdx (by omega), and_iff_left getMember, or_comm]
  · rename_i missing
    rw [List.idxOf?_eq_none_iff] at missing
    simp [missing]

theorem mem_coveredMethods {recorded : List Method} {method : Method} :
    method ∈ coveredMethods entry recorded ↔
      method ∈ recorded ∨ (method = .head ∧ .get ∈ recorded ∧ ¬ entry.Declares .head) := by
  rw [coveredMethods, ← PathEntry.any_eq_true_iff_declares]
  split
  · simp [*]
  · simp [*, mem_withHead]

theorem exists_config_of_corsOf {operation : Served Mount} {mounted : Mount}
    (found : corsOf cors operation = some mounted) : ∃ config, cors mounted = some config := by
  have isCors : (cors mounted).isSome = true := by simpa using List.find?_some found
  exact Option.isSome_iff_exists.mp isCors

theorem CoveredBy.exists_config {method : Method} {mounted : Mount}
    (covered : CoveredBy cors entry method mounted) : ∃ config, cors mounted = some config :=
  have ⟨_, _, found, _⟩ := covered
  exists_config_of_corsOf found

/-- A covered method is one the path answers. -/
theorem CoveredBy.answers {method : Method} {mounted : Mount}
    (covered : CoveredBy cors entry method mounted) : entry.Answers method := by
  obtain ⟨operation, member, -, own | ⟨isHead, isGet, -⟩⟩ := covered
  · exact .inl ⟨operation, member, own⟩
  · exact .inr (.inl ⟨isHead, operation, member, isGet⟩)

/-- No method is covered twice on a path that declares none twice. -/
theorem CoveredBy.unique {method : Method} {first second : Mount}
    (distinct : (entry.operations.map Served.method).Nodup)
    (byFirst : CoveredBy cors entry method first) (bySecond : CoveredBy cors entry method second) :
    first = second := by
  obtain ⟨operation, member, found, isMethod⟩ := byFirst
  obtain ⟨other, otherMember, otherFound, otherMethod⟩ := bySecond
  have same : operation.method = other.method := by
    rcases isMethod with own | ⟨isHead, isGet, undeclared⟩
    · rcases otherMethod with otherOwn | ⟨isHead, -, undeclared⟩
      · exact own.trans otherOwn.symm
      · exact absurd ⟨operation, member, own.trans isHead⟩ undeclared
    · rcases otherMethod with otherOwn | ⟨-, otherGet, -⟩
      · exact absurd ⟨other, otherMember, otherOwn.trans isHead⟩ undeclared
      · exact isGet.trans otherGet.symm
  obtain rfl := List.inj_on_of_nodup_map distinct member otherMember same
  exact Option.some.inj (found.symm.trans otherFound)

variable [DecidableEq Mount]

theorem coveredBy_iff {method : Method} {mounted : Mount} :
    CoveredBy cors entry method mounted ↔
      ∃ recorded, (mounted, recorded) ∈ coveringScopes cors entry.operations ∧
        method ∈ coveredMethods entry recorded := by
  constructor
  · rintro ⟨operation, member, found, isMethod⟩
    obtain ⟨recorded, isScope, inside⟩ :=
      recorded_coveringScopes.mpr ⟨operation, member, found, rfl⟩
    refine ⟨recorded, isScope, mem_coveredMethods.mpr ?_⟩
    rcases isMethod with rfl | ⟨isHead, isGet, undeclared⟩
    · exact .inl inside
    · exact .inr ⟨isHead, isGet ▸ inside, undeclared⟩
  · rintro ⟨recorded, isScope, inside⟩
    rcases mem_coveredMethods.mp inside with own | ⟨isHead, isGet, undeclared⟩
    · obtain ⟨operation, member, found, isMethod⟩ :=
        recorded_coveringScopes.mp ⟨recorded, isScope, own⟩
      exact ⟨operation, member, found, .inl isMethod⟩
    · obtain ⟨operation, member, found, isMethod⟩ :=
        recorded_coveringScopes.mp ⟨recorded, isScope, isGet⟩
      exact ⟨operation, member, found, .inr ⟨isHead, isMethod, undeclared⟩⟩

theorem mem_scopesOf {scope : Scope} :
    scope ∈ scopesOf cors entry ↔
      ∃ mounted recorded config, (mounted, recorded) ∈ coveringScopes cors entry.operations ∧
        cors mounted = some config ∧ scope = Scope.new config (coveredMethods entry recorded) := by
  simp only [scopesOf, List.mem_filterMap, Prod.exists, Option.map_eq_some_iff]
  refine exists₂_congr fun mounted recorded => ?_
  simp only [eq_comm, ← exists_and_left]

/-- Every scope of a path is that of a `Cors`, and covers only what this covers. -/
theorem exists_of_mem_scopesOf {scope : Scope} (member : scope ∈ scopesOf cors entry) :
    ∃ mounted, cors mounted = some scope.config ∧
      (∃ operation ∈ entry.operations, corsOf cors operation = some mounted) ∧
      (∀ method ∈ scope.covered, CoveredBy cors entry method mounted) ∧
      scope.advertised = scope.config.methods.getD scope.covered := by
  obtain ⟨mounted, recorded, config, isScope, isConfig, rfl⟩ := mem_scopesOf.mp member
  exact ⟨mounted, isConfig, exists_operation_of_mem_coveringScopes isScope, fun method inside => coveredBy_iff.mpr ⟨recorded, isScope, inside⟩, rfl⟩

/-- Every `Cors` that covers a method of a path has a scope that covers it. -/
theorem exists_scope_of_coveredBy {method : Method} {mounted : Mount}
    (covered : CoveredBy cors entry method mounted) :
    ∃ scope ∈ scopesOf cors entry, cors mounted = some scope.config ∧ method ∈ scope.covered := by
  obtain ⟨recorded, isScope, inside⟩ := coveredBy_iff.mp covered
  obtain ⟨config, isConfig⟩ := covered.exists_config
  exact ⟨Scope.new config (coveredMethods entry recorded),
    mem_scopesOf.mpr ⟨mounted, recorded, config, isScope, isConfig, rfl⟩, isConfig, inside⟩

end Covered

end Kynos.Router
