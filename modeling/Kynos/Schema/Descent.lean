import Kynos.Schema.Registry
import Mathlib.Data.List.Forall2

/-!
# What a descent leaves

Resolving a type keeps the reservations it found, takes nothing back of what is
registered, and gives what the type resolves to whatever the registry held.
-/

namespace Kynos.Schema

open Kynos.Collection Kynos.OpenApi

variable {Kind Keywords : Type*} {family : Family Kind Keywords}

/-! ## What a type resolves to -/

section Outcome

variable [Inhabited Keywords]

/-- What a type resolves to: a reference where it has a name, and its body where
it has none. -/
inductive Outcome (family : Family Kind Keywords) (renamed : List (Text × Renamed)) :
    Kind → OpenApiSchema Keywords → Prop
  | reference {kind : Kind} {name : ComponentName} {description : Option Text}
      (isNamed : family.published renamed kind = some (name, description)) :
      Outcome family renamed kind (.component name.text)
  | inlined {kind : Kind} {schemas : List (OpenApiSchema Keywords)}
      (isAnonymous : family.published renamed kind = none)
      (sameLength : (family.described kind).references.length = schemas.length)
      (each : ∀ pair ∈ (family.described kind).references.zip schemas,
        Outcome family renamed pair.1 pair.2) :
      Outcome family renamed kind ((family.described kind).body schemas)

/-- The body of a type: what it builds of what the types it refers to resolve
to. -/
def IsBody (family : Family Kind Keywords) (renamed : List (Text × Renamed)) (kind : Kind)
    (schema : OpenApiSchema Keywords) : Prop :=
  ∃ schemas, List.Forall₂ (Outcome family renamed) (family.described kind).references schemas ∧
    schema = (family.described kind).body schemas

variable {renamed : List (Text × Renamed)}

theorem Outcome.unique {kind : Kind} {first second : OpenApiSchema Keywords}
    (isFirst : Outcome family renamed kind first) (isSecond : Outcome family renamed kind second) :
    first = second := by
  induction isFirst generalizing second with
  | reference isNamed =>
      cases isSecond with
      | reference other =>
          rw [isNamed] at other
          cases other
          rfl
      | inlined isAnonymous =>
          rw [isNamed] at isAnonymous
          cases isAnonymous
  | @inlined kind schemas isAnonymous sameLength _ ih =>
      cases isSecond with
      | reference isNamed =>
          rw [isAnonymous] at isNamed
          cases isNamed
      | @inlined _ others _ otherLength others_are =>
          have same : schemas = others := by
            refine List.ext_getElem (sameLength.symm.trans otherLength) fun index within below => ?_
            have inReferences : index < (family.described kind).references.length :=
              sameLength ▸ within
            exact ih ((family.described kind).references[index], schemas[index])
              (List.mem_iff_getElem.mpr ⟨index, by simp [List.length_zip]; omega, by simp⟩)
              (others_are ((family.described kind).references[index], others[index])
                (List.mem_iff_getElem.mpr ⟨index, by simp [List.length_zip]; omega, by simp⟩))
          rw [same]

/-- A type has at most one body. -/
theorem IsBody.unique {kind : Kind} {first second : OpenApiSchema Keywords}
    (isFirst : IsBody family renamed kind first) (isSecond : IsBody family renamed kind second) :
    first = second := by
  obtain ⟨schemas, areOutcomes, rfl⟩ := isFirst
  obtain ⟨others, otherOutcomes, rfl⟩ := isSecond
  have same : schemas = others := by
    generalize (family.described kind).references = kinds at areOutcomes otherOutcomes
    induction areOutcomes generalizing others with
    | nil =>
        cases otherOutcomes
        rfl
    | cons isOutcome _ ih =>
        cases otherOutcomes with
        | cons isOther rest => rw [isOutcome.unique isOther, ih _ rest]
  rw [same]

end Outcome

/-! ## What is kept -/

/-- A reservation with at least the rivals it had. -/
def Reservation.Extends (before after : Reservation Keywords) : Prop :=
  before.name = after.name ∧ before.origin = after.origin ∧ before.rivals ⊆ after.rivals

/-- What a registry held is held still. -/
structure Kept (before after : Registry Keywords) : Prop where
  renamed : before.renamed = after.renamed
  inlining : before.inlining = after.inlining
  reserved : List.Forall₂ Reservation.Extends before.reserved after.reserved
  schemas : ∀ name schema, before.schemas.lookup name = some schema →
    after.schemas.lookup name = some schema
  conflicts : after.conflicts = [] → before.conflicts = []

theorem Reservation.Extends.refl (reservation : Reservation Keywords) :
    reservation.Extends reservation :=
  ⟨rfl, rfl, List.Subset.refl _⟩

theorem forall₂_extends_refl (reserved : List (Reservation Keywords)) :
    List.Forall₂ Reservation.Extends reserved reserved :=
  List.forall₂_same.mpr fun reservation _ => .refl reservation

theorem forall₂_extends_trans {first second third : List (Reservation Keywords)}
    (extended : List.Forall₂ Reservation.Extends first second)
    (further : List.Forall₂ Reservation.Extends second third) :
    List.Forall₂ Reservation.Extends first third := by
  induction extended generalizing third with
  | nil =>
      cases further
      exact .nil
  | cons one _ ih =>
      cases further with
      | cons other rest =>
          exact .cons ⟨one.1.trans other.1, one.2.1.trans other.2.1,
            fun _ member => other.2.2 (one.2.2 member)⟩ (ih rest)

namespace Kept

theorem refl (registry : Registry Keywords) : Kept registry registry :=
  ⟨rfl, rfl, forall₂_extends_refl _, fun _ _ held => held, id⟩

theorem trans {first second third : Registry Keywords} (kept : Kept first second)
    (further : Kept second third) : Kept first third where
  renamed := kept.renamed.trans further.renamed
  inlining := kept.inlining.trans further.inlining
  reserved := forall₂_extends_trans kept.reserved further.reserved
  schemas name schema held := further.schemas name schema (kept.schemas name schema held)
  conflicts silent := kept.conflicts (further.conflicts silent)

end Kept

/-- A reservation that was held is held still. -/
theorem exists_extends {before after : List (Reservation Keywords)}
    (extended : List.Forall₂ Reservation.Extends before after) {reservation : Reservation Keywords}
    (member : reservation ∈ before) : ∃ held ∈ after, reservation.Extends held := by
  induction extended with
  | nil => cases member
  | @cons _ other _ _ one _ ih =>
      rcases List.mem_cons.mp member with rfl | later
      · exact ⟨other, List.mem_cons_self, one⟩
      · obtain ⟨held, inRest, extend⟩ := ih later
        exact ⟨held, List.mem_cons_of_mem _ inRest, extend⟩

/-- A reservation that is held was held already. -/
theorem exists_extended {before after : List (Reservation Keywords)}
    (extended : List.Forall₂ Reservation.Extends before after) {reservation : Reservation Keywords}
    (member : reservation ∈ after) : ∃ held ∈ before, held.Extends reservation := by
  induction extended with
  | nil => cases member
  | @cons other _ _ _ one _ ih =>
      rcases List.mem_cons.mp member with rfl | later
      · exact ⟨other, List.mem_cons_self, one⟩
      · obtain ⟨held, inRest, extend⟩ := ih later
        exact ⟨held, List.mem_cons_of_mem _ inRest, extend⟩

/-! ## Known components -/

/-- A component is registered, or a descent that has not finished holds its
name. -/
def Known (registry : Registry Keywords) (component : Text) : Prop :=
  (registry.schemas.lookup component).isSome ∨ ∃ held ∈ registry.reserved, held.name = component

theorem Known.kept {before after : Registry Keywords} {component : Text}
    (known : Known before component) (kept : Kept before after) : Known after component := by
  rcases known with registered | ⟨held, member, named⟩
  · obtain ⟨schema, isHeld⟩ := Option.isSome_iff_exists.mp registered
    exact .inl (Option.isSome_iff_exists.mpr ⟨schema, kept.schemas _ _ isHeld⟩)
  · obtain ⟨still, inAfter, same, -⟩ := exists_extends kept.reserved member
    exact .inr ⟨still, inAfter, same.symm.trans named⟩

/-- What holds of a registry between two steps of a descent: reservations are of
types published under their names, only the outermost of a name has rivals, what
is registered refers to known components, and names with an origin are
registered. -/
structure Sound (family : Family Kind Keywords) (registry : Registry Keywords) : Prop where
  typed : ∀ held ∈ registry.reserved, ∃ kind name description,
    family.typeName kind = held.origin ∧
      family.published registry.renamed kind = some (name, description) ∧ name.text = held.name
  outermost : registry.reserved.Pairwise fun outer inner =>
    outer.name = inner.name → inner.rivals = []
  closed : ∀ name schema, registry.schemas.lookup name = some schema →
    ∀ component ∈ schema.components, Known registry component
  owned : ∀ name origin, registry.origins.lookup name = some origin →
    (registry.schemas.lookup name).isSome

/-! ## Filing -/

theorem file_eq_none_iff {key : Text} {schema : OpenApiSchema Keywords}
    {reserved : List (Reservation Keywords)} :
    file key schema reserved = none ↔ ∀ held ∈ reserved, held.name ≠ key := by
  induction reserved with
  | nil => simp [file]
  | cons reservation rest ih =>
      rw [file]
      split
      · simp_all
      · simp_all

theorem extends_of_file {key : Text} {schema : OpenApiSchema Keywords}
    {reserved filed : List (Reservation Keywords)} (isFiled : file key schema reserved = some filed) :
    List.Forall₂ Reservation.Extends reserved filed := by
  induction reserved generalizing filed with
  | nil => cases isFiled
  | cons reservation rest ih =>
      rw [file] at isFiled
      split at isFiled
      · cases isFiled
        exact .cons ⟨rfl, rfl, List.subset_append_left _ _⟩ (forall₂_extends_refl rest)
      · obtain ⟨others, inRest, rfl⟩ := Option.map_eq_some_iff.mp isFiled
        exact .cons (.refl reservation) (ih inRest)

theorem mem_of_file {key : Text} {schema : OpenApiSchema Keywords}
    {reserved filed : List (Reservation Keywords)} (isFiled : file key schema reserved = some filed) :
    ∃ held ∈ filed, held.name = key ∧ schema ∈ held.rivals := by
  induction reserved generalizing filed with
  | nil => cases isFiled
  | cons reservation rest ih =>
      rw [file] at isFiled
      split at isFiled
      · rename_i same
        cases isFiled
        exact ⟨_, List.mem_cons_self, same, List.mem_append_right _ (List.mem_singleton_self _)⟩
      · obtain ⟨others, inRest, rfl⟩ := Option.map_eq_some_iff.mp isFiled
        obtain ⟨held, member, found⟩ := ih inRest
        exact ⟨held, List.mem_cons_of_mem _ member, found⟩

/-- A reservation of another name is left as it was. -/
theorem mem_of_mem_file {key : Text} {schema : OpenApiSchema Keywords}
    {reserved filed : List (Reservation Keywords)} (isFiled : file key schema reserved = some filed)
    {held : Reservation Keywords} (member : held ∈ filed) (different : held.name ≠ key) :
    held ∈ reserved := by
  induction reserved generalizing filed with
  | nil => cases isFiled
  | cons reservation rest ih =>
      rw [file] at isFiled
      split at isFiled
      · rename_i same
        cases isFiled
        rcases List.mem_cons.mp member with rfl | later
        · exact absurd same different
        · exact List.mem_cons_of_mem _ later
      · obtain ⟨others, inRest, rfl⟩ := Option.map_eq_some_iff.mp isFiled
        rcases List.mem_cons.mp member with rfl | later
        · exact List.mem_cons_self
        · exact List.mem_cons_of_mem _ (ih inRest later)

/-- A body is filed with no reservation but the outermost of its name. -/
theorem outermost_of_file {key : Text} {schema : OpenApiSchema Keywords}
    {reserved filed : List (Reservation Keywords)} (isFiled : file key schema reserved = some filed)
    (outermost : reserved.Pairwise fun outer inner => outer.name = inner.name → inner.rivals = []) :
    filed.Pairwise fun outer inner => outer.name = inner.name → inner.rivals = [] := by
  induction reserved generalizing filed with
  | nil => cases isFiled
  | cons reservation rest ih =>
      obtain ⟨first, later⟩ := List.pairwise_cons.mp outermost
      rw [file] at isFiled
      split at isFiled
      · cases isFiled
        exact List.pairwise_cons.mpr ⟨first, later⟩
      · rename_i different
        obtain ⟨others, inRest, rfl⟩ := Option.map_eq_some_iff.mp isFiled
        refine List.pairwise_cons.mpr ⟨fun inner member same => first inner ?_ same, ih inRest later⟩
        exact mem_of_mem_file inRest member fun isKey => different (same.trans isKey)

/-! ## Registering -/

section Registering

variable [DecidableEq Keywords]

/-- A schema registered, or a conflict recorded in its place. -/
structure Registers (name : ComponentName) (schema : OpenApiSchema Keywords)
    (before after : Registry Keywords) : Prop where
  kept : Kept before after
  reserved : after.reserved = before.reserved
  isRegistered : (after.schemas.lookup name.text).isSome
  isCompared : after.conflicts = [] → after.schemas.lookup name.text = some schema
  held : ∀ other body, after.schemas.lookup other = some body →
    before.schemas.lookup other = some body ∨ other = name.text ∧ body = schema

/-- A conflict is recorded where another schema is registered. -/
theorem registers_of_error {name : ComponentName} {schema : OpenApiSchema Keywords}
    {registry : Registry Keywords} {conflict : Text}
    (isError : registry.register name schema = .error conflict) :
    Registers name schema registry
      { registry with conflicts := registry.conflicts ++ [conflict] } := by
  have isRegistered : (registry.schemas.lookup name.text).isSome := by
    rw [Registry.register] at isError
    split at isError
    · rename_i held
      rw [held]
      rfl
    · cases isError
  exact ⟨⟨rfl, rfl, forall₂_extends_refl _, fun _ _ held => held,
      fun silent => absurd silent (List.append_ne_nil_of_right_ne_nil _ (List.cons_ne_nil _ _))⟩,
    rfl, isRegistered,
    fun silent => absurd silent (List.append_ne_nil_of_right_ne_nil _ (List.cons_ne_nil _ _)),
    fun _ _ held => .inl held⟩

theorem registers_of_ok {name : ComponentName} {schema : OpenApiSchema Keywords}
    {registry registered : Registry Keywords}
    (isOk : registry.register name schema = .ok registered) :
    Registers name schema registry registered ∧ registered.origins = registry.origins := by
  rw [Registry.register] at isOk
  split at isOk
  · rename_i held isHeld
    split at isOk
    · cases isOk
    · rename_i same
      cases isOk
      rw [not_not] at same
      subst same
      exact ⟨⟨.refl registry, rfl, by rw [isHeld]; rfl, fun _ => isHeld, fun _ _ => .inl⟩, rfl⟩
  · rename_i isVacant
    cases isOk
    have found : ∀ other, (put name.text schema registry.schemas).lookup other =
        if other = name.text then some schema else registry.schemas.lookup other :=
      fun other => lookup_put name.text other schema registry.schemas
    refine ⟨⟨⟨rfl, rfl, forall₂_extends_refl _, fun other body held => ?_, id⟩, rfl, ?_, fun _ => ?_,
      fun other body held => ?_⟩, rfl⟩
    · rw [found, if_neg fun same => by rw [same, isVacant] at held; cases held]
      exact held
    · rw [found, if_pos rfl]
      rfl
    · rw [found, if_pos rfl]
    · rw [found] at held
      split at held
      · rename_i same
        cases held
        exact .inr ⟨same, rfl⟩
      · exact .inl held

theorem registers_compare (name : ComponentName) (registry : Registry Keywords)
    (rival : OpenApiSchema Keywords) :
    Registers name rival registry (registry.compare name rival) ∧
      (registry.compare name rival).origins = registry.origins := by
  rw [Registry.compare]
  split
  · rename_i registered isOk
    exact registers_of_ok isOk
  · rename_i conflict isError
    exact ⟨registers_of_error isError, rfl⟩

theorem registers_claim (registry : Registry Keywords) (name : ComponentName) (origin : Text)
    (schema : OpenApiSchema Keywords) :
    Registers name schema registry (registry.claim name origin schema) ∧
      ∀ other owner, (registry.claim name origin schema).origins.lookup other = some owner →
        registry.origins.lookup other = some owner ∨ owner = origin ∧ other = name.text := by
  rw [Registry.claim]
  split
  · rename_i registered isOk
    obtain ⟨registers, same⟩ := registers_of_ok isOk
    split
    · exact ⟨registers, fun other owner owned => .inl (same ▸ owned)⟩
    · refine ⟨⟨⟨registers.kept.renamed, registers.kept.inlining, registers.kept.reserved,
        registers.kept.schemas, registers.kept.conflicts⟩, registers.reserved,
        registers.isRegistered, registers.isCompared, registers.held⟩, fun other owner owned => ?_⟩
      rw [lookup_put, same] at owned
      split at owned
      · rename_i isName
        cases owned
        exact .inr ⟨rfl, isName⟩
      · exact .inl owned
  · rename_i conflict isError
    exact ⟨registers_of_error isError, fun _ _ => .inl⟩

/-- Rivals compared with what is registered change nothing but the conflicts. -/
theorem compared (name : ComponentName) (rivals : List (OpenApiSchema Keywords))
    {registry : Registry Keywords} (isRegistered : (registry.schemas.lookup name.text).isSome) :
    let after := rivals.foldl (Registry.compare name) registry
    Kept registry after ∧ after.reserved = registry.reserved ∧ after.origins = registry.origins ∧
      (∀ other body, after.schemas.lookup other = some body →
        registry.schemas.lookup other = some body) ∧
      (after.conflicts = [] → ∀ rival ∈ rivals, after.schemas.lookup name.text = some rival) := by
  induction rivals generalizing registry with
  | nil => exact ⟨.refl registry, rfl, rfl, fun _ _ held => held, fun _ _ member => nomatch member⟩
  | cons rival rest ih =>
      obtain ⟨registers, same⟩ := registers_compare name registry rival
      obtain ⟨kept, reserved, origins, held, settled⟩ := ih registers.isRegistered
      refine ⟨registers.kept.trans kept, reserved.trans registers.reserved, origins.trans same,
        fun other body found => ?_, fun silent other member => ?_⟩
      · rcases registers.held other body (held other body found) with before | ⟨rfl, rfl⟩
        · exact before
        · obtain ⟨first, isFirst⟩ := Option.isSome_iff_exists.mp isRegistered
          have kept := registers.kept.schemas _ _ isFirst
          rw [held _ _ found, Option.some.injEq] at kept
          rw [isFirst, kept]
      · rcases List.mem_cons.mp member with rfl | later
        · exact kept.schemas _ _ (registers.isCompared (kept.conflicts silent))
        · exact settled silent other later

/-! ## Concluding -/

/-- What a descent concludes with, beside the registry its reservation was taken
back from: its body is registered and compared with its rivals, or waits with
another reservation of its name. -/
structure Concluded (name : ComponentName) (origin : Text) (schema : OpenApiSchema Keywords)
    (rivals : List (OpenApiSchema Keywords)) (popped after : Registry Keywords) : Prop where
  kept : Kept popped after
  outermost : (popped.reserved.Pairwise fun outer inner => outer.name = inner.name →
    inner.rivals = []) →
      after.reserved.Pairwise fun outer inner => outer.name = inner.name → inner.rivals = []
  known : Known after name.text
  held : ∀ other body, after.schemas.lookup other = some body →
    popped.schemas.lookup other = some body ∨ body = schema
  settled : after.conflicts = [] → ∀ rival ∈ schema :: rivals,
    after.schemas.lookup name.text = some rival ∨
      ∃ held ∈ after.reserved, held.name = name.text ∧ rival ∈ held.rivals
  owned : ∀ other owner, after.origins.lookup other = some owner →
    popped.origins.lookup other = some owner ∨
      owner = origin ∧ (after.schemas.lookup other).isSome

theorem concluded_of_conclude {registry after : Registry Keywords} {name : ComponentName}
    {origin : Text} {schema : OpenApiSchema Keywords} {reserved : List (Reservation Keywords)}
    {reservation : Reservation Keywords}
    (isReserved : registry.reserved = reserved ++ [reservation])
    (concludes : registry.conclude name origin schema = some after) :
    Concluded name origin schema reservation.rivals { registry with reserved := reserved } after := by
  rw [Registry.conclude, isReserved, List.getLast?_concat, List.dropLast_concat] at concludes
  dsimp only at concludes
  split at concludes
  · rename_i filed isFiled
    split at concludes
    · rename_i noRivals
      cases concludes
      obtain ⟨held, member, same, isRival⟩ := mem_of_file isFiled
      refine ⟨⟨rfl, rfl, extends_of_file isFiled, fun _ _ held => held, id⟩,
        outermost_of_file isFiled, .inr ⟨held, member, same⟩, fun _ _ => .inl,
        fun _ rival isAny => .inr ⟨held, member, same, ?_⟩, fun _ _ => .inl⟩
      rw [List.isEmpty_iff.mp noRivals, List.mem_singleton] at isAny
      exact isAny ▸ isRival
    · cases concludes
  · cases concludes
    obtain ⟨registers, owned⟩ := registers_claim { registry with reserved := reserved } name origin
      schema
    obtain ⟨kept, same, origins, held, settled⟩ := compared name reservation.rivals
      registers.isRegistered
    refine ⟨registers.kept.trans kept, fun outermost => ?_, ?_, fun other body found => ?_,
      fun silent rival member => .inl ?_, fun other owner found =>
        (owned other owner (origins ▸ found)).imp_right fun ⟨isOrigin, isName⟩ => ⟨isOrigin, ?_⟩⟩
    · rw [same, registers.reserved]
      exact outermost
    · exact Known.kept (.inl registers.isRegistered) kept
    · exact (registers.held other body (held other body found)).imp_right And.right
    · rcases List.mem_cons.mp member with rfl | later
      · exact kept.schemas _ _ (registers.isCompared (kept.conflicts silent))
      · exact settled silent rival later
    · obtain ⟨body, isHeld⟩ := Option.isSome_iff_exists.mp registers.isRegistered
      exact Option.isSome_iff_exists.mpr ⟨body, isName ▸ kept.schemas _ _ isHeld⟩

/-- A descent concludes where only the outermost reservation of a name has
rivals. -/
theorem exists_conclude {registry : Registry Keywords} {name : ComponentName} {origin : Text}
    {schema : OpenApiSchema Keywords} {reserved : List (Reservation Keywords)}
    {reservation : Reservation Keywords}
    (isReserved : registry.reserved = reserved ++ [reservation])
    (isName : reservation.name = name.text)
    (outermost : registry.reserved.Pairwise fun outer inner =>
      outer.name = inner.name → inner.rivals = []) :
    ∃ after, registry.conclude name origin schema = some after := by
  rw [isReserved] at outermost
  rw [Registry.conclude, isReserved, List.getLast?_concat, List.dropLast_concat]
  dsimp only
  split
  · rename_i filed isFiled
    have holder : ∃ held ∈ reserved, held.name = name.text := by
      by_contra none
      push Not at none
      rw [file_eq_none_iff.mpr none] at isFiled
      cases isFiled
    obtain ⟨held, member, same⟩ := holder
    rw [(List.pairwise_append.mp outermost).2.2 held member reservation (List.mem_singleton_self _)
      (same.trans isName.symm)]
    exact ⟨_, rfl⟩
  · exact ⟨_, rfl⟩

end Registering

end Kynos.Schema
