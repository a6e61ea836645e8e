import Kynos.Schema.Terminates
import Mathlib.Logic.Relation

/-!
# What is registered

Between calls nothing is reserved, so every reference names a registered
component; and where no conflict was recorded, every named type reached is
registered with its body.
-/

namespace Kynos.Schema

open Kynos.OpenApi

variable {Kind Keywords : Type*} {family : Family Kind Keywords}

/-- A type refers to another. -/
def Family.Refers (family : Family Kind Keywords) (kind other : Kind) : Prop :=
  other ∈ (family.described kind).references

/-- A run of calls to `Registry::resolve` from a new registry: the types called,
last first, and what they leave. -/
inductive Called [DecidableEq Keywords] [Inhabited Keywords] (family : Family Kind Keywords)
    (renamed : List (Text × Renamed)) : List Kind → Registry Keywords → Prop
  | new : Called family renamed [] (.new renamed)
  | call {called : List Kind} {before after : Registry Keywords} {kind : Kind} {fuel : ℕ}
      {schema : OpenApiSchema Keywords} (run : Called family renamed called before)
      (resolves : resolve family fuel kind before = some (schema, after)) :
      Called family renamed (kind :: called) after

variable [DecidableEq Keywords] [Inhabited Keywords] {renamed : List (Text × Renamed)}

/-! ## Between calls -/

/-- What holds of a registry between calls. -/
structure Settled (family : Family Kind Keywords) (renamed : List (Text × Renamed))
    (called : List Kind) (registry : Registry Keywords) : Prop where
  renamed : registry.renamed = renamed
  reserved : registry.reserved = []
  inlining : registry.inlining = []
  sound : Sound family registry
  covers : ∃ done, Covers family done ∅ registry ∧ ∀ kind ∈ called, family.typeName kind ∈ done

omit [DecidableEq Keywords] in
theorem settled_new : Settled family renamed [] (.new renamed) where
  renamed := rfl
  reserved := rfl
  inlining := rfl
  sound := ⟨fun _ member => (nomatch member), .nil, fun _ _ found => (nomatch found),
    fun _ _ found => (nomatch found)⟩
  covers := ⟨∅, ⟨fun _ member => member.elim, fun _ member => member.elim,
    fun _ _ found => (nomatch found), fun _ member => (nomatch member)⟩,
    fun _ member => (nomatch member)⟩

omit [DecidableEq Keywords] in
theorem Settled.resolved {called : List Kind} {before after : Registry Keywords} {kind : Kind}
    {schema : OpenApiSchema Keywords} (settled : Settled family renamed called before)
    (resolved : Resolved family kind before schema after) :
    Settled family renamed (kind :: called) after where
  renamed := resolved.kept.renamed.symm.trans settled.renamed
  reserved := by
    have extended := resolved.kept.reserved
    rw [settled.reserved] at extended
    exact List.forall₂_nil_left_iff.mp extended
  inlining := resolved.kept.inlining.symm.trans settled.inlining
  sound := resolved.sound
  covers := by
    obtain ⟨done, covers, areDone⟩ := settled.covers
    obtain ⟨further, more, coversFurther, isDone⟩ := resolved.covers done ∅ covers
    rw [Set.union_empty] at isDone
    refine ⟨further, coversFurther, fun other member => ?_⟩
    rcases List.mem_cons.mp member with rfl | before
    · exact isDone
    · exact more (areDone other before)

theorem Called.settled (alike : family.Alike) {called : List Kind} {registry : Registry Keywords}
    (run : Called family renamed called registry) : Settled family renamed called registry := by
  induction run with
  | new => exact settled_new
  | call _ resolves ih => exact ih.resolved (resolved_of_resolve alike ih.sound resolves)

omit [DecidableEq Keywords] in
/-- What is reached from a type that is done is done, where nothing is open. -/
theorem Covers.mem_of_reached {done : Set Text} {registry : Registry Keywords}
    (covers : Covers family done ∅ registry) {root kind : Kind}
    (isDone : family.typeName root ∈ done)
    (reached : Relation.ReflTransGen family.Refers root kind) : family.typeName kind ∈ done := by
  induction reached with
  | refl => exact isDone
  | tail _ refers ih =>
      have next := covers.closed _ ih _ refers
      rwa [Set.union_empty] at next

namespace Settled

variable {called : List Kind} {registry : Registry Keywords}

omit [DecidableEq Keywords] in
/-- A known component is registered. -/
theorem isSome_of_known (settled : Settled family renamed called registry) {component : Text}
    (known : Known registry component) : (registry.schemas.lookup component).isSome := by
  rcases known with registered | ⟨held, member, -⟩
  · exact registered
  · rw [settled.reserved] at member
    cases member

omit [DecidableEq Keywords] in
/-- Where there is no conflict, a named type reached is registered with its
body. -/
theorem exists_body (settled : Settled family renamed called registry)
    (silent : registry.conflicts = []) {root kind : Kind} (isCalled : root ∈ called)
    (reached : Relation.ReflTransGen family.Refers root kind) {name : ComponentName}
    {description : Option Text}
    (isNamed : family.published renamed kind = some (name, description)) :
    ∃ body, IsBody family renamed kind body ∧
      registry.schemas.lookup name.text = some (body.describedAs description) := by
  obtain ⟨done, covers, areDone⟩ := settled.covers
  have isDone : family.typeName kind ∈ done := covers.mem_of_reached (areDone root isCalled) reached
  obtain ⟨body, isBody, placed⟩ :=
    covers.settled kind isDone name description (settled.renamed ▸ isNamed) silent
  refine ⟨body, settled.renamed ▸ isBody, ?_⟩
  rcases placed with registered | ⟨held, member, -⟩
  · exact registered
  · rw [settled.reserved] at member
    cases member

end Settled

/-! ## Every call -/

/-- With type names that tell types apart by what they say of themselves, and no
cycle of anonymous types, a call ends; what it returns and what is registered
refer to registered components; what was registered is registered still; and
without a conflict every named type reached is registered with its body. -/
theorem exists_resolve_complete [Finite Kind] (alike : family.Alike) (grounded : family.Grounded)
    {called : List Kind} {before : Registry Keywords} (run : Called family renamed called before)
    (kind : Kind) :
    ∃ schema after,
      (∃ enough, ∀ fuel, enough ≤ fuel →
        resolve family fuel kind before = some (schema, after)) ∧
      (∀ component ∈ schema.components, (after.schemas.lookup component).isSome) ∧
      (∀ name body, after.schemas.lookup name = some body →
        ∀ component ∈ body.components, (after.schemas.lookup component).isSome) ∧
      (∀ name body, before.schemas.lookup name = some body →
        after.schemas.lookup name = some body) ∧
      (after.conflicts = [] → ∀ root ∈ kind :: called, ∀ reached,
        Relation.ReflTransGen family.Refers root reached → ∀ name description,
          family.published renamed reached = some (name, description) →
            ∃ body, IsBody family renamed reached body ∧
              after.schemas.lookup name.text = some (body.describedAs description)) := by
  have settled := run.settled alike
  have ready : Ready family kind before := by
    constructor
    · rw [settled.inlining]
      exact fun _ member => (nomatch member)
    · rw [settled.inlining]
      exact fun _ member => (nomatch member)
  obtain ⟨enough, ⟨schema, after⟩, resolves⟩ := exists_resolve alike grounded settled.sound ready
  have resolved := resolved_of_resolve alike settled.sound resolves
  have further := settled.resolved resolved
  refine ⟨schema, after, ⟨enough, fun fuel le => resolve_mono le resolves⟩,
    fun component refers => further.isSome_of_known (resolved.known component refers),
    fun name body found component refers =>
      further.isSome_of_known (resolved.sound.closed name body found component refers),
    resolved.kept.schemas, fun silent root member reached leads name description isNamed =>
      further.exists_body silent member leads isNamed⟩

omit [DecidableEq Keywords] [Inhabited Keywords] in
theorem exists_of_mem_componentsOfAll {schemas : List (OpenApiSchema Keywords)} {component : Text}
    (member : component ∈ OpenApiSchema.componentsOfAll schemas) :
    ∃ schema ∈ schemas, component ∈ schema.components := by
  induction schemas with
  | nil => cases member
  | cons schema rest ih =>
      rw [OpenApiSchema.componentsOfAll] at member
      rcases List.mem_append.mp member with first | later
      · exact ⟨schema, List.mem_cons_self, first⟩
      · obtain ⟨other, inRest, refers⟩ := ih later
        exact ⟨other, List.mem_cons_of_mem _ inRest, refers⟩

/-- A type whose body holds what it refers to. -/
def holding (name : Option ComponentName) (references : List Kind) (keywords : Keywords) :
    Description Kind Keywords where
  name := name
  references := references
  body schemas := .object none none keywords schemas
  given _ _ refers := exists_of_mem_componentsOfAll refers

def memberName : ComponentName :=
  ⟨"Member".toList, List.cons_ne_nil _ _, by decide⟩

/-- A type with a name, and an `Option` of it that it holds. -/
def members : Family Bool Unit where
  typeName isMember := if isMember then "Member".toList else "Option<Member>".toList
  described isMember := if isMember then holding memberName [false] () else holding none [true] ()

theorem exists_resolve_complete_members :
    ∃ schema after,
      (∃ enough, ∀ fuel, enough ≤ fuel →
        resolve members fuel false (.new []) = some (schema, after)) ∧
      (∀ component ∈ schema.components, (after.schemas.lookup component).isSome) ∧
      (∀ name body, after.schemas.lookup name = some body →
        ∀ component ∈ body.components, (after.schemas.lookup component).isSome) ∧
      (∀ name body, (Registry.new [] : Registry Unit).schemas.lookup name = some body →
        after.schemas.lookup name = some body) ∧
      (after.conflicts = [] → ∀ root ∈ [false], ∀ reached,
        Relation.ReflTransGen members.Refers root reached → ∀ name description,
          members.published [] reached = some (name, description) →
            ∃ body, IsBody members [] reached body ∧
              after.schemas.lookup name.text = some (body.describedAs description)) := by
  refine exists_resolve_complete ?_ ?_ .new false
  · intro first second same
    cases first <;> cases second
    · rfl
    · exact absurd same (by decide)
    · exact absurd same (by decide)
    · rfl
  · rintro kind cycle
    obtain ⟨next, inlines, further⟩ := Relation.TransGen.head'_iff.mp cycle
    cases kind with
    | true => cases inlines.1
    | false =>
        have isMember : next = true := List.mem_singleton.mp inlines.2
        rw [isMember] at further
        rcases Relation.ReflTransGen.cases_head further with same | ⟨_, other, -⟩
        · cases same
        · cases other.1

/-! ## Two types of one type name -/

def itemName : ComponentName :=
  ⟨"Item".toList, List.cons_ne_nil _ _, by decide⟩

/-- Two types of two versions of a crate: their type names are the same, and so are
their component names, and their bodies differ. -/
def versions : Family Bool Bool where
  typeName _ := "store::Item".toList
  described version := holding itemName [] version

/-- What is left of describing the first version. -/
def firstVersion : Registry Bool where
  schemas := [(itemName.text, .object none none false [])]
  origins := [(itemName.text, "store::Item".toList)]
  reserved := []
  inlining := []
  renamed := []
  conflicts := []

/-- The second version is never described: no conflict is recorded, and its body is
not the one registered. -/
theorem not_registered_versions :
    versions.Grounded ∧ ∃ registry, Called versions [] [true, false] registry ∧
      registry.conflicts = [] ∧ versions.published [] true = some (itemName, none) ∧
        ∀ body, IsBody versions [] true body →
          registry.schemas.lookup itemName.text ≠ some (body.describedAs none) := by
  have first : resolve versions 1 false (.new []) = some (.component itemName.text, firstVersion) := rfl
  have second : resolve versions 1 true firstVersion = some (.component itemName.text, firstVersion) :=
    rfl
  refine ⟨fun kind cycle => ?_, firstVersion, .call (.call .new first) second, rfl, rfl, ?_⟩
  · obtain ⟨next, inlines, -⟩ := Relation.TransGen.head'_iff.mp cycle
    cases inlines.1
  · rintro body ⟨schemas, areOutcomes, rfl⟩
    cases areOutcomes
    decide

end Kynos.Schema
