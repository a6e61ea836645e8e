import Kynos.Schema.Descent
import Mathlib.Data.Set.Insert

/-!
# What resolving a type leaves

A type resolved has been described, with everything it refers to, and each body
described is registered, waits with a reservation of its name, or is in conflict.
-/

namespace Kynos.Schema

open Kynos.OpenApi

variable {Kind Keywords : Type*} {family : Family Kind Keywords}

/-! ## References -/

theorem components_component [Inhabited Keywords] (name : Text) :
    (OpenApiSchema.component name : OpenApiSchema Keywords).components = [name] := by
  have isNamed : OpenApiSchema.named (componentsPath ++ name) = some name := by
    rw [OpenApiSchema.named, if_pos (List.isPrefixOf_iff_prefix.mpr (List.prefix_append _ _)),
      List.drop_left]
  simp only [OpenApiSchema.component, OpenApiSchema.components, OpenApiSchema.componentsOfAll,
    Option.bind_some, isNamed, Option.toList_some, List.append_nil]

theorem components_describedAs (description : Option Text) (schema : OpenApiSchema Keywords) :
    (schema.describedAs description).components = schema.components := by
  cases schema <;> simp only [OpenApiSchema.describedAs, OpenApiSchema.components]

/-! ## What has been described -/

/-- Types of one type name say the same of themselves. -/
def Family.Alike (family : Family Kind Keywords) : Prop :=
  ∀ first second, family.typeName first = family.typeName second →
    family.described first = family.described second

/-- A body is registered under a name, or waits with a reservation of it. -/
def Placed (registry : Registry Keywords) (name : Text) (schema : OpenApiSchema Keywords) : Prop :=
  registry.schemas.lookup name = some schema ∨
    ∃ held ∈ registry.reserved, held.name = name ∧ schema ∈ held.rivals

theorem Placed.kept {before after : Registry Keywords} {name : Text}
    {schema : OpenApiSchema Keywords} (placed : Placed before name schema)
    (kept : Kept before after) : Placed after name schema := by
  rcases placed with registered | ⟨held, member, same, isRival⟩
  · exact .inl (kept.schemas _ _ registered)
  · obtain ⟨still, inAfter, sameName, -, rivals⟩ := exists_extends kept.reserved member
    exact .inr ⟨still, inAfter, sameName.symm.trans same, rivals isRival⟩

section Covers

variable [Inhabited Keywords]

/-- Types are done, by their names, and others are open: what a type that is done
refers to is one or the other, its body is placed unless there is a conflict, and
no origin is another type's. -/
structure Covers (family : Family Kind Keywords) (done opened : Set Text)
    (registry : Registry Keywords) : Prop where
  closed : ∀ kind, family.typeName kind ∈ done →
    ∀ other ∈ (family.described kind).references, family.typeName other ∈ done ∪ opened
  settled : ∀ kind, family.typeName kind ∈ done →
    ∀ name description, family.published registry.renamed kind = some (name, description) →
      registry.conflicts = [] → ∃ body, IsBody family registry.renamed kind body ∧
        Placed registry name.text (body.describedAs description)
  owned : ∀ name origin, registry.origins.lookup name = some origin → origin ∈ done
  reserved : ∀ held ∈ registry.reserved, held.origin ∈ opened

/-- What resolving a type gives and leaves. -/
structure Resolved (family : Family Kind Keywords) (kind : Kind) (before : Registry Keywords)
    (schema : OpenApiSchema Keywords) (after : Registry Keywords) : Prop where
  kept : Kept before after
  sound : Sound family after
  outcome : Outcome family before.renamed kind schema
  known : ∀ component ∈ schema.components, Known after component
  covers : ∀ done opened, Covers family done opened before →
    ∃ further, done ⊆ further ∧ Covers family further opened after ∧
      family.typeName kind ∈ further ∪ opened

/-- What resolving types one after the other gives and leaves. -/
structure ResolvedAll (family : Family Kind Keywords) (kinds : List Kind)
    (before : Registry Keywords) (schemas : List (OpenApiSchema Keywords))
    (after : Registry Keywords) : Prop where
  kept : Kept before after
  sound : Sound family after
  outcomes : List.Forall₂ (Outcome family before.renamed) kinds schemas
  known : ∀ schema ∈ schemas, ∀ component ∈ schema.components, Known after component
  covers : ∀ done opened, Covers family done opened before →
    ∃ further, done ⊆ further ∧ Covers family further opened after ∧
      ∀ kind ∈ kinds, family.typeName kind ∈ further ∪ opened

theorem resolvedAll_of_each
    {resolveOne : Kind → Registry Keywords → Option (OpenApiSchema Keywords × Registry Keywords)}
    (step : ∀ {kind before schema after}, Sound family before →
      resolveOne kind before = some (schema, after) → Resolved family kind before schema after)
    {kinds : List Kind} {before after : Registry Keywords} {schemas : List (OpenApiSchema Keywords)}
    (sound : Sound family before) (resolves : each resolveOne kinds before = some (schemas, after)) :
    ResolvedAll family kinds before schemas after := by
  induction kinds generalizing before schemas with
  | nil =>
      cases resolves
      exact ⟨.refl _, sound, .nil, fun _ member => (nomatch member),
        fun done opened covers => ⟨done, subset_rfl, covers, fun _ member => (nomatch member)⟩⟩
  | cons kind rest ih =>
      simp only [each, Option.bind_eq_bind, Option.bind_eq_some_iff] at resolves
      obtain ⟨⟨schema, between⟩, first, ⟨others, last⟩, later, resolves⟩ := resolves
      cases resolves
      have one := step sound first
      have all := ih one.sound later
      refine ⟨one.kept.trans all.kept, all.sound, .cons one.outcome ?_, ?_, ?_⟩
      · rw [one.kept.renamed]
        exact all.outcomes
      · rintro other member component refers
        rcases List.mem_cons.mp member with rfl | inRest
        · exact (one.known component refers).kept all.kept
        · exact all.known other inRest component refers
      · intro done opened covers
        obtain ⟨further, more, coversFurther, isOne⟩ := one.covers done opened covers
        obtain ⟨furthest, most, coversFurthest, areAll⟩ := all.covers further opened coversFurther
        refine ⟨furthest, more.trans most, coversFurthest, fun other member => ?_⟩
        rcases List.mem_cons.mp member with rfl | inRest
        · exact Set.union_subset_union_left opened most isOne
        · exact areAll other inRest

end Covers

/-! ## One descent -/

theorem Known.mono {before after : Registry Keywords} {component : Text}
    (known : Known before component) (schemas : after.schemas = before.schemas)
    (reserved : before.reserved ⊆ after.reserved) : Known after component := by
  rcases known with registered | ⟨held, member, same⟩
  · exact .inl (schemas ▸ registered)
  · exact .inr ⟨held, reserved member, same⟩

/-- A reservation taken leaves a registry sound. -/
theorem Sound.push {registry : Registry Keywords} (sound : Sound family registry) {kind : Kind}
    {name : ComponentName} {description : Option Text}
    (isNamed : family.published registry.renamed kind = some (name, description)) :
    Sound family { registry with
      reserved := registry.reserved ++ [⟨name.text, family.typeName kind, []⟩] } where
  typed held member := by
    rcases List.mem_append.mp member with before | isNew
    · exact sound.typed held before
    · rw [List.mem_singleton.mp isNew]
      exact ⟨kind, name, description, rfl, isNamed, rfl⟩
  outermost := by
    refine List.pairwise_append.mpr ⟨sound.outermost, List.pairwise_singleton _ _,
      fun outer _ inner member _ => ?_⟩
    rw [List.mem_singleton.mp member]
  closed other schema found component refers :=
    (sound.closed other schema found component refers).mono rfl (List.subset_append_left _ _)
  owned := sound.owned

/-- A type described in place leaves a registry sound. -/
theorem Sound.inline {registry : Registry Keywords} (sound : Sound family registry)
    (entry : Text × ℕ) :
    Sound family { registry with inlining := registry.inlining ++ [entry] } where
  typed := sound.typed
  outermost := sound.outermost
  closed other schema found component refers :=
    (sound.closed other schema found component refers).mono rfl (List.Subset.refl _)
  owned := sound.owned

/-- Reservations a descent has held on to are those it found, and its own. -/
theorem exists_concat_of_extends {before after : List (Reservation Keywords)}
    {reservation : Reservation Keywords}
    (extended : List.Forall₂ Reservation.Extends (before ++ [reservation]) after) :
    ∃ reserved held, after = reserved ++ [held] ∧
      List.Forall₂ Reservation.Extends before reserved ∧ reservation.Extends held := by
  induction before generalizing after with
  | nil =>
      cases extended with
      | cons one rest =>
          cases rest
          exact ⟨[], _, rfl, .nil, one⟩
  | cons first rest ih =>
      cases extended with
      | cons one others =>
          obtain ⟨reserved, held, rfl, extended, last⟩ := ih others
          exact ⟨_ :: reserved, held, rfl, .cons one extended, last⟩

section Step

variable [Inhabited Keywords]

/-- A type is open while it is described in place. -/
theorem Covers.inline {done opened : Set Text} {registry : Registry Keywords}
    (covers : Covers family done opened registry) (kind : Kind) (entry : Text × ℕ) :
    Covers family done (insert (family.typeName kind) opened)
      { registry with inlining := registry.inlining ++ [entry] } where
  closed other isDone reference member :=
    Set.union_subset_union_right done (Set.subset_insert _ _)
      (covers.closed other isDone reference member)
  settled := covers.settled
  owned := covers.owned
  reserved held member := Set.mem_insert_of_mem _ (covers.reserved held member)

/-- A type is open while it holds its reservation. -/
theorem Covers.push {done opened : Set Text} {registry : Registry Keywords}
    (covers : Covers family done opened registry) (kind : Kind) (name : Text) :
    Covers family done (insert (family.typeName kind) opened) { registry with
      reserved := registry.reserved ++ [⟨name, family.typeName kind, []⟩] } where
  closed other isDone reference member :=
    Set.union_subset_union_right done (Set.subset_insert _ _)
      (covers.closed other isDone reference member)
  settled other isDone otherName description isNamed silent := by
    obtain ⟨body, isBody, placed⟩ :=
      covers.settled other isDone otherName description isNamed silent
    exact ⟨body, isBody, placed.imp_right fun ⟨held, member, isRival⟩ =>
      ⟨held, List.mem_append_left _ member, isRival⟩⟩
  owned := covers.owned
  reserved held member := by
    rcases List.mem_append.mp member with outer | isLast
    · exact Set.mem_insert_of_mem _ (covers.reserved held outer)
    · rw [List.mem_singleton.mp isLast]
      exact Set.mem_insert _ _

/-- A type whose references are done or open is done. -/
theorem Covers.closed_insert (alike : family.Alike) {further opened : Set Text}
    {registry : Registry Keywords} {kind : Kind}
    (covers : Covers family further (insert (family.typeName kind) opened) registry)
    (areAll : ∀ other ∈ (family.described kind).references,
      family.typeName other ∈ further ∪ insert (family.typeName kind) opened)
    {other : Kind} (isDone : family.typeName other ∈ insert (family.typeName kind) further) :
    ∀ reference ∈ (family.described other).references,
      family.typeName reference ∈ insert (family.typeName kind) further ∪ opened := by
  intro reference member
  rw [Set.insert_union, ← Set.union_insert]
  rcases isDone with same | isDone
  · rw [alike _ _ same] at member
    exact areAll reference member
  · exact covers.closed other isDone reference member

/-- A type is published as another of its type name is. -/
theorem Family.Alike.published_eq (alike : family.Alike) {first second : Kind}
    (same : family.typeName first = family.typeName second) (renamed : List (Text × Renamed)) :
    family.published renamed first = family.published renamed second := by
  rw [published, published, alike _ _ same]

/-- A type without a name resolves to its body. -/
theorem resolved_of_inline (alike : family.Alike) {kind : Kind} {before between : Registry Keywords}
    {schemas : List (OpenApiSchema Keywords)} {entry : Text × ℕ}
    (isAnonymous : family.published before.renamed kind = none)
    (all : ResolvedAll family (family.described kind).references
      { before with inlining := before.inlining ++ [entry] } schemas between) :
    Resolved family kind before ((family.described kind).body schemas)
      { between with inlining := between.inlining.dropLast } where
  kept := ⟨all.kept.renamed, by rw [← all.kept.inlining, List.dropLast_concat],
    all.kept.reserved, all.kept.schemas, all.kept.conflicts⟩
  sound := ⟨all.sound.typed, all.sound.outermost, fun name schema found component refers =>
    (all.sound.closed name schema found component refers).mono rfl (List.Subset.refl _),
    all.sound.owned⟩
  outcome := .inlined isAnonymous all.outcomes.length_eq fun _ member =>
    List.forall₂_iff_zip.mp all.outcomes |>.2 member
  known component refers := by
    obtain ⟨schema, member, inSchema⟩ := (family.described kind).given schemas component refers
    exact (all.known schema member component inSchema).mono rfl (List.Subset.refl _)
  covers done opened covers := by
    obtain ⟨further, more, coversFurther, areAll⟩ := all.covers done
      (insert (family.typeName kind) opened)
      (covers.inline kind entry)
    refine ⟨insert (family.typeName kind) further, more.trans (Set.subset_insert _ _),
      ⟨fun other isDone => coversFurther.closed_insert alike areAll isDone,
        fun other isDone name description isNamed => ?_,
        fun name origin owned => Set.mem_insert_of_mem _ (coversFurther.owned name origin owned),
        fun held member => ?_⟩, .inl (Set.mem_insert _ _)⟩
    · rcases isDone with same | isDone
      · have anonymous : family.published between.renamed other = none := by
          rw [alike.published_eq same, ← all.kept.renamed]
          exact isAnonymous
        rw [anonymous] at isNamed
        cases isNamed
      · exact coversFurther.settled other isDone name description isNamed
    · obtain ⟨already, inBefore, -, same, -⟩ := exists_extended all.kept.reserved member
      exact same ▸ covers.reserved already inBefore

variable [DecidableEq Keywords]

/-- A type with a name resolves to a reference. -/
theorem resolved_of_conclude (alike : family.Alike) {kind : Kind}
    {before between after : Registry Keywords} {schemas : List (OpenApiSchema Keywords)}
    {name : ComponentName} {description : Option Text} (sound : Sound family before)
    (isNamed : family.published before.renamed kind = some (name, description))
    (all : ResolvedAll family (family.described kind).references
      { before with reserved := before.reserved ++ [⟨name.text, family.typeName kind, []⟩] }
      schemas between)
    (concludes : between.conclude name (family.typeName kind)
      (((family.described kind).body schemas).describedAs description) = some after) :
    Resolved family kind before (.component name.text) after := by
  obtain ⟨reserved, held, isReserved, extended, sameName, sameOrigin, -⟩ :=
    exists_concat_of_extends all.kept.reserved
  have concluded := concluded_of_conclude isReserved concludes
  have known : ∀ component, Known between component → Known after component := by
    rintro component (registered | ⟨reservation, member, same⟩)
    · exact (show Known { between with reserved := reserved } component from
        .inl registered).kept concluded.kept
    · rw [isReserved] at member
      rcases List.mem_append.mp member with outer | isLast
      · exact (show Known { between with reserved := reserved } component from
          .inr ⟨reservation, outer, same⟩).kept concluded.kept
      · rw [List.mem_singleton.mp isLast, ← sameName] at same
        exact same ▸ concluded.known
  have renamed : before.renamed = after.renamed := all.kept.renamed.trans concluded.kept.renamed
  have kept : Kept before after :=
    ⟨renamed, all.kept.inlining.trans concluded.kept.inlining,
      forall₂_extends_trans extended concluded.kept.reserved,
      fun other schema found => concluded.kept.schemas _ _ (all.kept.schemas _ _ found),
      fun silent => all.kept.conflicts (concluded.kept.conflicts silent)⟩
  refine ⟨kept, ⟨fun reservation member => ?_, ?_,
    fun other schema found component refers => ?_, fun other owner owned => ?_⟩,
    .reference isNamed, fun component refers => ?_, fun done opened covers => ?_⟩
  · obtain ⟨already, inBefore, same, origin, -⟩ := exists_extended kept.reserved member
    rw [← same, ← origin, ← renamed]
    exact sound.typed already inBefore
  · have outermost := all.sound.outermost
    rw [isReserved] at outermost
    exact concluded.outermost (List.pairwise_append.mp outermost).1
  · rcases concluded.held other schema found with already | rfl
    · exact known component (all.sound.closed other schema already component refers)
    · rw [components_describedAs] at refers
      obtain ⟨schema, member, inSchema⟩ := (family.described kind).given schemas component refers
      exact known component (all.known schema member component inSchema)
  · rcases concluded.owned other owner owned with already | ⟨-, isRegistered⟩
    · obtain ⟨body, isHeld⟩ := Option.isSome_iff_exists.mp (all.sound.owned other owner already)
      exact Option.isSome_iff_exists.mpr ⟨body, concluded.kept.schemas _ _ isHeld⟩
    · exact isRegistered
  · rw [components_component, List.mem_singleton] at refers
    exact refers ▸ concluded.known
  · obtain ⟨further, more, coversFurther, areAll⟩ := all.covers done
      (insert (family.typeName kind) opened) (covers.push kind name.text)
    refine ⟨insert (family.typeName kind) further, more.trans (Set.subset_insert _ _),
      ⟨fun other isDone => coversFurther.closed_insert alike areAll isDone,
        fun other isDone otherName otherDescription isOther silent => ?_,
        fun other owner owned => ?_, fun reservation member => ?_⟩, .inl (Set.mem_insert _ _)⟩
    · rw [← renamed] at isOther ⊢
      rcases isDone with same | isDone
      · rw [alike.published_eq same, isNamed] at isOther
        cases isOther
        refine ⟨_, ⟨schemas, ?_, rfl⟩, ?_⟩
        · rw [alike _ _ same]
          exact all.outcomes
        · rw [alike _ _ same]
          exact concluded.settled silent _ List.mem_cons_self
      · have sameRenamed : before.renamed = between.renamed := all.kept.renamed
        rw [sameRenamed] at isOther ⊢
        obtain ⟨body, isBody, placed⟩ := coversFurther.settled other isDone otherName
          otherDescription isOther (concluded.kept.conflicts silent)
        refine ⟨body, isBody, ?_⟩
        rcases placed with registered | ⟨reservation, member, isName, isRival⟩
        · exact .inl (concluded.kept.schemas _ _ registered)
        · rw [isReserved] at member
          rcases List.mem_append.mp member with outer | isLast
          · exact (show Placed { between with reserved := reserved } _ _ from
              .inr ⟨reservation, outer, isName, isRival⟩).kept concluded.kept
          · rw [List.mem_singleton.mp isLast] at isName isRival
            rw [← isName, ← sameName]
            exact concluded.settled silent _ (List.mem_cons_of_mem _ isRival)
    · rcases concluded.owned other owner owned with already | ⟨rfl, -⟩
      · exact Set.mem_insert_of_mem _ (coversFurther.owned other owner already)
      · exact Set.mem_insert _ _
    · obtain ⟨already, inBefore, -, same, -⟩ := exists_extended kept.reserved member
      exact same ▸ covers.reserved already inBefore

end Step

end Kynos.Schema
