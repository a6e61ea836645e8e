import Kynos.Schema.Resolved
import Mathlib.Data.Fintype.Card
import Mathlib.Data.Set.Card
import Mathlib.Data.Set.Finite.Range
import Mathlib.Order.WellFounded

/-!
# Descents that end

A descent into a named type leaves one type fewer to reserve, and one into an
anonymous type goes on to what it refers to. Where every cycle passes through a
named type, both end, and no assertion fails on the way.
-/

namespace Kynos.Schema

open Kynos.OpenApi

variable {Kind Keywords : Type*} {family : Family Kind Keywords}
variable [DecidableEq Keywords] [Inhabited Keywords]

/-! ## One call -/

theorem resolved_of_resolve (alike : family.Alike) {fuel : ℕ} {kind : Kind}
    {before after : Registry Keywords} {schema : OpenApiSchema Keywords}
    (sound : Sound family before)
    (resolves : resolve family fuel kind before = some (schema, after)) :
    Resolved family kind before schema after := by
  induction fuel generalizing kind before schema after with
  | zero => cases resolves
  | succ fuel ih =>
      rw [resolve] at resolves
      dsimp only at resolves
      split at resolves
      · rename_i name description isNamed
        split at resolves
        · rename_i isReserved
          cases resolves
          obtain ⟨held, member, isHeld⟩ := List.any_eq_true.mp isReserved
          rw [Bool.and_eq_true, beq_iff_eq, beq_iff_eq] at isHeld
          refine ⟨.refl _, sound, .reference isNamed, fun component refers => ?_,
            fun done opened covers => ⟨done, subset_rfl, covers, .inr ?_⟩⟩
          · rw [components_component, List.mem_singleton] at refers
            exact .inr ⟨held, member, isHeld.1.trans refers.symm⟩
          · exact isHeld.2 ▸ covers.reserved held member
        · split at resolves
          · rename_i isOwned
            cases resolves
            refine ⟨.refl _, sound, .reference isNamed, fun component refers => ?_,
              fun done opened covers => ⟨done, subset_rfl, covers, .inl (covers.owned _ _ isOwned)⟩⟩
            rw [components_component, List.mem_singleton] at refers
            exact .inl (refers ▸ sound.owned _ _ isOwned)
          · simp only [Option.bind_eq_bind, Option.bind_eq_some_iff] at resolves
            obtain ⟨⟨schemas, between⟩, descends, last, concludes, ends⟩ := resolves
            cases ends
            exact resolved_of_conclude alike sound isNamed
              (resolvedAll_of_each (fun sound resolves => ih sound resolves) (sound.push isNamed)
                descends) concludes
      · rename_i isAnonymous
        split at resolves
        · cases resolves
        · simp only [Option.bind_eq_bind, Option.bind_eq_some_iff] at resolves
          obtain ⟨⟨schemas, between⟩, descends, ends⟩ := resolves
          cases ends
          exact resolved_of_inline alike isAnonymous
            (resolvedAll_of_each (fun sound resolves => ih sound resolves) (sound.inline _) descends)

/-! ## More fuel -/

theorem each_mono
    {resolveOne another : Kind → Registry Keywords → Option (OpenApiSchema Keywords × Registry Keywords)}
    (agrees : ∀ kind registry result, resolveOne kind registry = some result →
      another kind registry = some result) {kinds : List Kind} {registry : Registry Keywords}
    {result : List (OpenApiSchema Keywords) × Registry Keywords}
    (resolves : each resolveOne kinds registry = some result) :
    each another kinds registry = some result := by
  induction kinds generalizing registry result with
  | nil => exact resolves
  | cons kind rest ih =>
      simp only [each, Option.bind_eq_bind, Option.bind_eq_some_iff] at resolves ⊢
      obtain ⟨first, isFirst, later, isLater, ends⟩ := resolves
      exact ⟨first, agrees _ _ _ isFirst, later, ih isLater, ends⟩

theorem resolve_succ {fuel : ℕ} {kind : Kind} {registry : Registry Keywords}
    {result : OpenApiSchema Keywords × Registry Keywords}
    (resolves : resolve family fuel kind registry = some result) :
    resolve family (fuel + 1) kind registry = some result := by
  induction fuel generalizing kind registry result with
  | zero => cases resolves
  | succ fuel ih =>
      rw [resolve] at resolves ⊢
      dsimp only at resolves ⊢
      split at resolves
      · split at resolves
        · rename_i isReserved
          rw [if_pos isReserved]
          exact resolves
        · rename_i notReserved
          rw [if_neg notReserved]
          split at resolves
          · rename_i isOwned
            rw [if_pos isOwned]
            exact resolves
          · rename_i notOwned
            rw [if_neg notOwned]
            simp only [Option.bind_eq_bind, Option.bind_eq_some_iff] at resolves ⊢
            obtain ⟨described, descends, ends⟩ := resolves
            exact ⟨described, each_mono (fun _ _ _ => ih) descends, ends⟩
      · split at resolves
        · cases resolves
        · rename_i notInlining
          rw [if_neg notInlining]
          simp only [Option.bind_eq_bind, Option.bind_eq_some_iff] at resolves ⊢
          obtain ⟨described, descends, ends⟩ := resolves
          exact ⟨described, each_mono (fun _ _ _ => ih) descends, ends⟩

theorem resolve_mono {fuel more : ℕ} (le : fuel ≤ more) {kind : Kind}
    {registry : Registry Keywords} {result : OpenApiSchema Keywords × Registry Keywords}
    (resolves : resolve family fuel kind registry = some result) :
    resolve family more kind registry = some result := by
  induction le with
  | refl => exact resolves
  | step _ ih => exact resolve_succ ih

/-! ## Enough fuel -/

/-- An anonymous type is described with another one in it, or in place of it. -/
def Family.Inlines (family : Family Kind Keywords) (kind other : Kind) : Prop :=
  (family.described kind).name = none ∧ other ∈ (family.described kind).references

/-- Every cycle of references passes through a named type. -/
def Family.Grounded (family : Family Kind Keywords) : Prop :=
  ∀ kind, ¬ Relation.TransGen family.Inlines kind kind

omit [DecidableEq Keywords] [Inhabited Keywords] in
theorem Family.Grounded.wellFounded [Finite Kind] (grounded : family.Grounded) :
    WellFounded fun other kind => Relation.TransGen family.Inlines kind other := by
  have isTrans : IsTrans Kind fun other kind => Relation.TransGen family.Inlines kind other :=
    ⟨fun _ _ _ first second => second.trans first⟩
  have isIrrefl : Std.Irrefl fun other kind => Relation.TransGen family.Inlines kind other :=
    ⟨grounded⟩
  exact Finite.wellFounded_of_trans_of_irrefl _

/-- The type names no reservation is of. -/
def Family.unreserved (family : Family Kind Keywords) (registry : Registry Keywords) : Set Text :=
  {origin | origin ∈ Set.range family.typeName ∧ ∀ held ∈ registry.reserved, held.origin ≠ origin}

/-- An anonymous type can be described in place: what is being described under as
many reservations leads to it. -/
structure Ready (family : Family Kind Keywords) (kind : Kind) (registry : Registry Keywords) :
    Prop where
  bounded : ∀ entry ∈ registry.inlining, entry.2 ≤ registry.reserved.length
  leads : ∀ origin, (origin, registry.reserved.length) ∈ registry.inlining →
    ∃ other, family.typeName other = origin ∧ Relation.TransGen family.Inlines other kind

omit [DecidableEq Keywords] [Inhabited Keywords] in
theorem Kept.unreserved_eq {before after : Registry Keywords} (kept : Kept before after) :
    family.unreserved before = family.unreserved after := by
  ext origin
  refine and_congr_right fun _ => ⟨fun free held member same => ?_, fun free held member same => ?_⟩
  · obtain ⟨already, inBefore, -, isOrigin, -⟩ := exists_extended kept.reserved member
    exact free already inBefore (isOrigin.trans same)
  · obtain ⟨still, inAfter, -, isOrigin, -⟩ := exists_extends kept.reserved member
    exact free still inAfter (isOrigin.symm.trans same)

omit [DecidableEq Keywords] [Inhabited Keywords] in
theorem Ready.kept {kind : Kind} {before after : Registry Keywords}
    (ready : Ready family kind before) (kept : Kept before after) : Ready family kind after := by
  constructor
  · rw [← kept.inlining, ← kept.reserved.length_eq]
    exact ready.bounded
  · rw [← kept.inlining, ← kept.reserved.length_eq]
    exact ready.leads

/-- Types resolved one after the other are resolved where each of them is. -/
theorem exists_each (alike : family.Alike) {kinds : List Kind} {before : Registry Keywords}
    (sound : Sound family before)
    (step : ∀ kind ∈ kinds, ∀ registry, Sound family registry → Kept before registry →
      ∃ fuel result, resolve family fuel kind registry = some result) :
    ∃ fuel result, each (resolve family fuel) kinds before = some result := by
  induction kinds generalizing before with
  | nil => exact ⟨0, ([], before), rfl⟩
  | cons kind rest ih =>
      obtain ⟨fuel, ⟨schema, between⟩, first⟩ :=
        step kind List.mem_cons_self before sound (.refl before)
      have resolved := resolved_of_resolve alike sound first
      obtain ⟨more, ⟨schemas, after⟩, later⟩ := ih resolved.sound fun other member registry
        soundThere kept => step other (List.mem_cons_of_mem _ member) registry soundThere
          (resolved.kept.trans kept)
      refine ⟨max fuel more, (schema :: schemas, after), ?_⟩
      simp only [each, Option.bind_eq_bind, Option.bind_eq_some_iff]
      exact ⟨_, resolve_mono (le_max_left _ _) first, _,
        each_mono (fun _ _ _ => resolve_mono (le_max_right _ _)) later, rfl⟩

/-- A type that is not reserved leaves one fewer to reserve. -/
theorem ncard_unreserved_push [Finite Kind] (alike : family.Alike) {kind : Kind}
    {registry : Registry Keywords} (sound : Sound family registry) {name : ComponentName}
    {description : Option Text}
    (isNamed : family.published registry.renamed kind = some (name, description))
    (free : ∀ held ∈ registry.reserved,
      held.name = name.text → held.origin ≠ family.typeName kind) :
    (family.unreserved { registry with
      reserved := registry.reserved ++ [⟨name.text, family.typeName kind, []⟩] }).ncard <
      (family.unreserved registry).ncard := by
  have isFree : family.typeName kind ∈ family.unreserved registry := by
    refine ⟨⟨kind, rfl⟩, fun held member same => ?_⟩
    obtain ⟨other, otherName, otherDescription, isOrigin, isOther, isHeld⟩ :=
      sound.typed held member
    rw [alike.published_eq (isOrigin.trans same), isNamed] at isOther
    cases isOther
    exact free held member isHeld.symm same
  refine Set.ncard_lt_ncard ⟨fun origin unreserved => ⟨unreserved.1, fun held member =>
    unreserved.2 held (List.mem_append_left _ member)⟩, fun backward => ?_⟩
    ((Set.finite_range family.typeName).subset fun origin unreserved => unreserved.1)
  exact (backward isFree).2 _ (List.mem_append_right _ (List.mem_singleton_self _)) rfl

/-- A named type is resolved where a descent into it is. -/
theorem exists_resolve_named (alike : family.Alike) {kind : Kind} {registry : Registry Keywords}
    (sound : Sound family registry) {name : ComponentName} {description : Option Text}
    (isNamed : family.published registry.renamed kind = some (name, description))
    (descends : (∀ held ∈ registry.reserved,
        held.name = name.text → held.origin ≠ family.typeName kind) →
      ∃ fuel result, each (resolve family fuel) (family.described kind).references { registry with
        reserved := registry.reserved ++ [⟨name.text, family.typeName kind, []⟩] } = some result) :
    ∃ fuel result, resolve family fuel kind registry = some result := by
  by_cases isReserved : (registry.reserved.any fun held =>
      held.name == name.text && held.origin == family.typeName kind) = true
  · refine ⟨1, (.component name.text, registry), ?_⟩
    rw [resolve]
    dsimp only
    rw [isNamed]
    dsimp only
    rw [if_pos isReserved]
  by_cases isOwned : registry.origins.lookup name.text = some (family.typeName kind)
  · refine ⟨1, (.component name.text, registry), ?_⟩
    rw [resolve]
    dsimp only
    rw [isNamed]
    dsimp only
    rw [if_neg isReserved, if_pos isOwned]
  obtain ⟨fuel, ⟨schemas, between⟩, isDescended⟩ := descends fun held member same origin =>
    isReserved (List.any_eq_true.mpr ⟨held, member, by rw [same, origin]; simp⟩)
  have all := resolvedAll_of_each (fun sound resolves => resolved_of_resolve alike sound resolves)
    (sound.push isNamed) isDescended
  obtain ⟨reserved, held, isHeld, -, sameName, -⟩ := exists_concat_of_extends all.kept.reserved
  obtain ⟨after, concludes⟩ := exists_conclude isHeld sameName.symm all.sound.outermost
  refine ⟨fuel + 1, (.component name.text, after), ?_⟩
  rw [resolve]
  dsimp only
  rw [isNamed]
  dsimp only
  rw [if_neg isReserved, if_neg isOwned]
  simp only [Option.bind_eq_bind, Option.bind_eq_some_iff]
  exact ⟨_, isDescended, after, concludes, rfl⟩

/-- An anonymous type is not described in itself. -/
theorem Ready.not_mem (alike : family.Alike) (grounded : family.Grounded) {kind : Kind}
    {registry : Registry Keywords} (ready : Ready family kind registry) :
    (family.typeName kind, registry.reserved.length) ∉ registry.inlining := by
  intro member
  obtain ⟨other, same, leads⟩ := ready.leads _ member
  obtain ⟨next, inlines, further⟩ := Relation.TransGen.head'_iff.mp leads
  have again : family.Inlines kind next := by
    rw [Family.Inlines, ← alike _ _ same]
    exact inlines
  exact grounded kind (Relation.TransGen.head'_iff.mpr ⟨next, again, further⟩)

/-- With enough fuel a type is resolved, and no assertion fails. -/
theorem exists_resolve [Finite Kind] (alike : family.Alike) (grounded : family.Grounded)
    {kind : Kind} {registry : Registry Keywords} (sound : Sound family registry)
    (ready : Ready family kind registry) :
    ∃ fuel result, resolve family fuel kind registry = some result := by
  induction remaining : (family.unreserved registry).ncard using Nat.strong_induction_on
    generalizing kind registry with
  | _ count fewer =>
      induction kind using grounded.wellFounded.induction generalizing registry with
      | _ kind inner =>
          cases isNamed : family.published registry.renamed kind with
          | some published =>
              obtain ⟨name, description⟩ := published
              refine exists_resolve_named alike sound isNamed fun free =>
                exists_each alike (sound.push isNamed) fun other _ further isSound kept => ?_
              have isFewer := ncard_unreserved_push alike sound isNamed free
              rw [kept.unreserved_eq, remaining] at isFewer
              refine fewer _ isFewer isSound (Ready.kept ⟨fun entry member => ?_,
                fun origin member => ?_⟩ kept) rfl
              · rw [List.length_append]
                exact Nat.le_add_right_of_le (ready.bounded entry member)
              · have low := ready.bounded _ member
                rw [List.length_append, List.length_singleton] at low
                omega
          | none =>
              have isAnonymous : (family.described kind).name = none :=
                Option.map_eq_none_iff.mp isNamed
              obtain ⟨fuel, ⟨schemas, between⟩, descends⟩ := exists_each alike
                (sound.inline (family.typeName kind, registry.reserved.length))
                fun other member further isSound kept => by
                  refine inner other (.single ⟨isAnonymous, member⟩) isSound
                    (Ready.kept ⟨fun entry inEntries => ?_, fun origin inEntries => ?_⟩ kept)
                    (by rw [← kept.unreserved_eq]; exact remaining)
                  · rcases List.mem_append.mp inEntries with before | isLast
                    · exact ready.bounded entry before
                    · rw [List.mem_singleton.mp isLast]
                  · rcases List.mem_append.mp inEntries with before | isLast
                    · obtain ⟨outer, isOuter, leads⟩ := ready.leads origin before
                      exact ⟨outer, isOuter, leads.tail ⟨isAnonymous, member⟩⟩
                    · cases List.mem_singleton.mp isLast
                      exact ⟨kind, rfl, .single ⟨isAnonymous, member⟩⟩
              refine ⟨fuel + 1, ((family.described kind).body schemas,
                { between with inlining := between.inlining.dropLast }), ?_⟩
              rw [resolve]
              dsimp only
              rw [isNamed]
              dsimp only
              rw [if_neg (ready.not_mem alike grounded), descends]
              rfl

end Kynos.Schema
