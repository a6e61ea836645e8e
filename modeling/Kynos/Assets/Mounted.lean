import Kynos.Assets.Literal
import Kynos.Router.Predicted

/-!
# Describing a set

A router takes in every operation of a set that is routed. Its description is
without a violation only where the operations are at paths of their own, have
identifiers of their own and no variables.
-/

namespace Kynos.Assets

open Kynos.OpenApi Kynos.Word Kynos.Description Kynos.Run

/-! ## Operations -/

theorem mapM_eq_some_iff {α β : Type} {act : α → Option β} {list : List α} {results : List β} :
    list.mapM act = some results ↔ list.map act = results.map some := by
  induction list generalizing results with
  | nil => cases results <;> simp
  | cons first list ih =>
      rw [List.mapM_cons]
      simp only [Bind.bind, Option.bind_eq_some_iff, ih, pure, Option.some.injEq, List.map_cons]
      constructor
      · rintro ⟨result, isResult, others, each, rfl⟩
        rw [isResult, each, List.map_cons]
      · intro each
        cases results with
        | nil => cases each
        | cons result results =>
            obtain ⟨isResult, others⟩ := List.cons.inj each
            exact ⟨result, isResult, results, others, rfl⟩

/-- What tells an operation from another. -/
def AssetOperation.key (operation : AssetOperation) : Router.Assets.Asset × Text × Text :=
  (operation.endpoint.asset, operation.template.raw, operation.operationId)

theorem AssetOperation.key_of_new {asset : Router.Assets.Asset} {path leading : Text}
    {cacheControl : Option Http.HeaderValue} {operation : AssetOperation}
    (isNew : AssetOperation.new asset path cacheControl leading = some operation) :
    operation.key = (asset, '/' :: path.dropWhile (· == '/'), Assets.operationId leading path) := by
  unfold AssetOperation.new at isNew
  split at isNew
  · cases isNew
  · next parsed =>
      obtain rfl := Option.some.inj isNew
      rw [key, (accepted_of_parse parsed).1]

theorem AssetOperation.exists_new (asset : Router.Assets.Asset) {path : Text}
    (cacheControl : Option Http.HeaderValue) (leading : Text) (servable : Servable path) :
    ∃ operation, AssetOperation.new asset path cacheControl leading = some operation := by
  obtain ⟨template, parsed⟩ := servable
  unfold AssetOperation.new
  split
  · next refused =>
      rw [Servable.dropWhile_slash ⟨template, parsed⟩, parsed] at refused
      cases refused
  · exact ⟨_, rfl⟩

namespace AssetSet

variable {set : AssetSet}

/-- What a set gives are its operations, in order. -/
theorem key_of_intoEndpoints {operations : List AssetOperation}
    (gives : set.intoEndpoints = some operations) :
    operations.map AssetOperation.key = set.served.map fun entry =>
      (entry.1, '/' :: entry.2.dropWhile (· == '/'), operationId set.operationIdPrefix entry.2) := by
  rw [intoEndpoints, mapM_eq_some_iff] at gives
  generalize set.served = served at gives
  induction served generalizing operations with
  | nil => rw [List.map_eq_nil_iff.mp gives.symm, List.map_nil, List.map_nil]
  | cons first served ih =>
      cases operations with
      | nil => cases gives
      | cons operation operations =>
          obtain ⟨isNew, others⟩ := List.cons.inj gives
          rw [List.map_cons, List.map_cons, ih others, AssetOperation.key_of_new isNew]

theorem exists_intoEndpoints (servable : ∀ entry ∈ set.served, Servable entry.2) :
    ∃ operations, set.intoEndpoints = some operations := by
  simp only [intoEndpoints, mapM_eq_some_iff]
  generalize set.served = served at servable
  induction served with
  | nil => exact ⟨[], rfl⟩
  | cons first served ih =>
      obtain ⟨here, others⟩ := List.forall_mem_cons.mp servable
      obtain ⟨operation, isNew⟩ :=
        AssetOperation.exists_new first.1 set.cacheControl set.operationIdPrefix here
      obtain ⟨operations, each⟩ := ih others
      exact ⟨operation :: operations, by rw [List.map_cons, List.map_cons, each, isNew]⟩

/-- An index is a file of the set, at the directory above it. -/
theorem exists_of_mem_indexed {entry : Router.Assets.Asset × Text} (member : entry ∈ set.indexed) :
    entry.1 ∈ set.assets ∧ ∃ index, entry.1.path = entry.2 ++ index ∧
      (entry.2 = [] ∨ entry.2.getLast? = some '/') := by
  obtain ⟨asset, inAssets, isEntry⟩ := List.mem_filterMap.mp member
  obtain ⟨index, -, isEntry⟩ := Option.bind_eq_some_iff.mp isEntry
  obtain ⟨directory, strips, isEntry⟩ := Option.bind_eq_some_iff.mp isEntry
  obtain ⟨isDirectory, same⟩ := Option.ite_none_right_eq_some.mp isEntry
  obtain rfl := Option.some.inj same
  refine ⟨inAssets, index, ?_, by simpa using isDirectory⟩
  obtain ⟨isSuffix, isDirectory⟩ := Option.ite_none_right_eq_some.mp strips
  obtain rfl := Option.some.inj isDirectory
  obtain ⟨front, whole⟩ := List.isSuffixOf_iff_suffix.mp isSuffix
  simp [← whole]

/-- Every path a set without braces is served at is expressed by a template. -/
theorem servable_of_mem_served (servable : ∀ asset ∈ set.assets, Servable asset.path)
    (braceless : ∀ asset ∈ set.assets, '\x7b' ∉ asset.path) :
    ∀ entry ∈ set.served, Servable entry.2 ∧ '\x7b' ∉ entry.2 := by
  intro entry member
  rcases List.mem_append.mp member with own | indexed
  · obtain ⟨asset, inAssets, rfl⟩ := List.mem_map.mp own
    exact ⟨servable asset inAssets, braceless asset inAssets⟩
  · obtain ⟨inAssets, index, isPath, isDirectory⟩ := exists_of_mem_indexed indexed
    have plain := braceless entry.1 inAssets
    have whole := servable entry.1 inAssets
    rw [isPath] at plain whole
    exact ⟨whole.directory plain isDirectory, mt (List.mem_append_left index) plain⟩

end AssetSet

/-! ## Mounting -/

/-- An operation as a router holds it. -/
def mountedOf (operation : AssetOperation) : Mounted AssetOperation where
  method := .get
  path := operation.template
  accepted := operation.accepted
  operation := operation
  isDescription := false

/-- A router that holds operations and nothing else. -/
def routerOf (operations : List AssetOperation) : Description.Router AssetOperation AssetRule :=
  { newRouter with mounted := operations.map mountedOf }

theorem prefixed_nil (template : PathTemplate) :
    Assembly.prefixed template [] =
      if Router.unroutable template then
        .error ⟨.path template.raw, .opaqueRoute template.raw⟩
      else
        .ok template := by
  simp only [Assembly.prefixed, PathTemplate.withPrefix, List.rdropWhile_nil, List.isEmpty_nil, if_true]

variable {router : Description.Router AssetOperation AssetRule}

theorem absorb_of_routable {operation : AssetOperation}
    (routable : Router.unroutable operation.template = false) :
    absorb router operation =
      { router with mounted := router.mounted ++ [mountedOf operation] } := by
  unfold absorb
  split
  · next refused =>
      rw [prefixed_nil, routable] at refused
      cases refused
  · next path taken =>
      have same := taken
      rw [prefixed_nil, routable] at same
      obtain rfl : operation.template = path := Except.ok.inj same
      rfl

theorem subset_violations_absorb (operation : AssetOperation) :
    router.violations ⊆ (absorb router operation).violations := by
  unfold absorb
  split
  · exact List.subset_append_left _ _
  · exact List.Subset.refl _

theorem subset_violations_foldl_absorb (operations : List AssetOperation) :
    router.violations ⊆ (operations.foldl absorb router).violations := by
  induction operations generalizing router with
  | nil => exact List.Subset.refl _
  | cons operation operations ih =>
      exact List.Subset.trans (subset_violations_absorb operation) ih

theorem routable_of_clean {operation : AssetOperation}
    (clean : Clean (absorb router operation).violations) :
    Router.unroutable operation.template = false := by
  by_contra crowded
  unfold absorb at clean
  split at clean
  · next violation refused =>
      exact clean (described violation) (List.mem_append_right _ List.mem_cons_self) rfl
  · next path taken =>
      rw [prefixed_nil, Bool.not_eq_false _ |>.mp crowded] at taken
      cases taken

/-- Without a violation, a router has taken in every operation. -/
theorem foldl_absorb_of_clean {operations : List AssetOperation}
    (clean : Clean (operations.foldl absorb router).violations) :
    operations.foldl absorb router =
      { router with mounted := router.mounted ++ operations.map mountedOf } := by
  induction operations generalizing router with
  | nil => simp
  | cons operation operations ih =>
      rw [List.foldl_cons] at clean ⊢
      have routable := routable_of_clean (clean.mono (subset_violations_foldl_absorb operations))
      rw [ih clean, absorb_of_routable routable]
      simp

theorem foldl_absorb_of_routable {operations : List AssetOperation}
    (routable : ∀ operation ∈ operations, Router.unroutable operation.template = false) :
    operations.foldl absorb router =
      { router with mounted := router.mounted ++ operations.map mountedOf } := by
  induction operations generalizing router with
  | nil => simp
  | cons operation operations ih =>
      obtain ⟨first, others⟩ := List.forall_mem_cons.mp routable
      rw [List.foldl_cons, absorb_of_routable first, ih others]
      simp

/-! ## Describing -/

/-- An operation as the document holds it. -/
def entryOf (operation : AssetOperation) : Text × PathItem AssetOperation :=
  (operation.template.raw, Function.update (fun _ => none) .get (some operation))

theorem entryOf_get (operation : AssetOperation) : (entryOf operation).2 .get = some operation :=
  rfl

/-- The template an operation is served at, as it is spelled. -/
def rawOf (operation : AssetOperation) : Text :=
  operation.template.raw

variable {paths : Paths AssetOperation AssetRule}

theorem putItem_of_notMem {key : Text} {item : PathItem AssetOperation}
    {items : List (Text × PathItem AssetOperation)} (fresh : key ∉ items.map Prod.fst) :
    putItem key item items = items ++ [(key, item)] := by
  induction items with
  | nil => rfl
  | cons entry items ih =>
      rw [List.map_cons, List.mem_cons, not_or] at fresh
      rw [putItem, if_neg (Ne.symm fresh.1), ih fresh.2, List.cons_append]

theorem lookup_entries_of_notMem {operations : List AssetOperation} {key : Text}
    (fresh : key ∉ operations.map rawOf) : (operations.map entryOf).lookup key = none := by
  rw [List.lookup_eq_none_iff]
  rintro entry member
  obtain ⟨operation, inOperations, rfl⟩ := List.mem_map.mp member
  rw [bne_iff_ne]
  rintro rfl
  exact fresh (List.mem_map_of_mem inOperations)

theorem fst_entries (operations : List AssetOperation) :
    (operations.map entryOf).map Prod.fst = operations.map rawOf := by
  rw [List.map_map]
  rfl

/-- An operation is at another path than those before it, where all are apart. -/
theorem fresh_of_nodup {earlier later : List AssetOperation} {operation : AssetOperation}
    (nodup : ((earlier ++ operation :: later).map rawOf).Nodup) :
    rawOf operation ∉ earlier.map rawOf := by
  rw [List.map_append, List.map_cons] at nodup
  exact fun member => (List.nodup_append.mp nodup).2.2 _ member _ List.mem_cons_self rfl

theorem describe_of_notMem {earlier : List AssetOperation} {operation : AssetOperation}
    (items : paths.items = earlier.map entryOf) (fresh : rawOf operation ∉ earlier.map rawOf) :
    paths.describe (mountedOf operation) =
      ⟨(earlier ++ [operation]).map entryOf, paths.violations⟩ := by
  have absent := lookup_entries_of_notMem fresh
  have put := @putItem_of_notMem _ (Function.update (fun _ => none) .get (some operation)) _
    (show rawOf operation ∉ (earlier.map entryOf).map Prod.fst by rwa [fst_entries])
  simp only [Paths.describe, mountedOf, items]
  rw [show operation.template.raw = rawOf operation from rfl, absent, Option.getD_none, put]
  simp [entryOf, rawOf]

theorem subset_violations_describe (mounted : Mounted AssetOperation) :
    paths.violations ⊆ (paths.describe mounted).violations :=
  List.subset_append_left _ _

theorem subset_violations_foldl_describe (mounted : List (Mounted AssetOperation)) :
    paths.violations ⊆ (mounted.foldl Paths.describe paths).violations := by
  induction mounted generalizing paths with
  | nil => exact List.Subset.refl _
  | cons first mounted ih => exact List.Subset.trans (subset_violations_describe first) ih

theorem exists_lookup_entries {operations : List AssetOperation} {operation : AssetOperation}
    (member : rawOf operation ∈ operations.map rawOf) :
    ∃ other, (operations.map entryOf).lookup (rawOf operation) = some (entryOf other).2 := by
  induction operations with
  | nil => cases member
  | cons first operations ih =>
      rw [List.map_cons, List.lookup_cons]
      by_cases same : rawOf operation = rawOf first
      · exact ⟨first, by rw [show (entryOf first).1 = rawOf first from rfl, same, beq_self_eq_true]⟩
      · rw [List.map_cons, List.mem_cons] at member
        obtain ⟨other, found⟩ := ih (member.resolve_left same)
        exact ⟨other, by rw [show (entryOf first).1 = rawOf first from rfl,
          beq_eq_false_iff_ne.mpr same, found]⟩

/-- Described without a violation, an operation is at a path of its own. -/
theorem notMem_of_clean_describe {earlier : List AssetOperation} {operation : AssetOperation}
    (items : paths.items = earlier.map entryOf)
    (clean : Clean (paths.describe (mountedOf operation)).violations) :
    rawOf operation ∉ earlier.map rawOf := by
  intro member
  obtain ⟨other, found⟩ := exists_lookup_entries member
  have again : ((paths.items.lookup (mountedOf operation).path.raw).getD fun _ => none)
      (mountedOf operation).method = some other := by
    rw [items, show (mountedOf operation).path.raw = rawOf operation from rfl, found,
      Option.getD_some]
    exact entryOf_get other
  refine clean (errorAt (operationLocation (rawOf operation) .get)
    (.duplicateOperation .get (rawOf operation))) ?_ rfl
  refine List.mem_append_right _ ?_
  rw [again, Option.isSome_some, if_pos rfl]
  exact List.mem_cons_self

theorem foldl_describe {earlier operations : List AssetOperation}
    (items : paths.items = earlier.map entryOf) (nodup : ((earlier ++ operations).map rawOf).Nodup) :
    (operations.map mountedOf).foldl Paths.describe paths =
      ⟨(earlier ++ operations).map entryOf, paths.violations⟩ := by
  induction operations generalizing earlier paths with
  | nil =>
      rw [List.append_nil, ← items]
      rfl
  | cons operation operations ih =>
      have fresh := fresh_of_nodup nodup
      rw [List.append_cons] at nodup ⊢
      rw [List.map_cons, List.foldl_cons, describe_of_notMem items fresh, ih rfl nodup]

theorem nodup_of_clean_describe {earlier operations : List AssetOperation}
    (items : paths.items = earlier.map entryOf) (nodup : (earlier.map rawOf).Nodup)
    (clean : Clean ((operations.map mountedOf).foldl Paths.describe paths).violations) :
    ((earlier ++ operations).map rawOf).Nodup := by
  induction operations generalizing earlier paths with
  | nil => rwa [List.append_nil]
  | cons operation operations ih =>
      rw [List.map_cons, List.foldl_cons] at clean
      have fresh := notMem_of_clean_describe items
        (clean.mono (subset_violations_foldl_describe _))
      rw [describe_of_notMem items fresh] at clean
      rw [List.append_cons]
      refine ih rfl ?_ clean
      rw [List.map_append, List.map_singleton, ← List.concat_eq_append]
      exact nodup.concat fresh

/-! ## The rules -/

/-- What the rules find at the path of an operation after others. -/
theorem rulesOfItem_eq {before after : List AssetOperation} {operation : AssetOperation}
    (fresh : rawOf operation ∉ before.map rawOf) :
    rulesOfItem ⟨(before ++ operation :: after).map entryOf, ()⟩ (rawOf operation) =
      ((before.find? fun other => other.operationId == operation.operationId).map fun other =>
        errorAt (operationLocation (rawOf operation) .get)
          (.other (.duplicateOperationId operation.operationId
            (operationLocation (rawOf other) .get)))).toList ++
        operation.template.variableNames.map fun name =>
          errorAt (operationLocation (rawOf operation) .get) (.other (.undeclaredPathVariable name)) := by
  have found : (((before ++ operation :: after).map entryOf).lookup (rawOf operation)).bind
      (fun item : PathItem AssetOperation => item .get) = some operation := by
    rw [List.map_append, List.lookup_append, lookup_entries_of_notMem fresh, Option.none_or,
      List.map_cons, List.lookup_cons, show (entryOf operation).1 = rawOf operation from rfl,
      beq_self_eq_true]
    exact entryOf_get operation
  have parsed : PathTemplate.parse (rawOf operation) = .ok operation.template := operation.accepted
  have earlier : ((before ++ operation :: after).map entryOf).takeWhile
      (fun entry => entry.1 != rawOf operation) = before.map entryOf := by
    rw [List.map_append, List.map_cons, List.takeWhile_append_of_pos, List.takeWhile_cons_of_neg,
      List.append_nil]
    · simp [entryOf, rawOf]
    · rintro entry member
      obtain ⟨other, inBefore, rfl⟩ := List.mem_map.mp member
      rw [bne_iff_ne]
      intro same
      exact fresh (List.mem_map.mpr ⟨other, inBefore, same⟩)
  simp only [rulesOfItem, found, parsed, earlier]
  rw [List.find?_map, Option.map_map]
  rfl

theorem subset_checkPaths {rules : Text → List (Violation (SpecError AssetRule))} {keys : List Text}
    {raw : Text} (member : raw ∈ keys) {template : PathTemplate}
    (parsed : PathTemplate.parse raw = .ok template) : rules raw ⊆ checkPaths rules keys := by
  obtain ⟨before, after, rfl⟩ := List.append_of_mem member
  rw [checkPaths, List.foldl_append, List.foldl_cons]
  refine List.Subset.trans ?_ (Items.violations_foldl rules _ after)
  simp only [Items.pathItem, parsed]
  exact List.subset_append_right _ _

theorem nodup_map_of_fresh {α β : Type} {image : α → β} {list : List α}
    (fresh : ∀ before value after, list = before ++ value :: after → image value ∉ before.map image) :
    (list.map image).Nodup := by
  induction list using List.reverseRecOn with
  | nil => exact List.nodup_nil
  | append_singleton list value ih =>
      rw [List.map_append, List.map_singleton, ← List.concat_eq_append]
      refine (ih fun before other after isList => ?_).concat (fresh list value [] rfl)
      exact fresh before other (after ++ [value]) (by rw [isList, List.append_assoc]; rfl)

/-- Without a violation, identifiers are distinct and no template has a
variable. -/
theorem distinct_of_clean_checkPaths {operations : List AssetOperation}
    (nodup : (operations.map rawOf).Nodup)
    (clean : Clean (checkPaths (rulesOfItem ⟨operations.map entryOf, ()⟩) (operations.map rawOf))) :
    (operations.map AssetOperation.operationId).Nodup ∧
      ∀ operation ∈ operations, operation.template.variableNames = [] := by
  have rules : ∀ before operation after, operations = before ++ operation :: after →
      (before.find? fun other => other.operationId == operation.operationId) = none ∧
        operation.template.variableNames = [] := by
    rintro before operation after rfl
    have fresh := fresh_of_nodup nodup
    have silent := clean.mono (subset_checkPaths (List.mem_map_of_mem
      (List.mem_append_right _ List.mem_cons_self)) operation.accepted)
    rw [rulesOfItem_eq fresh] at silent
    have none := silent.eq_nil (by
      intro violation member
      rcases List.mem_append.mp member with duplicate | undeclared
      · obtain ⟨_, _, rfl⟩ := Option.map_eq_some_iff.mp (Option.mem_toList.mp duplicate)
        rfl
      · obtain ⟨_, _, rfl⟩ := List.mem_map.mp undeclared
        rfl)
    rw [List.append_eq_nil_iff, Option.toList_eq_nil_iff, Option.map_eq_none_iff,
      List.map_eq_nil_iff] at none
    exact none
  constructor
  · refine nodup_map_of_fresh fun before operation after isWhole member => ?_
    obtain ⟨other, inBefore, same⟩ := List.mem_map.mp member
    have absent := List.find?_eq_none.mp (rules before operation after isWhole).1 other inBefore
    exact absent (beq_iff_eq.mpr same)
  · intro operation member
    obtain ⟨before, after, isWhole⟩ := List.append_of_mem member
    exact (rules before operation after isWhole).2

theorem checkPaths_eq_nil {rules : Text → List (Violation (SpecError AssetRule))}
    {operations : List AssetOperation} (nodup : (operations.map rawOf).Nodup)
    (braceless : ∀ operation ∈ operations, '\x7b' ∉ rawOf operation)
    (silent : ∀ operation ∈ operations, rules (rawOf operation) = []) :
    checkPaths rules (operations.map rawOf) = [] := by
  suffices ∀ earlier later : List AssetOperation, operations = earlier ++ later →
      (later.map rawOf).foldl (Items.pathItem rules)
          ⟨(earlier.map rawOf).map fun raw => (some raw, raw), []⟩ =
        ⟨(operations.map rawOf).map fun raw => (some raw, raw), []⟩ by
    rw [checkPaths]
    exact congrArg Items.violations (this [] operations rfl)
  intro earlier later isWhole
  induction later generalizing earlier with
  | nil =>
      rw [isWhole, List.append_nil]
      rfl
  | cons operation later ih =>
      have member : operation ∈ operations := by
        rw [isWhole]
        exact List.mem_append_right _ List.mem_cons_self
      have fresh := fresh_of_nodup (isWhole ▸ nodup)
      have parsed : PathTemplate.parse (rawOf operation) = .ok operation.template := operation.accepted
      have normalized : operation.template.normalized = some (rawOf operation) :=
        normalized_of_braceless (braceless operation member)
      have absent : ((earlier.map rawOf).map fun raw => (some raw, raw)).lookup
          (some (rawOf operation)) = none := by
        rw [List.lookup_eq_none_iff]
        rintro _ inEarlier
        obtain ⟨raw, isRaw, rfl⟩ := List.mem_map.mp inEarlier
        rw [bne_iff_ne]
        intro same
        exact fresh (Option.some.inj same ▸ isRaw)
      have step : Items.pathItem rules ⟨(earlier.map rawOf).map fun raw => (some raw, raw), []⟩
          (rawOf operation) =
            ⟨((earlier ++ [operation]).map rawOf).map fun raw => (some raw, raw), []⟩ := by
        simp only [Items.pathItem, parsed, normalized, absent, silent operation member,
          Option.getD_none]
        simp
      rw [List.map_cons, List.foldl_cons, step]
      exact ih (earlier ++ [operation]) (by rw [isWhole, List.append_cons])

end Kynos.Assets
