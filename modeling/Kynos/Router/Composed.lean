import Kynos.Router.Composition

/-!
# Every operation composes its scopes

The interceptors, the tags, the recovery and the guard's point that assembly
keeps are those of the scopes put in front of each other; the point is shifted
by what is put in front of it.
-/

namespace Kynos.Assembly

open Kynos.OpenApi

variable {Interceptor : Type}

/-! ## One scope -/

/-- The number of interceptors before the first call of `guard_first`. -/
def ownGuard (calls : List (Contribution Interceptor)) : Option Nat :=
  if calls.any Contribution.isGuardFirst then
    some (interceptorsOf (calls.takeWhile fun call => !call.isGuardFirst)).length
  else
    none

/-- What a scope keeps is what its calls contributed. -/
structure Holds (calls : List (Contribution Interceptor)) (interceptors : List Interceptor)
    (guardFirstAt : Option Nat) (tags : List Text) (catches : Bool) : Prop where
  interceptors : interceptors = interceptorsOf calls
  guardFirstAt : guardFirstAt = ownGuard calls
  tags : tags = calls.filterMap Contribution.tag?
  catches : catches = calls.any Contribution.isCatchPanics

theorem interceptorsOf_append (calls others : List (Contribution Interceptor)) :
    interceptorsOf (calls ++ others) = interceptorsOf calls ++ interceptorsOf others :=
  List.filterMap_append

theorem ownGuard_concat (calls : List (Contribution Interceptor)) (call : Contribution Interceptor) :
    ownGuard (calls ++ [call]) =
      (ownGuard calls).or
        (if call.isGuardFirst then some (interceptorsOf calls).length else none) := by
  rw [ownGuard, ownGuard, List.any_append, List.takeWhile_append]
  by_cases asked : calls.any Contribution.isGuardFirst = true
  · have short : (calls.takeWhile fun call => !call.isGuardFirst).length ≠ calls.length := by
      intro whole
      obtain ⟨first, member, isGuard⟩ := List.any_eq_true.mp asked
      have all := List.takeWhile_eq_self_iff.mp ((List.takeWhile_prefix _).eq_of_length whole) first member
      simp [isGuard] at all
    simp [asked, short]
  · have none : ∀ call ∈ calls, call.isGuardFirst = false := by simpa using asked
    have whole : calls.takeWhile (fun call => !call.isGuardFirst) = calls :=
      List.takeWhile_eq_self_iff.mpr fun call member => by simp [none call member]
    cases isGuard : call.isGuardFirst with
    | false => simp [asked, isGuard]
    | true => simp [asked, isGuard, whole]

namespace Holds

variable {calls : List (Contribution Interceptor)} {interceptors : List Interceptor}
  {guardFirstAt : Option Nat} {tags : List Text} {catches : Bool}

theorem new : @Holds Interceptor [] [] none [] false :=
  ⟨rfl, rfl, rfl, rfl⟩

variable (holds : Holds calls interceptors guardFirstAt tags catches)

include holds

theorem intercept (interceptor : Interceptor) :
    Holds (calls ++ [.interceptor interceptor]) (interceptors ++ [interceptor]) guardFirstAt tags
      catches where
  interceptors := by rw [interceptorsOf_append, holds.interceptors]; rfl
  guardFirstAt := by
    rw [ownGuard_concat, ← holds.guardFirstAt]
    cases guardFirstAt <;> rfl
  tags := by rw [List.filterMap_append, ← holds.tags]; exact (List.append_nil _).symm
  catches := by rw [List.any_append, ← holds.catches]; exact (Bool.or_false _).symm

theorem guardFirst :
    Holds (calls ++ [.guardFirst]) interceptors (guardFirstAt.or (some interceptors.length)) tags
      catches where
  interceptors := by rw [interceptorsOf_append, ← holds.interceptors]; exact (List.append_nil _).symm
  guardFirstAt := by rw [ownGuard_concat, ← holds.guardFirstAt, ← holds.interceptors]; rfl
  tags := by rw [List.filterMap_append, ← holds.tags]; exact (List.append_nil _).symm
  catches := by rw [List.any_append, ← holds.catches]; exact (Bool.or_false _).symm

theorem tag (name : Text) :
    Holds (calls ++ [.tag name]) interceptors guardFirstAt (tags ++ [name]) catches where
  interceptors := by rw [interceptorsOf_append, ← holds.interceptors]; exact (List.append_nil _).symm
  guardFirstAt := by
    rw [ownGuard_concat, ← holds.guardFirstAt]
    cases guardFirstAt <;> rfl
  tags := by rw [List.filterMap_append, ← holds.tags]; rfl
  catches := by rw [List.any_append, ← holds.catches]; exact (Bool.or_false _).symm

theorem catchPanics : Holds (calls ++ [.catchPanics]) interceptors guardFirstAt tags true where
  interceptors := by rw [interceptorsOf_append, ← holds.interceptors]; exact (List.append_nil _).symm
  guardFirstAt := by
    rw [ownGuard_concat, ← holds.guardFirstAt]
    cases guardFirstAt <;> rfl
  tags := by rw [List.filterMap_append, ← holds.tags]; exact (List.append_nil _).symm
  catches := by rw [List.any_append]; exact (Bool.or_true _).symm

end Holds

/-! ## Groups -/

theorem GroupTree.holds (tree : GroupTree Interceptor) :
    Holds tree.calls tree.value.interceptors tree.value.guardFirstAt tree.value.tags
      tree.value.catches := by
  induction tree with
  | new outer =>
      rw [GroupTree.value, Group.new]
      split <;> exact .new
  | intercept group interceptor ih => exact ih.intercept interceptor
  | guardFirst group ih => exact ih.guardFirst
  | tag group name ih => exact ih.tag name
  | catchPanics group ih => exact ih.catchPanics
  | mount group endpoints ih => exact ih

theorem GroupTree.endpoints_value (tree : GroupTree Interceptor) :
    tree.value.endpoints = tree.endpoints := by
  induction tree with
  | new outer =>
      rw [GroupTree.value, Group.new]
      split <;> rfl
  | intercept group interceptor ih => exact ih
  | guardFirst group ih => exact ih
  | tag group name ih => exact ih
  | catchPanics group ih => exact ih
  | mount group endpoints ih => exact congrArg (· ++ endpoints) ih

theorem raw_of_parse {raw : Text} {template : PathTemplate}
    (parses : PathTemplate.parse raw = .ok template) : template.raw = raw := by
  obtain ⟨_, _, _, _, rfl⟩ := parse_eq_ok_iff.mp parses
  rfl

theorem GroupTree.outer_value (tree : GroupTree Interceptor) (clean : tree.value.violations = []) :
    tree.value.outer = tree.outer := by
  induction tree with
  | new outer =>
      rw [GroupTree.value, Group.new] at clean ⊢
      split at clean
      next template parses => simp only [raw_of_parse parses, GroupTree.outer]
      next => cases clean
  | intercept group interceptor ih => exact ih clean
  | guardFirst group ih => exact ih clean
  | tag group name ih => exact ih clean
  | catchPanics group ih => exact ih clean
  | mount group endpoints ih => exact ih clean

/-! ## Taking in operations -/

/-- The point of the guard of an operation in some scopes. -/
def guardIndex : List (Scope Interceptor) → Option Nat
  | [] => none
  | scope :: scopes => guardPoint (ownGuard scope.calls) scope.interceptors.length (guardIndex scopes)

/-- What is kept beside an operation is what the scopes it passed through
contributed. -/
structure Carries (placed : Placed Interceptor) (mounted : Mounted Interceptor) : Prop where
  endpoint : mounted.endpoint = placed.endpoint
  path : mounted.path.raw = placed.scopes.flatMap Scope.leading ++ placed.endpoint.path.raw
  interceptors : mounted.interceptors = placed.scopes.flatMap Scope.interceptors
  guardAt : mounted.guardAt = guardIndex placed.scopes
  tags : mounted.tags = placed.scopes.flatMap Scope.tags
  catchPanics : mounted.catchPanics =
    placed.scopes.any fun scope => scope.calls.any Contribution.isCatchPanics

theorem raw_of_prefixed {path under : PathTemplate} {outer : Text}
    (isUnder : prefixed path outer = .ok under) :
    under.raw = outer.rdropWhile (· == '/') ++ path.raw := by
  rw [prefixed] at isUnder
  split at isUnder
  next => cases isUnder
  next found withPrefix =>
      split at isUnder
      next => cases isUnder
      next =>
          obtain rfl := Except.ok.inj isUnder
          rw [PathTemplate.withPrefix] at withPrefix
          split at withPrefix
          next empty =>
              obtain rfl := Except.ok.inj withPrefix
              rw [List.isEmpty_iff.mp empty, List.nil_append]
          next => exact raw_of_parse withPrefix

namespace Router

variable {router : Router Interceptor}

/-- Taking in operations without a violation takes in all of them. -/
theorem exists_of_foldl_take {items : List (Except Violation (Mounted Interceptor))}
    (clean : (items.foldl Router.take router).violations = []) :
    router.violations = [] ∧ ∃ taken : List (Mounted Interceptor), items = taken.map .ok ∧
      items.foldl Router.take router = { router with mounted := router.mounted ++ taken } := by
  induction items generalizing router with
  | nil => exact ⟨clean, [], rfl, by simp⟩
  | cons item items ih =>
      rw [List.foldl_cons] at clean ⊢
      obtain ⟨itemClean, taken, isTaken, folded⟩ := ih clean
      cases item with
      | error violation => simp [Router.take] at itemClean
      | ok mounted =>
          refine ⟨itemClean, mounted :: taken, by rw [isTaken, List.map_cons], ?_⟩
          rw [folded]
          simp [Router.take]

/-- Taking in operations leaves the router's own contributions. -/
theorem holds_foldl_take {items : List (Except Violation (Mounted Interceptor))}
    {calls : List (Contribution Interceptor)}
    (holds : Holds calls router.interceptors router.guardFirstAt router.tags router.catches) :
    let taken := items.foldl Router.take router
    Holds calls taken.interceptors taken.guardFirstAt taken.tags taken.catches := by
  induction items generalizing router with
  | nil => exact holds
  | cons item items ih =>
      refine @ih (router.take item) ?_
      cases item <;> exact holds

theorem exists_of_map_eq_ok {Value Result : Type} {value : Except Violation Value}
    {make : Value → Result} {result : Result} (made : value.map make = .ok result) :
    ∃ found, value = .ok found ∧ make found = result := by
  cases value with
  | error violation => cases made
  | ok found => exact ⟨found, rfl, Except.ok.inj made⟩

/-- What becomes of each of some operations when they are taken in. -/
theorem forall₂_of_map_eq {Item : Type} {items : List Item} {taken : List (Mounted Interceptor)}
    {take : Item → Except Violation (Mounted Interceptor)} (same : items.map take = taken.map .ok) :
    List.Forall₂ (fun item mounted => take item = .ok mounted) items taken := by
  have equal : List.Forall₂ Eq (items.map take) (taken.map .ok) := by
    rw [same]
    exact List.forall₂_refl _
  exact List.forall₂_map_right_iff.mp (List.forall₂_map_left_iff.mp equal)

/-- Endpoints taken in carry one scope, or none where none is given. -/
theorem carries_absorb {endpoints : List Endpoint} {outer : Text} {tags : List Text}
    {interceptors : List Interceptor} {guardAt : Option Nat} {catchPanics : Bool}
    {scopes : List (Scope Interceptor)}
    (leading : scopes.flatMap Scope.leading = outer.rdropWhile (· == '/'))
    (isInterceptors : interceptors = scopes.flatMap Scope.interceptors)
    (isGuardAt : guardAt = guardIndex scopes) (isTags : tags = scopes.flatMap Scope.tags)
    (isCatchPanics : catchPanics =
      scopes.any fun scope => scope.calls.any Contribution.isCatchPanics)
    (clean : (router.absorb endpoints outer tags interceptors guardAt catchPanics).violations = []) :
    router.violations = [] ∧ ∃ taken,
      (router.absorb endpoints outer tags interceptors guardAt catchPanics).mounted =
        router.mounted ++ taken ∧
      List.Forall₂ Carries (endpoints.map (⟨·, scopes⟩)) taken := by
  rw [absorb, ← List.foldl_map] at clean ⊢
  obtain ⟨before, taken, isTaken, folded⟩ := exists_of_foldl_take clean
  refine ⟨before, taken, by rw [folded], List.forall₂_map_left_iff.mpr ?_⟩
  refine (forall₂_of_map_eq isTaken).imp fun endpoint mounted isMounted => ?_
  obtain ⟨path, isPath, rfl⟩ := exists_of_map_eq_ok isMounted
  exact
    { endpoint := rfl
      path := by rw [raw_of_prefixed isPath, leading]
      interceptors := isInterceptors
      guardAt := isGuardAt
      tags := isTags
      catchPanics := isCatchPanics }

/-- The operations of a router taken in carry one scope more. -/
theorem carries_absorbRouter {other : Router Interceptor} {outer : Text}
    {calls : List (Contribution Interceptor)} {inner : List (Placed Interceptor)}
    (holds : Holds calls other.interceptors other.guardFirstAt other.tags other.catches)
    (carried : other.violations = [] → List.Forall₂ Carries inner other.mounted)
    (clean : (router.absorbRouter other outer other.catches).violations = []) :
    router.violations = [] ∧ ∃ taken,
      (router.absorbRouter other outer other.catches).mounted = router.mounted ++ taken ∧
      List.Forall₂ Carries (inner.map (Placed.within ⟨outer, calls⟩)) taken := by
  rw [absorbRouter, ← List.foldl_map] at clean ⊢
  obtain ⟨folded, otherClean⟩ := List.append_eq_nil_iff.mp clean
  obtain ⟨before, taken, isTaken, folded⟩ := exists_of_foldl_take folded
  refine ⟨before, taken, by rw [folded], List.forall₂_map_left_iff.mpr ?_⟩
  have each := forall₂_of_map_eq isTaken
  have inOther := carried otherClean
  generalize other.mounted = operations at each inOther
  clear isTaken folded carried
  induction inOther generalizing taken with
  | nil =>
      cases each
      exact .nil
  | cons carries inOther ih =>
      cases each with
      | cons isMounted each =>
          obtain ⟨path, isPath, rfl⟩ := exists_of_map_eq_ok isMounted
          refine .cons ?_ (ih _ each)
          exact
            { endpoint := carries.endpoint
              path := by
                rw [raw_of_prefixed isPath, carries.path, ← List.append_assoc]
                rfl
              interceptors := by rw [carries.interceptors, holds.interceptors]; rfl
              guardAt := by
                rw [carries.guardAt, holds.guardFirstAt, holds.interceptors]
                rfl
              tags := by rw [carries.tags, holds.tags]; rfl
              catchPanics := by
                rw [carries.catchPanics, holds.catches]
                exact Bool.or_comm _ _ }

end Router

theorem RouterTree.holds (tree : RouterTree Interceptor) :
    Holds tree.calls tree.value.interceptors tree.value.guardFirstAt tree.value.tags
      tree.value.catches := by
  induction tree with
  | new => exact .new
  | intercept router interceptor ih => exact ih.intercept interceptor
  | guardFirst router ih => exact ih.guardFirst
  | tag router name ih => exact ih.tag name
  | catchPanics router ih => exact ih.catchPanics
  | mount router endpoints ih =>
      rw [RouterTree.value, Router.mount, Router.absorb, ← List.foldl_map]
      exact Router.holds_foldl_take ih
  | group router mounted ih =>
      rw [RouterTree.value, Router.group, Router.absorb, ← List.foldl_map]
      exact Router.holds_foldl_take ih
  | nest router outer other ih =>
      rw [RouterTree.value, Router.nest, Router.absorbRouter, ← List.foldl_map]
      exact Router.holds_foldl_take ih
  | merge router other ih =>
      rw [RouterTree.value, Router.merge, Router.absorbRouter, ← List.foldl_map]
      exact Router.holds_foldl_take ih

/-- A router assembled without a violation carries every operation mounted in
it, each with what the scopes between contributed. -/
theorem RouterTree.carried (tree : RouterTree Interceptor) (clean : tree.value.violations = []) :
    List.Forall₂ Carries tree.inner tree.value.mounted := by
  induction tree with
  | new => exact .nil
  | intercept router interceptor ih => exact ih clean
  | guardFirst router ih => exact ih clean
  | tag router name ih => exact ih clean
  | catchPanics router ih => exact ih clean
  | mount router endpoints ih =>
      obtain ⟨before, taken, isMounted, carries⟩ :=
        @Router.carries_absorb _ router.value endpoints [] [] [] none false [] rfl rfl rfl rfl rfl clean
      rw [RouterTree.value, Router.mount, isMounted]
      exact List.rel_append (ih before) carries
  | group router mounted ih =>
      have holds := mounted.holds
      have groupClean : mounted.value.violations = [] := by
        rw [RouterTree.value, Router.group, Router.absorb, ← List.foldl_map] at clean
        exact (List.append_eq_nil_iff.mp (Router.exists_of_foldl_take clean).1).2
      obtain ⟨before, taken, isMounted, carries⟩ :=
        @Router.carries_absorb _ _ _ _ _ _ _ _ [mounted.scope]
          (by rw [mounted.outer_value groupClean]; exact List.append_nil _)
          (by rw [holds.interceptors]; exact (List.append_nil _).symm)
          (by rw [holds.guardFirstAt]; exact (Option.or_none).symm)
          (by rw [holds.tags]; exact (List.append_nil _).symm)
          (by rw [holds.catches]; exact (Bool.or_false _).symm) clean
      rw [RouterTree.value, Router.group, isMounted, mounted.endpoints_value] at *
      exact List.rel_append (ih (List.append_eq_nil_iff.mp before).1) carries
  | nest router outer other ih otherIh =>
      obtain ⟨before, taken, isMounted, carries⟩ :=
        Router.carries_absorbRouter other.holds otherIh clean
      rw [RouterTree.value, Router.nest, isMounted]
      exact List.rel_append (ih before) carries
  | merge router other ih otherIh =>
      obtain ⟨before, taken, isMounted, carries⟩ :=
        Router.carries_absorbRouter other.holds otherIh clean
      rw [RouterTree.value, Router.merge, isMounted]
      exact List.rel_append (ih before) carries

/-! ## The guard among the interceptors -/

theorem insertIdx_length {Item : Type} (front rest : List Item) (item : Item) :
    (front ++ rest).insertIdx front.length item = front ++ item :: rest := by
  induction front with
  | nil => rfl
  | cons first front ih =>
      rw [List.cons_append, List.length_cons, List.insertIdx_succ_cons, ih, List.cons_append]

theorem ownGuard_of_notMem {calls : List (Contribution Interceptor)}
    (silent : .guardFirst ∉ calls) : ownGuard calls = none := by
  rw [ownGuard, if_neg]
  rw [List.any_eq_true]
  rintro ⟨call, member, isGuard⟩
  cases call with
  | guardFirst => exact silent member
  | interceptor => cases isGuard
  | tag => cases isGuard
  | catchPanics => cases isGuard

theorem ownGuard_split {before after : List (Contribution Interceptor)}
    (silent : .guardFirst ∉ before) :
    ownGuard (before ++ .guardFirst :: after) = some (interceptorsOf before).length := by
  have split : before ++ .guardFirst :: after = (before ++ [.guardFirst]) ++ after := by simp
  rw [split]
  induction after using List.reverseRecOn with
  | nil => rw [List.append_nil, ownGuard_concat, ownGuard_of_notMem silent]; rfl
  | append_singleton after call ih =>
      rw [← List.append_assoc, ownGuard_concat, ih (by simp)]
      rfl

/-- No guard runs early where no scope asks for it. -/
theorem guardIndex_of_silent {scopes : List (Scope Interceptor)}
    (silent : ∀ scope ∈ scopes, .guardFirst ∉ scope.calls) : guardIndex scopes = none := by
  induction scopes with
  | nil => rfl
  | cons scope scopes ih =>
      rw [guardIndex, ownGuard_of_notMem (silent scope List.mem_cons_self),
        ih fun other member => silent other (List.mem_cons_of_mem _ member)]
      rfl

/-- The point of the outermost scope that asks, behind what the scopes outside
it contributed. -/
theorem guardIndex_split {outside inside : List (Scope Interceptor)} {scope : Scope Interceptor}
    {before after : List (Contribution Interceptor)}
    (outsideSilent : ∀ other ∈ outside, .guardFirst ∉ other.calls)
    (split : scope.calls = before ++ .guardFirst :: after) (silent : .guardFirst ∉ before) :
    guardIndex (outside ++ scope :: inside) =
      some (outside.flatMap Scope.interceptors ++ interceptorsOf before).length := by
  induction outside with
  | nil => rw [List.nil_append, guardIndex, split, ownGuard_split silent]; rfl
  | cons other outside ih =>
      rw [List.cons_append, guardIndex, ownGuard_of_notMem (outsideSilent other List.mem_cons_self),
        ih fun scope member => outsideSilent scope (List.mem_cons_of_mem _ member)]
      simp only [guardPoint, Option.none_or, Option.map_some, List.flatMap_cons, List.length_append]
      rw [Nat.add_comm, Nat.add_assoc]

/-! ## Operations -/

theorem foldl_addTag (known items : List Text) :
    items.foldl addTag known = known ++ Collection.fresh id known items := by
  induction items generalizing known with
  | nil => exact (List.append_nil known).symm
  | cons item items ih =>
      rw [List.foldl_cons, ih, addTag]
      by_cases member : item ∈ known
      · rw [if_pos (List.contains_iff_mem.mpr member), Collection.fresh_cons_of_mem member]
      · rw [if_neg (mt List.contains_iff_mem.mp member), Collection.fresh_cons_of_notMem member,
          List.append_assoc, List.singleton_append]
        congr 2
        exact Collection.fresh_congr (by simp [or_comm]) items

theorem any_isCatchPanics_iff {calls : List (Contribution Interceptor)} :
    calls.any Contribution.isCatchPanics = true ↔ .catchPanics ∈ calls := by
  rw [List.any_eq_true]
  constructor
  · rintro ⟨call, member, isCatch⟩
    cases call with
    | catchPanics => exact member
    | interceptor => cases isCatch
    | tag => cases isCatch
    | guardFirst => cases isCatch
  · intro member
    exact ⟨_, member, rfl⟩

section Operation

variable {tree : RouterTree Interceptor} {placed : Placed Interceptor}
  {mounted : Mounted Interceptor}

theorem interceptors_eq (carries : Carries placed mounted) :
    tree.value.interceptors ++ mounted.interceptors =
      (placed.within ⟨[], tree.calls⟩).scopes.flatMap Scope.interceptors := by
  rw [tree.holds.interceptors, carries.interceptors]
  rfl

theorem guardPoint_eq (carries : Carries placed mounted) :
    guardPoint tree.value.guardFirstAt tree.value.interceptors.length mounted.guardAt =
      guardIndex (placed.within ⟨[], tree.calls⟩).scopes := by
  rw [tree.holds.guardFirstAt, tree.holds.interceptors, carries.guardAt]
  rfl

/-- Without a guard, or a scope that asks for it first, only the interceptors
run. -/
theorem covering_of_unguarded (carries : Carries placed mounted)
    (unguarded : placed.endpoint.guarded = true →
      ∀ scope ∈ (placed.within ⟨[], tree.calls⟩).scopes, .guardFirst ∉ scope.calls) :
    tree.value.covering mounted =
      ((placed.within ⟨[], tree.calls⟩).scopes.flatMap Scope.interceptors).map .interceptor := by
  simp only [Router.covering, interceptors_eq carries, guardPoint_eq carries, carries.endpoint,
    Endpoint.guardAhead]
  by_cases guarded : placed.endpoint.guarded = true
  · rw [guardIndex_of_silent (unguarded guarded)]
  · rw [if_neg guarded]
    split <;> rfl

theorem covering_of_guarded (carries : Carries placed mounted)
    (guarded : placed.endpoint.guarded = true) {outside inside : List (Scope Interceptor)}
    {scope : Scope Interceptor} {before after : List (Contribution Interceptor)}
    (scopes : (placed.within ⟨[], tree.calls⟩).scopes = outside ++ scope :: inside)
    (outsideSilent : ∀ other ∈ outside, .guardFirst ∉ other.calls)
    (split : scope.calls = before ++ .guardFirst :: after) (silent : .guardFirst ∉ before) :
    tree.value.covering mounted =
      (outside.flatMap Scope.interceptors ++ interceptorsOf before).map .interceptor ++
        .guard placed.endpoint ::
          (interceptorsOf after ++ inside.flatMap Scope.interceptors).map .interceptor := by
  have all : (outside ++ scope :: inside).flatMap Scope.interceptors =
      (outside.flatMap Scope.interceptors ++ interceptorsOf before) ++
        (interceptorsOf after ++ inside.flatMap Scope.interceptors) := by
    have own : scope.interceptors = interceptorsOf before ++ interceptorsOf after := by
      rw [Scope.interceptors, split, interceptorsOf_append]
      rfl
    rw [List.flatMap_append, List.flatMap_cons, own, List.append_assoc, List.append_assoc]
  simp only [Router.covering, interceptors_eq carries, guardPoint_eq carries, carries.endpoint,
    Endpoint.guardAhead, scopes, guardIndex_split outsideSilent split silent, if_pos guarded, all]
  rw [List.map_append, ← List.length_map Layer.interceptor, insertIdx_length]

theorem composes_of_carries (carries : Carries placed mounted) :
    Composes (placed.within ⟨[], tree.calls⟩) (tree.value.operation mounted) where
  endpoint := carries.endpoint
  path := by
    rw [Router.operation, carries.path]
    rfl
  described := interceptors_eq carries
  tags := by
    rw [Router.operation, carries.endpoint, ← List.foldl_append, foldl_addTag, List.nil_append,
      tree.holds.tags, carries.tags]
    rfl
  recovery := by
    have inner : mounted.catchPanics = true ↔ ∃ scope ∈ placed.scopes, .catchPanics ∈ scope.calls := by
      rw [carries.catchPanics, List.any_eq_true]
      simp only [any_isCatchPanics_iff]
    rw [Router.operation, Bool.or_eq_true, inner, tree.holds.catches, any_isCatchPanics_iff,
      or_comm, Placed.within, List.exists_mem_cons_iff]
  recoveryDescribed := rfl
  unguarded := covering_of_unguarded carries
  guarded := fun guarded _ _ _ _ _ scopes outsideSilent split silent =>
    covering_of_guarded carries guarded scopes outsideSilent split silent

end Operation

/-- Every operation a router serves is the one mounted, in the scopes it was
mounted in. -/
theorem scopes_compose (tree : RouterTree Interceptor) {operations : List (Operation Interceptor)}
    (built : tree.value.build = .ok operations) :
    List.Forall₂ Composes tree.placed operations := by
  rw [Router.build] at built
  split at built
  next clean =>
      obtain rfl := Except.ok.inj built
      refine List.forall₂_map_left_iff.mpr (List.forall₂_map_right_iff.mpr ?_)
      exact (tree.carried (List.isEmpty_iff.mp clean)).imp fun placed mounted => composes_of_carries
  next => cases built

/-! ## A nested router -/

/-- A guarded `GET` of `/a`. -/
def guardedGet : Endpoint :=
  ⟨.get, ⟨"/a".toList, []⟩, [], true⟩

/-- `/a` under `/v1/`, behind an interceptor of the root, its guard first. -/
def versioned : RouterTree Unit :=
  .intercept (.nest .new "/v1/".toList (.guardFirst (.mount .new [guardedGet]))) ()

theorem routable_plain {raw : Text} (plain : '\x7b' ∉ raw) :
    Router.unroutable ⟨raw, []⟩ = ((raw.splitOn '/').any fun segment =>
      decide (Router.expressionCount segment > 1)) := by
  have cut : Word.splitOnce '\x7b' raw = none := Word.splitOnce_eq_none_iff.mpr plain
  have normal : PathTemplate.normalized ⟨raw, []⟩ = some raw := by
    rw [PathTemplate.normalized, PathTemplate.normalizedFrom]
    split
    next => rfl
    next found => rw [cut] at found; cases found
  rw [Router.unroutable, normal]
  rfl

theorem build_versioned : versioned.value.build =
    .ok [⟨guardedGet, "/v1/a".toList, [()], [], false, [.interceptor (), .guard guardedGet], false⟩] := by
  have own : prefixed guardedGet.path [] = .ok ⟨"/a".toList, []⟩ := by
    simp only [prefixed, guardedGet, PathTemplate.withPrefix, List.rdropWhile_nil, List.isEmpty_nil,
      if_true, @routable_plain "/a".toList (by decide)]
    decide
  have parses : PathTemplate.parse "/v1/a".toList = .ok ⟨"/v1/a".toList, []⟩ := by
    simp [PathTemplate.parse, hasQueryOrFragment, hasQueryOrFragmentFrom, parseFrom, Word.splitOnce,
      checkLiteral, checkSegments, checkSegmentsFrom, isPathCharacter, isAsciiAlphanumeric,
      Text.isAsciiDigit]
  have under : prefixed ⟨"/a".toList, []⟩ "/v1/".toList = .ok ⟨"/v1/a".toList, []⟩ := by
    have joined : PathTemplate.withPrefix ⟨"/a".toList, []⟩ "/v1/".toList = .ok ⟨"/v1/a".toList, []⟩ :=
      parses
    simp only [prefixed, joined, @routable_plain "/v1/a".toList (by decide)]
    decide
  have mounted : (Router.new.mount [guardedGet] : Router Unit) =
      { (Router.new : Router Unit) with
        mounted := [⟨guardedGet, ⟨"/a".toList, []⟩, [], none, [], false⟩] } := by
    simp only [Router.mount, Router.absorb, List.foldl_cons, List.foldl_nil, own]
    rfl
  simp only [versioned, RouterTree.value, mounted, Router.guardFirst, Router.nest,
    Router.absorbRouter, List.foldl_cons, List.foldl_nil, under]
  rfl

theorem scopes_compose_versioned : List.Forall₂ Composes versioned.placed
    [⟨guardedGet, "/v1/a".toList, [()], [], false, [.interceptor (), .guard guardedGet], false⟩] :=
  scopes_compose versioned build_versioned

/-- The final slash of a leading path is not kept. -/
theorem leading_slash_dropped :
    ¬ ∀ (tree : RouterTree Unit) (operations : List (Operation Unit)),
      tree.value.build = .ok operations →
        List.Forall₂ (fun placed operation =>
          operation.path = placed.scopes.flatMap Scope.outer ++ placed.endpoint.path.raw)
          tree.placed operations := by
  intro literally
  cases literally versioned _ build_versioned with
  | cons path _ => exact absurd path (by decide)

end Kynos.Assembly
