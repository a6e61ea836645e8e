import Kynos.Collection.Assoc
import Kynos.OpenApi.Violation
import Kynos.Run.Chain
import Mathlib.Data.List.Enum
import Mathlib.Logic.Relation

/-!
# The tag hierarchy

A tag may name a parent. A parent that is not declared is reported, and so is
every tag that is its own ancestor. The walk from a tag to its ancestors is cut
off by a count of its steps, which no way round a cycle comes up to.
-/

namespace Kynos.OpenApi

open Kynos.Collection Kynos.Run

/-! ## The source -/

/-- `Tag`, as far as the hierarchy reads it. -/
structure Tag where
  name : Text
  parent : Option Text

/-- The parents, by the name of the tag. -/
def parents (tags : List Tag) : List (Text × Text) :=
  extend [] (tags.filterMap fun tag => tag.parent.map fun parent => (tag.name, parent))

/-- Whether the chain of parents comes to a name, walked upward from a tag. -/
def comesTo (parents : List (Text × Text)) (name : Text) (count : Nat) (current : Text)
    (steps : Nat) : Bool :=
  match parents.lookup current with
  | none => false
  | some next =>
      if next = name then
        true
      else if count < steps then
        false
      else
        comesTo parents name count next (steps + 1)
termination_by count + 1 - steps

/-- What is wrong with a tag's parent. -/
def checkTagParent (tags : List Tag) (declared : List Text) (tag : Tag) : Option SpecError :=
  tag.parent.bind fun parent =>
    if parent ∉ declared then
      some (.unknownTagParent tag.name parent)
    else if comesTo (parents tags) tag.name tags.length parent 0 then
      some (.tagParentCycle tag.name)
    else
      none

/-- Where a tag is written. -/
def tagLocation (index : Nat) : Text :=
  "#/tags/".toList ++ Text.decimal index

/-- `check_tag_hierarchy`. -/
def checkTagHierarchy (tags : List Tag) (declared : List Text) : List Violation :=
  tags.zipIdx.filterMap fun (tag, index) =>
    (checkTagParent tags declared tag).map (.ofError (tagLocation index))

/-! ## The walk -/

/-- The parent of the tag under a name. -/
def ParentOf (tags : List Tag) (name parent : Text) : Prop :=
  ∃ tag ∈ tags, tag.name = name ∧ tag.parent = some parent

variable {tags : List Tag} {tag : Tag} {name parent : Text}

theorem lookup_parents_eq_some_iff (distinct : (tags.map Tag.name).Nodup) :
    (parents tags).lookup name = some parent ↔ ParentOf tags name parent := by
  have named : (tags.filterMap fun tag => tag.parent.map fun parent => (tag.name, parent)).map
      Prod.fst = (tags.filter fun tag => tag.parent.isSome).map Tag.name := by
    clear distinct
    induction tags with
    | nil => rfl
    | cons tag tags ih =>
        cases isParent : tag.parent with
        | none => simp [isParent, ih]
        | some parent => simp [isParent, ih]
  have distinctKeys := (List.filter_sublist (p := fun tag : Tag => tag.parent.isSome)
    (l := tags)).map Tag.name |>.nodup distinct
  rw [← named] at distinctKeys
  rw [parents, lookup_extend_nil_eq_some_iff distinctKeys]
  constructor
  · intro member
    obtain ⟨tag, isTag, isEntry⟩ := List.mem_filterMap.mp member
    obtain ⟨_, isParent, ⟨⟩⟩ := Option.map_eq_some_iff.mp isEntry
    exact ⟨tag, isTag, rfl, isParent⟩
  · rintro ⟨tag, isTag, rfl, isParent⟩
    exact List.mem_filterMap.mpr ⟨tag, isTag, by rw [isParent, Option.map_some]⟩

section Walk

variable {entries : List (Text × Text)} {count steps : Nat} {current : Text}

/-- A name the walk comes to is an ancestor. -/
theorem exists_along_of_comesTo (comes : comesTo entries name count current steps = true) :
    ∃ more, 0 < more ∧ along (fun tag => entries.lookup tag) more current = some name := by
  induction current, steps using comesTo.induct entries name count with
  | case1 current steps stops =>
      rw [comesTo, stops] at comes
      cases comes
  | case2 current steps isNext => exact ⟨1, Nat.one_pos, (along_one ..).trans isNext⟩
  | case3 current steps next isNext different cut =>
      rw [comesTo, isNext] at comes
      simp [different, cut] at comes
  | case4 current steps next isNext different uncut ih =>
      rw [comesTo, isNext] at comes
      simp only [different, uncut, if_false] at comes
      obtain ⟨more, -, isAncestor⟩ := ih comes
      refine ⟨more + 1, Nat.succ_pos more, ?_⟩
      rw [along, isNext, Option.bind_some, isAncestor]

/-- The walk comes to an ancestor that is not past the cut. -/
theorem comesTo_of_along {more : Nat} (positive : 0 < more) (before : steps + more ≤ count + 2)
    (isAncestor : along (fun tag => entries.lookup tag) more current = some name) :
    comesTo entries name count current steps = true := by
  induction more generalizing current steps with
  | zero => cases positive
  | succ more ih =>
      rw [along] at isAncestor
      obtain ⟨next, isNext, further⟩ := Option.bind_eq_some_iff.mp isAncestor
      rw [comesTo, isNext]
      dsimp only
      split
      · rfl
      · rename_i different
        have positive : 0 < more := by
          refine Nat.pos_of_ne_zero ?_
          rintro rfl
          exact different (Option.some.inj further)
        rw [if_neg (by omega)]
        exact ih positive (by omega) further

end Walk

/-- A tag is its own ancestor exactly where the walk from its parent comes to it. -/
theorem comesTo_iff_transGen (distinct : (tags.map Tag.name).Nodup) (member : tag ∈ tags)
    (isParent : tag.parent = some parent) :
    comesTo (parents tags) tag.name tags.length parent 0 = true ↔
      Relation.TransGen (ParentOf tags) tag.name tag.name := by
  have isStep : (fun child ancestor => (parents tags).lookup child = some ancestor) = ParentOf tags := by
    ext child ancestor
    exact lookup_parents_eq_some_iff distinct
  have isNext : (parents tags).lookup tag.name = some parent :=
    (lookup_parents_eq_some_iff distinct).mpr ⟨tag, member, rfl, isParent⟩
  rw [← isStep, transGen_iff_exists_along]
  constructor
  · intro comes
    obtain ⟨more, -, isAncestor⟩ := exists_along_of_comesTo comes
    refine ⟨more + 1, Nat.succ_pos more, ?_⟩
    rw [along, isNext, Option.bind_some, isAncestor]
  · rintro ⟨steps, positive, returns⟩
    have into : ∀ child ancestor, (parents tags).lookup child = some ancestor →
        ancestor ∈ tags.filterMap Tag.parent := by
      intro child ancestor isAncestor
      obtain ⟨other, isOther, -, isParent⟩ := (lookup_parents_eq_some_iff distinct).mp isAncestor
      exact List.mem_filterMap.mpr ⟨other, isOther, isParent⟩
    obtain ⟨fewer, more, short, returns⟩ := exists_return_le into positive returns
    have few : fewer ≤ tags.length := short.trans (List.length_filterMap_le ..)
    obtain ⟨fewer, rfl⟩ := Nat.exists_eq_succ_of_ne_zero more.ne'
    have onward := returns
    rw [along, isNext, Option.bind_some] at onward
    rcases Nat.eq_zero_or_pos fewer with rfl | further
    · -- a tag that is its own parent is come to by going round once more
      cases onward
      exact comesTo_of_along Nat.one_pos (by omega) returns
    · exact comesTo_of_along further (by omega) onward

/-! ## What is reported -/

/-- A tag on a cycle has a declared parent. -/
theorem declared_of_transGen (distinct : (tags.map Tag.name).Nodup) (member : tag ∈ tags)
    (isParent : tag.parent = some parent)
    (returns : Relation.TransGen (ParentOf tags) tag.name tag.name) : parent ∈ tags.map Tag.name := by
  have same {other : Text} (isOther : ParentOf tags tag.name other) : other = parent := by
    obtain ⟨twin, isTwin, sameName, isHis⟩ := isOther
    rw [List.inj_on_of_nodup_map distinct isTwin member sameName, isParent] at isHis
    exact (Option.some.inj isHis).symm
  obtain ⟨middle, first, rest⟩ := Relation.TransGen.head'_iff.mp returns
  rw [← same first]
  rcases Relation.ReflTransGen.cases_head rest with rfl | ⟨_, ⟨other, isOther, rfl, -⟩, -⟩
  · exact List.mem_map_of_mem member
  · exact List.mem_map_of_mem isOther

theorem checkTagParent_eq_some_iff (distinct : (tags.map Tag.name).Nodup) (member : tag ∈ tags)
    {error : SpecError} : checkTagParent tags (tags.map Tag.name) tag = some error ↔
      (∃ parent, tag.parent = some parent ∧ parent ∉ tags.map Tag.name ∧
        error = .unknownTagParent tag.name parent) ∨
      (Relation.TransGen (ParentOf tags) tag.name tag.name ∧ error = .tagParentCycle tag.name) := by
  cases isParent : tag.parent with
  | none =>
      rw [checkTagParent, isParent]
      refine iff_of_false nofun ?_
      rintro (⟨_, ⟨⟩, -⟩ | ⟨returns, -⟩)
      obtain ⟨middle, ⟨twin, isTwin, sameName, isHis⟩, -⟩ := Relation.TransGen.head'_iff.mp returns
      rw [List.inj_on_of_nodup_map distinct isTwin member sameName, isParent] at isHis
      cases isHis
  | some parent =>
      rw [checkTagParent, isParent, Option.bind_some]
      by_cases declared : parent ∈ tags.map Tag.name
      · rw [if_neg (not_not_intro declared)]
        by_cases comes : comesTo (parents tags) tag.name tags.length parent 0 = true
        · have returns := (comesTo_iff_transGen distinct member isParent).mp comes
          rw [if_pos comes]
          constructor
          · rintro ⟨⟩
            exact .inr ⟨returns, rfl⟩
          · rintro (⟨_, ⟨⟩, undeclared, -⟩ | ⟨-, rfl⟩)
            · exact absurd declared undeclared
            · rfl
        · rw [if_neg comes]
          refine iff_of_false nofun ?_
          rintro (⟨_, ⟨⟩, undeclared, -⟩ | ⟨returns, -⟩)
          · exact undeclared declared
          · exact comes ((comesTo_iff_transGen distinct member isParent).mpr returns)
      · rw [if_pos declared]
        constructor
        · rintro ⟨⟩
          exact .inl ⟨parent, rfl, declared, rfl⟩
        · rintro (⟨_, ⟨⟩, -, rfl⟩ | ⟨returns, -⟩)
          · rfl
          · exact absurd (declared_of_transGen distinct member isParent returns) declared

/-- A tag is reported as one of a cycle exactly where its chain of parents returns to
it, and for its parent exactly where that is no tag. -/
theorem checkTagHierarchy_exact (distinct : (tags.map Tag.name).Nodup) (violation : Violation) :
    violation ∈ checkTagHierarchy tags (tags.map Tag.name) ↔
      ∃ index tag, tags[index]? = some tag ∧
        ((∃ parent, tag.parent = some parent ∧ parent ∉ tags.map Tag.name ∧
            violation = .ofError (tagLocation index) (.unknownTagParent tag.name parent)) ∨
          (Relation.TransGen (ParentOf tags) tag.name tag.name ∧
            violation = .ofError (tagLocation index) (.tagParentCycle tag.name))) := by
  rw [checkTagHierarchy, List.mem_filterMap]
  constructor
  · rintro ⟨⟨tag, index⟩, isTag, isViolation⟩
    obtain ⟨error, isError, rfl⟩ := Option.map_eq_some_iff.mp isViolation
    have isAt := List.mk_mem_zipIdx_iff_getElem?.mp isTag
    refine ⟨index, tag, isAt, ?_⟩
    rcases (checkTagParent_eq_some_iff distinct (List.mem_of_getElem? isAt)).mp isError with
      ⟨parent, isParent, undeclared, rfl⟩ | ⟨returns, rfl⟩
    · exact .inl ⟨parent, isParent, undeclared, rfl⟩
    · exact .inr ⟨returns, rfl⟩
  · rintro ⟨index, tag, isAt, isWrong⟩
    have isError (error : SpecError) : checkTagParent tags (tags.map Tag.name) tag = some error ↔ _ :=
      checkTagParent_eq_some_iff distinct (List.mem_of_getElem? isAt)
    refine ⟨(tag, index), List.mk_mem_zipIdx_iff_getElem?.mpr isAt, ?_⟩
    rcases isWrong with ⟨parent, isParent, undeclared, rfl⟩ | ⟨returns, rfl⟩
    · exact congrArg (Option.map _) ((isError _).mpr (.inl ⟨parent, isParent, undeclared, rfl⟩))
    · exact congrArg (Option.map _) ((isError _).mpr (.inr ⟨returns, rfl⟩))

/-- One of two tags that are above each other, with a third below. -/
theorem checkTagHierarchy_two :
    Violation.ofError (tagLocation 0) (.tagParentCycle ['a']) ∈
      checkTagHierarchy [⟨['a'], some ['b']⟩, ⟨['b'], some ['a']⟩, ⟨['c'], some ['a']⟩]
        [['a'], ['b'], ['c']] := by
  have distinct : (([⟨['a'], some ['b']⟩, ⟨['b'], some ['a']⟩, ⟨['c'], some ['a']⟩] : List Tag).map
      Tag.name).Nodup := by decide
  refine (checkTagHierarchy_exact distinct _).mpr ⟨0, ⟨['a'], some ['b']⟩, rfl, .inr ⟨?_, rfl⟩⟩
  exact .tail (.single ⟨_, .head _, rfl, rfl⟩) ⟨_, .tail _ (.head _), rfl, rfl⟩

end Kynos.OpenApi
