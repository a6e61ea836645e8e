import Kynos.Router.TrailingSlash

/-!
# The policies compared

What a lenient table adds is the other spelling of every template. A path no
template matches is then dispatched as its own other spelling is; a path some
template matches may be dispatched differently, where the other spelling of a
template stands before all of these.
-/

namespace Kynos.Router

open Kynos.Word Kynos.Http Kynos.Cors

variable {Mount Rank : Type} [LinearOrder Rank] {count : Nat}

namespace Templates

variable {templates : Templates count} {ranking : Ranking Rank} {path target : Text}

/-! ## Other spellings -/

theorem Flips.capture_eq {flipped pattern : Pattern} {index : Fin count}
    (flips : templates.Flips flipped index) (member : (pattern, index) ∈ templates.declared.held)
    (regular : Regular path) :
    flipped.capture (path.splitOn '/') =
      (flipTrailingSlash path).bind fun target => pattern.capture (target.splitOn '/') := by
  obtain ⟨spelling, isSpelling, isRead⟩ := flips
  exact (templates.regular index).capture_flip regular isSpelling (mem_declared_iff.mp member) isRead

theorem Flips.matches_iff {flipped pattern : Pattern} {index : Fin count}
    (flips : templates.Flips flipped index) (member : (pattern, index) ∈ templates.declared.held)
    (regular : Regular path) (isTarget : flipTrailingSlash path = some target) :
    flipped.Matches (path.splitOn '/') ↔ pattern.Matches (target.splitOn '/') := by
  rw [Pattern.Matches, flips.capture_eq member regular, isTarget, Option.bind_some, Pattern.Matches]

/-- A template that the other spelling of a path matches has an other spelling. -/
theorem exists_flips {pattern : Pattern} {index : Fin count}
    (member : (pattern, index) ∈ templates.declared.held) (regular : Regular path)
    (isTarget : flipTrailingSlash path = some target)
    (matched : pattern.Matches (target.splitOn '/')) : ∃ flipped, templates.Flips flipped index := by
  have isRead := mem_declared_iff.mp member
  cases isSpelling : flipTrailingSlash (templates.template index).raw with
  | some spelling =>
      obtain ⟨stem, stemPattern, -, -, ⟨-, flippedRead⟩ | ⟨-, flippedRead⟩⟩ :=
        (templates.regular index).read_flip isSpelling isRead
      · exact ⟨_, spelling, isSpelling, flippedRead⟩
      · exact ⟨_, spelling, isSpelling, flippedRead⟩
  | none =>
      rcases (templates.regular index).cases with isRoot | isStem | ⟨stem, isStem, isRaw⟩
      · rw [isRoot] at isRead
        have isPattern : pattern = [.static [], .static []] := (Option.some.inj isRead).symm
        rw [isPattern, Pattern.Matches, regular.capture_root isTarget] at matched
        cases matched
      · rw [flipTrailingSlash_stem isStem] at isSpelling
        cases isSpelling
      · rw [isRaw, flipTrailingSlash_slashed isStem] at isSpelling
        cases isSpelling

theorem Flips.key_le_iff {flipped otherFlipped pattern otherPattern : Pattern}
    {index otherIndex : Fin count} (flips : templates.Flips flipped index)
    (otherFlips : templates.Flips otherFlipped otherIndex)
    (member : (pattern, index) ∈ templates.declared.held)
    (otherMember : (otherPattern, otherIndex) ∈ templates.declared.held)
    (matched : flipped.Matches (path.splitOn '/'))
    (otherMatched : otherFlipped.Matches (path.splitOn '/')) :
    flipped.key ranking ≤ otherFlipped.key ranking ↔
      pattern.key ranking ≤ otherPattern.key ranking := by
  obtain ⟨spelling, isSpelling, isRead⟩ := flips
  obtain ⟨otherSpelling, otherIsSpelling, otherIsRead⟩ := otherFlips
  exact (templates.regular index).key_flip_le_iff (templates.regular otherIndex) isSpelling
    otherIsSpelling (mem_declared_iff.mp member) (mem_declared_iff.mp otherMember) isRead otherIsRead
    matched otherMatched

/-- A path does not match both spellings of a template. -/
theorem Flips.not_both {flipped pattern : Pattern} {index : Fin count}
    (flips : templates.Flips flipped index) (member : (pattern, index) ∈ templates.declared.held)
    {pieces : List Text} (matched : pattern.Matches pieces) : ¬ flipped.Matches pieces := by
  intro flippedMatched
  obtain ⟨spelling, isSpelling, isRead⟩ := flips
  have lengths := matched.length_eq.trans flippedMatched.length_eq.symm
  obtain ⟨stem, stemPattern, -, -, ⟨rfl, same⟩ | ⟨rfl, same⟩⟩ :=
    (templates.regular index).read_flip isSpelling (mem_declared_iff.mp member)
  · obtain rfl := Option.some.inj (isRead.symm.trans same)
    simp at lengths
  · obtain rfl := Option.some.inj (isRead.symm.trans same)
    simp at lengths

theorem exists_declared (index : Fin count) :
    ∃ pattern, (pattern, index) ∈ templates.declared.held := by
  obtain ⟨pattern, isRead⟩ := templates.exists_read index
  exact ⟨pattern, mem_declared_iff.mpr isRead⟩

/-! ## Paths that no template matches -/

variable (templates ranking) in
/-- A path that is not regular matches nothing. -/
theorem matched_of_irregular (irregular : ¬ Regular path) :
    templates.declared.matched ranking path = none ∧
      templates.registerFlippedSpellings.matched ranking path = none := by
  have declared : ∀ entry ∈ templates.declared.held, ¬ entry.1.Matches (path.splitOn '/') := by
    rintro ⟨pattern, index⟩ member
    rw [Pattern.Matches,
      (templates.regular index).capture_irregular (mem_declared_iff.mp member) irregular]
    exact Bool.false_ne_true
  refine ⟨MatchTable.matched_eq_none_iff.mpr declared, MatchTable.matched_eq_none_iff.mpr ?_⟩
  rintro ⟨pattern, index⟩ member
  rcases mem_lenient member with isDeclared | ⟨spelling, isSpelling, isRead⟩
  · exact declared _ isDeclared
  · rw [Pattern.Matches,
      ((templates.regular index).flip isSpelling).capture_irregular isRead irregular]
    exact Bool.false_ne_true

/-- The other spelling of a template that a path matches is held with it, where
no template matches the path. -/
theorem Flips.mem_lenient_of_unmatched {flipped : Pattern} {index : Fin count}
    (flips : templates.Flips flipped index) (regular : Regular path)
    (isTarget : flipTrailingSlash path = some target)
    (unmatched : templates.declared.matched ranking path = none)
    (matched : flipped.Matches (path.splitOn '/')) :
    (flipped, index) ∈ templates.registerFlippedSpellings.held := by
  obtain ⟨⟨other, otherIndex⟩, member, sameShape⟩ := exists_shape_lenient flips
  have otherMatched := Pattern.matches_of_shape_eq sameShape.symm matched
  rcases mem_lenient member with isDeclared | otherFlips
  · exact absurd otherMatched (MatchTable.matched_eq_none_iff.mp unmatched _ isDeclared)
  · obtain ⟨pattern, isPattern⟩ := templates.exists_declared index
    obtain ⟨otherPattern, otherIsPattern⟩ := templates.exists_declared otherIndex
    have sameKey : pattern.key ranking = otherPattern.key ranking := by
      have flippedKey : flipped.key ranking = other.key ranking :=
        Pattern.key_of_shape_eq sameShape.symm
      refine le_antisymm ?_ ?_
      · exact (flips.key_le_iff otherFlips isPattern otherIsPattern matched otherMatched).mp
          flippedKey.le
      · exact (otherFlips.key_le_iff flips otherIsPattern isPattern otherMatched matched).mp
          flippedKey.ge
    have same := MatchTable.eq_of_shape_eq isPattern otherIsPattern
      (Pattern.shape_eq_of_key_eq ((flips.matches_iff isPattern regular isTarget).mp matched)
        ((otherFlips.matches_iff otherIsPattern regular isTarget).mp otherMatched) sameKey)
    obtain rfl := (Prod.mk.inj same).2
    obtain ⟨spelling, isSpelling, isRead⟩ := flips
    obtain ⟨otherSpelling, otherIsSpelling, otherIsRead⟩ := otherFlips
    rw [isSpelling, Option.some.injEq] at otherIsSpelling
    subst otherIsSpelling
    rw [isRead, Option.some.injEq] at otherIsRead
    rw [otherIsRead]
    exact member

/-- A path that no template matches is served as its other spelling is. -/
theorem matched_lenient_of_unmatched (regular : Regular path)
    (unmatched : templates.declared.matched ranking path = none) :
    templates.registerFlippedSpellings.matched ranking path =
      (flipTrailingSlash path).bind (templates.declared.matched ranking) := by
  have undeclared := MatchTable.matched_eq_none_iff.mp unmatched
  cases isTarget : flipTrailingSlash path with
  | none =>
      refine MatchTable.matched_eq_none_iff.mpr ?_
      rintro ⟨flipped, index⟩ member
      rcases mem_lenient member with isDeclared | flips
      · exact undeclared _ isDeclared
      · obtain ⟨pattern, isPattern⟩ := templates.exists_declared index
        rw [Pattern.Matches, flips.capture_eq isPattern regular, isTarget]
        exact Bool.false_ne_true
  | some target =>
      refine Option.ext fun reached => ?_
      obtain ⟨index, captured⟩ := reached
      rw [Option.bind_some, MatchTable.matched_eq_some_iff, MatchTable.matched_eq_some_iff]
      constructor
      · rintro ⟨flipped, member, captures, least⟩
        have matched : flipped.Matches (path.splitOn '/') := Option.isSome_of_mem captures
        have flips := (mem_lenient member).resolve_left fun isDeclared => undeclared _ isDeclared matched
        obtain ⟨pattern, isPattern⟩ := templates.exists_declared index
        refine ⟨pattern, isPattern, ?_, ?_⟩
        · rw [flips.capture_eq isPattern regular, isTarget] at captures
          exact captures
        · rintro ⟨other, otherIndex⟩ isOther otherMatched
          obtain ⟨otherFlipped, otherFlips⟩ := exists_flips isOther regular isTarget otherMatched
          have flippedMatched := (otherFlips.matches_iff isOther regular isTarget).mpr otherMatched
          have otherMember := otherFlips.mem_lenient_of_unmatched regular isTarget unmatched flippedMatched
          exact (flips.key_le_iff otherFlips isPattern isOther matched flippedMatched).mp
            (least _ otherMember flippedMatched)
      · rintro ⟨pattern, isPattern, captures, least⟩
        obtain ⟨flipped, flips⟩ :=
          exists_flips isPattern regular isTarget (Option.isSome_of_mem captures)
        have flippedCaptures : flipped.capture (path.splitOn '/') = some captured := by
          rw [flips.capture_eq isPattern regular, isTarget]
          exact captures
        have matched : flipped.Matches (path.splitOn '/') := Option.isSome_of_mem flippedCaptures
        refine ⟨flipped, flips.mem_lenient_of_unmatched regular isTarget unmatched matched,
          flippedCaptures, ?_⟩
        rintro ⟨other, otherIndex⟩ member otherMatched
        have otherFlips := (mem_lenient member).resolve_left fun isDeclared =>
          undeclared _ isDeclared otherMatched
        obtain ⟨otherPattern, otherIsPattern⟩ := templates.exists_declared otherIndex
        exact (flips.key_le_iff otherFlips isPattern otherIsPattern matched otherMatched).mpr
          (least _ otherIsPattern ((otherFlips.matches_iff otherIsPattern regular isTarget).mp otherMatched))

/-! ## Paths that some template matches -/

/-- No other spelling of a template that a path matches stands before all the
templates it matches. -/
def Outranks (templates : Templates count) (ranking : Ranking Rank) (path : Text) : Prop :=
  ∀ flipped index, templates.Flips flipped index → flipped.Matches (path.splitOn '/') →
    (∃ entry ∈ templates.declared.held, entry.1.Matches (path.splitOn '/')) →
      ∃ entry ∈ templates.declared.held, entry.1.Matches (path.splitOn '/') ∧
        ¬ flipped.key ranking < entry.1.key ranking

theorem outranks_of_unmatched (unmatched : templates.declared.matched ranking path = none) :
    templates.Outranks ranking path := by
  rintro flipped index - - ⟨entry, member, matched⟩
  exact absurd matched (MatchTable.matched_eq_none_iff.mp unmatched entry member)

/-- A path that some template matches is served from the entry of the template,
as a strict table serves it, exactly where no other spelling stands before. -/
theorem matched_lenient_of_matched_iff {index : Fin count} {captured : List (Text × Text)}
    (matched : templates.declared.matched ranking path = some (index, captured)) :
    (templates.registerFlippedSpellings.matched ranking path = some (index, captured) ↔
      templates.Outranks ranking path) ∧
      (∀ others, templates.registerFlippedSpellings.matched ranking path = some (index, others) →
        templates.registerFlippedSpellings.matched ranking path = some (index, captured)) := by
  obtain ⟨pattern, member, captures, least⟩ := MatchTable.matched_eq_some_iff.mp matched
  have isMatch : pattern.Matches (path.splitOn '/') := Option.isSome_of_mem captures
  refine ⟨?_, ?_⟩
  · rw [MatchTable.matched_eq_some_iff]
    constructor
    · rintro ⟨chosen, chosenMember, chosenCaptures, chosenLeast⟩ flipped flippedIndex flips
        flippedMatched -
      refine ⟨(pattern, index), member, isMatch, ?_⟩
      obtain ⟨entry, inLenient, sameShape⟩ := exists_shape_lenient flips
      have chosenMatch : chosen.Matches (path.splitOn '/') := Option.isSome_of_mem chosenCaptures
      have isChosen : (chosen, index) ∈ templates.declared.held :=
        (mem_lenient chosenMember).resolve_right fun chosenFlips =>
          chosenFlips.not_both member isMatch chosenMatch
      have chosenIs := least _ isChosen chosenMatch
      have first := chosenLeast _ inLenient (Pattern.matches_of_shape_eq sameShape.symm flippedMatched)
      rw [Pattern.key_of_shape_eq sameShape] at first
      exact not_lt.mpr (chosenIs.trans first)
    · intro outranks
      refine ⟨pattern, MatchTable.mem_extend_of_mem member, captures, ?_⟩
      rintro ⟨other, otherIndex⟩ inLenient otherMatched
      rcases mem_lenient inLenient with isDeclared | flips
      · exact least _ isDeclared otherMatched
      · obtain ⟨entry, isDeclared, entryMatched, notBefore⟩ :=
          outranks other otherIndex flips otherMatched ⟨_, member, isMatch⟩
        exact (least _ isDeclared entryMatched).trans (not_lt.mp notBefore)
  · intro others found
    obtain ⟨chosen, chosenMember, chosenCaptures, -⟩ := MatchTable.matched_eq_some_iff.mp found
    have chosenMatch : chosen.Matches (path.splitOn '/') := Option.isSome_of_mem chosenCaptures
    have isChosen : (chosen, index) ∈ templates.declared.held :=
      (mem_lenient chosenMember).resolve_right fun chosenFlips =>
        chosenFlips.not_both member isMatch chosenMatch
    have samePattern := Option.some.inj
      ((mem_declared_iff.mp isChosen).symm.trans (mem_declared_iff.mp member))
    rw [samePattern, captures, Option.some.injEq] at chosenCaptures
    rw [found, chosenCaptures]

end Templates

end Kynos.Router
