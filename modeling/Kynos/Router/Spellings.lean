import Kynos.Router.Fallback
import Kynos.Router.Matching

/-!
# The two spellings of a path

Where a template and a path do not end in two slashes, the path matches the other
spelling of the template where the other spelling of the path matches the
template, and captures the same.
-/

namespace Kynos.Router

open Kynos.Word

variable {Rank : Type} [LinearOrder Rank] {ranking : Ranking Rank}

/-- A path that does not end in two slashes, nor in none where it begins. -/
def Regular (path : Text) : Prop :=
  path ≠ [] ∧ ¬ ['/', '/'] <:+ path

/-- A path without a final slash. -/
def Stem (path : Text) : Prop :=
  path ≠ [] ∧ path.getLast? ≠ some '/'

/-! ## Regular paths -/

theorem flipTrailingSlash_stem {stem : Text} (isStem : Stem stem) :
    flipTrailingSlash stem = some (stem ++ ['/']) := by
  rw [flipTrailingSlash, if_neg isStem.2]

theorem flipTrailingSlash_slashed {stem : Text} (isStem : Stem stem) :
    flipTrailingSlash (stem ++ ['/']) = some stem := by
  rw [flipTrailingSlash, if_pos List.getLast?_concat, List.dropLast_concat, if_neg isStem.1]

/-- A regular path is the root, or a stem with its slash or without. -/
theorem Regular.cases {path : Text} (regular : Regular path) :
    path = ['/'] ∨ Stem path ∨ ∃ stem, Stem stem ∧ path = stem ++ ['/'] := by
  by_cases slashed : path.getLast? = some '/'
  · obtain ⟨stem, rfl⟩ := List.getLast?_eq_some_iff.mp slashed
    by_cases isRoot : stem = []
    · exact .inl (by rw [isRoot, List.nil_append])
    · refine .inr (.inr ⟨stem, ⟨isRoot, fun again => regular.2 ?_⟩, rfl⟩)
      obtain ⟨before, rfl⟩ := List.getLast?_eq_some_iff.mp again
      exact ⟨before, by rw [List.append_assoc]; rfl⟩
  · exact .inr (.inl ⟨regular.1, slashed⟩)

/-! ## Segments -/

theorem splitOn_slashed (path : Text) : (path ++ ['/']).splitOn '/' = path.splitOn '/' ++ [[]] := by
  rw [List.splitOn_append_cons_self, List.splitOn_nil]

/-- The last segment of a stem is not empty. -/
theorem Stem.exists_last {stem : Text} (isStem : Stem stem) :
    ∃ before last, stem.splitOn '/' = before ++ [last] ∧ last ≠ [] := by
  by_cases member : '/' ∈ stem
  · obtain ⟨reversed, before, cut, plain⟩ := List.eq_append_cons_of_mem (List.mem_reverse.mpr member)
    have isCut : stem = before.reverse ++ '/' :: reversed.reverse := by
      rw [← List.reverse_reverse stem, cut, List.reverse_append, List.reverse_cons,
        List.append_assoc]
      rfl
    refine ⟨before.reverse.splitOn '/', reversed.reverse, ?_, fun empty => ?_⟩
    · rw [isCut, List.splitOn_append_cons_self,
        List.splitOn_eq_singleton (mt List.mem_reverse.mp plain)]
    · rw [empty] at isCut
      exact isStem.2 (by rw [isCut, List.getLast?_concat])
  · exact ⟨[], stem, List.splitOn_eq_singleton member, isStem.1⟩

theorem Segment.capture_nil_of_read {text : Text} {segment : Segment} (nonempty : text ≠ [])
    (isRead : Segment.read text = some segment) : segment.capture [] = none := by
  cases segment with
  | static spelling =>
      rw [Segment.read] at isRead
      split at isRead
      next =>
          obtain rfl := Segment.static.inj (Option.some.inj isRead)
          rw [Segment.capture, if_neg nonempty.symm]
      next => simp at isRead
  | parameter before name after =>
      cases before with
      | cons => rfl
      | nil =>
          cases after with
          | cons => simp [Segment.capture, Uri.stripStart, Uri.stripEnd]
          | nil => rfl

/-- A last letter in common does not decide the order of words of one length. -/
theorem append_singleton_lt_iff {Letter : Type} [LinearOrder Letter] (last : Letter)
    {word other : List Letter} (same : word.length = other.length) :
    word ++ [last] < other ++ [last] ↔ word < other := by
  induction word generalizing other with
  | nil =>
      rw [List.eq_nil_of_length_eq_zero same.symm]
      simp
  | cons letter word ih =>
      cases other with
      | nil => cases same
      | cons otherLetter other =>
          rw [List.cons_append, List.cons_append, List.cons_lt_cons_iff, List.cons_lt_cons_iff,
            ih (Nat.succ.inj same)]

namespace Pattern

theorem read_slashed (text : Text) :
    Pattern.read (text ++ ['/']) = (Pattern.read text).map (· ++ [.static []]) := by
  rw [Pattern.read, Pattern.read, splitOn_slashed, List.mapM_append]
  cases (text.splitOn '/').mapM Segment.read with
  | none => rfl
  | some pattern => rfl

/-- There is a segment before the first slash. -/
theorem read_ne_nil (text : Text) : Pattern.read text ≠ some [] := by
  intro isRead
  rw [Pattern.read] at isRead
  cases split : text.splitOn '/' with
  | nil => exact List.splitOn_ne_nil '/' text split
  | cons first pieces =>
      rw [split, List.mapM_cons] at isRead
      obtain ⟨segment, -, isRead⟩ := Option.bind_eq_some_iff.mp isRead
      obtain ⟨rest, -, isRead⟩ := Option.bind_eq_some_iff.mp isRead
      cases isRead

theorem capture_concat (pattern : Pattern) (segment : Segment) (pieces : List Text) (piece : Text) :
    capture (pattern ++ [segment]) (pieces ++ [piece]) =
      (pattern.capture pieces).bind fun captured => (segment.capture piece).map (captured ++ ·) := by
  induction pattern generalizing pieces with
  | nil =>
      cases pieces with
      | nil =>
          rw [List.nil_append, List.nil_append, capture]
          simp only [capture, Option.map_some, Option.bind_some]
          cases segment.capture piece with
          | none => rfl
          | some captured => simp
      | cons first pieces =>
          cases pieces <;> simp [capture]
  | cons head pattern ih =>
      cases pieces with
      | nil => cases pattern <;> simp [capture]
      | cons first pieces =>
          rw [List.cons_append, List.cons_append, capture, capture, ih]
          cases head.capture first with
          | none => rfl
          | some here =>
              rw [Option.bind_some, Option.bind_some]
              cases capture pattern pieces with
              | none => rfl
              | some captured =>
                  cases segment.capture piece with
                  | none => rfl
                  | some last => simp

theorem capture_slashed (pattern : Pattern) (pieces : List Text) :
    capture (pattern ++ [.static []]) (pieces ++ [[]]) = pattern.capture pieces := by
  rw [capture_concat]
  cases pattern.capture pieces with
  | none => rfl
  | some captured => simp [Segment.capture]

/-- A path that matches a pattern with a slash has one. -/
theorem exists_of_matches_slashed {pattern : Pattern} {pieces : List Text}
    (matched : Matches (pattern ++ [.static []]) pieces) : ∃ before, pieces = before ++ [[]] := by
  rcases List.eq_nil_or_concat pieces with rfl | ⟨before, last, rfl⟩
  · have length := matched.length_eq
    simp at length
  · rw [List.concat_eq_append] at matched ⊢
    rw [Matches, capture_concat] at matched
    refine ⟨before, ?_⟩
    by_cases empty : last = []
    · rw [empty]
    · simp [Segment.capture, empty] at matched

theorem key_slashed_le_iff {pattern other : Pattern} (same : pattern.length = other.length) :
    Pattern.key ranking (pattern ++ [.static []]) ≤ Pattern.key ranking (other ++ [.static []]) ↔
      pattern.key ranking ≤ other.key ranking := by
  have lengths : (other.key ranking).length = (pattern.key ranking).length := by
    rw [key, key, List.length_map, List.length_map, same]
  rw [← not_lt, ← not_lt, key, key, List.map_append, List.map_append]
  exact not_congr (append_singleton_lt_iff _ lengths)

end Pattern

/-- A path with a slash does not match a pattern without. -/
theorem Stem.capture_pattern {stem : Text} (isStem : Stem stem) {pattern : Pattern}
    (isRead : Pattern.read stem = some pattern) (pieces : List Text) :
    pattern.capture (pieces ++ [[]]) = none := by
  obtain ⟨before, last, split, nonempty⟩ := isStem.exists_last
  rw [Pattern.read, split, List.mapM_append] at isRead
  obtain ⟨first, -, isRead⟩ := Option.bind_eq_some_iff.mp isRead
  obtain ⟨final, lastRead, isRead⟩ := Option.bind_eq_some_iff.mp isRead
  obtain rfl := Option.some.inj isRead
  rw [List.mapM_cons] at lastRead
  obtain ⟨segment, segmentRead, lastRead⟩ := Option.bind_eq_some_iff.mp lastRead
  obtain rfl := Option.some.inj lastRead
  have isLast := Segment.capture_nil_of_read nonempty segmentRead
  calc
    Pattern.capture (first ++ [segment]) (pieces ++ [[]])
        = (Pattern.capture first pieces).bind fun captured =>
            (segment.capture []).map (captured ++ ·) := Pattern.capture_concat ..
    _ = none := by rw [isLast]; cases Pattern.capture first pieces <;> rfl

/-- A path without a slash does not match a pattern with one. -/
theorem Stem.capture_slashed {stem : Text} (isStem : Stem stem) (pattern : Pattern) :
    Pattern.capture (pattern ++ [.static []]) (stem.splitOn '/') = none := by
  obtain ⟨before, last, split, nonempty⟩ := isStem.exists_last
  rw [split, Pattern.capture_concat, Segment.capture, if_neg nonempty]
  cases pattern.capture before <;> rfl

/-! ## Templates -/

/-- A regular template has its other spelling by the slash its stem has or not. -/
theorem Regular.read_flip {raw spelling : Text} {pattern : Pattern} (regular : Regular raw)
    (flips : flipTrailingSlash raw = some spelling) (isRead : Pattern.read raw = some pattern) :
    ∃ stem stemPattern, Stem stem ∧ Pattern.read stem = some stemPattern ∧
      ((pattern = stemPattern ∧ Pattern.read spelling = some (stemPattern ++ [.static []])) ∨
        (pattern = stemPattern ++ [.static []] ∧ Pattern.read spelling = some stemPattern)) := by
  rcases regular.cases with rfl | isStem | ⟨stem, isStem, rfl⟩
  · cases flips
  · rw [flipTrailingSlash_stem isStem, Option.some.injEq] at flips
    subst flips
    exact ⟨raw, pattern, isStem, isRead, .inl ⟨rfl, by rw [Pattern.read_slashed, isRead]; rfl⟩⟩
  · rw [flipTrailingSlash_slashed isStem, Option.some.injEq] at flips
    subst flips
    rw [Pattern.read_slashed, Option.map_eq_some_iff] at isRead
    obtain ⟨stemPattern, stemRead, rfl⟩ := isRead
    exact ⟨stem, stemPattern, isStem, stemRead, .inr ⟨rfl, stemRead⟩⟩

/-- A path matches the other spelling of a template as the other spelling of the
path matches the template. -/
theorem Regular.capture_flip {raw spelling path : Text} {pattern flipped : Pattern}
    (regular : Regular raw) (regularPath : Regular path)
    (flips : flipTrailingSlash raw = some spelling) (isRead : Pattern.read raw = some pattern)
    (flippedRead : Pattern.read spelling = some flipped) :
    flipped.capture (path.splitOn '/') =
      (flipTrailingSlash path).bind fun target => pattern.capture (target.splitOn '/') := by
  obtain ⟨stem, stemPattern, isStem, stemRead, ⟨rfl, same⟩ | ⟨rfl, same⟩⟩ :=
    regular.read_flip flips isRead
  · obtain rfl := Option.some.inj (flippedRead.symm.trans same)
    rcases regularPath.cases with rfl | isPathStem | ⟨pathStem, isPathStem, rfl⟩
    · exact (Pattern.capture_slashed pattern [[]]).trans (isStem.capture_pattern stemRead [])
    · rw [isPathStem.capture_slashed, flipTrailingSlash_stem isPathStem, Option.bind_some,
        splitOn_slashed, isStem.capture_pattern stemRead]
    · rw [splitOn_slashed, Pattern.capture_slashed, flipTrailingSlash_slashed isPathStem,
        Option.bind_some]
  · obtain rfl := Option.some.inj (flippedRead.symm.trans same)
    rcases regularPath.cases with rfl | isPathStem | ⟨pathStem, isPathStem, rfl⟩
    · exact isStem.capture_pattern stemRead [[]]
    · rw [flipTrailingSlash_stem isPathStem, Option.bind_some, splitOn_slashed,
        Pattern.capture_slashed]
    · rw [splitOn_slashed, isStem.capture_pattern stemRead, flipTrailingSlash_slashed isPathStem,
        Option.bind_some, isPathStem.capture_slashed]

/-- No other spelling of a regular path is the root. -/
theorem Regular.capture_root {path target : Text} (regular : Regular path)
    (flips : flipTrailingSlash path = some target) :
    Pattern.capture [.static [], .static []] (target.splitOn '/') = none := by
  rcases regular.cases with rfl | isStem | ⟨stem, isStem, rfl⟩
  · cases flips
  · rw [flipTrailingSlash_stem isStem, Option.some.injEq] at flips
    subst flips
    rw [splitOn_slashed]
    exact (Pattern.capture_slashed [.static []] _).trans (isStem.capture_slashed [])
  · rw [flipTrailingSlash_slashed isStem, Option.some.injEq] at flips
    subst flips
    exact isStem.capture_slashed [.static []]

/-- The other spelling of a regular path is regular. -/
theorem Regular.flip {path target : Text} (regular : Regular path)
    (flips : flipTrailingSlash path = some target) : Regular target := by
  have plain : ∀ {stem}, Stem stem → Regular stem := fun {stem} isStem => by
    refine ⟨isStem.1, ?_⟩
    rintro ⟨before, rfl⟩
    exact isStem.2 (by rw [show before ++ ['/', '/'] = before ++ ['/'] ++ ['/'] by simp, List.getLast?_concat])
  rcases regular.cases with rfl | isStem | ⟨stem, isStem, rfl⟩
  · cases flips
  · rw [flipTrailingSlash_stem isStem, Option.some.injEq] at flips
    subst flips
    refine ⟨by simp, ?_⟩
    rintro ⟨before, same⟩
    have twice : (before ++ ['/']) ++ ['/'] = path ++ ['/'] := by
      rw [← same, List.append_assoc]
      rfl
    have again : before ++ ['/'] = path := List.append_cancel_right twice
    exact isStem.2 (by rw [← again, List.getLast?_concat])
  · rw [flipTrailingSlash_slashed isStem, Option.some.injEq] at flips
    subst flips
    exact plain isStem

/-- A path that is not regular matches no regular template. -/
theorem Regular.capture_irregular {raw path : Text} {pattern : Pattern} (regular : Regular raw)
    (isRead : Pattern.read raw = some pattern) (irregular : ¬ Regular path) :
    pattern.capture (path.splitOn '/') = none := by
  have slashes : path.splitOn '/' = [[]] ∨ ∃ first pieces, path.splitOn '/' = (first :: pieces) ++ [[]] ++ [[]] := by
    by_cases empty : path = []
    · exact .inl (by rw [empty, List.splitOn_nil])
    · obtain ⟨before, isPath⟩ := not_not.mp fun plain => irregular ⟨empty, plain⟩
      obtain ⟨first, pieces, split⟩ := List.exists_cons_of_ne_nil (List.splitOn_ne_nil '/' before)
      have isPath : path = before ++ ['/'] ++ ['/'] := by rw [← isPath, List.append_assoc]; rfl
      exact .inr ⟨first, pieces, by rw [isPath, splitOn_slashed, splitOn_slashed, split]⟩
  rcases regular.cases with rfl | isStem | ⟨stem, isStem, rfl⟩
  · obtain rfl := Option.some.inj isRead
    rcases slashes with split | ⟨first, pieces, split⟩
    · rw [split]
      rfl
    · refine Option.not_isSome_iff_eq_none.mp fun matched => ?_
      have length := Pattern.Matches.length_eq matched
      rw [split] at length
      simp at length
  · rcases slashes with split | ⟨first, pieces, split⟩
    · rw [split]
      exact isStem.capture_pattern isRead []
    · rw [split, isStem.capture_pattern isRead]
  · rw [Pattern.read_slashed, Option.map_eq_some_iff] at isRead
    obtain ⟨stemPattern, stemRead, rfl⟩ := isRead
    rcases slashes with split | ⟨first, pieces, split⟩
    · rw [split]
      refine (Pattern.capture_slashed stemPattern []).trans ?_
      cases stemPattern with
      | nil => exact absurd stemRead (Pattern.read_ne_nil stem)
      | cons => rfl
    · rw [split, Pattern.capture_slashed, isStem.capture_pattern stemRead]

/-- Other spellings that a path matches stand as what they are spellings of. -/
theorem Regular.key_flip_le_iff {raw other spelling otherSpelling path : Text}
    {pattern otherPattern flipped otherFlipped : Pattern}
    (regular : Regular raw) (otherRegular : Regular other)
    (flips : flipTrailingSlash raw = some spelling)
    (otherFlips : flipTrailingSlash other = some otherSpelling)
    (isRead : Pattern.read raw = some pattern) (otherRead : Pattern.read other = some otherPattern)
    (flippedRead : Pattern.read spelling = some flipped)
    (otherFlippedRead : Pattern.read otherSpelling = some otherFlipped)
    (matched : flipped.Matches (path.splitOn '/'))
    (otherMatched : otherFlipped.Matches (path.splitOn '/')) :
    flipped.key ranking ≤ otherFlipped.key ranking ↔
      pattern.key ranking ≤ otherPattern.key ranking := by
  obtain ⟨stem, stemPattern, isStem, stemRead, ⟨rfl, same⟩ | ⟨rfl, same⟩⟩ :=
      regular.read_flip flips isRead <;>
    obtain ⟨otherStem, otherStemPattern, otherIsStem, otherStemRead, ⟨rfl, otherSame⟩ | ⟨rfl, otherSame⟩⟩ :=
      otherRegular.read_flip otherFlips otherRead <;>
    obtain rfl := Option.some.inj (flippedRead.symm.trans same) <;>
    obtain rfl := Option.some.inj (otherFlippedRead.symm.trans otherSame)
  · have lengths := matched.length_eq.trans otherMatched.length_eq.symm
    exact Pattern.key_slashed_le_iff (by simpa using lengths)
  · obtain ⟨before, split⟩ := Pattern.exists_of_matches_slashed matched
    rw [Pattern.Matches, split, otherIsStem.capture_pattern otherStemRead] at otherMatched
    cases otherMatched
  · obtain ⟨before, split⟩ := Pattern.exists_of_matches_slashed otherMatched
    rw [Pattern.Matches, split, isStem.capture_pattern stemRead] at matched
    cases matched
  · exact (Pattern.key_slashed_le_iff (matched.length_eq.trans otherMatched.length_eq.symm)).symm

end Kynos.Router
