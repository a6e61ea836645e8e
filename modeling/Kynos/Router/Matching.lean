import Kynos.Uri.Captures
import Mathlib.Data.Char
import Mathlib.Data.List.Lex
import Mathlib.Data.List.MinMax
import Mathlib.Data.Prod.Lex

/-!
# The match table

A path matches a pattern segment by segment. Of the patterns a path matches the
one is chosen that has a static segment where the others have a variable one, at
the first segment where they differ; how variables with different surroundings
are ranked is a parameter. A pattern is refused where one is held that differs
from it in the names of its variables at most.
-/

namespace Kynos.Router

open Kynos.Word

/-- A segment of a pattern: a text that stands for itself, or a variable between
two texts that do. -/
inductive Segment where
  | static (text : Text)
  | parameter (before name after : Text)
  deriving DecidableEq, Repr

/-- The segments between the slashes of a pattern. -/
abbrev Pattern := List Segment

/-- A linear order on the surroundings of variables. -/
structure Ranking (Rank : Type) [LinearOrder Rank] where
  rank : Text × Text → Rank
  injective : Function.Injective rank

/-- Surroundings in the order of a dictionary. -/
def alphabetical : Ranking (Lex (Text × Text)) :=
  ⟨toLex, toLex.injective⟩

variable {Rank : Type} [LinearOrder Rank] (ranking : Ranking Rank)

/-! ## Segments -/

namespace Segment

/-- How a segment is spelled; `none` where a brace is not closed before the next
slash. -/
def read (text : Text) : Option Segment :=
  match splitOnce '\x7b' text with
  | none => some (.static text)
  | some (before, rest) =>
      (splitOnce '\x7d' rest).map fun (name, after) => .parameter before name after

/-- What the variable of a segment captures of a text that matches it. -/
def capture : Segment → Text → Option (List (Text × Text))
  | .static text, piece => if piece = text then some [] else none
  | .parameter before name after, piece =>
      (Uri.stripStart before piece).bind fun rest =>
        (Uri.stripEnd after rest).bind fun value =>
          if value.isEmpty then none else some [(name, value)]

/-- A segment without the name of its variable. -/
def shape : Segment → Segment
  | .static text => .static text
  | .parameter before _ after => .parameter before [] after

/-- Where a segment stands among those a text matches: a static one first. -/
def key : Segment → WithBot Rank
  | .static _ => ⊥
  | .parameter before _ after => ranking.rank (before, after)

variable {ranking}

theorem isSome_capture_of_shape_eq {segment other : Segment} (same : segment.shape = other.shape)
    (piece : Text) : (segment.capture piece).isSome = (other.capture piece).isSome := by
  cases segment <;> cases other <;> simp only [shape, static.injEq, parameter.injEq, reduceCtorEq] at same
  case static.static => rw [same]
  case parameter.parameter =>
      obtain ⟨rfl, -, rfl⟩ := same
      simp only [capture, Option.isSome_bind]
      congr 1
      funext rest
      congr 1
      funext value
      split <;> rfl

theorem key_of_shape_eq {segment other : Segment} (same : segment.shape = other.shape) :
    segment.key ranking = other.key ranking := by
  cases segment <;> cases other <;> simp only [shape, static.injEq, parameter.injEq, reduceCtorEq] at same
  case static.static => rfl
  case parameter.parameter => rw [key, key, same.1, same.2.2]

/-- Two segments a text matches that stand in the same place differ in a name at
most. -/
theorem shape_eq_of_key_eq {segment other : Segment} {piece : Text}
    (matched : (segment.capture piece).isSome) (otherMatched : (other.capture piece).isSome)
    (same : segment.key ranking = other.key ranking) : segment.shape = other.shape := by
  cases segment with
  | static text =>
      cases other with
      | static otherText =>
          simp only [capture, Option.isSome_ite] at matched otherMatched
          rw [← matched, ← otherMatched]
      | parameter => exact absurd same (WithBot.coe_ne_bot).symm
  | parameter before name after =>
      cases other with
      | static => exact absurd same WithBot.coe_ne_bot
      | parameter =>
          have surroundings := ranking.injective (WithBot.coe_injective same)
          rw [Prod.mk.injEq] at surroundings
          rw [shape, shape, surroundings.1, surroundings.2]

end Segment

/-! ## Patterns -/

namespace Pattern

/-- The segments of a spelled pattern. -/
def read (text : Text) : Option Pattern :=
  (text.splitOn '/').mapM Segment.read

/-- What the variables of a pattern capture of the segments of a path it
matches. -/
def capture : Pattern → List Text → Option (List (Text × Text))
  | [], [] => some []
  | segment :: pattern, piece :: pieces =>
      (segment.capture piece).bind fun captured =>
        (capture pattern pieces).map (captured ++ ·)
  | _, _ => none

/-- A pattern without the names of its variables. -/
def shape (pattern : Pattern) : Pattern :=
  pattern.map Segment.shape

/-- Where a pattern stands among those a path matches. -/
def key (pattern : Pattern) : List (WithBot Rank) :=
  pattern.map (Segment.key ranking)

/-- Whether a path of such segments matches a pattern. -/
def Matches (pattern : Pattern) (pieces : List Text) : Prop :=
  (pattern.capture pieces).isSome

variable {ranking}

theorem matches_cons_iff {segment : Segment} {pattern : Pattern} {piece : Text} {pieces : List Text} :
    Matches (segment :: pattern) (piece :: pieces) ↔
      (segment.capture piece).isSome ∧ Matches pattern pieces := by
  rw [Matches, capture, Option.isSome_bind]
  cases segment.capture piece with
  | none => simp
  | some captured => simp [Matches]

theorem Matches.length_eq {pattern : Pattern} {pieces : List Text} (matched : Matches pattern pieces) :
    pattern.length = pieces.length := by
  induction pattern generalizing pieces with
  | nil =>
      cases pieces with
      | nil => rfl
      | cons => cases matched
  | cons segment pattern ih =>
      cases pieces with
      | nil => cases matched
      | cons piece pieces =>
          rw [List.length_cons, List.length_cons, ih (matches_cons_iff.mp matched).2]

theorem matches_of_shape_eq {pattern other : Pattern} (same : pattern.shape = other.shape)
    {pieces : List Text} (matched : Matches pattern pieces) : Matches other pieces := by
  induction pattern generalizing other pieces with
  | nil =>
      rw [List.map_eq_nil_iff.mp same.symm]
      exact matched
  | cons segment pattern ih =>
      cases other with
      | nil => cases same
      | cons otherSegment other =>
          rw [shape, shape, List.map_cons, List.map_cons, List.cons.injEq] at same
          cases pieces with
          | nil => cases matched
          | cons piece pieces =>
              rw [matches_cons_iff] at matched ⊢
              rw [← Segment.isSome_capture_of_shape_eq same.1]
              exact ⟨matched.1, ih same.2 matched.2⟩

theorem key_of_shape_eq {pattern other : Pattern} (same : pattern.shape = other.shape) :
    pattern.key ranking = other.key ranking := by
  induction pattern generalizing other with
  | nil => rw [List.map_eq_nil_iff.mp same.symm]
  | cons segment pattern ih =>
      cases other with
      | nil => cases same
      | cons otherSegment other =>
          rw [shape, shape, List.map_cons, List.map_cons, List.cons.injEq] at same
          rw [key, key, List.map_cons, List.map_cons, Segment.key_of_shape_eq same.1]
          exact congrArg _ (ih same.2)

theorem shape_eq_of_key_eq {pattern other : Pattern} {pieces : List Text}
    (matched : Matches pattern pieces) (otherMatched : Matches other pieces)
    (same : pattern.key ranking = other.key ranking) : pattern.shape = other.shape := by
  induction pattern generalizing other pieces with
  | nil => rw [List.map_eq_nil_iff.mp same.symm]
  | cons segment pattern ih =>
      cases other with
      | nil => cases same
      | cons otherSegment other =>
          cases pieces with
          | nil => cases matched
          | cons piece pieces =>
              rw [matches_cons_iff] at matched otherMatched
              rw [key, key, List.map_cons, List.map_cons, List.cons.injEq] at same
              rw [shape, shape, List.map_cons, List.map_cons,
                Segment.shape_eq_of_key_eq matched.1 otherMatched.1 same.1]
              exact congrArg _ (ih matched.2 otherMatched.2 same.2)

end Pattern

/-! ## Tables -/

section Least

variable {Key Value : Type} [LinearOrder Key] {entries : List (Key × Value)}

/-- The value that stands first. -/
def least (entries : List (Key × Value)) : Option Value :=
  (entries.argmin Prod.fst).map Prod.snd

theorem least_eq_none_iff : least entries = none ↔ entries = [] := by
  rw [least, Option.map_eq_none_iff, List.argmin_eq_none]

theorem exists_of_least {value : Value} (found : least entries = some value) :
    ∃ key, (key, value) ∈ entries ∧ ∀ entry ∈ entries, key ≤ entry.1 := by
  obtain ⟨⟨key, _⟩, isLeast, rfl⟩ := Option.map_eq_some_iff.mp found
  exact ⟨key, List.argmin_mem isLeast, fun entry member => List.le_of_mem_argmin member isLeast⟩

end Least

/-- Patterns with the value of each, no two the same up to the names of their
variables. -/
structure MatchTable (Value : Type) where
  held : List (Pattern × Value)
  distinct : (held.map fun entry => entry.1.shape).Nodup

namespace MatchTable

variable {Value : Type} (table : MatchTable Value)

/-- A table of nothing. -/
def empty : MatchTable Value where
  held := []
  distinct := List.nodup_nil

/-- A table with a pattern added; `none` where it is refused. -/
def insert (spelling : Text) (value : Value) : Option (MatchTable Value) :=
  (Pattern.read spelling).bind fun pattern =>
    if new : pattern.shape ∉ table.held.map fun entry => entry.1.shape then
      some
        { held := table.held ++ [(pattern, value)]
          distinct := by
            rw [List.map_append, List.map_singleton, ← List.concat_eq_append]
            exact table.distinct.concat new }
    else
      none

/-- A table with the patterns added that are not refused. -/
def extend (entries : List (Text × Value)) : MatchTable Value :=
  entries.foldl (fun table entry => (table.insert entry.1 entry.2).getD table) table

/-- A table with all of the patterns added; `none` where one is refused. -/
def insertAll (entries : List (Text × Value)) : Option (MatchTable Value) :=
  entries.foldlM (fun table entry => table.insert entry.1 entry.2) table

/-- The patterns a path matches: where each stands, its value and what its
variables capture. -/
def candidates (path : Text) : List (List (WithBot Rank) × Value × List (Text × Text)) :=
  table.held.filterMap fun (pattern, value) =>
    (pattern.capture (path.splitOn '/')).map fun captured => (pattern.key ranking, value, captured)

/-- The value of the pattern chosen for a path, and what its variables capture. -/
def matched (path : Text) : Option (Value × List (Text × Text)) :=
  least (table.candidates ranking path)

variable {table ranking}

theorem mem_candidates_iff {path : Text} {key : List (WithBot Rank)} {value : Value}
    {captured : List (Text × Text)} :
    (key, value, captured) ∈ table.candidates ranking path ↔
      ∃ pattern, (pattern, value) ∈ table.held ∧
        pattern.capture (path.splitOn '/') = some captured ∧ pattern.key ranking = key := by
  rw [candidates, List.mem_filterMap]
  constructor
  · rintro ⟨⟨pattern, _⟩, member, isCandidate⟩
    obtain ⟨_, captures, same⟩ := Option.map_eq_some_iff.mp isCandidate
    rw [Prod.mk.injEq, Prod.mk.injEq] at same
    obtain ⟨rfl, rfl, rfl⟩ := same
    exact ⟨pattern, member, captures, rfl⟩
  · rintro ⟨pattern, member, captures, rfl⟩
    exact ⟨(pattern, value), member, by simp only [captures, Option.map_some]⟩

/-- The entries of a table are told apart by their patterns' shapes. -/
theorem eq_of_shape_eq {entry other : Pattern × Value} (member : entry ∈ table.held)
    (otherMember : other ∈ table.held) (same : entry.1.shape = other.1.shape) : entry = other :=
  List.inj_on_of_nodup_map table.distinct member otherMember same

theorem matched_eq_none_iff {path : Text} :
    table.matched ranking path = none ↔
      ∀ entry ∈ table.held, ¬ entry.1.Matches (path.splitOn '/') := by
  rw [matched, least_eq_none_iff, candidates, List.filterMap_eq_nil_iff]
  simp only [Option.map_eq_none_iff, Pattern.Matches, Bool.not_eq_true, Option.isSome_eq_false_iff,
    Option.isNone_iff_eq_none]

/-- The pattern chosen for a path is the one before all others it matches. -/
theorem matched_eq_some_iff {path : Text} {value : Value} {captured : List (Text × Text)} :
    table.matched ranking path = some (value, captured) ↔
      ∃ pattern, (pattern, value) ∈ table.held ∧
        pattern.capture (path.splitOn '/') = some captured ∧
        ∀ entry ∈ table.held, entry.1.Matches (path.splitOn '/') →
          pattern.key ranking ≤ entry.1.key ranking := by
  have chosen : ∀ {value captured}, table.matched ranking path = some (value, captured) →
      ∃ pattern, (pattern, value) ∈ table.held ∧
        pattern.capture (path.splitOn '/') = some captured ∧
        ∀ entry ∈ table.held, entry.1.Matches (path.splitOn '/') →
          pattern.key ranking ≤ entry.1.key ranking := by
    intro value captured found
    obtain ⟨_, isCandidate, atMost⟩ := exists_of_least found
    obtain ⟨pattern, member, captures, rfl⟩ := mem_candidates_iff.mp isCandidate
    refine ⟨pattern, member, captures, fun entry other isMatch => ?_⟩
    obtain ⟨otherCaptured, otherCaptures⟩ := Option.isSome_iff_exists.mp isMatch
    exact atMost _ (mem_candidates_iff.mpr ⟨_, other, otherCaptures, rfl⟩)
  refine ⟨chosen, ?_⟩
  rintro ⟨pattern, member, captures, atMost⟩
  have isMatch : pattern.Matches (path.splitOn '/') := Option.isSome_iff_exists.mpr ⟨_, captures⟩
  cases found : table.matched ranking path with
  | none => exact absurd isMatch (matched_eq_none_iff.mp found _ member)
  | some reached =>
      obtain ⟨otherValue, otherCaptured⟩ := reached
      obtain ⟨other, otherMember, otherCaptures, otherAtMost⟩ := chosen found
      have otherMatch : other.Matches (path.splitOn '/') :=
        Option.isSome_iff_exists.mpr ⟨_, otherCaptures⟩
      have sameKey := le_antisymm (atMost _ otherMember otherMatch) (otherAtMost _ member isMatch)
      have same := eq_of_shape_eq member otherMember
        (Pattern.shape_eq_of_key_eq isMatch otherMatch sameKey)
      rw [Prod.mk.injEq] at same
      obtain ⟨rfl, rfl⟩ := same
      rw [captures] at otherCaptures
      rw [Option.some.inj otherCaptures]

/-! ## Insertions -/

theorem insert_eq_some_iff {spelling : Text} {value : Value} {inserted : MatchTable Value} :
    table.insert spelling value = some inserted ↔
      ∃ pattern, Pattern.read spelling = some pattern ∧
        (∀ entry ∈ table.held, entry.1.shape ≠ pattern.shape) ∧
        inserted.held = table.held ++ [(pattern, value)] := by
  rw [insert, Option.bind_eq_some_iff]
  refine exists_congr fun pattern => and_congr_right fun _ => ?_
  split
  next new =>
      have apart : ∀ entry ∈ table.held, entry.1.shape ≠ pattern.shape :=
        fun entry member same => new (List.mem_map.mpr ⟨entry, member, same⟩)
      constructor
      · intro isInserted
        obtain rfl := Option.some.inj isInserted
        exact ⟨apart, rfl⟩
      · rintro ⟨-, isHeld⟩
        cases inserted
        cases isHeld
        rfl
  next old =>
      obtain ⟨entry, member, same⟩ := List.mem_map.mp (not_not.mp old)
      exact ⟨fun refused => (Option.some_ne_none _ refused.symm).elim,
        fun ⟨apart, _⟩ => absurd same (apart entry member)⟩

theorem mem_of_insertAll {entries : List (Text × Value)} {inserted : MatchTable Value}
    (isInserted : table.insertAll entries = some inserted) {pattern : Pattern} {value : Value} :
    (pattern, value) ∈ inserted.held ↔
      (pattern, value) ∈ table.held ∨
        ∃ spelling, (spelling, value) ∈ entries ∧ Pattern.read spelling = some pattern := by
  induction entries generalizing table with
  | nil =>
      obtain rfl := Option.some.inj isInserted
      simp
  | cons first entries ih =>
      rw [insertAll, List.foldlM_cons] at isInserted
      obtain ⟨next, isNext, isInserted⟩ := Option.bind_eq_some_iff.mp isInserted
      obtain ⟨firstPattern, isRead, -, isHeld⟩ := insert_eq_some_iff.mp isNext
      rw [ih isInserted, isHeld, List.mem_append, List.mem_singleton, Prod.mk.injEq, or_assoc]
      refine or_congr_right ⟨?_, ?_⟩
      · rintro (⟨rfl, rfl⟩ | ⟨spelling, member, isSpelling⟩)
        · exact ⟨first.1, List.mem_cons_self, isRead⟩
        · exact ⟨spelling, List.mem_cons_of_mem _ member, isSpelling⟩
      · rintro ⟨spelling, member, isSpelling⟩
        rcases List.mem_cons.mp member with rfl | later
        · exact .inl ⟨Option.some.inj (isSpelling.symm.trans isRead), rfl⟩
        · exact .inr ⟨spelling, later, isSpelling⟩

/-- Every pattern added is one that can be read. -/
theorem exists_read_of_insertAll {entries : List (Text × Value)} {inserted : MatchTable Value}
    (isInserted : table.insertAll entries = some inserted) {entry : Text × Value}
    (member : entry ∈ entries) : ∃ pattern, Pattern.read entry.1 = some pattern := by
  induction entries generalizing table with
  | nil => cases member
  | cons first entries ih =>
      rw [insertAll, List.foldlM_cons] at isInserted
      obtain ⟨next, isNext, isInserted⟩ := Option.bind_eq_some_iff.mp isInserted
      rcases List.mem_cons.mp member with rfl | later
      · obtain ⟨pattern, isRead, -⟩ := insert_eq_some_iff.mp isNext
        exact ⟨pattern, isRead⟩
      · exact ih isInserted later

/-- What is held stays held. -/
theorem mem_extend_of_mem {entries : List (Text × Value)} {entry : Pattern × Value}
    (member : entry ∈ table.held) : entry ∈ (table.extend entries).held := by
  induction entries generalizing table with
  | nil => exact member
  | cons first entries ih =>
      rw [extend, List.foldl_cons]
      refine ih ?_
      cases isInserted : table.insert first.1 first.2 with
      | none => exact member
      | some inserted =>
          obtain ⟨pattern, -, -, isHeld⟩ := insert_eq_some_iff.mp isInserted
          rw [Option.getD_some, isHeld]
          exact List.mem_append_left _ member

/-- What is held was held or was added. -/
theorem mem_or_mem_of_mem_extend {entries : List (Text × Value)} {entry : Pattern × Value}
    (member : entry ∈ (table.extend entries).held) :
    entry ∈ table.held ∨
      ∃ spelling, (spelling, entry.2) ∈ entries ∧ Pattern.read spelling = some entry.1 := by
  induction entries generalizing table with
  | nil => exact .inl member
  | cons first entries ih =>
      rw [extend, List.foldl_cons] at member
      rcases ih member with inFirst | ⟨spelling, isEntry, isRead⟩
      · cases isInserted : table.insert first.1 first.2 with
        | none =>
            rw [isInserted, Option.getD_none] at inFirst
            exact .inl inFirst
        | some inserted =>
            obtain ⟨pattern, isRead, -, isHeld⟩ := insert_eq_some_iff.mp isInserted
            rw [isInserted, Option.getD_some, isHeld, List.mem_append, List.mem_singleton] at inFirst
            refine inFirst.imp_right ?_
            rintro rfl
            exact ⟨first.1, List.mem_cons_self, isRead⟩
      · exact .inr ⟨spelling, List.mem_cons_of_mem _ isEntry, isRead⟩

/-- An entry that is not held is kept out by one that is. -/
theorem exists_shape_of_mem {entries : List (Text × Value)} {spelling : Text} {value : Value}
    {pattern : Pattern} (member : (spelling, value) ∈ entries)
    (isRead : Pattern.read spelling = some pattern) :
    ∃ entry ∈ (table.extend entries).held, entry.1.shape = pattern.shape := by
  induction entries generalizing table with
  | nil => cases member
  | cons first entries ih =>
      rw [extend, List.foldl_cons]
      rcases List.mem_cons.mp member with rfl | later
      · by_cases old : ∃ entry ∈ table.held, entry.1.shape = pattern.shape
        · obtain ⟨entry, inTable, same⟩ := old
          have refused : table.insert spelling value = none := by
            refine Option.eq_none_iff_forall_ne_some.mpr fun inserted isInserted => ?_
            obtain ⟨_, otherRead, apart, -⟩ := insert_eq_some_iff.mp isInserted
            rw [isRead, Option.some.injEq] at otherRead
            subst otherRead
            exact apart entry inTable same
          rw [refused, Option.getD_none]
          exact ⟨entry, mem_extend_of_mem inTable, same⟩
        · cases isInserted : table.insert spelling value with
          | none =>
              rw [insert, isRead, Option.bind_some, dif_pos] at isInserted
              · cases isInserted
              · rintro sameShape
                obtain ⟨entry, inTable, same⟩ := List.mem_map.mp sameShape
                exact old ⟨entry, inTable, same⟩
          | some inserted =>
              obtain ⟨_, otherRead, -, isHeld⟩ := insert_eq_some_iff.mp isInserted
              rw [isRead, Option.some.injEq] at otherRead
              subst otherRead
              refine ⟨(pattern, value), mem_extend_of_mem ?_, rfl⟩
              rw [Option.getD_some, isHeld]
              exact List.mem_append_right _ List.mem_cons_self
      · exact ih later

end MatchTable

end Kynos.Router
