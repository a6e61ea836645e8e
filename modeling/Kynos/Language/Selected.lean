import Kynos.Language.Matching

/-!
# The language that is selected

Each offered tag competes through the most specific range that matches it, and
an entry of the field that is no range, or whose range matches no tag, is of no
consequence wherever it stands.
-/

namespace Kynos.Language

open Kynos.Choice Kynos.Http Kynos.Word OrderDual

/-! ## What a field asks of a tag -/

/-- How many subtags a range has. -/
def Preference.subtags (preference : Preference) : Nat :=
  (preference.range.splitOn '-').length

/-- The most specific range that matches a tag: by kind, then by how many
subtags it has, the earliest of those as specific. -/
structure SpeaksFor (preferences : List Preference) (tag : Text) (preference : Preference)
    (kind : MatchKind) (depth : Nat) : Prop where
  listed : preference ∈ preferences
  matched : classify preference.range tag = some (kind, depth)
  foremost : ∀ other ∈ preferences, ∀ otherKind otherDepth,
    classify other.range tag = some (otherKind, otherDepth) →
      otherKind < kind ∨ otherKind = kind ∧ (other.subtags < preference.subtags ∨
        other.subtags = preference.subtags ∧ preference.order ≤ other.order)

/-- The most specific range of the tag gives it a weight, and no other tag's
gives that one a greater weight. -/
structure Selected (preferences : List Preference) (offered : List Text) (index : Nat) (tag : Text)
    (preference : Preference) (kind : MatchKind) (depth : Nat) : Prop where
  placed : offered[index]? = some tag
  speaks : SpeaksFor preferences tag preference kind depth
  weighed : preference.quality ≠ 0
  heaviest : ∀ other ∈ offered, ∀ otherPreference otherKind otherDepth,
    SpeaksFor preferences other otherPreference otherKind otherDepth →
      otherPreference.quality ≤ preference.quality

/-- An entry of the field that is no weighted range, or whose range matches none
of the tags on offer. -/
def Idle (offered : List Text) (entry : Text) : Prop :=
  ∀ order preference, Preference.parse entry order = .ok preference →
    ∀ tag ∈ offered, classify preference.range tag = none

/-! ## Language ranges as a scheme -/

/-- A range and its place in the field. -/
def Preference.numbered (preference : Preference) : (Text × Nat) × Nat :=
  ((preference.range, preference.quality), preference.order)

/-- Language ranges as the ranges that tags compete through. -/
def languageRanges : Scheme (Text × Nat) Text (MatchKind × Nat) (MatchKind ×ₗ Nat) Score where
  fit range tag := classify range.1 tag
  specificity range found := toLex (found.1, (range.1.splitOn '-').length)
  weight range := range.2
  rank range found order := toLex (range.2, toLex (toDual order, toLex (found.1, found.2)))

theorem score_eq (preferences : List Preference) (tag : Text) :
    score preferences tag = languageRanges.score (preferences.map Preference.numbered) tag := by
  have fitting : languageRanges.fits (preferences.map Preference.numbered) tag =
      (preferences.filterMap fun preference =>
        (classify preference.range tag).map fun found => (found.1, found.2, preference)).map
          fun range => (range.2.2.numbered.1, range.2.2.order, (range.1, range.2.1)) := by
    rw [Scheme.fits, List.filterMap_map, List.map_filterMap]
    refine List.filterMap_congr fun preference _ => ?_
    simp [languageRanges, Preference.numbered, Function.comp_def]
  rw [score, Scheme.score, Scheme.speaker, fitting, greatestBy_map, Option.bind_map]
  have keys : ∀ range other : MatchKind × Nat × Preference,
      (toLex (range.1, toLex ((range.2.2.range.splitOn '-').length, toDual range.2.2.order)) ≤
        toLex (other.1, toLex ((other.2.2.range.splitOn '-').length, toDual other.2.2.order))) ↔
      languageRanges.specificityKey
          (range.2.2.numbered.1, range.2.2.order, (range.1, range.2.1)) ≤
        languageRanges.specificityKey
          (other.2.2.numbered.1, other.2.2.order, (other.1, other.2.1)) := by
    rintro ⟨kind, depth, preference⟩ ⟨otherKind, otherDepth, otherPreference⟩
    simp only [Scheme.specificityKey, languageRanges, Preference.numbered, Prod.Lex.toLex_le_toLex,
      Prod.Lex.toLex_lt_toLex, toLex_inj, Prod.mk.injEq]
    tauto
  rw [greatestBy_congr keys]
  rfl

theorem select_eq (preferences : List Preference) (offered : List Text) :
    select preferences offered =
      languageRanges.choose (preferences.map Preference.numbered) offered := by
  simp only [select, score_eq]
  rfl

theorem respectsOrder_languageRanges : languageRanges.RespectsOrder := by
  intro range found other otherFound number otherNumber image otherImage below above
  simp only [languageRanges, Prod.Lex.toLex_le_toLex, lt_iff_le_not_ge, le_antisymm_iff,
    toDual_le_toDual, below, above]

theorem speaks_iff {preferences : List Preference} {tag : Text} {preference : Preference}
    {kind : MatchKind} {depth : Nat} (listed : preference ∈ preferences) :
    languageRanges.Speaks (preferences.map Preference.numbered) tag preference.numbered.1
      preference.numbered.2 (kind, depth) ↔ SpeaksFor preferences tag preference kind depth := by
  constructor
  · intro speaks
    refine ⟨listed, speaks.fits, fun other member otherKind otherDepth matched => ?_⟩
    have below := speaks.foremost other.numbered.1 other.numbered.2 (otherKind, otherDepth)
      (List.mem_map_of_mem member) matched
    simp only [languageRanges, Preference.numbered, Prod.Lex.toLex_lt_toLex, toLex_inj,
      Prod.mk.injEq] at below
    simp only [Preference.subtags]
    tauto
  · intro speaks
    refine ⟨List.mem_map_of_mem listed, speaks.matched, ?_⟩
    rintro range number ⟨otherKind, otherDepth⟩ member matched
    obtain ⟨other, otherListed, same⟩ := List.mem_map.mp member
    cases same
    have below := speaks.foremost other otherListed otherKind otherDepth matched
    simp only [Preference.subtags] at below
    simp only [languageRanges, Preference.numbered, Prod.Lex.toLex_lt_toLex, toLex_inj,
      Prod.mk.injEq]
    tauto

/-! ## The places of the ranges -/

/-- An entry is numbered as it is read. -/
theorem order_of_parse {entry : Text} {order : Nat} {preference : Preference}
    (parsed : Preference.parse entry order = .ok preference) : preference.order = order := by
  simp only [Preference.parse] at parsed
  split at parsed
  · cases parsed
  · split at parsed
    · cases parsed
    · cases parsed
      rfl

/-- An entry is read alike under any number, its number apart. -/
theorem parse_order (entry : Text) (order other : Nat) :
    (Preference.parse entry other).toOption.map (fun preference => preference.numbered.1) =
      (Preference.parse entry order).toOption.map fun preference => preference.numbered.1 := by
  simp only [Preference.parse]
  split
  · rfl
  · split <;> rfl

theorem parseFrom_cons (start : Nat) (entry : Text) (rest : List Text) :
    parseFrom start (entry :: rest) =
      (Preference.parse entry start).toOption.toList ++ parseFrom (start + 1) rest := by
  rw [parseFrom, List.zipIdx_cons, List.filterMap_cons]
  cases Preference.parse entry start with
  | error defect => rfl
  | ok preference => rfl

theorem parseFrom_append (start : Nat) (before after : List Text) :
    parseFrom start (before ++ after) =
      parseFrom start before ++ parseFrom (start + before.length) after := by
  rw [parseFrom, List.zipIdx_append, List.filterMap_append]
  rfl

/-- The ranges of a list are numbered in order, from its start on. -/
theorem order_of_parseFrom (start : Nat) (entries : List Text) :
    (∀ preference ∈ parseFrom start entries, start ≤ preference.order) ∧
      (parseFrom start entries).Pairwise fun left right => left.order < right.order := by
  induction entries generalizing start with
  | nil => simp [parseFrom]
  | cons entry rest ih =>
      obtain ⟨after, increasing⟩ := ih (start + 1)
      rw [parseFrom_cons]
      cases parsed : Preference.parse entry start with
      | error defect =>
          exact ⟨fun preference member => Nat.le_of_succ_le (after preference member), increasing⟩
      | ok preference =>
          have here := order_of_parse parsed
          exact ⟨List.forall_mem_cons.mpr ⟨here.ge, fun other member =>
            Nat.le_of_succ_le (after other member)⟩, List.pairwise_cons.mpr
              ⟨fun other member => here ▸ after other member, increasing⟩⟩

/-- The ranges themselves do not depend on where the numbers start. -/
theorem ranges_parseFrom (start other : Nat) (entries : List Text) :
    (parseFrom other entries).map (fun preference => preference.numbered.1) =
      (parseFrom start entries).map fun preference => preference.numbered.1 := by
  induction entries generalizing start other with
  | nil => rfl
  | cons entry rest ih =>
      rw [parseFrom_cons, parseFrom_cons, List.map_append, List.map_append, ih (start + 1),
        ← Option.toList_map, ← Option.toList_map, parse_order entry start other]

/-- In order, ranges have increasing numbers. -/
theorem pairwise_numbered {preferences : List Preference}
    (increasing : preferences.Pairwise fun left right => left.order < right.order) :
    ((preferences.map Preference.numbered).map Prod.snd).Pairwise (· < ·) := by
  rw [List.map_map]
  exact List.pairwise_map.mpr increasing

/-! ## The selection -/

section

variable {preferences : List Preference} {offered : List Text}
  (increasing : preferences.Pairwise fun left right => left.order < right.order)

include increasing

/-- No tag is selected exactly where no range speaks for one but to refuse it. -/
theorem select_eq_none_iff :
    select preferences offered = none ↔
      ∀ tag ∈ offered, ∀ preference kind depth,
        SpeaksFor preferences tag preference kind depth → preference.quality = 0 := by
  rw [select_eq, Scheme.choose_eq_none_iff (pairwise_numbered increasing)]
  refine forall₂_congr fun tag _ => ?_
  constructor
  · intro weightless preference kind depth speaks
    exact weightless _ _ _ ((speaks_iff speaks.listed).mpr speaks)
  · rintro weightless range number ⟨kind, depth⟩ speaks
    obtain ⟨preference, listed, same⟩ := List.mem_map.mp speaks.listed
    cases same
    exact weightless preference kind depth ((speaks_iff listed).mp speaks)

theorem score_eq_some_iff {tag : Text} {rank : Score} :
    score preferences tag = some rank ↔
      ∃ preference kind depth, SpeaksFor preferences tag preference kind depth ∧
        preference.quality ≠ 0 ∧ toLex (preference.quality,
          toLex (toDual preference.order, toLex (kind, depth))) = rank := by
  rw [score_eq, Scheme.score_eq_some_iff (pairwise_numbered increasing)]
  constructor
  · rintro ⟨range, number, ⟨kind, depth⟩, speaks, weighed, ranked⟩
    obtain ⟨preference, listed, same⟩ := List.mem_map.mp speaks.listed
    cases same
    exact ⟨preference, kind, depth, (speaks_iff listed).mp speaks, weighed, ranked⟩
  · rintro ⟨preference, kind, depth, speaks, weighed, ranked⟩
    exact ⟨_, _, (kind, depth), (speaks_iff speaks.listed).mpr speaks, weighed, ranked⟩

/-- The tag that is selected has a weight no other tag's exceeds. -/
theorem exists_selected {index : Nat} (found : select preferences offered = some index) :
    ∃ tag preference kind depth,
      Selected preferences offered index tag preference kind depth := by
  rw [select_eq] at found
  obtain ⟨tag, rank, placed, scored, best⟩ := Scheme.choose_spec found
  rw [← score_eq, score_eq_some_iff increasing] at scored
  obtain ⟨preference, kind, depth, speaks, weighed, rfl⟩ := scored
  refine ⟨tag, preference, kind, depth, placed, speaks, weighed, ?_⟩
  intro other member otherPreference otherKind otherDepth otherSpeaks
  by_cases otherWeighed : otherPreference.quality = 0
  · omega
  · obtain ⟨otherIndex, otherPlaced⟩ := List.mem_iff_getElem?.mp member
    have otherScored := (score_eq_some_iff increasing).mpr
      ⟨otherPreference, otherKind, otherDepth, otherSpeaks, otherWeighed, rfl⟩
    rw [score_eq] at otherScored
    have below := best other otherIndex _ otherPlaced otherScored
    simp only [Prod.Lex.toLex_lt_toLex, toLex_inj, Prod.mk.injEq] at below
    omega

end

/-- An entry that is idle can be left out, wherever it stands. -/
theorem select_parseFrom_idle {offered : List Text} {entry : Text} (idle : Idle offered entry)
    (before after : List Text) :
    select (parseFrom 0 (before ++ after)) offered =
      select (parseFrom 0 (before ++ entry :: after)) offered := by
  have dropped : select (parseFrom 0 (before ++ entry :: after)) offered =
      select (parseFrom 0 before ++ parseFrom (0 + before.length + 1) after) offered := by
    rw [parseFrom_append, parseFrom_cons]
    cases parsed : Preference.parse entry (0 + before.length) with
    | error defect => rfl
    | ok preference =>
        rw [select_eq, select_eq]
        simp only [List.map_append, Except.toOption, Option.toList_some, List.singleton_append,
          List.map_cons]
        exact languageRanges.choose_drop _ _ (idle _ preference parsed)
  have later := order_of_parseFrom (0 + before.length + 1) after
  have earlier := order_of_parseFrom 0 before
  rw [dropped, select_eq, select_eq, parseFrom_append]
  refine languageRanges.choose_renumber ?_ (pairwise_numbered ?_) (pairwise_numbered ?_)
    respectsOrder_languageRanges offered
  · simp only [List.map_append, List.map_map, Function.comp_def]
    rw [ranges_parseFrom (0 + before.length + 1) (0 + before.length) after]
  · rw [← parseFrom_append]
    exact (order_of_parseFrom 0 (before ++ after)).2
  · have whole := (order_of_parseFrom 0 (before ++ entry :: after)).2
    rw [parseFrom_append, parseFrom_cons] at whole
    exact whole.sublist ((List.sublist_append_right _ _).append_left _)

/-- Entries joined at commas are read one by one; no entry at all is read as an
empty one is. -/
theorem parse_intercalate {entries : List Text} (comma : ∀ entry ∈ entries, ',' ∉ entry) :
    parse ([','].intercalate entries) = parseFrom 0 entries := by
  cases entries with
  | nil => rfl
  | cons entry rest => rw [parse, List.splitOn_intercalate ',' comma (List.cons_ne_nil entry rest)]

/-- The tag that is selected is one whose most specific range gives it the
greatest weight, and none is selected where none is given a weight; and an entry
that is idle can be left out of the field, wherever it stands. -/
theorem select_exact (value : Text) (offered : List Text) :
    (select (parse value) offered = none ↔ ∀ tag ∈ offered, ∀ preference kind depth,
      SpeaksFor (parse value) tag preference kind depth → preference.quality = 0) ∧
    (∀ index, select (parse value) offered = some index → ∃ tag preference kind depth,
      Selected (parse value) offered index tag preference kind depth) ∧
    ∀ before entry after, value.splitOn ',' = before ++ entry :: after → Idle offered entry →
      select (parse ([','].intercalate (before ++ after))) offered =
        select (parse value) offered := by
  have increasing := (order_of_parseFrom 0 (value.splitOn ',')).2
  refine ⟨select_eq_none_iff increasing, fun index => exists_selected increasing, ?_⟩
  intro before entry after split idle
  have comma : ∀ other ∈ before ++ after, ',' ∉ other := by
    intro other member held
    have isEntry : other ∈ value.splitOn ',' := by
      rw [split]
      exact ((List.sublist_cons_self entry after).append_left before).subset member
    exact (mem_of_mem_splitOn isEntry ',' held).2 rfl
  rw [parse_intercalate comma, select_parseFrom_idle idle, parse, split]

end Kynos.Language
