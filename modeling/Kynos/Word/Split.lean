import Mathlib.Data.Bool.AllAny
import Mathlib.Data.List.DropRight
import Mathlib.Data.List.Infix

/-!
# Cutting words at separators

Generic operations on finite words: the two halves around the first separator,
trimming by a predicate, and the pieces between separators. Splitting into
pieces is the core library's `List.splitOn`; the file adds the facts about its
pieces that readers of delimited fields rely on.

Every occurrence of a pattern may be replaced, from the left and without overlap.
-/

namespace Kynos.Word

universe u v

variable {α : Type u}

/-! ## The first separator -/

section SplitOnce

variable [DecidableEq α]

/-- The word before the first `separator` and the word after it. -/
def splitOnce (separator : α) : List α → Option (List α × List α)
  | [] => none
  | letter :: rest =>
      if letter = separator then
        some ([], rest)
      else
        (splitOnce separator rest).map fun halves => (letter :: halves.1, halves.2)

/-- The first separator is the one with none before it. -/
theorem splitOnce_eq_some_iff {separator : α} {word before after : List α} :
    splitOnce separator word = some (before, after) ↔
      separator ∉ before ∧ word = before ++ separator :: after := by
  induction word generalizing before with
  | nil => simp [splitOnce]
  | cons letter rest ih =>
      by_cases found : letter = separator
      · subst letter
        cases before with
        | nil => simp [splitOnce, eq_comm]
        | cons head before =>
            simp only [splitOnce, if_true, Option.some.injEq, Prod.mk.injEq,
              List.cons_append, List.cons.injEq]
            constructor
            · rintro ⟨impossible, _⟩
              contradiction
            · rintro ⟨notMem, headEq, _⟩
              exact absurd (headEq ▸ List.mem_cons_self) notMem
      · cases before with
        | nil => simp [splitOnce, found]
        | cons head before =>
            simp only [splitOnce, if_neg found, Option.map_eq_some_iff, Prod.mk.injEq,
              Prod.exists, List.cons.injEq, List.cons_append, List.mem_cons, not_or]
            constructor
            · rintro ⟨first, second, split, ⟨rfl, rfl⟩, rfl⟩
              obtain ⟨notMem, restEq⟩ := ih.mp split
              exact ⟨⟨fun equal => found equal.symm, notMem⟩, rfl, restEq⟩
            · rintro ⟨⟨_, notMem⟩, rfl, restEq⟩
              exact ⟨before, after, ih.mpr ⟨notMem, restEq⟩, ⟨rfl, rfl⟩, rfl⟩

/-- A word without a separator has no halves. -/
theorem splitOnce_eq_none_iff {separator : α} {word : List α} :
    splitOnce separator word = none ↔ separator ∉ word := by
  induction word with
  | nil => simp [splitOnce]
  | cons letter rest ih =>
      by_cases found : letter = separator
      · simp [splitOnce, found]
      · simp [splitOnce, found, ih, Ne.symm found]

end SplitOnce

/-- Two ways of cutting one word at a separator agree, or one cuts within what
the other leaves after its cut. -/
theorem append_cons_eq_append_cons {separator : α} {before after before' after' : List α}
    (same : before ++ separator :: after = before' ++ separator :: after') :
    (before = before' ∧ after = after') ∨
      (∃ middle, before' = before ++ separator :: middle ∧
        after = middle ++ separator :: after') ∨
      ∃ middle, before = before' ++ separator :: middle ∧
        after' = middle ++ separator :: after := by
  rcases List.append_eq_append_iff.mp same with ⟨rest, beforeEq, afterEq⟩ | ⟨rest, beforeEq, afterEq⟩
  · cases rest with
    | nil =>
        rw [List.nil_append, List.cons.injEq] at afterEq
        exact .inl ⟨by simpa using beforeEq.symm, afterEq.2⟩
    | cons letter middle =>
        rw [List.cons_append, List.cons.injEq] at afterEq
        exact .inr (.inl ⟨middle, afterEq.1 ▸ beforeEq, afterEq.2⟩)
  · cases rest with
    | nil =>
        rw [List.nil_append, List.cons.injEq] at afterEq
        exact .inl ⟨by simpa using beforeEq, afterEq.2.symm⟩
    | cons letter middle =>
        rw [List.cons_append, List.cons.injEq] at afterEq
        exact .inr (.inr ⟨middle, afterEq.1 ▸ beforeEq, afterEq.2⟩)

/-- A word cut at its last separator is cut one way. -/
theorem append_cons_inj_of_notMem {separator : α} {before after before' after' : List α}
    (last : separator ∉ after) (last' : separator ∉ after') :
    before ++ separator :: after = before' ++ separator :: after' ↔
      before = before' ∧ after = after' := by
  constructor
  · intro same
    rcases append_cons_eq_append_cons same with equal | ⟨middle, _, rfl⟩ | ⟨middle, _, rfl⟩
    · exact equal
    · simp at last
    · simp at last'
  · rintro ⟨rfl, rfl⟩
    rfl

/-- The first letter that is looked for is the one with none before it. -/
theorem findIdx?_append_cons {isWanted : α → Bool} {before : List α}
    (notBefore : ∀ letter ∈ before, isWanted letter = false) {letter : α}
    (wanted : isWanted letter = true) (after : List α) :
    (before ++ letter :: after).findIdx? isWanted = some before.length := by
  rw [List.findIdx?_append, List.findIdx?_eq_none_iff.mpr notBefore, List.findIdx?_cons, if_pos wanted]
  simp

/-! ## Trimming -/

/-- `word` without its longest prefix and suffix of letters `blank` holds of. -/
def trimBy (blank : α → Bool) (word : List α) : List α :=
  (word.dropWhile blank).rdropWhile blank

@[simp]
theorem trimBy_nil (blank : α → Bool) : trimBy blank [] = [] := by
  simp [trimBy]

theorem dropWhile_congr {blank other : α → Bool} {word : List α}
    (same : ∀ letter ∈ word, blank letter = other letter) :
    word.dropWhile blank = word.dropWhile other := by
  induction word with
  | nil => rfl
  | cons letter word ih =>
      have rest := ih fun letter member => same letter (List.mem_cons_of_mem _ member)
      rw [List.dropWhile_cons, List.dropWhile_cons, same letter List.mem_cons_self, rest]

/-- Trimming depends on which letters of the word are blank. -/
theorem trimBy_congr {blank other : α → Bool} {word : List α}
    (same : ∀ letter ∈ word, blank letter = other letter) : trimBy blank word = trimBy other word := by
  rw [trimBy, trimBy, dropWhile_congr same, List.rdropWhile, List.rdropWhile, dropWhile_congr]
  intro letter member
  exact same letter ((List.dropWhile_suffix other).subset (List.mem_reverse.mp member))

theorem trimBy_isInfix (blank : α → Bool) (word : List α) :
    trimBy blank word <:+: word :=
  (List.rdropWhile_prefix blank _).isInfix.trans (List.dropWhile_suffix blank).isInfix

/-- A word none of whose letters is blank is trimmed to itself. -/
theorem trimBy_eq_self_of_forall {blank : α → Bool} {word : List α}
    (solid : ∀ letter ∈ word, blank letter = false) : trimBy blank word = word := by
  have kept : word.dropWhile blank = word := by
    cases word with
    | nil => rfl
    | cons letter rest => simp [solid letter List.mem_cons_self]
  rw [trimBy, kept, List.rdropWhile_eq_self_iff]
  intro nonempty
  simp [solid _ (List.getLast_mem nonempty)]

theorem trimBy_eq_nil_iff {blank : α → Bool} {word : List α} :
    trimBy blank word = [] ↔ ∀ letter ∈ word, blank letter = true := by
  rw [trimBy, List.rdropWhile_eq_nil_iff]
  constructor
  · intro trimmed letter member
    have cut : word.takeWhile blank ++ word.dropWhile blank = word :=
      List.takeWhile_append_dropWhile
    rw [← cut] at member
    rcases List.mem_append.mp member with early | late
    · exact List.mem_takeWhile_imp early
    · exact trimmed letter late
  · intro blanks letter member
    exact blanks letter ((List.dropWhile_suffix blank).subset member)

/-! ## Pieces -/

/-- The letters of a piece are letters of the word, none of them the separator. -/
theorem mem_of_mem_splitOn [DecidableEq α] {separator : α} {word piece : List α}
    (isPiece : piece ∈ word.splitOn separator) :
    ∀ letter ∈ piece, letter ∈ word ∧ letter ≠ separator := by
  induction word generalizing piece with
  | nil =>
      rw [List.splitOn_nil, List.mem_singleton] at isPiece
      subst piece
      simp
  | cons first rest ih =>
      rw [List.splitOn_cons_eq_if_modifyHead] at isPiece
      by_cases isSeparator : first = separator
      · rw [if_pos (by simpa using isSeparator), List.mem_cons] at isPiece
        rcases isPiece with rfl | isPiece
        · simp
        · exact fun letter member =>
            (ih isPiece letter member).imp_left (List.mem_cons_of_mem _)
      · rw [if_neg (by simpa using isSeparator)] at isPiece
        cases pieces : rest.splitOn separator with
        | nil => exact absurd pieces (List.splitOn_ne_nil _ _)
        | cons head tail =>
            rw [pieces, List.modifyHead_cons, List.mem_cons] at isPiece
            rcases isPiece with rfl | isPiece
            · refine List.forall_mem_cons.mpr
                ⟨⟨List.mem_cons_self, isSeparator⟩, fun letter member => ?_⟩
              have inHead : head ∈ rest.splitOn separator := pieces ▸ List.mem_cons_self
              exact (ih inHead letter member).imp_left (List.mem_cons_of_mem _)
            · have inTail : piece ∈ rest.splitOn separator := pieces ▸ List.mem_cons_of_mem _ isPiece
              exact fun letter member =>
                (ih inTail letter member).imp_left (List.mem_cons_of_mem _)

/-! ## Splitting what is spelled -/

section Spelled

variable [DecidableEq α] {β : Type v} {separator : α} {isSeparator : β → Bool}
  {spell : β → List α}

/-- Words joined at separators are split into the pieces of each. -/
theorem splitOn_intercalate_eq_flatMap {words : List (List α)} (nonempty : words ≠ []) :
    ([separator].intercalate words).splitOn separator =
      words.flatMap fun word => word.splitOn separator := by
  induction words with
  | nil => contradiction
  | cons word rest ih =>
      cases rest with
      | nil => simp
      | cons next rest =>
          have joined : [separator].intercalate (word :: next :: rest) =
              word ++ separator :: [separator].intercalate (next :: rest) := by simp
          rw [joined, List.splitOn_append_cons_self, ih (by simp), ← List.flatMap_cons]

/-- Letters without a separator stay in one piece. -/
theorem splitOn_append_of_notMem {word : List α} (absent : separator ∉ word) (rest : List α) :
    (word ++ rest).splitOn separator = (rest.splitOn separator).modifyHead (word ++ ·) := by
  induction word with
  | nil => cases pieces : rest.splitOn separator <;> simp [pieces]
  | cons letter word ih =>
      rw [List.mem_cons, not_or] at absent
      rw [List.cons_append, List.splitOn_cons_eq_if_modifyHead,
        if_neg (by simpa using Ne.symm absent.1), ih absent.2, List.modifyHead_modifyHead]
      rfl

/-- Where separators alone are spelled by the separator, a spelling is split
where what it spells is. -/
theorem splitOn_flatMap {word : List β}
    (separates : ∀ letter, isSeparator letter = true → spell letter = [separator])
    (plain : ∀ letter ∈ word, isSeparator letter = false → separator ∉ spell letter) :
    (word.flatMap spell).splitOn separator =
      (word.splitOnP isSeparator).map (List.flatMap spell) := by
  induction word with
  | nil => simp
  | cons letter word ih =>
      obtain ⟨first, others⟩ := List.forall_mem_cons.mp plain
      rw [List.flatMap_cons, List.splitOnP_cons_eq_if_modifyHead]
      cases separate : isSeparator letter with
      | true =>
          rw [separates letter separate, List.singleton_append, List.splitOn_cons_eq_if_modifyHead,
            if_pos (by simp), ih others]
          rfl
      | false =>
          rw [splitOn_append_of_notMem (first separate), ih others]
          cases pieces : word.splitOnP isSeparator with
          | nil => exact absurd pieces (List.splitOnP_ne_nil _ _)
          | cons head tail => simp

end Spelled

end Kynos.Word

namespace Kynos.Word

universe u

variable {α : Type u} [DecidableEq α]

/-- The rest of a word with a pattern replaced, `skipped` being how many of its
letters belong to an occurrence already replaced. -/
def replaceFrom (pattern replacement : List α) : Nat → List α → List α
  | _, [] => []
  | skipped + 1, _ :: rest => replaceFrom pattern replacement skipped rest
  | 0, letter :: rest =>
      if pattern.isPrefixOf (letter :: rest) then
        replacement ++ replaceFrom pattern replacement (pattern.length - 1) rest
      else
        letter :: replaceFrom pattern replacement 0 rest

/-- A word with a pattern, which is not empty, replaced. -/
def replace (pattern replacement word : List α) : List α :=
  replaceFrom pattern replacement 0 word

variable {first : α} {tail replacement : List α}

theorem replaceFrom_length (pattern skipped rest : List α) :
    replaceFrom pattern replacement skipped.length (skipped ++ rest) =
      replace pattern replacement rest := by
  induction skipped with
  | nil => rfl
  | cons letter skipped ih =>
      rw [List.length_cons, List.cons_append, replaceFrom]
      exact ih

/-- An occurrence is replaced. -/
theorem replace_pattern_append (rest : List α) :
    replace (first :: tail) replacement (first :: tail ++ rest) =
      replacement ++ replace (first :: tail) replacement rest := by
  have occurs : (first :: tail).isPrefixOf (first :: (tail ++ rest)) = true :=
    List.isPrefixOf_iff_prefix.mpr (List.prefix_append (first :: tail) rest)
  have skips : replaceFrom (first :: tail) replacement tail.length (tail ++ rest) =
      replace (first :: tail) replacement rest :=
    replaceFrom_length (first :: tail) tail rest
  rw [replace, List.cons_append, replaceFrom, if_pos occurs, List.length_cons, Nat.add_sub_cancel]
  exact congrArg _ skips

/-- A letter at which no occurrence begins is passed by. -/
theorem replace_cons_of_not_isPrefix {pattern : List α} {letter : α} {rest : List α}
    (differs : ¬ pattern <+: letter :: rest) :
    replace pattern replacement (letter :: rest) = letter :: replace pattern replacement rest := by
  rw [replace, replaceFrom, if_neg fun occurs => differs (List.isPrefixOf_iff_prefix.mp occurs)]
  rfl

/-- A word without the first letter of the pattern is passed by. -/
theorem replace_append_of_notMem {word : List α} (absent : first ∉ word) (rest : List α) :
    replace (first :: tail) replacement (word ++ rest) =
      word ++ replace (first :: tail) replacement rest := by
  induction word with
  | nil => rfl
  | cons letter word ih =>
      rw [List.mem_cons, not_or] at absent
      have differs : ¬ first :: tail <+: letter :: (word ++ rest) := fun occurs =>
        absent.1 (List.cons_prefix_cons.mp occurs).1
      rw [List.cons_append, replace_cons_of_not_isPrefix differs, ih absent.2, List.cons_append]

end Kynos.Word
