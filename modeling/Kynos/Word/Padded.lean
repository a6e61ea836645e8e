import Kynos.Word.Split
import Mathlib.Data.List.Forall2

/-!
# Padded words

Words with blank letters around them, and lists of such words between
separators. Trimming recovers the word, and splitting and trimming recovers the
words of a list.
-/

namespace Kynos.Word

universe u

variable {α : Type u}

/-- Neither end of a word is blank. -/
structure Solid (blank : α → Bool) (word : List α) : Prop where
  first : ∀ letter ∈ word.head?, blank letter = false
  last : ∀ letter ∈ word.getLast?, blank letter = false

theorem Solid.nil (blank : α → Bool) : Solid blank [] :=
  ⟨by simp, by simp⟩

theorem Solid.of_forall {blank : α → Bool} {word : List α}
    (solid : ∀ letter ∈ word, blank letter = false) : Solid blank word :=
  ⟨fun _ member => solid _ (List.mem_of_mem_head? member),
    fun _ member => solid _ (List.mem_of_mem_getLast? member)⟩

/-- With fewer blanks a word stays solid. -/
theorem Solid.mono {blank wider : α → Bool} {word : List α} (solid : Solid wider word)
    (included : ∀ letter, blank letter = true → wider letter = true) : Solid blank word where
  first letter member := by
    rw [Bool.eq_false_iff]
    exact fun isBlank => Bool.eq_false_iff.mp (solid.first letter member) (included letter isBlank)
  last letter member := by
    rw [Bool.eq_false_iff]
    exact fun isBlank => Bool.eq_false_iff.mp (solid.last letter member) (included letter isBlank)

/-- A word between other words is solid where these are and end it. -/
theorem Solid.append {blank : α → Bool} {left middle right : List α} (leftSolid : Solid blank left)
    (rightSolid : Solid blank right) (leftWord : left ≠ []) (rightWord : right ≠ []) :
    Solid blank (left ++ middle ++ right) where
  first letter member := by
    rw [List.append_assoc, List.head?_append_of_ne_nil _ leftWord] at member
    exact leftSolid.first letter member
  last letter member := by
    rw [List.getLast?_append_of_ne_nil _ rightWord] at member
    exact rightSolid.last letter member

theorem dropWhile_append_of_forall {blank : α → Bool} {left : List α}
    (leftBlank : ∀ letter ∈ left, blank letter = true) (word : List α) :
    (left ++ word).dropWhile blank = word.dropWhile blank := by
  rw [List.dropWhile_append, List.dropWhile_eq_nil_iff.mpr leftBlank]
  rfl

theorem rdropWhile_append_of_forall {blank : α → Bool} {right : List α}
    (rightBlank : ∀ letter ∈ right, blank letter = true) (word : List α) :
    (word ++ right).rdropWhile blank = word.rdropWhile blank := by
  rw [List.rdropWhile, List.reverse_append, dropWhile_append_of_forall (by simpa using rightBlank),
    List.rdropWhile]

/-- A solid word is trimmed to itself. -/
theorem trimBy_of_solid {blank : α → Bool} {word : List α} (solid : Solid blank word) :
    trimBy blank word = word := by
  have kept : word.dropWhile blank = word := by
    cases word with
    | nil => rfl
    | cons letter rest => simp [solid.first letter rfl]
  rw [trimBy, kept, List.rdropWhile_eq_self_iff]
  intro nonempty
  simp [solid.last _ (List.getLast?_eq_getLast_of_ne_nil nonempty)]

/-- Trimming removes the padding of a solid word. -/
theorem trimBy_padded {blank : α → Bool} {left word right : List α}
    (leftBlank : ∀ letter ∈ left, blank letter = true)
    (rightBlank : ∀ letter ∈ right, blank letter = true) (solid : Solid blank word) :
    trimBy blank (left ++ word ++ right) = word := by
  rw [trimBy, List.append_assoc, dropWhile_append_of_forall leftBlank]
  cases word with
  | nil =>
      rw [List.nil_append, List.dropWhile_eq_nil_iff.mpr rightBlank, List.rdropWhile_nil]
  | cons letter rest =>
      have first : blank letter = false := solid.first letter rfl
      have kept : ((letter :: rest) ++ right).dropWhile blank = (letter :: rest) ++ right := by
        simp [first]
      rw [kept, rdropWhile_append_of_forall rightBlank]
      have trimmed := trimBy_of_solid solid
      rwa [trimBy, show (letter :: rest).dropWhile blank = letter :: rest by simp [first]] at trimmed

/-- A solid word keeps its place at the start of what is trimmed. -/
theorem exists_trimBy_append {blank : α → Bool} {left word : List α} (nonempty : word ≠ [])
    (leftBlank : ∀ letter ∈ left, blank letter = true) (solid : Solid blank word)
    (right : List α) : ∃ rest, trimBy blank (left ++ word ++ right) = word ++ rest := by
  obtain ⟨first, letters, rfl⟩ := List.exists_cons_of_ne_nil nonempty
  have visible : blank first = false := solid.first first rfl
  have kept : ((first :: letters) ++ right).dropWhile blank = (first :: letters) ++ right := by
    simp [visible]
  rw [trimBy, List.append_assoc, dropWhile_append_of_forall leftBlank, kept]
  induction right using List.reverseRecOn with
  | nil =>
      have trimmed := trimBy_of_solid solid
      rw [trimBy, show (first :: letters).dropWhile blank = first :: letters by simp [visible]] at trimmed
      exact ⟨[], by rw [List.append_nil, trimmed]⟩
  | append_singleton right last ih =>
      rw [← List.append_assoc, List.rdropWhile_concat]
      split
      · exact ih (by simp [visible])
      · exact ⟨right ++ [last], by simp⟩

theorem exists_of_mem_left {β : Type u} {related : α → β → Prop} {left : List α} {right : List β}
    (pairs : List.Forall₂ related left right) :
    ∀ first ∈ left, ∃ second ∈ right, related first second := by
  induction pairs with
  | nil => simp
  | cons pair pairs ih =>
      refine List.forall_mem_cons.mpr ⟨⟨_, List.mem_cons_self, pair⟩, fun first member => ?_⟩
      obtain ⟨second, inRight, isPair⟩ := ih first member
      exact ⟨second, List.mem_cons_of_mem _ inRight, isPair⟩

/-- What trimming removes is blank. -/
theorem exists_eq_trimBy (blank : α → Bool) (word : List α) :
    ∃ left right, word = left ++ trimBy blank word ++ right ∧
      (∀ letter ∈ left, blank letter = true) ∧ ∀ letter ∈ right, blank letter = true := by
  refine ⟨word.takeWhile blank, (word.dropWhile blank).rtakeWhile blank, ?_,
    fun _ member => List.mem_takeWhile_imp member, fun _ member => List.mem_rtakeWhile_imp member⟩
  rw [trimBy, List.append_assoc, List.rdropWhile_append_rtakeWhile, List.takeWhile_append_dropWhile]

/-- A letter that is not blank is kept. -/
theorem mem_trimBy_of_mem {blank : α → Bool} {word : List α} {letter : α} (member : letter ∈ word)
    (visible : blank letter = false) : letter ∈ trimBy blank word := by
  obtain ⟨left, right, cut, leftBlank, rightBlank⟩ := exists_eq_trimBy blank word
  rw [cut, List.mem_append, List.mem_append] at member
  rcases member with (inLeft | kept) | inRight
  · rw [leftBlank letter inLeft] at visible
    cases visible
  · exact kept
  · rw [rightBlank letter inRight] at visible
    cases visible

/-- A trimmed word has no blank at either end. -/
theorem solid_trimBy (blank : α → Bool) (word : List α) : Solid blank (trimBy blank word) where
  first letter member := by
    have starts : (trimBy blank word) <+: word.dropWhile blank := List.rdropWhile_prefix _ _
    cases rest : word.dropWhile blank with
    | nil =>
        rw [trimBy, rest] at member
        cases member
    | cons first others =>
        have visible : blank first = false := by
          have head := List.head?_dropWhile_not blank word
          rw [rest] at head
          simpa using head
        obtain ⟨after, joined⟩ := starts
        cases trimmed : trimBy blank word with
        | nil =>
            rw [trimmed] at member
            cases member
        | cons head tail =>
            rw [trimmed] at member joined
            rw [rest, List.cons_append, List.cons.injEq] at joined
            rw [List.head?_cons, Option.mem_some_iff] at member
            rw [← member, joined.1, visible]
  last letter member := by
    have nonempty : trimBy blank word ≠ [] := by
      intro isNil
      rw [isNil] at member
      cases member
    rw [List.getLast?_eq_getLast_of_ne_nil nonempty, Option.mem_some_iff] at member
    rw [← member]
    exact Bool.eq_false_iff.mpr (List.rdropWhile_last_not blank _ nonempty)

theorem trimBy_trimBy (blank : α → Bool) (word : List α) :
    trimBy blank (trimBy blank word) = trimBy blank word :=
  trimBy_of_solid (solid_trimBy blank word)

/-- A piece of a list is a word with blanks around it. -/
structure Pads (blank : α → Bool) (piece word : List α) : Prop where
  padded : ∃ left right, piece = left ++ word ++ right ∧
    (∀ letter ∈ left, blank letter = true) ∧ ∀ letter ∈ right, blank letter = true

theorem Pads.mono {blank wider : α → Bool} {piece word : List α} (pads : Pads blank piece word)
    (included : ∀ letter, blank letter = true → wider letter = true) : Pads wider piece word := by
  obtain ⟨left, right, cut, leftBlank, rightBlank⟩ := pads.padded
  exact ⟨left, right, cut, fun letter member => included letter (leftBlank letter member),
    fun letter member => included letter (rightBlank letter member)⟩

theorem Pads.trimBy_eq {blank : α → Bool} {piece word : List α} (pads : Pads blank piece word)
    (solid : Solid blank word) : trimBy blank piece = word := by
  obtain ⟨left, right, rfl, leftBlank, rightBlank⟩ := pads.padded
  exact trimBy_padded leftBlank rightBlank solid

theorem map_trimBy_of_pads {blank : α → Bool} {pieces words : List (List α)}
    (pads : List.Forall₂ (Pads blank) pieces words) (solid : ∀ word ∈ words, Solid blank word) :
    pieces.map (trimBy blank) = words := by
  induction pads with
  | nil => rfl
  | cons pad pads ih =>
      rw [List.map_cons, pad.trimBy_eq (solid _ List.mem_cons_self),
        ih fun word member => solid word (List.mem_cons_of_mem _ member)]

/-- No piece holds a letter that is neither blank nor in its word. -/
theorem notMem_of_pads {blank : α → Bool} {separator : α} {pieces words : List (List α)}
    (pads : List.Forall₂ (Pads blank) pieces words) (visible : blank separator = false)
    (absent : ∀ word ∈ words, separator ∉ word) : ∀ piece ∈ pieces, separator ∉ piece := by
  induction pads with
  | nil => simp
  | cons pad pads ih =>
      refine List.forall_mem_cons.mpr
        ⟨?_, ih fun word member => absent word (List.mem_cons_of_mem _ member)⟩
      obtain ⟨left, right, rfl, leftBlank, rightBlank⟩ := pad.padded
      have notBlank : ∀ pad : List α, (∀ letter ∈ pad, blank letter = true) → separator ∉ pad :=
        fun pad blanks member => by simp [blanks separator member] at visible
      simp only [List.mem_append, not_or]
      exact ⟨⟨notBlank left leftBlank, absent _ List.mem_cons_self⟩, notBlank right rightBlank⟩

/-- Splitting a list of padded words at its separators and trimming recovers the
words. -/
theorem map_trimBy_splitOn_intercalate [DecidableEq α] {blank : α → Bool} {separator : α}
    {pieces words : List (List α)} (pads : List.Forall₂ (Pads blank) pieces words)
    (visible : blank separator = false) (absent : ∀ word ∈ words, separator ∉ word)
    (solid : ∀ word ∈ words, Solid blank word) (nonempty : pieces ≠ []) :
    (([separator].intercalate pieces).splitOn separator).map (trimBy blank) = words := by
  rw [List.splitOn_intercalate separator (notMem_of_pads pads visible absent) nonempty,
    map_trimBy_of_pads pads solid]

theorem intercalate_cons (glue first : List α) (rest : List (List α)) :
    glue.intercalate (first :: rest) = first ++ rest.flatMap (glue ++ ·) := by
  induction rest generalizing first with
  | nil => simp
  | cons second rest ih =>
      rw [List.intercalate_cons_of_ne_nil (List.cons_ne_nil _ _), ih, List.flatMap_cons]
      simp

/-- A separator and a blank between words are a separator before words that have
a blank before them. -/
theorem intercalate_spaced (separator space : α) (first : List α) (rest : List (List α)) :
    [separator, space].intercalate (first :: rest) =
      [separator].intercalate (first :: rest.map (space :: ·)) := by
  rw [intercalate_cons, intercalate_cons, List.flatMap_map]
  rfl

/-- Words joined by a separator and a blank are recovered by splitting and
trimming. -/
theorem map_trimBy_splitOn_spaced [DecidableEq α] {blank : α → Bool} {separator space : α}
    {words : List (List α)} (isBlank : blank space = true) (visible : blank separator = false)
    (absent : ∀ word ∈ words, separator ∉ word) (solid : ∀ word ∈ words, Solid blank word)
    (nonempty : words ≠ []) :
    (([separator, space].intercalate words).splitOn separator).map (trimBy blank) = words := by
  obtain ⟨first, rest, rfl⟩ := List.exists_cons_of_ne_nil nonempty
  have padded : List.Forall₂ (Pads blank) (rest.map (space :: ·)) rest := by
    refine List.forall₂_map_left_iff.mpr (List.forall₂_same.mpr fun word _ => ⟨[space], [], ?_⟩)
    exact ⟨by simp, by simpa using isBlank, by simp⟩
  have pads : List.Forall₂ (Pads blank) (first :: rest.map (space :: ·)) (first :: rest) :=
    .cons ⟨[], [], by simp, by simp, by simp⟩ padded
  rw [intercalate_spaced]
  exact map_trimBy_splitOn_intercalate pads visible absent solid (by simp)

end Kynos.Word
