import Mathlib.Data.List.ModifyLast
import Mathlib.Tactic.Common
import Mathlib.Data.List.Forall2

/-!
# Words that are cut and read one way

A scanner reads a word letter by letter and stops at the letters that separate
in the state it is in, such as a comma outside quotes. A piece that is read
without a stop is one piece whatever comes after it, and joined pieces are cut
where they were joined.

A code spells each letter of one alphabet by a word of another. Where what
begins a text spells one letter only, up to a relation, a text has at most one
reading up to that relation.
-/

namespace Kynos.Word

universe u v

variable {σ : Type v} {α : Type u}

/-- The pieces of a word between the letters a scanner stops at, from a state
on; `start` is the state it begins each further piece in. -/
def scan (step : σ → α → Option σ) (start : σ) : σ → List α → List (List α)
  | _, [] => [[]]
  | state, letter :: rest =>
      match step state letter with
      | none => [] :: scan step start start rest
      | some next => (scan step start next rest).modifyHead (letter :: ·)

variable {step : σ → α → Option σ} {start state next : σ}

theorem scan_cons_of_none {letter : α} (stops : step state letter = none) (rest : List α) :
    scan step start state (letter :: rest) = [] :: scan step start start rest := by
  rw [scan, stops]

theorem scan_cons_of_some {letter : α} (reads : step state letter = some next) (rest : List α) :
    scan step start state (letter :: rest) =
      (scan step start next rest).modifyHead (letter :: ·) := by
  rw [scan, reads]

/-- A word read without a stop is part of one piece. -/
theorem scan_append {word : List α} (reads : word.foldlM step state = some next)
    (rest : List α) :
    scan step start state (word ++ rest) = (scan step start next rest).modifyHead (word ++ ·) := by
  induction word generalizing state with
  | nil =>
      rw [List.foldlM_nil, Option.pure_def, Option.some.injEq] at reads
      subst next
      rw [List.nil_append]
      cases scan step start state rest <;> rfl
  | cons letter word ih =>
      rw [List.foldlM_cons, Option.bind_eq_bind, Option.bind_eq_some_iff] at reads
      obtain ⟨middle, readsLetter, readsWord⟩ := reads
      rw [List.cons_append, scan_cons_of_some readsLetter, ih readsWord, List.modifyHead_modifyHead]
      rfl

/-- A word read without a stop is one piece. -/
theorem scan_eq_singleton {word : List α} (reads : word.foldlM step state = some next) :
    scan step start state word = [word] := by
  have alone : scan step start state (word ++ []) = (scan step start next []).modifyHead (word ++ ·) :=
    scan_append reads []
  rwa [List.append_nil, scan, List.modifyHead_cons, List.append_nil] at alone

/-- Pieces that are read without a stop, up to a state in which the separator
stops the scanner, are cut where they were joined. -/
theorem scan_intercalate {separator : α} {pieces : List (List α)} (nonempty : pieces ≠ [])
    (reads : ∀ piece ∈ pieces, ∃ state, piece.foldlM step start = some state ∧
      step state separator = none) :
    scan step start start ([separator].intercalate pieces) = pieces := by
  induction pieces with
  | nil => contradiction
  | cons piece rest ih =>
      obtain ⟨state, readsPiece, stops⟩ := reads piece List.mem_cons_self
      cases rest with
      | nil => rw [List.intercalate_singleton, scan_eq_singleton readsPiece]
      | cons second rest =>
          rw [List.intercalate_cons_of_ne_nil (by simp), List.append_assoc,
            scan_append readsPiece, List.singleton_append, scan_cons_of_none stops,
            ih (by simp) fun other member => reads other (List.mem_cons_of_mem _ member),
            List.modifyHead_cons, List.append_nil]

/-- The pieces, joined by the one letter the scanner stops at, are the word. -/
theorem exists_scan_eq_cons {separator : α}
    (stops : ∀ state letter, step state letter = none → letter = separator) (state : σ)
    (word : List α) : ∃ first rest, scan step start state word = first :: rest ∧
      word = first ++ rest.flatMap (separator :: ·) := by
  induction word generalizing state with
  | nil => exact ⟨[], [], rfl, rfl⟩
  | cons letter word ih =>
      cases stepped : step state letter with
      | none =>
          obtain ⟨first, rest, isScan, joined⟩ := ih start
          refine ⟨[], first :: rest, by rw [scan_cons_of_none stepped, isScan], ?_⟩
          rw [stops state letter stepped, List.nil_append, List.flatMap_cons, List.cons_append, ← joined]
      | some next =>
          obtain ⟨first, rest, isScan, joined⟩ := ih next
          refine ⟨letter :: first, rest, ?_, by rw [List.cons_append, ← joined]⟩
          rw [scan_cons_of_some stepped, isScan, List.modifyHead_cons]

/-- Letters that leave the state alone leave it alone together. -/
theorem foldlM_of_forall {word : List α} (kept : ∀ letter ∈ word, step state letter = some state) :
    word.foldlM step state = some state := by
  induction word with
  | nil => rfl
  | cons letter word ih =>
      rw [List.foldlM_cons, kept letter List.mem_cons_self]
      exact ih fun other member => kept other (List.mem_cons_of_mem _ member)

/-- Words read one after the other. -/
theorem foldlM_append_of_some {first second : List α} {middle : σ}
    (readsFirst : first.foldlM step state = some middle)
    (readsSecond : second.foldlM step middle = some next) :
    (first ++ second).foldlM step state = some next := by
  rw [List.foldlM_append, readsFirst]
  exact readsSecond

end Kynos.Word

namespace Kynos.Word

universe u v

variable {α : Type u} {β : Type v} {related : β → β → Prop} {spell : β → List α}

/-- No letter is spelled by nothing, and what begins a text spells one letter
only, up to letters that are spelled alike. -/
structure IsCode (related : β → β → Prop) (spell : β → List α) : Prop where
  nonempty : ∀ letter, spell letter ≠ []
  alike : ∀ {letter other : β}, related letter other → spell letter = spell other
  unique : ∀ {letter other : β} {rest otherRest : List α},
    spell letter ++ rest = spell other ++ otherRest → related letter other

/-- Two readings of a text are related letter by letter. -/
theorem IsCode.flatMap_eq_iff (code : IsCode related spell) {first second : List β} :
    first.flatMap spell = second.flatMap spell ↔ List.Forall₂ related first second := by
  constructor
  · intro same
    induction first generalizing second with
    | nil =>
        cases second with
        | nil => exact .nil
        | cons letter rest =>
            rw [List.flatMap_nil, List.flatMap_cons] at same
            exact absurd (List.append_eq_nil_iff.mp same.symm).1 (code.nonempty letter)
    | cons letter rest ih =>
        cases second with
        | nil =>
            rw [List.flatMap_nil, List.flatMap_cons] at same
            exact absurd (List.append_eq_nil_iff.mp same).1 (code.nonempty letter)
        | cons other others =>
            rw [List.flatMap_cons, List.flatMap_cons] at same
            have first := code.unique same
            rw [code.alike first] at same
            exact .cons first (ih (List.append_cancel_left same))
  · intro pairs
    induction pairs with
    | nil => rfl
    | cons first _ ih => rw [List.flatMap_cons, List.flatMap_cons, code.alike first, ih]

/-- Where only equal letters are related, a text has one reading. -/
theorem IsCode.flatMap_injective (code : IsCode Eq spell) : Function.Injective (List.flatMap spell) :=
  fun _ _ same => List.forall₂_eq_eq_eq ▸ code.flatMap_eq_iff.mp same

end Kynos.Word
