import Mathlib

/-!
# Replacing spans of a word

Some spans of a word are replaced and the rest of it is copied. Where the
replacements are those of its parts, one after another, the outcome is what the
parts become, one after another.
-/

namespace Kynos.Word

universe u

variable {α : Type u}

/-- A span of a word, from an offset to another. -/
structure Extent where
  start : Nat
  stop : Nat
  deriving DecidableEq, Repr

/-- The letters of a word from an offset to another. -/
def slice (word : List α) (start stop : Nat) : List α :=
  (word.drop start).take (stop - start)

/-- A word from an offset on, with spans of it replaced. -/
def spliceFrom (word : List α) (copied : Nat) : List (Extent × List α) → List α
  | [] => word.drop copied
  | (span, replacement) :: rest => slice word copied span.start ++ replacement ++ spliceFrom word span.stop rest

/-- What the parts of a word at an offset become, and the spans that are replaced
for it. -/
inductive Replaced : Nat → List α → List (Extent × List α) → List α → Prop where
  | kept (offset : Nat) (word : List α) : Replaced offset word [] word
  | replaced (offset : Nat) (word replacement : List α) :
      Replaced offset word [(⟨offset, offset + word.length⟩, replacement)] replacement
  | append {offset : Nat} {first second replaced after : List α} {spans more : List (Extent × List α)}
      (left : Replaced offset first spans replaced)
      (right : Replaced (offset + first.length) second more after) :
      Replaced offset (first ++ second) (spans ++ more) (replaced ++ after)

variable {word first result : List α} {offset copied stop : Nat} {spans more : List (Extent × List α)}

theorem slice_append {start middle stop : Nat} (early : start ≤ middle) (late : middle ≤ stop) :
    slice word start middle ++ slice word middle stop = slice word start stop := by
  have split : stop - start = (middle - start) + (stop - middle) := by omega
  have offset : start + (middle - start) = middle := by omega
  rw [slice, slice, slice, split, List.take_add, List.drop_drop, offset]

theorem slice_append_drop {start middle : Nat} (early : start ≤ middle) :
    slice word start middle ++ word.drop middle = word.drop start := by
  have offset : start + (middle - start) = middle := by omega
  have drops : word.drop middle = (word.drop start).drop (middle - start) := by
    rw [List.drop_drop, offset]
  rw [slice, drops, List.take_append_drop]

/-- What comes before every span is copied. -/
theorem spliceFrom_eq (early : copied ≤ stop) (beyond : ∀ entry ∈ more, stop ≤ entry.1.start) :
    spliceFrom word copied more = slice word copied stop ++ spliceFrom word stop more := by
  cases more with
  | nil => exact (slice_append_drop early).symm
  | cons entry rest =>
      have late : stop ≤ entry.1.start := beyond entry List.mem_cons_self
      rw [spliceFrom, spliceFrom, ← slice_append early late]
      simp only [List.append_assoc]

/-- What stands between two words that are replaced is kept. -/
theorem Replaced.between {second replaced after : List α} (left : Replaced offset first spans replaced)
    (between : List α) (right : Replaced (offset + first.length + between.length) second more after) :
    Replaced offset (first ++ (between ++ second)) (spans ++ more) (replaced ++ (between ++ after)) := by
  apply left.append
  rw [← List.nil_append more]
  exact (Replaced.kept _ between).append right

/-- What stands around a word that is replaced is kept. -/
theorem Replaced.enclosed {before after : List α} (inner : Replaced (offset + before.length) first spans result) :
    Replaced offset (before ++ first ++ after) spans (before ++ result ++ after) := by
  have outer := ((Replaced.kept offset before).append inner).append
    (.kept (offset + (before ++ first).length) after)
  rwa [List.nil_append, List.append_nil] at outer

theorem Replaced.within (replaced : Replaced offset first spans result) :
    ∀ entry ∈ spans, offset ≤ entry.1.start ∧ entry.1.start ≤ offset + first.length := by
  induction replaced with
  | kept => exact nofun
  | replaced offset word replacement =>
      intro entry member
      rw [List.mem_singleton.mp member]
      exact ⟨Nat.le_refl _, Nat.le_add_right _ _⟩
  | append left right before after =>
      intro entry member
      rw [List.length_append]
      rcases List.mem_append.mp member with isLeft | isRight
      · have within := before entry isLeft
        omega
      · have within := after entry isRight
        omega

theorem Replaced.pairwise (replaced : Replaced offset first spans result) :
    spans.Pairwise fun entry later => entry.1.start ≤ later.1.start := by
  induction replaced with
  | kept => exact .nil
  | replaced => exact List.pairwise_singleton _ _
  | append left right before after =>
      rw [List.pairwise_append]
      refine ⟨before, after, ?_⟩
      intro entry isLeft later isRight
      exact (left.within entry isLeft).2.trans (right.within later isRight).1

theorem Replaced.spliceFrom_append (replaced : Replaced offset first spans result)
    (isSlice : slice word offset (offset + first.length) = first) (early : copied ≤ offset)
    (beyond : ∀ entry ∈ more, offset + first.length ≤ entry.1.start) :
    spliceFrom word copied (spans ++ more) =
      slice word copied offset ++ result ++ spliceFrom word (offset + first.length) more := by
  induction replaced generalizing copied more with
  | kept offset first =>
      rw [List.nil_append, spliceFrom_eq (early.trans (Nat.le_add_right offset first.length)) beyond,
        ← slice_append early (Nat.le_add_right offset first.length), isSlice]
  | replaced offset first replacement => rfl
  | @append offset first second replaced after spans rest left right ihLeft ihRight =>
      have total : offset + (first ++ second).length = offset + first.length + second.length := by
        rw [List.length_append, Nat.add_assoc]
      rw [total] at isSlice beyond ⊢
      have whole : slice word offset (offset + first.length) ++
          slice word (offset + first.length) (offset + first.length + second.length) =
            slice word offset (offset + first.length + second.length) :=
        slice_append (Nat.le_add_right _ _) (Nat.le_add_right _ _)
      have lengthLeft : (slice word offset (offset + first.length)).length = first.length := by
        have length := congrArg List.length isSlice
        simp only [slice, List.length_take, List.length_drop, List.length_append] at length ⊢
        omega
      obtain ⟨isFirst, isSecond⟩ := List.append_inj (whole.trans isSlice) lengthLeft
      have beyondFirst : ∀ entry ∈ rest ++ more, offset + first.length ≤ entry.1.start := by
        intro entry member
        rcases List.mem_append.mp member with isRight | isMore
        · exact (right.within entry isRight).1
        · exact (Nat.le_add_right _ _).trans (beyond entry isMore)
      rw [List.append_assoc, ihLeft isFirst early beyondFirst, ihRight isSecond (Nat.le_refl _) beyond]
      simp [slice]

/-- Replacing the spans of all parts of a word makes of it what its parts become. -/
theorem Replaced.spliceFrom_eq (replaced : Replaced 0 word spans result) : spliceFrom word 0 spans = result := by
  have isSlice : slice word 0 (0 + word.length) = word := by simp [slice]
  have spliced : spliceFrom word 0 (spans ++ []) = slice word 0 0 ++ result ++ spliceFrom word (0 + word.length) [] :=
    replaced.spliceFrom_append isSlice (Nat.le_refl 0) nofun
  simpa [slice, spliceFrom] using spliced

end Kynos.Word
