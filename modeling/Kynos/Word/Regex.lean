import Mathlib

/-!
# Regular expressions over an alphabet

What dialects of regular expressions that write them differently have in common:
what one letter may be, where an empty match may stand, parts after one another,
alternatives and repetition. A match is told by the letters before it, its own and
those after it.
-/

namespace Kynos.Word

universe u

/-- A regular expression. -/
inductive Regex (α : Type u) where
  /-- One letter. -/
  | one (admits : α → Prop)
  /-- No letter, where this holds of the letters before and after. -/
  | stands (holds : List α → List α → Prop)
  | concat (parts : List (Regex α))
  | alternation (parts : List (Regex α))
  | repeated (least : Nat) (most : Option Nat) (part : Regex α)

namespace Regex

variable {α : Type u}

/-- So many matches, one after another. -/
def Times (matched : List α → List α → List α → Prop) : Nat → List α → List α → List α → Prop
  | 0, _, word, _ => word = []
  | count + 1, before, word, after =>
      ∃ first rest, word = first ++ rest ∧ matched before first (rest ++ after) ∧
        Times matched count (before ++ first) rest after

mutual

/-- Whether a word matches, between the letters before it and those after it. -/
def Matches : Regex α → List α → List α → List α → Prop
  | one admits, _, word, _ => ∃ letter, word = [letter] ∧ admits letter
  | stands holds, before, word, after => word = [] ∧ holds before after
  | concat parts, before, word, after => MatchesAll parts before word after
  | alternation parts, before, word, after => MatchesAny parts before word after
  | repeated least most part, before, word, after =>
      ∃ count, least ≤ count ∧ (∀ bound ∈ most, count ≤ bound) ∧ Times (Matches part) count before word after

/-- Whether a word is matches of all parts, one after another. -/
def MatchesAll : List (Regex α) → List α → List α → List α → Prop
  | [], _, word, _ => word = []
  | part :: parts, before, word, after =>
      ∃ first rest, word = first ++ rest ∧ Matches part before first (rest ++ after) ∧
        MatchesAll parts (before ++ first) rest after

/-- Whether a word is a match of one part. -/
def MatchesAny : List (Regex α) → List α → List α → List α → Prop
  | [], _, _, _ => False
  | part :: parts, before, word, after => Matches part before word after ∨ MatchesAny parts before word after

end

/-- Whether a word has a match anywhere. -/
def Found (regex : Regex α) (word : List α) : Prop :=
  ∃ before matched after, word = before ++ matched ++ after ∧ regex.Matches before matched after

/-- Parts after one another; one is just that part. -/
def sequence : List (Regex α) → Regex α
  | [part] => part
  | parts => concat parts

/-- Alternatives; one is just that part. -/
def choice : List (Regex α) → Regex α
  | [part] => part
  | parts => alternation parts

end Regex

end Kynos.Word
