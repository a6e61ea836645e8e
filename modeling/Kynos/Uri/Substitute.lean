import Kynos.Collection.Assoc
import Kynos.OpenApi.PathGrammar
import Kynos.Uri.Render

/-!
# Values in templates

Putting values into a template one after another fills each variable with its
value's spelling: no spelling holds a brace, so none is taken for a variable.
-/

namespace Kynos.Uri

open Kynos.Word Kynos.Http Kynos.OpenApi

/-! ## Filled templates -/

/-- The value a list of entries gives a name. -/
def valueOf (values : List (Text × Text)) (name : Text) : Text :=
  (values.lookup name).getD []

/-- A piece with the value of its variable. -/
def filledPiece (values : List (Text × Text)) : Piece → Text
  | .expression name => encodeSegment (valueOf values name.text)
  | piece => piece.text

/-- Pieces with the values of their variables. -/
def filled (values : List (Text × Text)) (pieces : List Piece) : Text :=
  pieces.flatMap (filledPiece values)

/-- A piece whose variable is filled where it is among some values. -/
def partlyFilledPiece (values : List (Text × Text)) : Piece → Text
  | .expression name =>
      match values.lookup name.text with
      | some value => encodeSegment value
      | none => braced name.text
  | piece => piece.text

def partlyFilled (values : List (Text × Text)) (pieces : List Piece) : Text :=
  pieces.flatMap (partlyFilledPiece values)

/-! ## What spellings hold -/

/-- An octet that is kept is no separator of a path and no brace. -/
theorem notMem_encodeSegment {character : Char} (separates : character ∈ ['/', '\x7b', '\x7d'])
    (value : Text) : character ∉ encodeSegment value := by
  have unkept : ∀ octet, isKept octet = true → octet.toNat ≠ character.toNat := by
    intro octet kept same
    have outside : isKept (UInt8.ofNat character.toNat) = false := by
      simp only [List.mem_cons, List.not_mem_nil, or_false] at separates
      rcases separates with rfl | rfl | rfl <;> decide
    rw [← same, UInt8.ofNat_toNat, kept] at outside
    cases outside
  simp only [List.mem_cons, List.not_mem_nil, or_false] at separates
  rcases separates with rfl | rfl | rfl <;>
    exact Text.Percent.notMem_encode unkept (by decide) (by decide) (by decide) value

theorem encodeSegment_eq_nil_iff {value : Text} : encodeSegment value = [] ↔ value = [] :=
  Text.Percent.encode_eq_nil_iff

/-! ## One value -/

theorem partlyFilledPiece_nil (piece : Piece) : partlyFilledPiece [] piece = piece.text := by
  cases piece <;> rfl

theorem partlyFilled_nil (pieces : List Piece) : partlyFilled [] pieces = spelled pieces :=
  List.flatMap_congr fun piece _ => partlyFilledPiece_nil piece

theorem lookup_append_singleton {values : List (Text × Text)} {name value other : Text} :
    (values ++ [(name, value)]).lookup other =
      (values.lookup other).or (if other = name then some value else none) := by
  rw [List.lookup_append, Collection.lookup_cons, List.lookup_nil]

theorem partlyFilledPiece_of_some {values : List (Text × Text)} {name : VariableName} {value : Text}
    (known : values.lookup name.text = some value) :
    partlyFilledPiece values (.expression name) = encodeSegment value := by
  rw [partlyFilledPiece, known]

theorem partlyFilledPiece_of_none {values : List (Text × Text)} {name : VariableName}
    (unknown : values.lookup name.text = none) :
    partlyFilledPiece values (.expression name) = braced name.text := by
  rw [partlyFilledPiece, unknown]

theorem partlyFilledPiece_of_literal (values : List (Text × Text)) {piece : Piece}
    (literal : piece.name = none) : partlyFilledPiece values piece = piece.text := by
  cases piece with
  | expression => cases literal
  | slash => rfl
  | literal => rfl
  | triple => rfl

/-- Another variable is no occurrence of a variable. -/
theorem not_braced_isPrefix {name other : Text} (unclosed : '\x7d' ∉ name)
    (otherUnclosed : '\x7d' ∉ other) (differs : other ≠ name) (rest : Text) :
    ¬ braced name <+: braced other ++ rest := by
  rintro ⟨left, occurs⟩
  simp only [braced, List.cons_append, List.append_assoc, List.nil_append, List.cons.injEq,
    true_and] at occurs
  exact differs (before_unique unclosed otherUnclosed occurs).1.symm

/-- Replacing a variable fills it where it has no value yet, and it alone. -/
theorem replace_partlyFilled (values : List (Text × Text)) {name : Text}
    (unclosed : '\x7d' ∉ name) (value : Text) (pieces : List Piece) :
    replace (braced name) (encodeSegment value) (partlyFilled values pieces) =
      partlyFilled (values ++ [(name, value)]) pieces := by
  induction pieces with
  | nil => rfl
  | cons piece pieces ih =>
      change replace (braced name) (encodeSegment value)
          (partlyFilledPiece values piece ++ partlyFilled values pieces) =
        partlyFilledPiece (values ++ [(name, value)]) piece ++
          partlyFilled (values ++ [(name, value)]) pieces
      have passes {text : Text} (braceless : '\x7b' ∉ text) :
          replace (braced name) (encodeSegment value) (text ++ partlyFilled values pieces) =
            text ++ partlyFilled (values ++ [(name, value)]) pieces := by
        rw [braced, replace_append_of_notMem braceless, ← ih, braced]
      cases isVariable : piece.name with
      | none =>
          rw [partlyFilledPiece_of_literal _ isVariable, partlyFilledPiece_of_literal _ isVariable]
          exact passes (Piece.braceless isVariable).1
      | some other =>
          cases piece with
          | slash => cases isVariable
          | literal => cases isVariable
          | triple => cases isVariable
          | expression other =>
              cases known : values.lookup other.text with
              | some already =>
                  have longer : (values ++ [(name, value)]).lookup other.text = some already := by
                    rw [lookup_append_singleton, known, Option.some_or]
                  rw [partlyFilledPiece_of_some known, partlyFilledPiece_of_some longer]
                  exact passes (notMem_encodeSegment (by decide) already)
              | none =>
                  rw [partlyFilledPiece_of_none known]
                  by_cases same : other.text = name
                  · have longer : (values ++ [(name, value)]).lookup other.text = some value := by
                      rw [lookup_append_singleton, known, Option.none_or, if_pos same]
                    rw [partlyFilledPiece_of_some longer, same, ← ih]
                    exact replace_pattern_append _
                  · have longer : (values ++ [(name, value)]).lookup other.text = none := by
                      rw [lookup_append_singleton, known, Option.none_or, if_neg same]
                    have inside : '\x7b' ∉ other.text ++ ['\x7d'] := by
                      simpa using other.unopened
                    have skipped : replace (braced name) (encodeSegment value)
                        (braced other.text ++ partlyFilled values pieces) =
                      '\x7b' :: replace (braced name) (encodeSegment value)
                        ((other.text ++ ['\x7d']) ++ partlyFilled values pieces) :=
                      replace_cons_of_not_isPrefix
                        (not_braced_isPrefix unclosed other.unclosed same _)
                    rw [partlyFilledPiece_of_none longer, skipped, passes inside]
                    rfl

/-! ## All values -/

/-- Values of declared names are put in, unless one is empty. -/
theorem substitute_eq {declared : List Text} {template : Text} {pieces : List Piece}
    {done values : List (Text × Text)} (isDeclared : ∀ entry ∈ values, entry.1 ∈ declared)
    (unclosed : ∀ entry ∈ values, '\x7d' ∉ entry.1) (nonempty : ∀ entry ∈ values, entry.2 ≠ []) :
    substitute declared template values (partlyFilled done pieces) =
      .ok (partlyFilled (done ++ values) pieces) := by
  induction values generalizing done with
  | nil => rw [substitute, List.append_nil]
  | cons entry values ih =>
      obtain ⟨name, value⟩ := entry
      obtain ⟨nameDeclared, restDeclared⟩ := List.forall_mem_cons.mp isDeclared
      obtain ⟨nameUnclosed, restUnclosed⟩ := List.forall_mem_cons.mp unclosed
      obtain ⟨valueNonempty, restNonempty⟩ := List.forall_mem_cons.mp nonempty
      rw [substitute, if_neg (by simpa using nameDeclared),
        if_neg (by simpa using valueNonempty), replace_partlyFilled done nameUnclosed,
        ih restDeclared restUnclosed restNonempty, List.append_assoc]
      rfl

theorem exists_substitute_eq_error {declared : List Text} {template : Text}
    {values : List (Text × Text)} (empty : ∃ entry ∈ values, entry.2 = []) (rendered : Text) :
    ∃ panic, substitute declared template values rendered = .error panic := by
  induction values generalizing rendered with
  | nil =>
      obtain ⟨_, member, -⟩ := empty
      cases member
  | cons entry values ih =>
      obtain ⟨name, value⟩ := entry
      rw [substitute]
      split
      · exact ⟨_, rfl⟩
      · split
        · exact ⟨_, rfl⟩
        · rename_i nonempty
          obtain ⟨other, member, isEmpty⟩ := empty
          rcases List.mem_cons.mp member with rfl | inValues
          · exact absurd (List.isEmpty_iff.mpr isEmpty) nonempty
          · exact ih ⟨other, inValues, isEmpty⟩ _

end Kynos.Uri
