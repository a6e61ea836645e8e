import Kynos.StructuredField.Joined
import Kynos.Text.Utf8
import Kynos.Word.Split

/-!
# Strings of structured fields

`sf_string`, of which `middleware/rate_limit/headers.rs` and
`http/accept_query.rs` each have a copy: a text that is printable ASCII, as a
structured-field String.
-/

namespace Kynos.Http

open Kynos.StructuredField

/-- `sf_string`. -/
def sfString (name : Text) : Option Text :=
  if name.toOctets.all (fun octet => 0x20 ≤ octet && octet < 0x7f) then
    let escaped := Word.replace ['"'] "\\\"".toList (Word.replace ['\\'] "\\\\".toList name)
    some ('"' :: (escaped ++ ['"']))
  else
    none

/-- A name a member can be written for: printable ASCII. -/
def isWritable (name : Text) : Bool :=
  name.all isPrintable

theorem all_octets_eq (name : Text) :
    name.toOctets.all (fun octet => 0x20 ≤ octet && octet < 0x7f) = isWritable name := by
  induction name with
  | nil => rfl
  | cons character name ih =>
      rw [isWritable] at ih
      rw [Text.toOctets_cons, List.all_append, ih, isWritable, List.all_cons]
      congr 1
      rw [Bool.eq_iff_iff, List.all_eq_true, isPrintable_iff]
      rcases Nat.lt_or_ge character.toNat 128 with ascii | past
      · rw [Text.utf8EncodeChar_of_ascii ascii]
        simp only [List.mem_singleton, forall_eq, Bool.and_eq_true, decide_eq_true_eq,
          UInt8.le_iff_toNat_le, UInt8.lt_iff_toNat_lt, UInt8.toNat_ofNat',
          Nat.mod_eq_of_lt (show character.toNat < 2 ^ 8 by omega)]
        rfl
      · refine ⟨fun every => ?_, fun bounds => absurd bounds.2 (by omega)⟩
        obtain ⟨octet, others, encoded⟩ :=
          List.exists_cons_of_ne_nil (Text.utf8EncodeChar_ne_nil character)
        have member : octet ∈ String.utf8EncodeChar character := by rw [encoded]; exact List.mem_cons_self
        have bounds := every octet member
        simp only [Bool.and_eq_true, decide_eq_true_eq, UInt8.lt_iff_toNat_lt] at bounds
        have high := Text.le_of_mem_utf8EncodeChar past member
        have low : octet.toNat < 127 := bounds.2
        omega

theorem replace_character (character : Char) (replacement word : Text) :
    Word.replace [character] replacement word =
      word.flatMap fun letter => if letter = character then replacement else [letter] := by
  induction word with
  | nil => rfl
  | cons letter word ih =>
      rw [List.flatMap_cons]
      split
      next same =>
        rw [← ih, same]
        exact Word.replace_pattern_append word
      next differs =>
        rw [Word.replace_cons_of_not_isPrefix, ih, List.singleton_append]
        exact fun occurs => differs (List.cons_prefix_cons.mp occurs).1.symm

/-- The two replacements escape a string. -/
theorem replace_replace (name : Text) :
    Word.replace ['"'] "\\\"".toList (Word.replace ['\\'] "\\\\".toList name) = escape name := by
  rw [replace_character, replace_character, List.flatMap_assoc, escape]
  refine List.flatMap_congr fun character _ => ?_
  rw [escapeCharacter]
  by_cases backslash : character = '\\'
  · subst backslash
    rfl
  · by_cases quote : character = '"'
    · subst quote
      rfl
    · simp [backslash, quote]

theorem sfString_eq (name : Text) : sfString name = (BareItem.string name).write := by
  rw [sfString, all_octets_eq, replace_replace]
  rfl

theorem isSome_sfString (name : Text) : (sfString name).isSome = isWritable name := by
  rw [sfString, all_octets_eq]
  cases isWritable name <;> rfl

end Kynos.Http
