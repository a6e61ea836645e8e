import Kynos.Http.Field

/-!
# UTF-8

What readers and writers of octets rely on when the octets encode text: a
decoder gives the text back, an ASCII character is its own octet, and no octet
of another character is ASCII.
-/

namespace Kynos.Text

open Kynos.Http

@[simp]
theorem toOctets_nil : toOctets [] = [] :=
  rfl

@[simp]
theorem toOctets_cons (character : Char) (text : Text) :
    toOctets (character :: text) = String.utf8EncodeChar character ++ toOctets text :=
  rfl

@[simp]
theorem toOctets_append (first second : Text) :
    toOctets (first ++ second) = toOctets first ++ toOctets second :=
  List.flatMap_append

theorem toOctets_flatten (texts : List Text) :
    toOctets texts.flatten = (texts.map toOctets).flatten := by
  induction texts with
  | nil => rfl
  | cons text rest ih => rw [List.flatten_cons, toOctets_append, ih, List.map_cons, List.flatten_cons]

/-- What is encoded decodes to itself. -/
@[simp]
theorem fromUtf8_toOctets (text : Text) : Octets.fromUtf8 text.toOctets = some text := by
  have encoded : ByteArray.mk text.toOctets.toArray = List.utf8Encode text :=
    ByteArray.ext List.data_toByteArray.symm
  rw [Octets.fromUtf8, encoded, List.utf8Decode?_utf8Encode, Option.map_some, List.toList_toArray]

/-- Octets read as UTF-8 are the encoding of what is read. -/
theorem fromUtf8_eq_some_iff {octets : Octets} {text : Text} :
    Octets.fromUtf8 octets = some text ↔ octets = text.toOctets := by
  constructor
  · intro reads
    obtain ⟨characters, decodes, rfl⟩ := Option.map_eq_some_iff.mp reads
    have encoded : ByteArray.mk (toOctets characters.toList).toArray =
        List.utf8Encode characters.toList :=
      ByteArray.ext List.data_toByteArray.symm
    have back := ByteArray.utf8Encode_get_utf8Decode? (b := ByteArray.mk octets.toArray)
      (h := by rw [decodes]; rfl)
    simp only [decodes, Option.get_some] at back
    rw [← encoded] at back
    exact (Array.toList_inj.mpr (congrArg ByteArray.data back)).symm
  · rintro rfl
    exact fromUtf8_toOctets text

theorem toOctets_injective : Function.Injective toOctets := fun first second same =>
  Option.some.inj (by rw [← fromUtf8_toOctets first, same, fromUtf8_toOctets])

theorem utf8EncodeChar_ne_nil (character : Char) : String.utf8EncodeChar character ≠ [] := by
  simp only [String.utf8EncodeChar]
  split_ifs <;> simp

/-- A character of ASCII is one octet, its code. -/
theorem utf8EncodeChar_of_ascii {character : Char} (ascii : character.toNat < 128) :
    String.utf8EncodeChar character = [UInt8.ofNat character.toNat] := by
  have below : character.val.toNat ≤ 0x7f := by
    change character.toNat ≤ 0x7f
    omega
  simp only [String.utf8EncodeChar, if_pos below]
  rfl

/-- No octet of a character past ASCII is ASCII. -/
theorem le_of_mem_utf8EncodeChar {character : Char} (past : 128 ≤ character.toNat) {octet : UInt8}
    (member : octet ∈ String.utf8EncodeChar character) : 128 ≤ octet.toNat := by
  have notAscii : ¬ character.val.toNat ≤ 0x7f := by
    change ¬ character.toNat ≤ 0x7f
    omega
  simp only [String.utf8EncodeChar, if_neg notAscii] at member
  split_ifs at member <;> simp only [List.mem_cons, List.not_mem_nil, or_false] at member <;>
    rcases member with rfl | rfl | rfl | rfl <;> rw [UInt8.toNat_ofNat'] <;> omega

/-- An ASCII octet of a text is the code of one of its characters. -/
theorem exists_of_mem_toOctets {text : Text} {octet : UInt8} (ascii : octet.toNat < 128)
    (member : octet ∈ text.toOctets) : ∃ character ∈ text, character.toNat = octet.toNat := by
  obtain ⟨character, inText, inOctets⟩ := List.mem_flatMap.mp member
  refine ⟨character, inText, ?_⟩
  rcases Nat.lt_or_ge character.toNat 128 with low | past
  · rw [utf8EncodeChar_of_ascii low, List.mem_singleton] at inOctets
    rw [inOctets, UInt8.toNat_ofNat', Nat.mod_eq_of_lt (by omega)]
  · exact absurd (le_of_mem_utf8EncodeChar past inOctets) (by omega)

end Kynos.Text
