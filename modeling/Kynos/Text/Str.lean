import Kynos.Word.Split

/-!
# Text

A Rust `str` as its list of Unicode scalar values, with the methods of `str`
and `char` the program uses. Text read from a header field is visible ASCII and
tabs, where most of them coincide with their octet counterparts.
-/

namespace Kynos

/-- A Rust `str`: its scalar values, first to last. -/
abbrev Text := List Char

/-- Texts are the same where their letters are. -/
instance : LawfulBEq Text := inferInstance

namespace Text

open Kynos.Word

/-- `char::is_whitespace`: the `White_Space` property. -/
def isWhitespace (character : Char) : Bool :=
  let code := character.toNat
  (9 ≤ code && code ≤ 13) || code == 0x20 || code == 0x85 || code == 0xA0 ||
    code == 0x1680 || (0x2000 ≤ code && code ≤ 0x200A) || code == 0x2028 ||
    code == 0x2029 || code == 0x202F || code == 0x205F || code == 0x3000

/-- `str::trim`. -/
def trim (text : Text) : Text :=
  trimBy isWhitespace text

/-- `trim_matches([' ', '\t'])`: optional whitespace, RFC 9110's `OWS`. -/
def trimOws (text : Text) : Text :=
  trimBy (fun character => character == ' ' || character == '\t') text

/-- A letter of optional whitespace. -/
def isOws (character : Char) : Bool :=
  character == ' ' || character == '\t'

/-- No text is optional whitespace. -/
theorem isOws_of_mem_nil : ∀ character ∈ ([] : Text), isOws character = true :=
  fun _ member => nomatch member

theorem isOws_of_mem_space : ∀ character ∈ [' '], isOws character = true :=
  List.forall_mem_singleton.mpr rfl

theorem trimOws_eq (text : Text) : trimOws text = trimBy isOws text :=
  rfl

/-- Optional whitespace is white space. -/
theorem isWhitespace_of_isOws {character : Char} (blank : isOws character = true) :
    isWhitespace character = true := by
  simp only [isOws, Bool.or_eq_true, beq_iff_eq] at blank
  rcases blank with rfl | rfl <;> decide

/-- Visible ASCII is no white space. -/
theorem isWhitespace_of_visible {character : Char} (low : 33 ≤ character.toNat)
    (high : character.toNat ≤ 126) : isWhitespace character = false := by
  simp only [isWhitespace, Bool.or_eq_false_iff, Bool.and_eq_false_iff, decide_eq_false_iff_not,
    beq_eq_false_iff_ne]
  omega

theorem toNat_ofUInt8 (octet : UInt8) : (Char.ofUInt8 octet).toNat = octet.toNat :=
  UInt8.toNat_toUInt32 octet

/-- `u8::is_ascii_digit` over the octets of a `str`: no octet of a character
past ASCII is a digit. -/
def isAsciiDigit (character : Char) : Bool :=
  '0' ≤ character && character ≤ '9'

theorem toNat_of_isAsciiDigit {character : Char} (digit : isAsciiDigit character = true) :
    48 ≤ character.toNat ∧ character.toNat ≤ 57 := by
  simp only [isAsciiDigit, Bool.and_eq_true, decide_eq_true_eq] at digit
  exact digit

/-- `to_ascii_lowercase` of one character. -/
def toAsciiLower (character : Char) : Char :=
  if 'A' ≤ character ∧ character ≤ 'Z' then
    Char.ofNat (character.toNat + 32)
  else
    character

theorem toNat_ofNat {code : Nat} (small : code < 0xd800) : (Char.ofNat code).toNat = code := by
  rw [Char.ofNat, dif_pos (.inl small)]
  rfl

theorem toNat_toAsciiLower (character : Char) : (toAsciiLower character).toNat =
    if 65 ≤ character.toNat ∧ character.toNat ≤ 90 then character.toNat + 32 else character.toNat := by
  have upper : ('A' ≤ character ∧ character ≤ 'Z') ↔
      (65 ≤ character.toNat ∧ character.toNat ≤ 90) := Iff.rfl
  rw [toAsciiLower]
  simp only [upper]
  split
  · rename_i bounds
    exact toNat_ofNat (by omega)
  · rfl

/-- What is no letter is lowered from itself alone. -/
theorem toAsciiLower_eq_iff {other : Char}
    (noLetter : other.toNat < 65 ∨ 90 < other.toNat ∧ other.toNat < 97 ∨ 122 < other.toNat)
    (character : Char) : toAsciiLower character = other ↔ character = other := by
  rw [← Char.toNat_inj, ← Char.toNat_inj, toNat_toAsciiLower]
  split <;> omega

/-- `str::to_ascii_lowercase`. -/
def toAsciiLowercase (text : Text) : Text :=
  text.map toAsciiLower

/-- `str::eq_ignore_ascii_case`. -/
def eqIgnoreAsciiCase (left right : Text) : Bool :=
  toAsciiLowercase left == toAsciiLowercase right

/-- The decimal spelling of a number, as `format!` writes it. -/
def decimal (number : Nat) : Text :=
  Nat.toDigits 10 number

theorem isAsciiDigit_of_mem_decimal {number : Nat} {character : Char}
    (member : character ∈ decimal number) : isAsciiDigit character = true := by
  have digit := Nat.isDigit_of_mem_toDigits (by decide) (by decide) member
  rw [Char.isDigit_iff_toNat] at digit
  have bounds : '0' ≤ character ∧ character ≤ '9' := digit
  simpa [isAsciiDigit] using bounds

theorem all_isAsciiDigit_decimal (number : Nat) : (decimal number).all isAsciiDigit = true :=
  List.all_eq_true.mpr fun _ member => isAsciiDigit_of_mem_decimal member

theorem decimal_ne_nil (number : Nat) : decimal number ≠ [] :=
  Nat.toDigits_ne_nil

@[simp]
theorem ofDigitChars_decimal (number : Nat) : Nat.ofDigitChars 10 (decimal number) 0 = number :=
  Nat.ofDigitChars_ten_toDigits

end Text

end Kynos
