import Kynos.Text.Utf8

/-!
# Percent-encoding

A text is written octet by octet, each octet either as itself or as `%` and two
hexadecimal digits (RFC 3986 section 2.1). Which octets are kept is left to the
writer. The reader takes what is no escape literally, so it gives every text
back as long as the writer escapes `%` and every octet past ASCII.
-/

namespace Kynos.Text.Percent

open Kynos.Http

/-! ## The writer -/

/-- An uppercase hexadecimal digit. -/
def hexDigit (value : Nat) : Char :=
  if value < 10 then Char.ofNat (48 + value) else Char.ofNat (55 + value)

/-- An octet, escaped unless it is kept. -/
def encodeOctet (kept : UInt8 → Bool) (octet : UInt8) : Text :=
  if kept octet then
    [Char.ofUInt8 octet]
  else
    ['%', hexDigit (octet.toNat / 16), hexDigit (octet.toNat % 16)]

/-- `utf8_percent_encode`. -/
def encode (kept : UInt8 → Bool) (text : Text) : Text :=
  text.toOctets.flatMap (encodeOctet kept)

/-! ## The reader -/

/-- The value of a hexadecimal digit: `char::to_digit(16)`. -/
def hexValue (octet : UInt8) : Option Nat :=
  if 48 ≤ octet && octet ≤ 57 then
    some (octet.toNat - 48)
  else if 65 ≤ octet && octet ≤ 70 then
    some (octet.toNat - 55)
  else if 97 ≤ octet && octet ≤ 102 then
    some (octet.toNat - 87)
  else
    none

/-- The octet two digits spell. -/
def escaped (high low : UInt8) : Option UInt8 :=
  (hexValue high).bind fun upper => (hexValue low).map fun lower => UInt8.ofNat (upper * 16 + lower)

/-- `percent_decode`: a `%` before two digits is an escape, any other octet is
itself. -/
def decode : Octets → Octets
  | [] => []
  | [octet] => [octet]
  | [octet, next] => [octet, next]
  | octet :: high :: low :: rest =>
      if octet = 37 then
        match escaped high low with
        | some decoded => decoded :: decode rest
        | none => octet :: decode (high :: low :: rest)
      else
        octet :: decode (high :: low :: rest)

/-! ## Round trip -/

theorem hexDigit_spec {value : Nat} (small : value < 16) :
    (hexDigit value).toNat < 128 ∧ hexValue (UInt8.ofNat (hexDigit value).toNat) = some value := by
  have all : ∀ value < 16, (hexDigit value).toNat < 128 ∧
      hexValue (UInt8.ofNat (hexDigit value).toNat) = some value := by decide
  exact all value small

theorem decode_cons_of_ne {octet : UInt8} (literal : octet ≠ 37) (rest : Octets) :
    decode (octet :: rest) = octet :: decode rest := by
  rcases rest with _ | ⟨high, _ | ⟨low, rest⟩⟩
  · rfl
  · rfl
  · rw [decode, if_neg literal]

theorem decode_escape {high low decoded : UInt8} (isEscape : escaped high low = some decoded)
    (rest : Octets) : decode (37 :: high :: low :: rest) = decoded :: decode rest := by
  rw [decode, if_pos rfl, isEscape]

/-- What a writer keeps: ASCII without `%`. -/
structure Keeps (kept : UInt8 → Bool) : Prop where
  ascii : ∀ octet, kept octet = true → octet.toNat < 128
  percent : kept 37 = false

section RoundTrip

variable {kept : UInt8 → Bool}

theorem toOctets_encodeOctet (keeps : Keeps kept) (octet : UInt8) :
    toOctets (encodeOctet kept octet) =
      if kept octet then
        [octet]
      else
        [37, UInt8.ofNat (hexDigit (octet.toNat / 16)).toNat,
          UInt8.ofNat (hexDigit (octet.toNat % 16)).toNat] := by
  have bound : octet.toNat < 256 := octet.toNat_lt
  unfold encodeOctet
  split
  · rename_i isKept
    have ascii : (Char.ofUInt8 octet).toNat < 128 := by
      rw [toNat_ofUInt8]
      exact keeps.ascii octet isKept
    rw [toOctets_cons, utf8EncodeChar_of_ascii ascii, toNat_ofUInt8, UInt8.ofNat_toNat]
    rfl
  · have high := (hexDigit_spec (show octet.toNat / 16 < 16 by omega)).1
    have low := (hexDigit_spec (show octet.toNat % 16 < 16 by omega)).1
    rw [toOctets_cons, toOctets_cons, toOctets_cons, utf8EncodeChar_of_ascii high,
      utf8EncodeChar_of_ascii low]
    rfl

theorem decode_encodeOctet (keeps : Keeps kept) (octet : UInt8) (rest : Octets) :
    decode (toOctets (encodeOctet kept octet) ++ rest) = octet :: decode rest := by
  have bound : octet.toNat < 256 := octet.toNat_lt
  rw [toOctets_encodeOctet keeps]
  split
  · rename_i isKept
    have literal : octet ≠ 37 := by
      rintro rfl
      rw [keeps.percent] at isKept
      cases isKept
    exact decode_cons_of_ne literal rest
  · have high := (hexDigit_spec (show octet.toNat / 16 < 16 by omega)).2
    have low := (hexDigit_spec (show octet.toNat % 16 < 16 by omega)).2
    have value : octet.toNat / 16 * 16 + octet.toNat % 16 = octet.toNat := by omega
    refine decode_escape ?_ rest
    rw [escaped, high, low, Option.bind_some, Option.map_some, value, UInt8.ofNat_toNat]

theorem decode_flatMap_encodeOctet (keeps : Keeps kept) (octets : Octets) :
    decode (toOctets (octets.flatMap (encodeOctet kept))) = octets := by
  induction octets with
  | nil => rfl
  | cons octet rest ih =>
      rw [List.flatMap_cons, toOctets_append, decode_encodeOctet keeps, ih]

/-- The reader gives back what was written. -/
theorem decode_encode (keeps : Keeps kept) (text : Text) :
    decode (toOctets (encode kept text)) = toOctets text :=
  decode_flatMap_encodeOctet keeps (toOctets text)

/-- And as text, where the octets are read as UTF-8. -/
theorem fromUtf8_decode_encode (keeps : Keeps kept) (text : Text) :
    Octets.fromUtf8 (decode (toOctets (encode kept text))) = some text := by
  rw [decode_encode keeps, fromUtf8_toOctets]

end RoundTrip

/-! ## The letters written -/

theorem isHexDigit_hexDigit {value : Nat} (small : value < 16) :
    isAsciiDigit (hexDigit value) = true ∨
      ('A' ≤ hexDigit value ∧ hexDigit value ≤ 'F') := by
  have all : ∀ value < 16, isAsciiDigit (hexDigit value) = true ∨
      ('A' ≤ hexDigit value ∧ hexDigit value ≤ 'F') := by decide
  exact all value small

/-- A spelling has no character but octets that are kept, `%` and digits. -/
theorem notMem_encode {kept : UInt8 → Bool} {character : Char}
    (unkept : ∀ octet, kept octet = true → octet.toNat ≠ character.toNat)
    (notPercent : character ≠ '%') (notDigit : isAsciiDigit character = false)
    (notLetter : ¬ ('A' ≤ character ∧ character ≤ 'F')) (text : Text) :
    character ∉ encode kept text := by
  intro member
  obtain ⟨octet, -, inOctet⟩ := List.mem_flatMap.mp member
  have bound : octet.toNat < 256 := octet.toNat_lt
  have notHex {value : Nat} (small : value < 16) : character ≠ hexDigit value := by
    rintro rfl
    rcases isHexDigit_hexDigit small with digit | letter
    · rw [notDigit] at digit
      cases digit
    · exact notLetter letter
  unfold encodeOctet at inOctet
  split at inOctet
  · rename_i isKept
    rw [List.mem_singleton.mp inOctet] at unkept
    exact unkept octet isKept (toNat_ofUInt8 octet).symm
  · simp only [List.mem_cons, List.not_mem_nil, or_false] at inOctet
    rcases inOctet with isPercent | isHigh | isLow
    · exact notPercent isPercent
    · exact notHex (by omega) isHigh
    · exact notHex (by omega) isLow

/-- Nothing but the empty text is spelled by nothing. -/
theorem encode_eq_nil_iff {kept : UInt8 → Bool} {text : Text} : encode kept text = [] ↔ text = [] := by
  cases text with
  | nil => exact ⟨fun _ => rfl, fun _ => rfl⟩
  | cons character rest =>
      cases octets : String.utf8EncodeChar character with
      | nil => exact absurd octets (utf8EncodeChar_ne_nil character)
      | cons octet others =>
          have spelled : encodeOctet kept octet ≠ [] := by
            unfold encodeOctet
            split <;> simp
          simp [encode, octets, spelled]

end Kynos.Text.Percent
