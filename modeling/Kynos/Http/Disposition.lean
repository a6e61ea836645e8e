import Kynos.Http.Field
import Kynos.Http.Lists

/-!
# Content-Disposition

The disposition a download is sent with (RFC 6266): a quoted ASCII fallback of
the filename and, where the fallback lost something, its UTF-8 percent-encoding
(RFC 8187). Every filename is spelled in visible ASCII, so the field is never
refused.
-/

namespace Kynos.Http

open HeaderValue

/-- How a recipient should present a representation. -/
inductive Disposition where
  | attachment
  | inline
  deriving DecidableEq, Repr

/-- The token a disposition is named by. -/
def Disposition.token : Disposition → Text
  | .attachment => "attachment".toList
  | .inline => "inline".toList

/-- A `Content-Disposition` a response carries. -/
structure ContentDisposition where
  disposition : Disposition
  filename : Option Text
  deriving DecidableEq, Repr

namespace ContentDisposition

/-- `char::is_ascii_graphic`. -/
def isAsciiGraphic (character : Char) : Bool :=
  0x21 ≤ character.toNat && character.toNat ≤ 0x7e

/-- One character of the quoted fallback: itself, or `_`. -/
def asciiFallbackOf (character : Char) : Char :=
  if character = '"' ∨ character = '\\' ∨ character = '%' then
    '_'
  else if character = ' ' ∨ isAsciiGraphic character then
    character
  else
    '_'

/-- The quoted fallback: what survives, and one `_` for what does not. -/
def asciiFallback (filename : Text) : Text :=
  filename.map asciiFallbackOf

/-- RFC 8187's `attr-char`. -/
def isAttrChar (octet : UInt8) : Bool :=
  (0x30 ≤ octet && octet ≤ 0x39) || (0x41 ≤ octet && octet ≤ 0x5a) ||
    (0x61 ≤ octet && octet ≤ 0x7a) ||
    "!#$&+-.^_`|~".toList.any fun character => octet.toNat == character.toNat

/-- An uppercase hexadecimal digit. -/
def hexDigit (value : Nat) : Char :=
  if value < 10 then Char.ofNat (48 + value) else Char.ofNat (55 + value)

/-- An octet, percent-encoded unless it is an `attr-char`. -/
def encodeOctet (octet : UInt8) : Text :=
  if isAttrChar octet then
    [Char.ofUInt8 octet]
  else
    ['%', hexDigit (octet.toNat / 16), hexDigit (octet.toNat % 16)]

/-- The `value-chars` of a value. -/
def encodeExtValue (value : Text) : Text :=
  value.toOctets.flatMap encodeOctet

/-- The field value. -/
def fieldValue (field : ContentDisposition) : Text :=
  match field.filename with
  | none => field.disposition.token
  | some filename =>
      let fallback := asciiFallback filename
      let plain := field.disposition.token ++ "; filename=\"".toList ++ fallback ++ ['"']
      if fallback = filename then
        plain
      else
        plain ++ "; filename*=UTF-8''".toList ++ encodeExtValue filename

/-- The field as it is sent. -/
def encode (field : ContentDisposition) : Option HeaderValue :=
  HeaderValue.fromStr field.fieldValue

/-! ## The value is printable ASCII -/

/-- A printable character of ASCII: visible, or a space. -/
def IsPrintable (character : Char) : Prop :=
  32 ≤ character.toNat ∧ character.toNat < 127

instance : DecidablePred IsPrintable :=
  fun _ => inferInstanceAs (Decidable (_ ∧ _))

/-- What the fallback is made of: no letter of it ends the quoted string or
escapes another. -/
theorem asciiFallbackOf_spec (character : Char) :
    IsPrintable (asciiFallbackOf character) ∧ asciiFallbackOf character ≠ '"' ∧
      asciiFallbackOf character ≠ '\\' := by
  unfold asciiFallbackOf
  split
  · decide
  · rename_i unchanged
    split
    · rename_i kept
      refine ⟨?_, fun quote => unchanged (.inl quote), fun escape => unchanged (.inr (.inl escape))⟩
      rcases kept with rfl | graphic
      · decide
      · simp only [isAsciiGraphic, Bool.and_eq_true, decide_eq_true_eq] at graphic
        exact ⟨by omega, by omega⟩
    · decide

theorem isTchar_hexDigit {value : Nat} (small : value < 16) : isTchar (hexDigit value) = true := by
  have all : ∀ value < 16, isTchar (hexDigit value) = true := by decide
  exact all value small

theorem isTchar_of_isAttrChar {octet : UInt8} (attrChar : isAttrChar octet = true) :
    isTchar (Char.ofUInt8 octet) = true := by
  have code : (Char.ofUInt8 octet).toNat = octet.toNat := UInt8.toNat_toUInt32 octet
  have listed : "!#$&+-.^_`|~".toList.all isTchar = true := by decide
  have outside : ∀ delimiter ∈ delimiters, ¬ (48 ≤ delimiter.toNat ∧ delimiter.toNat ≤ 57) ∧
      ¬ (65 ≤ delimiter.toNat ∧ delimiter.toNat ≤ 90) ∧
      ¬ (97 ≤ delimiter.toNat ∧ delimiter.toNat ≤ 122) :=
    List.all_iff_forall_prop.mp (by decide)
  simp only [isAttrChar, Bool.or_eq_true, Bool.and_eq_true, decide_eq_true_eq, List.any_eq_true,
    beq_iff_eq, UInt8.le_iff_toNat_le, UInt8.toNat_ofNat, ← code] at attrChar
  generalize Char.ofUInt8 octet = character at attrChar
  rcases attrChar with alphanumeric | ⟨other, member, same⟩
  · have undelimited : character ∉ delimiters := fun member => by
      have := outside character member
      omega
    simp only [isTchar, Bool.and_eq_true, decide_eq_true_eq, Bool.not_eq_true',
      List.contains_eq_mem, decide_eq_false_iff_not]
    exact ⟨by omega, undelimited⟩
  · rw [Char.toNat_inj.mp same]
    exact List.all_eq_true.mp listed other member

theorem isTchar_of_mem_encodeOctet {octet : UInt8} {character : Char}
    (member : character ∈ encodeOctet octet) : isTchar character = true := by
  unfold encodeOctet at member
  split at member
  · rename_i attrChar
    rw [List.mem_singleton.mp member]
    exact isTchar_of_isAttrChar attrChar
  · have bound : octet.toNat < 256 := octet.toNat_lt
    simp only [List.mem_cons, List.not_mem_nil, or_false] at member
    rcases member with rfl | rfl | rfl
    · decide
    · exact isTchar_hexDigit (by omega)
    · exact isTchar_hexDigit (by omega)

/-- An encoded filename has no delimiter. -/
theorem isTchar_of_mem_encodeExtValue {filename : Text} {character : Char}
    (member : character ∈ encodeExtValue filename) : isTchar character = true := by
  obtain ⟨octet, -, inOctet⟩ := List.mem_flatMap.mp member
  exact isTchar_of_mem_encodeOctet inOctet

theorem isPrintable_of_mem_fieldValue {field : ContentDisposition} {character : Char}
    (member : character ∈ field.fieldValue) : IsPrintable character := by
  have token : ∀ character ∈ field.disposition.token, IsPrintable character := by
    cases field.disposition <;> exact List.all_iff_forall_prop.mp (by decide)
  have opening : ∀ character ∈ "; filename=\"".toList, IsPrintable character :=
    List.all_iff_forall_prop.mp (by decide)
  have starred : ∀ character ∈ "; filename*=UTF-8''".toList, IsPrintable character :=
    List.all_iff_forall_prop.mp (by decide)
  have fallback : ∀ filename, ∀ character ∈ asciiFallback filename, IsPrintable character := by
    intro filename character member
    obtain ⟨original, -, rfl⟩ := List.mem_map.mp member
    exact (asciiFallbackOf_spec original).1
  unfold fieldValue at member
  cases named : field.filename with
  | none =>
      rw [named] at member
      exact token character member
  | some filename =>
      have plain : ∀ character ∈ field.disposition.token ++ "; filename=\"".toList ++
          asciiFallback filename ++ ['"'], IsPrintable character := by
        intro character member
        simp only [List.mem_append, List.mem_singleton] at member
        rcases member with ((inToken | inOpening) | inFallback) | rfl
        · exact token character inToken
        · exact opening character inOpening
        · exact fallback filename character inFallback
        · decide
      rw [named] at member
      simp only at member
      split at member
      · exact plain character member
      · rcases List.mem_append.mp member with early | encoded
        · rcases List.mem_append.mp early with inPlain | inStarred
          · exact plain character inPlain
          · exact starred character inStarred
        · obtain ⟨low, high⟩ := toNat_of_isTchar (isTchar_of_mem_encodeExtValue encoded)
          exact ⟨by omega, by omega⟩

/-- Every filename can be sent. -/
theorem exists_encode (field : ContentDisposition) :
    ∃ value, field.encode = some value ∧ value.toStr = some field.fieldValue :=
  exists_fromStr fun _ member => .inl (isPrintable_of_mem_fieldValue member)

end ContentDisposition

end Kynos.Http
