import Kynos.Http.Disposition
import Kynos.Http.Lists
import Kynos.LanguageTag.Abnf
import Kynos.Text.Percent
import Mathlib.Order.CompletePartialOrder

/-!
# The grammar of Content-Disposition

The productions of RFC 6266 section 4.1 and of RFC 8187 section 3.2.1 as
languages, and the field as a word of them: its type is the token it was given,
and each of its parameters is a filename.
-/

namespace Kynos.Http.ContentDisposition

open Kynos.Word
open scoped Computability

namespace Abnf

/-! ## The productions -/

/-- `OWS = *( SP / HTAB )` -/
def ows : Language Char :=
  (letters fun character => Text.isOws character = true)∗

/-- `token = 1*tchar` -/
def token : Language Char :=
  letters (isTchar · = true) * (letters (isTchar · = true))∗

/-- `qdtext = HTAB / SP / %x21 / %x23-5B / %x5D-7E / obs-text` -/
def qdtext : Language Char :=
  letters fun character => character = '\t' ∨
    (32 ≤ character.toNat ∧ character ≠ '"' ∧ character ≠ '\\' ∧ character.toNat ≠ 127)

/-- `quoted-pair = "\" ( HTAB / SP / VCHAR / obs-text )` -/
def quotedPair : Language Char :=
  {['\\']} * letters fun character => character = '\t' ∨
    (32 ≤ character.toNat ∧ character.toNat ≠ 127)

/-- `quoted-string = DQUOTE *( qdtext / quoted-pair ) DQUOTE` -/
def quotedString : Language Char :=
  {['"']} * ((qdtext + quotedPair)∗ * {['"']})

/-- `value = token | quoted-string` -/
def value : Language Char :=
  token + quotedString

/-- `HEXDIG`, in any case. -/
def hexdig : Language Char :=
  letters fun character => Text.isAsciiDigit character = true ∨
    ('A' ≤ character ∧ character ≤ 'F') ∨ ('a' ≤ character ∧ character ≤ 'f')

/-- `pct-encoded = "%" HEXDIG HEXDIG` -/
def pctEncoded : Language Char :=
  {['%']} * (hexdig * hexdig)

/-- `attr-char = ALPHA / DIGIT / "!" / "#" / "$" / "&" / "+" / "-" / "." / "^" / "_" /
"`" / "|" / "~"` -/
def attrChar : Language Char :=
  letters fun character => LanguageTag.isAsciiAlphanumeric character = true ∨
    character ∈ "!#$&+-.^_`|~".toList

/-- `value-chars = *( pct-encoded / attr-char )` -/
def valueChars : Language Char :=
  (pctEncoded + attrChar)∗

/-- `mime-charset = 1*mime-charsetc` -/
def mimeCharset : Language Char :=
  let mimeCharsetc := letters fun character =>
    LanguageTag.isAsciiAlphanumeric character = true ∨
      character ∈ "!#$%&+-^_`\x7b\x7d~".toList
  mimeCharsetc * mimeCharsetc∗

/-- `charset = "UTF-8" / mime-charset` -/
def charset : Language Char :=
  LanguageTag.Abnf.literal "UTF-8".toList + mimeCharset

/-- `ext-value = charset "'" [ language ] "'" value-chars` -/
def extValue : Language Char :=
  charset * ({['\'']} * (optional LanguageTag.Abnf.languageTag * ({['\'']} * valueChars)))

/-- `filename-parm = "filename" "=" value | "filename*" "=" ext-value` -/
def filenameParm : Language Char :=
  LanguageTag.Abnf.literal "filename".toList * ({['=']} * value) +
    LanguageTag.Abnf.literal "filename*".toList * ({['=']} * extValue)

/-- `disp-ext-parm = token "=" value | ext-token "=" ext-value` -/
def dispExtParm : Language Char :=
  token * ({['=']} * value) + (token * {['*']}) * ({['=']} * extValue)

/-- `disposition-parm = filename-parm | disp-ext-parm` -/
def dispositionParm : Language Char :=
  filenameParm + dispExtParm

/-- `disposition-type = "inline" | "attachment" | disp-ext-type` -/
def dispositionType : Language Char :=
  LanguageTag.Abnf.literal "inline".toList + LanguageTag.Abnf.literal "attachment".toList + token

/-- A type and parameters, each after a semicolon. -/
def field (type_ parameter : Language Char) : Language Char :=
  type_ * (ows * ({[';']} * (ows * parameter)))∗

/-- `content-disposition`, after the name of the field. -/
def contentDisposition : Language Char :=
  field dispositionType dispositionParm

/-! ## Parameters -/

theorem nil_mem_ows : [] ∈ ows :=
  Language.nil_mem_kstar _

theorem space_mem_ows : [' '] ∈ ows :=
  mem_kstar_letters.mpr (by simp [Text.isOws])

theorem mem_literal (word : Text) : word ∈ LanguageTag.Abnf.literal word :=
  beq_self_eq_true _

/-- A further parameter, after a semicolon and a space. -/
theorem field_append {type_ parameters : Language Char} {before parameter : Text}
    (isField : before ∈ field type_ parameters) (isParameter : parameter ∈ parameters) :
    before ++ ("; ".toList ++ parameter) ∈ field type_ parameters := by
  have slot : [] ++ (';' :: ([' '] ++ parameter)) ∈ ows * ({[';']} * (ows * parameters)) :=
    Language.append_mem_mul nil_mem_ows
      (cons_mem_singleton_mul (Language.append_mem_mul space_mem_ows isParameter))
  obtain ⟨type', isType, slots, areSlots, rfl⟩ := Language.mem_mul.mp isField
  rw [List.append_assoc]
  refine Language.append_mem_mul isType ?_
  obtain ⟨list, rfl, all⟩ := Language.mem_kstar.mp areSlots
  refine Language.mem_kstar.mpr ⟨list ++ ["; ".toList ++ parameter], by simp, ?_⟩
  intro other member
  rcases List.mem_append.mp member with inList | isLast
  · exact all other inList
  · rw [List.mem_singleton.mp isLast]
    exact slot

theorem mem_field_of_type {type_ parameters : Language Char} {word : Text} (isType : word ∈ type_) :
    word ∈ field type_ parameters := by
  have joined := Language.append_mem_mul isType
    (Language.nil_mem_kstar (ows * ({[';']} * (ows * parameters))))
  rwa [List.append_nil] at joined

/-- A field of narrower types and parameters is a field. -/
theorem field_mono {type_ parameter wider widerParameter : Language Char} (types : type_ ≤ wider)
    (parameters : parameter ≤ widerParameter) :
    field type_ parameter ≤ field wider widerParameter :=
  mul_le_mul' types (kstar_mono (mul_le_mul_right (mul_le_mul_right (mul_le_mul_right parameters _) _) _))

/-! ## Values -/

/-- The quoted fallback is a quoted string. -/
theorem asciiFallback_mem_quotedString (filename : Text) :
    '"' :: (asciiFallback filename ++ ['"']) ∈ quotedString := by
  have plain : asciiFallback filename ∈ qdtext∗ := by
    refine mem_kstar_letters.mpr fun letter member => .inr ?_
    obtain ⟨original, -, rfl⟩ := List.mem_map.mp member
    obtain ⟨⟨low, high⟩, notQuote, notEscape⟩ := asciiFallbackOf_spec original
    exact ⟨low, notQuote, notEscape, by omega⟩
  have wider : qdtext∗ ≤ (qdtext + quotedPair)∗ := kstar_mono le_self_add
  exact cons_mem_singleton_mul (Language.append_mem_mul (wider plain) rfl)

theorem attrChar_of_isAttrChar {octet : UInt8} (isAttr : isAttrChar octet = true) :
    [Char.ofUInt8 octet] ∈ attrChar := by
  refine ⟨_, ?_, rfl⟩
  have code : (Char.ofUInt8 octet).toNat = octet.toNat := Text.toNat_ofUInt8 octet
  simp only [isAttrChar, Bool.or_eq_true, Bool.and_eq_true, decide_eq_true_eq, List.any_eq_true,
    beq_iff_eq, UInt8.le_iff_toNat_le, ← code] at isAttr
  simp only [LanguageTag.isAsciiAlphanumeric, LanguageTag.isAsciiAlphabetic, Text.isAsciiDigit,
    Bool.or_eq_true, Bool.and_eq_true, decide_eq_true_eq]
  rcases isAttr with ((digit | upper) | lower) | ⟨character, member, same⟩
  · exact .inl (.inr digit)
  · exact .inl (.inl (.inr upper))
  · exact .inl (.inl (.inl lower))
  · rw [Char.toNat_inj.mp same]
    exact .inr member

theorem hexDigit_mem_hexdig {value : Nat} (small : value < 16) : [hexDigit value] ∈ hexdig :=
  ⟨_, (Text.Percent.isHexDigit_hexDigit small).imp id .inl, rfl⟩

/-- An encoded filename is `value-chars`. -/
theorem encodeExtValue_mem_valueChars (filename : Text) :
    encodeExtValue filename ∈ valueChars := by
  refine Language.mem_kstar.mpr ⟨filename.toOctets.map encodeOctet, List.flatMap_def, ?_⟩
  intro word member
  obtain ⟨octet, -, rfl⟩ := List.mem_map.mp member
  have bound : octet.toNat < 256 := octet.toNat_lt
  unfold encodeOctet
  split
  · rename_i isAttr
    exact mem_add_right _ (attrChar_of_isAttrChar isAttr)
  · have digits : [hexDigit (octet.toNat / 16)] ++ [hexDigit (octet.toNat % 16)] ∈ hexdig * hexdig :=
      Language.append_mem_mul (hexDigit_mem_hexdig (by omega)) (hexDigit_mem_hexdig (by omega))
    exact mem_add_left (cons_mem_singleton_mul digits) _

/-! ## The field -/

theorem token_mem_dispositionType (disposition : Disposition) :
    disposition.token ∈ dispositionType := by
  cases disposition
  · exact mem_add_left (mem_add_right _ (mem_literal _)) _
  · exact mem_add_left (mem_add_left (mem_literal _) _) _

/-- The field is its token and filenames. -/
theorem fieldValue_mem_field (sent : ContentDisposition) :
    sent.fieldValue ∈ field {sent.disposition.token} filenameParm := by
  have token : sent.disposition.token ∈ field {sent.disposition.token} filenameParm :=
    mem_field_of_type rfl
  unfold fieldValue
  cases sent.filename with
  | none => exact token
  | some filename =>
      have plain : "filename".toList ++ ('=' :: '"' :: (asciiFallback filename ++ ['"'])) ∈
          filenameParm :=
        mem_add_left (Language.append_mem_mul (mem_literal _) (cons_mem_singleton_mul
          (mem_add_right _ (asciiFallback_mem_quotedString filename)))) _
      have encoded : '\'' :: ([] ++ '\'' :: encodeExtValue filename) ∈
          {['\'']} * (optional LanguageTag.Abnf.languageTag * ({['\'']} * valueChars)) :=
        cons_mem_singleton_mul (Language.append_mem_mul (mem_add_left rfl _)
          (cons_mem_singleton_mul (encodeExtValue_mem_valueChars filename)))
      have starred : "filename*".toList ++ ('=' :: ("UTF-8".toList ++ '\'' :: ([] ++ '\'' ::
          encodeExtValue filename))) ∈ filenameParm :=
        mem_add_right _ (Language.append_mem_mul (mem_literal _) (cons_mem_singleton_mul
          (Language.append_mem_mul (mem_add_left (mem_literal _) _) encoded)))
      have withPlain := field_append token plain
      have withBoth := field_append withPlain starred
      simp only
      split
      · simpa using withPlain
      · simpa using withBoth

/-- It is a field of the grammar. -/
theorem field_le_contentDisposition (disposition : Disposition) :
    field {disposition.token} filenameParm ≤ contentDisposition := by
  refine field_mono ?_ le_self_add
  rintro _ rfl
  exact token_mem_dispositionType disposition

end Abnf

end Kynos.Http.ContentDisposition
