import Kynos.LanguageTag.Grammar
import Kynos.Word.Led

/-!
# The grammar of language tags

The productions of RFC 5646 section 2.1 as languages, and the same productions
over lists of subtags. A hyphen stands before every subtag but the first, so a
tag is in the grammar exactly where its subtags are in the grammar over
subtags.
-/

namespace Kynos.LanguageTag

open Kynos.Word
open scoped Computability

namespace Abnf

/-! ## The productions -/

/-- `ALPHA` -/
def alpha : Language Char :=
  letters fun character => isAsciiAlphabetic character = true

/-- `DIGIT` -/
def digit : Language Char :=
  letters fun character => Text.isAsciiDigit character = true

/-- `alphanum = (ALPHA / DIGIT)` -/
def alphanum : Language Char :=
  letters fun character => isAsciiAlphanumeric character = true

/-- A literal of the grammar, in any case. -/
def literal (word : Text) : Language Char :=
  { text | Text.eqIgnoreAsciiCase text word = true }

/-- A hyphen and a word. -/
def dashed (word : Language Char) : Language Char :=
  {['-']} * word

/-- `extlang = 3ALPHA *2("-" 3ALPHA)` -/
def extlang : Language Char :=
  repeated 3 3 alpha * repeated 0 2 (dashed (repeated 3 3 alpha))

/-- `language = 2*3ALPHA ["-" extlang] / 4ALPHA / 5*8ALPHA` -/
def language : Language Char :=
  repeated 2 3 alpha * optional (dashed extlang) + repeated 4 4 alpha + repeated 5 8 alpha

/-- `script = 4ALPHA` -/
def script : Language Char :=
  repeated 4 4 alpha

/-- `region = 2ALPHA / 3DIGIT` -/
def region : Language Char :=
  repeated 2 2 alpha + repeated 3 3 digit

/-- `variant = 5*8alphanum / (DIGIT 3alphanum)` -/
def variant : Language Char :=
  repeated 5 8 alphanum + digit * repeated 3 3 alphanum

/-- `singleton`: a digit or a letter that is no `x`. -/
def singleton : Language Char :=
  letters fun character =>
    ('0' ≤ character ∧ character ≤ '9') ∨ ('A' ≤ character ∧ character ≤ 'W') ∨
      ('Y' ≤ character ∧ character ≤ 'Z') ∨ ('a' ≤ character ∧ character ≤ 'w') ∨
      ('y' ≤ character ∧ character ≤ 'z')

/-- `extension = singleton 1*("-" (2*8alphanum))` -/
def extension : Language Char :=
  singleton * (dashed (repeated 2 8 alphanum) * (dashed (repeated 2 8 alphanum))∗)

/-- `privateuse = "x" 1*("-" (1*8alphanum))` -/
def privateuse : Language Char :=
  literal ['x'] * (dashed (repeated 1 8 alphanum) * (dashed (repeated 1 8 alphanum))∗)

/-- `langtag = language ["-" script] ["-" region] *("-" variant) *("-" extension)
["-" privateuse]` -/
def langtag : Language Char :=
  language * (optional (dashed script) * (optional (dashed region) * ((dashed variant)∗ *
    ((dashed extension)∗ * optional (dashed privateuse)))))

/-- `irregular` -/
def irregular : List Text :=
  ["en-GB-oed".toList, "i-ami".toList, "i-bnn".toList, "i-default".toList, "i-enochian".toList,
    "i-hak".toList, "i-klingon".toList, "i-lux".toList, "i-mingo".toList, "i-navajo".toList,
    "i-pwn".toList, "i-tao".toList, "i-tay".toList, "i-tsu".toList, "sgn-BE-FR".toList,
    "sgn-BE-NL".toList, "sgn-CH-DE".toList]

/-- `regular` -/
def regular : List Text :=
  ["art-lojban".toList, "cel-gaulish".toList, "no-bok".toList, "no-nyn".toList,
    "zh-guoyu".toList, "zh-hakka".toList, "zh-min".toList, "zh-min-nan".toList,
    "zh-xiang".toList]

/-- `grandfathered = irregular / regular` -/
def grandfathered : Language Char :=
  { text | ∃ word ∈ irregular ++ regular, text ∈ literal word }

/-- `Language-Tag = langtag / privateuse / grandfathered` -/
def languageTag : Language Char :=
  langtag + privateuse + grandfathered

/-! ## The productions over subtags -/

/-- A list of one subtag of a language. -/
def subtag (word : Language Char) : Language Text :=
  letters (· ∈ word)

theorem ledBy_subtag (word : Language Char) : ledBy '-' (subtag word) = dashed word :=
  ledBy_letters word

/-- Further languages. -/
def extlangs : Language Text :=
  subtag (repeated 3 3 alpha) * repeated 0 2 (subtag (repeated 3 3 alpha))

/-- A singleton and subtags of two letters or more. -/
def extensions : Language Text :=
  subtag singleton * (subtag (repeated 2 8 alphanum) * (subtag (repeated 2 8 alphanum))∗)

/-- An `x` and subtags. -/
def privates : Language Text :=
  subtag (literal ['x']) * (subtag (repeated 1 8 alphanum) * (subtag (repeated 1 8 alphanum))∗)

/-- The subtags from the extensions on. -/
def afterVariants : Language Text :=
  extensions∗ * optional privates

/-- The subtags from the variants on. -/
def afterRegion : Language Text :=
  (subtag variant)∗ * afterVariants

/-- The subtags from the region on. -/
def afterScript : Language Text :=
  optional (subtag region) * afterRegion

/-- The subtags from the script on. -/
def afterLanguage : Language Text :=
  optional (subtag script) * afterScript

theorem ledBy_extlangs : ledBy '-' extlangs = dashed extlang := by
  rw [extlangs, ledBy_mul, ledBy_repeated, ledBy_subtag, dashed, dashed, extlang, mul_assoc]
  rfl

theorem ledBy_extensions : ledBy '-' extensions = dashed extension := by
  rw [extensions, ledBy_mul, ledBy_mul, ledBy_kstar, ledBy_subtag, ledBy_subtag, extension, dashed,
    mul_assoc]
  rfl

theorem ledBy_privates : ledBy '-' privates = dashed privateuse := by
  rw [privates, ledBy_mul, ledBy_mul, ledBy_kstar, ledBy_subtag, ledBy_subtag, privateuse, dashed,
    mul_assoc]
  rfl

theorem ledBy_afterLanguage : ledBy '-' afterLanguage =
    optional (dashed script) * (optional (dashed region) * ((dashed variant)∗ *
      ((dashed extension)∗ * optional (dashed privateuse)))) := by
  simp only [afterLanguage, afterScript, afterRegion, afterVariants, ledBy_mul, ledBy_optional,
    ledBy_kstar, ledBy_subtag, ledBy_extensions, ledBy_privates]

end Abnf

end Kynos.LanguageTag
