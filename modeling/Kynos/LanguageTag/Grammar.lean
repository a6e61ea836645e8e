import Kynos.Http.Field

/-!
# Language tags

The reader of RFC 5646 language tags and the casing a tag is stored in. The
reader walks the subtags once, with a flag for each position of the grammar it
has passed. Lengths are counted in octets, as the reader counts them.
-/

namespace Kynos.LanguageTag

/-- Why a string does not name a language. -/
inductive TagDefect where
  | empty
  | malformedSubtag
  | primaryLanguage
  | misplaced
  | danglingSingleton
  deriving DecidableEq, Repr

/-- The tags the grammar calls irregular. -/
def irregular : List Text :=
  ["en-GB-oed".toList, "i-ami".toList, "i-bnn".toList, "i-default".toList, "i-enochian".toList,
    "i-hak".toList, "i-klingon".toList, "i-lux".toList, "i-mingo".toList, "i-navajo".toList,
    "i-pwn".toList, "i-tao".toList, "i-tay".toList, "i-tsu".toList, "sgn-BE-FR".toList,
    "sgn-BE-NL".toList, "sgn-CH-DE".toList]

/-! ## Letters -/

/-- `u8::is_ascii_alphabetic`. -/
def isAsciiAlphabetic (character : Char) : Bool :=
  ('a' ≤ character && character ≤ 'z') || ('A' ≤ character && character ≤ 'Z')

/-- `u8::is_ascii_alphanumeric`. -/
def isAsciiAlphanumeric (character : Char) : Bool :=
  isAsciiAlphabetic character || Text.isAsciiDigit character

def allAlpha (subtag : Text) : Bool :=
  subtag.all isAsciiAlphabetic

def allDigit (subtag : Text) : Bool :=
  subtag.all Text.isAsciiDigit

def allAlphanum (subtag : Text) : Bool :=
  subtag.all isAsciiAlphanumeric

/-- The octets of a text, counted: `str::len`. -/
def len (text : Text) : Nat :=
  text.toOctets.length

/-- Whether the first octet of a subtag is a digit. -/
def startsWithDigit (subtag : Text) : Bool :=
  subtag.head?.any Text.isAsciiDigit

/-- Whether a subtag is the one that opens private use. -/
def isPrivate (subtag : Text) : Bool :=
  Text.eqIgnoreAsciiCase subtag ['x']

/-! ## The walk -/

/-- What the walk has passed. -/
structure Position where
  extlangAllowed : Bool
  extlangs : Nat
  seenScript : Bool
  seenRegion : Bool
  inExtensions : Bool
  deriving DecidableEq, Repr

/-- The rest of a tag, after its primary language. -/
def langtag (position : Position) : List Text → Except TagDefect Unit
  | [] => .ok ()
  | subtag :: rest =>
      if isPrivate subtag then
        if rest.isEmpty then .error .danglingSingleton else .ok ()
      else if len subtag = 1 then
        match rest with
        | [] => .error .danglingSingleton
        | next :: _ =>
            if len next < 2 then
              .error .danglingSingleton
            else
              langtag { position with inExtensions := true } rest
      else if position.inExtensions then
        langtag position rest
      else if position.extlangAllowed ∧ !position.seenScript ∧ !position.seenRegion ∧
          position.extlangs < 3 ∧ len subtag = 3 ∧ allAlpha subtag then
        langtag { position with extlangs := position.extlangs + 1 } rest
      else if !position.seenScript ∧ !position.seenRegion ∧ len subtag = 4 ∧ allAlpha subtag then
        langtag { position with seenScript := true } rest
      else if !position.seenRegion ∧
          ((len subtag = 2 ∧ allAlpha subtag) ∨ (len subtag = 3 ∧ allDigit subtag)) then
        langtag { position with seenRegion := true, seenScript := true } rest
      else if 5 ≤ len subtag ∨ (len subtag = 4 ∧ startsWithDigit subtag) then
        langtag { position with seenScript := true, seenRegion := true } rest
      else
        .error .misplaced

/-- The position after a primary language. -/
def Position.start (extlangAllowed : Bool) : Position where
  extlangAllowed := extlangAllowed
  extlangs := 0
  seenScript := false
  seenRegion := false
  inExtensions := false

/-- Whether a subtag has one to eight letters and digits. -/
def isSubtag (subtag : Text) : Bool :=
  len subtag ≠ 0 && len subtag ≤ 8 && allAlphanum subtag

/-- The tag as its subtags. -/
def checkSubtags (subtags : List Text) : Except TagDefect Unit :=
  if !subtags.all isSubtag then
    .error .malformedSubtag
  else
    match subtags with
    | [] => .error .malformedSubtag
    | first :: rest =>
        if isPrivate first then
          if rest.isEmpty then .error .danglingSingleton else .ok ()
        else if len first < 2 ∨ 8 < len first ∨ !allAlpha first then
          .error .primaryLanguage
        else
          langtag (.start (len first ≤ 3)) rest

/-- Whether a string is a language tag, or the first way it is not one. -/
def check (value : Text) : Except TagDefect Unit :=
  if value.isEmpty then
    .error .empty
  else if irregular.any fun tag => Text.eqIgnoreAsciiCase value tag then
    .ok ()
  else
    checkSubtags (value.splitOn '-')

/-- Whether a string is a language tag. -/
def isWellFormed (value : Text) : Bool :=
  (check value).isOk

/-! ## The stored form -/

/-- `to_ascii_uppercase` of one character. -/
def toAsciiUpper (character : Char) : Char :=
  if 'a' ≤ character ∧ character ≤ 'z' then
    Char.ofNat (character.toNat - 32)
  else
    character

/-- A subtag in upper case. -/
def uppercase (subtag : Text) : Text :=
  subtag.map toAsciiUpper

/-- A subtag in lower case but for its first letter. -/
def titlecase : Text → Text
  | [] => []
  | first :: rest => toAsciiUpper first :: Text.toAsciiLowercase rest

/-- The subtags after the first one, each in its casing. -/
def normalizeRest (afterSingleton : Bool) : List Text → List Text
  | [] => []
  | subtag :: rest =>
      (if !afterSingleton ∧ len subtag = 4 then
          titlecase subtag
        else if !afterSingleton ∧ len subtag = 2 then
          uppercase subtag
        else
          Text.toAsciiLowercase subtag) ::
        normalizeRest (afterSingleton || len subtag = 1) rest

/-- The subtags of a tag, each in its casing. -/
def normalizeSubtags : List Text → List Text
  | [] => []
  | first :: rest => Text.toAsciiLowercase first :: normalizeRest (len first = 1) rest

/-- The casing a tag is stored in: lower case, except for subtags of two and
four letters that are neither first nor after a singleton. -/
def normalize (value : Text) : Text :=
  ['-'].intercalate (normalizeSubtags (value.splitOn '-'))

/-- `LanguageTag::parse`: a tag in its stored form. -/
def parse (value : Text) : Except TagDefect Text :=
  (check value).map fun () => normalize value

example : parse "MN-cYRL-mn".toList = .ok "mn-Cyrl-MN".toList := by
  decide +kernel

end Kynos.LanguageTag
