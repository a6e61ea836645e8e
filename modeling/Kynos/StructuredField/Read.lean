import Kynos.Http.Lists

/-!
# Reading structured fields

The parser of RFC 9651 section 4.2 for Lists of Items: each member is an
integer, a string, a token or a boolean, followed by parameters. Inner lists and
the other bare items begin with other characters and are refused. Each reader
returns what it read and the text after it.
-/

namespace Kynos.StructuredField

open Kynos.Http

/-- A bare item. -/
inductive BareItem where
  | integer (value : Int)
  | string (text : Text)
  | token (text : Text)
  | boolean (value : Bool)
  deriving DecidableEq, Repr

/-- An item and its parameters, in order, each key once. -/
structure Item where
  value : BareItem
  parameters : List (Text × BareItem)
  deriving DecidableEq, Repr

/-! ## Characters -/

/-- `ALPHA` -/
def isAlpha (character : Char) : Bool :=
  ('a' ≤ character && character ≤ 'z') || ('A' ≤ character && character ≤ 'Z')

/-- `lcalpha` -/
def isLowerAlpha (character : Char) : Bool :=
  'a' ≤ character && character ≤ 'z'

/-- The first character of a token. -/
def opensToken (character : Char) : Bool :=
  isAlpha character || character == '*'

/-- A further character of a token. -/
def isTokenCharacter (character : Char) : Bool :=
  isTchar character || character == ':' || character == '/'

/-- The first character of a key. -/
def opensKey (character : Char) : Bool :=
  isLowerAlpha character || character == '*'

/-- A further character of a key. -/
def isKeyCharacter (character : Char) : Bool :=
  isLowerAlpha character || Text.isAsciiDigit character || "_-.*".toList.contains character

/-- A character of a string. -/
def isPrintable (character : Char) : Bool :=
  32 ≤ character.toNat && character.toNat < 127

/-! ## Bare items -/

/-- Whether a sign comes first, and what follows it. -/
def readSign : Text → Bool × Text
  | '-' :: rest => (true, rest)
  | text => (false, text)

/-- Section 4.2.4, without decimals: at most fifteen digits after a sign. -/
def readInteger (text : Text) : Option (BareItem × Text) :=
  let (negative, unsigned) := readSign text
  let digits := unsigned.takeWhile Text.isAsciiDigit
  let rest := unsigned.dropWhile Text.isAsciiDigit
  if digits.isEmpty || 15 < digits.length || rest.head? == some '.' then
    none
  else
    let value : Int := Nat.ofDigitChars 10 digits 0
    some (.integer (if negative then -value else value), rest)

/-- Section 4.2.5, after the opening quote. -/
def readString : Text → Option (Text × Text)
  | [] => none
  | character :: rest =>
      if character = '\\' then
        match rest with
        | [] => none
        | escaped :: rest =>
            if escaped = '"' ∨ escaped = '\\' then
              (readString rest).map fun (text, rest) => (escaped :: text, rest)
            else
              none
      else if character = '"' then
        some ([], rest)
      else if isPrintable character then
        (readString rest).map fun (text, rest) => (character :: text, rest)
      else
        none

/-- A first character and further ones: section 4.2.6 and section 4.2.3.3. -/
def readName (opens continues : Char → Bool) : Text → Option (Text × Text)
  | [] => none
  | character :: rest =>
      if opens character then
        some (character :: rest.takeWhile continues, rest.dropWhile continues)
      else
        none

/-- Section 4.2.7. -/
def readBoolean : Text → Option (BareItem × Text)
  | '?' :: '1' :: rest => some (.boolean true, rest)
  | '?' :: '0' :: rest => some (.boolean false, rest)
  | _ => none

/-- Section 4.2.3.1. -/
def readBareItem (text : Text) : Option (BareItem × Text) :=
  match text with
  | [] => none
  | character :: rest =>
      if character = '-' ∨ Text.isAsciiDigit character then
        readInteger text
      else if character = '"' then
        (readString rest).map fun (text, rest) => (.string text, rest)
      else if opensToken character then
        (readName opensToken isTokenCharacter text).map fun (name, rest) => (.token name, rest)
      else
        readBoolean text

/-! ## Parameters -/

/-- A parameter overwrites one of its key, in its place, or comes last. -/
def insertParameter (key : Text) (value : BareItem) :
    List (Text × BareItem) → List (Text × BareItem)
  | [] => [(key, value)]
  | entry :: rest =>
      if entry.1 = key then
        (key, value) :: rest
      else
        entry :: insertParameter key value rest

/-- Section 4.2.3.2, where `steps` bounds how many parameters are read. -/
def readParameters (read : List (Text × BareItem)) :
    Nat → Text → Option (List (Text × BareItem) × Text)
  | 0, _ => none
  | steps + 1, text =>
      match text with
      | ';' :: rest =>
          match readName opensKey isKeyCharacter (rest.dropWhile (· == ' ')) with
          | none => none
          | some (key, rest) =>
              match rest with
              | '=' :: rest =>
                  match readBareItem rest with
                  | none => none
                  | some (value, rest) => readParameters (insertParameter key value read) steps rest
              | _ => readParameters (insertParameter key (.boolean true) read) steps rest
      | _ => some (read, text)

/-- Section 4.2.3: a text of `n` characters has fewer than `n + 1` parameters. -/
def readItem (text : Text) : Option (Item × Text) :=
  match readBareItem text with
  | none => none
  | some (value, rest) =>
      (readParameters [] (rest.length + 1) rest).map fun (parameters, rest) =>
        (⟨value, parameters⟩, rest)

/-! ## Lists -/

/-- Section 4.2.1, from the first member on. -/
def readMembers : Nat → Text → Option (List Item)
  | 0, _ => none
  | steps + 1, text =>
      match readItem text with
      | none => none
      | some (item, rest) =>
          match rest.dropWhile Text.isOws with
          | [] => some [item]
          | ',' :: rest => (readMembers steps (rest.dropWhile Text.isOws)).map (item :: ·)
          | _ => none

/-- A field as a List, which is empty only where the field is. -/
def readList (text : Text) : Option (List Item) :=
  match text.dropWhile (· == ' ') with
  | [] => some []
  | text => readMembers (text.length + 1) text

end Kynos.StructuredField
