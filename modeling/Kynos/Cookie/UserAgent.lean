import Kynos.Http.Field
import Kynos.Http.Lists
import Kynos.LanguageTag.Grammar
import Kynos.Numeral.Unsigned

/-!
# Cookies written and read

A `Set-Cookie` value: the name and the value, then the attributes in a fixed
order. RFC 6265 section 4.1.1 has no escape, so what cannot be spelled is
refused.

The pairs of every `Cookie` field of a request, in order: pairs are cut over
octets, so that one that is not ASCII hides no other. And what a user agent makes
of a `Set-Cookie` value by RFC 6265 section 5.2, with the two attributes that
later drafts of it add, `SameSite` and `Partitioned`.
-/

namespace Kynos.Http

open Kynos.Numeral Kynos.Word

/-- When a cookie may accompany a cross-site request. -/
inductive SameSite where
  | strict
  | lax
  | none
  deriving DecidableEq, Repr

/-- The attribute value, as it is spelled on the wire. -/
def SameSite.asStr : SameSite → Text
  | .strict => "Strict".toList
  | .lax => "Lax".toList
  | .none => "None".toList

structure Cookie where
  name : Text
  value : Text
  path : Option Text
  domain : Option Text
  maxAge : Option Duration
  secure : Bool
  httpOnly : Bool
  sameSite : Option SameSite
  partitioned : Bool
  deriving DecidableEq, Repr

namespace Cookie

def new (name value : Text) : Cookie :=
  ⟨name, value, none, none, none, false, false, none, false⟩

/-! ## What can be spelled -/

/-- The most a cookie's name and value may total. -/
def maxNameAndValue : Nat := 4096

def hostStart : Text := "__Host-".toList

def secureStart : Text := "__Secure-".toList

/-- Whether a name begins with a text in any case. -/
def startsWith (name start : Text) : Bool :=
  Text.eqIgnoreAsciiCase (name.take start.length) start

def isCookieOctet (character : Char) : Bool :=
  0x21 ≤ character.toNat && character.toNat ≤ 0x7e && ! ['"', ',', ';', '\\'].contains character

def isCookieValue (text : Text) : Bool :=
  text.all isCookieOctet

def isAttributeOctet (character : Char) : Bool :=
  0x20 ≤ character.toNat && character.toNat ≤ 0x7e && character != ';'

def isAttributeValue (text : Text) : Bool :=
  !text.isEmpty && text.all isAttributeOctet

/-- A text without one leading dot. -/
def stripDot : Text → Text
  | '.' :: rest => rest
  | text => text

def isLabel (label : Text) : Bool :=
  !label.isEmpty && label.toOctets.length ≤ 63 && label.head? != some '-' &&
    label.getLast? != some '-' &&
    label.all fun character => LanguageTag.isAsciiAlphanumeric character || character == '-'

def isDomainValue (text : Text) : Bool :=
  !(stripDot text).isEmpty && ((stripDot text).splitOn '.').all isLabel

/-- Whether the name asks for the `__Host-` terms. -/
def hostPrefixed (cookie : Cookie) : Bool :=
  startsWith cookie.name hostStart

/-! ## The attributes as they are written -/

/-- `Path`; `none` where it cannot be spelled. -/
def pathText (cookie : Cookie) : Option Text :=
  if cookie.hostPrefixed then
    some "; Path=/".toList
  else
    match cookie.path with
    | none => some []
    | some path => if isAttributeValue path then some ("; Path=".toList ++ path) else none

/-- `Domain`; `none` where it cannot be spelled. -/
def domainText (cookie : Cookie) : Option Text :=
  match cookie.domain with
  | none => some []
  | some domain => if isDomainValue domain then some ("; Domain=".toList ++ domain) else none

def maxAgeText (cookie : Cookie) : Text :=
  match cookie.maxAge with
  | none => []
  | some age => "; Max-Age=".toList ++ Text.decimal (Duration.wholeSeconds age)

/-- Whether `Secure` is sent: where it is asked for, and where a user agent drops
the cookie without it. -/
def isSecure (cookie : Cookie) : Bool :=
  cookie.secure || cookie.sameSite == some .none || cookie.partitioned || cookie.hostPrefixed ||
    startsWith cookie.name secureStart

def secureText (cookie : Cookie) : Text :=
  if cookie.isSecure then "; Secure".toList else []

def httpOnlyText (cookie : Cookie) : Text :=
  if cookie.httpOnly then "; HttpOnly".toList else []

def sameSiteText (cookie : Cookie) : Text :=
  match cookie.sameSite with
  | none => []
  | some sameSite => "; SameSite=".toList ++ sameSite.asStr

def partitionedText (cookie : Cookie) : Text :=
  if cookie.partitioned then "; Partitioned".toList else []

/-- `Cookie::encode`. -/
def encode (cookie : Cookie) : Option HeaderValue :=
  if !isToken cookie.name || !isCookieValue cookie.value then
    none
  else if cookie.name.toOctets.length + cookie.value.toOctets.length > maxNameAndValue then
    none
  else if cookie.hostPrefixed && (cookie.domain.isSome || cookie.path.any (· != "/".toList)) then
    none
  else
    match cookie.pathText, cookie.domainText with
    | some path, some domain =>
        HeaderValue.fromStr (cookie.name ++ '=' :: cookie.value ++ path ++ domain ++
          cookie.maxAgeText ++ cookie.secureText ++ cookie.httpOnlyText ++ cookie.sameSiteText ++
          cookie.partitionedText)
    | _, _ => none

end Cookie

end Kynos.Http

namespace Kynos.Http

open Kynos.Word

def Header.cookie : Text := "cookie".toList

namespace Cookie

/-- A value without one pair of surrounding double quotes. -/
def unquoted (value : Octets) : Octets :=
  match value with
  | 34 :: rest => if rest.getLast? = some 34 then rest.dropLast else value
  | _ => value

/-- One entry of a field, trimmed: its name and its value. An entry without an
equals sign is a value without a name. -/
def pairOf (entry : Octets) : Option (Octets × Octets) :=
  if entry.isEmpty then
    none
  else
    let (name, value) := (splitOnce 61 entry).getD ([], entry)
    some (Octets.trimAscii name, unquoted (Octets.trimAscii value))

/-- Every pair of every `Cookie` field, as octets. -/
def pairs (headers : HeaderMap) : List (Octets × Octets) :=
  ((headers.getAll Header.cookie).flatMap fun field => field.octets.splitOn 59).filterMap
    fun entry => pairOf (Octets.trimAscii entry)

/-- Octets as text, where every one of them is ASCII. -/
def textOf (octets : Octets) : Option Text :=
  if octets.all (· < 128) then some (octets.map Char.ofUInt8) else none

/-- Every pair of the request that is text, in order. -/
def jar (headers : HeaderMap) : List (Text × Text) :=
  (pairs headers).filterMap fun pair =>
    match textOf pair.1, textOf pair.2 with
    | some name, some value => some (name, value)
    | _, _ => none

/-- A cookie was sent under the name asked for, and its value is not ASCII. -/
inductive Unreadable where
  | unreadable
  deriving DecidableEq, Repr

/-- The first value filed under a name. -/
def valueOf (headers : HeaderMap) (name : Text) : Except Unreadable (Option Text) :=
  match (pairs headers).find? fun pair => textOf pair.1 = some name with
  | none => .ok none
  | some (_, value) =>
      match textOf value with
      | some value => .ok (some value)
      | none => .error .unreadable

end Cookie

end Kynos.Http

namespace Kynos.Http.Cookie

open Kynos.Word

/-- What a user agent takes an attribute for. A path it does not take stands for
the default path; the date of `Expires` is left as it is spelled. -/
inductive Attribute where
  | expires (date : Text)
  | maxAge (seconds : Int)
  | domain (domain : Text)
  | path (path : Option Text)
  | secure
  | httpOnly
  | sameSite (enforcement : Option SameSite)
  | partitioned
  deriving DecidableEq, Repr

/-- A decimal number of seconds, with an optional sign; anything else is
ignored. -/
def readMaxAge (value : Text) : Option Attribute :=
  match value with
  | [] => none
  | '-' :: digits =>
      if digits.all Text.isAsciiDigit then some (.maxAge (-(Nat.ofDigitChars 10 digits 0 : Int)))
      else none
  | digits =>
      if digits.all Text.isAsciiDigit then some (.maxAge (Nat.ofDigitChars 10 digits 0)) else none

/-- A domain without one leading dot, in lower case; an empty one is ignored. -/
def readDomain (value : Text) : Option Attribute :=
  if value.isEmpty then none else some (.domain (Text.toAsciiLowercase (stripDot value)))

/-- A path that begins with a slash. -/
def readPath (value : Text) : Option Text :=
  if value.head? = some '/' then some value else none

def readSameSite (value : Text) : Option SameSite :=
  let value := Text.toAsciiLowercase value
  if value = "strict".toList then some .strict
  else if value = "lax".toList then some .lax
  else if value = "none".toList then some .none
  else none

/-- An attribute by its name in lower case; one that is not known is ignored. -/
def readAttribute (name value : Text) : Option Attribute :=
  if name = "expires".toList then some (.expires value)
  else if name = "max-age".toList then readMaxAge value
  else if name = "domain".toList then readDomain value
  else if name = "path".toList then some (.path (readPath value))
  else if name = "secure".toList then some .secure
  else if name = "httponly".toList then some .httpOnly
  else if name = "samesite".toList then some (.sameSite (readSameSite value))
  else if name = "partitioned".toList then some .partitioned
  else none

/-- One attribute of the value: a name, and what stands after its first equals
sign. -/
def attributeOf (av : Text) : Option Attribute :=
  let (name, value) := (splitOnce '=' av).getD (av, [])
  readAttribute (Text.toAsciiLowercase (Text.trimOws name)) (Text.trimOws value)

/-- What a user agent stores. -/
structure Received where
  name : Text
  value : Text
  attributes : List Attribute
  deriving DecidableEq, Repr

/-- RFC 6265 section 5.2: the pair stands before the first semicolon, and each
attribute before the next one or the end. A pair without an equals sign or
without a name is ignored with all of its attributes. -/
def receive (text : Text) : Option Received :=
  match text.splitOn ';' with
  | [] => none
  | pair :: avs =>
      match splitOnce '=' pair with
      | none => none
      | some (name, value) =>
          if (Text.trimOws name).isEmpty then
            none
          else
            some ⟨Text.trimOws name, Text.trimOws value, avs.filterMap attributeOf⟩

end Kynos.Http.Cookie
