import Kynos.Text.Str

/-!
# IP addresses

IPv4 and IPv6 addresses as their bits, with the textual forms the standard
library reads and the canonical form of an IPv4-mapped address; and networks,
the blocks of addresses that share their leading bits.
-/

namespace Kynos.Net

open Kynos.Word

/-- `std::net::IpAddr`. -/
inductive IpAddr where
  | v4 (bits : BitVec 32)
  | v6 (bits : BitVec 128)
  deriving DecidableEq, Repr

namespace IpAddr

/-- The IPv4 form of an IPv4-mapped address; every other address as it is. -/
def toCanonical : IpAddr → IpAddr
  | .v4 bits => .v4 bits
  | .v6 bits => if bits >>> 32 = 0xffff then .v4 (bits.truncate 32) else .v6 bits

def isV4 : IpAddr → Bool
  | .v4 _ => true
  | .v6 _ => false

/-- How many bits an address of the family has. -/
def width : IpAddr → Nat
  | .v4 _ => 32
  | .v6 _ => 128

/-! ## Reading -/

/-- `char::to_digit`. -/
def toDigit (radix : Nat) (character : Char) : Option Nat :=
  let code := character.toNat
  let value :=
    if 48 ≤ code ∧ code ≤ 57 then code - 48
    else if 97 ≤ code ∧ code ≤ 122 then code - 87
    else if 65 ≤ code ∧ code ≤ 90 then code - 55
    else radix
  if value < radix then some value else none

/-- A number of at most `maxDigits` digits and at most `bound`, and what
follows it. -/
def readNumber (radix maxDigits : Nat) (allowZeroPrefix : Bool) (bound : Nat) (text : Text) :
    Option (Nat × Text) :=
  let digits := text.takeWhile fun character => (toDigit radix character).isSome
  let value := digits.foldl
    (fun value character => value * radix + (toDigit radix character).getD 0) 0
  if digits.isEmpty ∨ digits.length > maxDigits then
    none
  else if !allowZeroPrefix ∧ digits.head? = some '0' ∧ digits.length > 1 then
    none
  else if value > bound then
    none
  else
    some (value, text.drop digits.length)

/-- What follows a separator, which is read before every item but the first. -/
def readSeparator (separator : Char) (index : Nat) (text : Text) : Option Text :=
  if index = 0 then
    some text
  else
    match text with
    | letter :: rest => if letter = separator then some rest else none
    | [] => none

/-- The `remaining` last numbers of an IPv4 address, onto those before them. -/
def readIpv4From (remaining index value : Nat) (text : Text) : Option (Nat × Text) :=
  match remaining with
  | 0 => some (value, text)
  | remaining + 1 => do
      let text ← readSeparator '.' index text
      let (octet, text) ← readNumber 10 3 false 255 text
      readIpv4From remaining (index + 1) (value * 256 + octet) text

/-- An IPv4 address, and what follows it. -/
def readIpv4 (text : Text) : Option (Nat × Text) :=
  readIpv4From 4 0 0 text

/-- At most `remaining` groups of an IPv6 address, the last two of which may be
an IPv4 address; whether they are; and what follows them. -/
def readGroups (remaining index : Nat) (text : Text) : List Nat × Bool × Text :=
  match remaining with
  | 0 => ([], false, text)
  | remaining + 1 =>
      let embedded :=
        if remaining > 0 then (readSeparator ':' index text).bind readIpv4 else none
      match embedded with
      | some (bits, text) => ([bits / 65536, bits % 65536], true, text)
      | none =>
          match (readSeparator ':' index text).bind (readNumber 16 4 true 65535) with
          | some (group, text) =>
              let (groups, ipv4, text) := readGroups remaining (index + 1) text
              (group :: groups, ipv4, text)
          | none => ([], false, text)

/-- The eight groups of an IPv6 address, and what follows them. -/
def readIpv6 (text : Text) : Option (List Nat × Text) :=
  let (head, headIpv4, text) := readGroups 8 0 text
  if head.length = 8 then
    some (head, text)
  else if headIpv4 then
    none
  else
    match text with
    | ':' :: ':' :: text =>
        let (tail, _, text) := readGroups (8 - (head.length + 1)) 0 text
        some (head ++ List.replicate (8 - head.length - tail.length) 0 ++ tail, text)
    | _ => none

/-- `IpAddr::from_str`. -/
def parse (text : Text) : Option IpAddr :=
  match readIpv4 text with
  | some (bits, rest) => if rest.isEmpty then some (.v4 (BitVec.ofNat 32 bits)) else none
  | none =>
      match readIpv6 text with
      | some (groups, rest) =>
          if rest.isEmpty then
            some (.v6 (BitVec.ofNat 128 (groups.foldl (fun bits group => bits * 65536 + group) 0)))
          else
            none
      | none => none

example : (parse "::ffff:10.0.0.1".toList).map toCanonical = parse "10.0.0.1".toList := by
  decide +kernel

end IpAddr

/-! ## Networks -/

/-- The block of addresses that share their first `prefixLength` bits. -/
structure Network where
  address : IpAddr
  prefixLength : Nat
  within : prefixLength ≤ address.width
  deriving DecidableEq

namespace Network

/-- An address with the bits past a prefix cleared. -/
def maskedAddress (prefixLength : Nat) : IpAddr → IpAddr
  | .v4 bits => .v4 (bits &&& (BitVec.allOnes 32 <<< (32 - prefixLength)))
  | .v6 bits => .v6 (bits &&& (BitVec.allOnes 128 <<< (128 - prefixLength)))

/-- Whether an address, read as its IPv4 form where it is IPv4-mapped, is in the
block. -/
def contains (network : Network) (address : IpAddr) : Bool :=
  let address := address.toCanonical
  address.isV4 == network.address.isV4 &&
    maskedAddress network.prefixLength address == network.address

end Network

end Kynos.Net
