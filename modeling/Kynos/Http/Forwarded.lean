import Kynos.Http.Field
import Kynos.Net.IpAddr
import Kynos.Word.Quoted

/-!
# Who sent a request that reached the service through a proxy

The chain of hops a forwarding field names is read from the right, as far as
the trust policy reaches: a hop is believed where its immediate sender is
trusted, by address or within the trusted number of hops.
-/

namespace Kynos.Http

open Kynos.Net Kynos.Word

/-- The field a trusted proxy writes. -/
inductive ProxyHeader where
  | forwarded
  | xForwarded
  deriving DecidableEq, Repr

namespace Header

def forwarded : Text := "forwarded".toList
def xForwardedFor : Text := "x-forwarded-for".toList
def xForwardedProto : Text := "x-forwarded-proto".toList

end Header

/-- Which hops may be believed, and through which field. -/
structure TrustedProxies where
  header : Option ProxyHeader
  hops : Nat
  addresses : List IpAddr
  networks : List Network

namespace TrustedProxies

/-- Whether every forwarding field is ignored. -/
def trustsNobody (trusted : TrustedProxies) : Bool :=
  trusted.header.isNone ||
    (trusted.hops == 0 && trusted.addresses.isEmpty && trusted.networks.isEmpty)

/-- The field to read, unless nobody is trusted. -/
def readHeader (trusted : TrustedProxies) : Option ProxyHeader :=
  if trusted.trustsNobody then none else trusted.header

/-- Whether an address is trusted. -/
def names (trusted : TrustedProxies) (address : IpAddr) : Bool :=
  trusted.addresses.contains address ||
    trusted.networks.any fun network => network.contains address

end TrustedProxies

namespace Forwarded

/-! ## Elements -/

/-- Quoted strings, cut at commas. -/
def commas : Quoting UInt8 :=
  ⟨34, 92, 44, by decide, by decide, by decide⟩

/-- Quoted strings, cut at semicolons. -/
def semicolons : Quoting UInt8 :=
  ⟨34, 92, 59, by decide, by decide, by decide⟩

/-- Whether a piece is more than whitespace. -/
def isWritten (piece : Octets) : Bool :=
  !(Octets.trimAscii piece).isEmpty

/-- The pieces that are more than whitespace between delimiters outside any
quoted string, last first. -/
def unquotedRsplit (quoting : Quoting UInt8) (octets : Octets) : List Octets :=
  (quoting.rsplit octets).filter isWritten

/-- A text without one pair of surrounding double quotes. -/
def unquoted (text : Text) : Text :=
  match text with
  | '"' :: rest => if rest.getLast? = some '"' then rest.dropLast else text
  | _ => text

/-- The address a node identifier names, where it names one. -/
def nodeAddress (node : Text) : Option IpAddr :=
  let node := Text.trim node
  match node with
  | '[' :: rest =>
      (splitOnce ']' rest).bind fun halves => (IpAddr.parse halves.1).map IpAddr.toCanonical
  | _ =>
      match IpAddr.parse node with
      | some address => some address.toCanonical
      | none =>
          match splitOnce ':' node with
          | some (address, _) => IpAddr.parse address
          | none => IpAddr.parse node

/-- One element of a forwarding field: the address and the scheme it names. -/
structure Hop where
  address : Option IpAddr
  proto : Option Text
  deriving DecidableEq

/-- The pairs of an element, last first: a name and, where it is text, a value. -/
def pairs (element : Octets) : List (Octets × Option Text) :=
  (unquotedRsplit semicolons element).filterMap fun pair =>
    (splitOnce 61 pair).map fun (name, value) =>
      (Octets.trimAscii name, (Octets.fromUtf8 value).map fun raw => unquoted (Text.trim raw))

/-- The value of the last pair of a name. -/
def valueOf (name : Text) (element : Octets) : Option Text :=
  ((pairs element).find? fun pair => Octets.eqIgnoreAsciiCase pair.1 name.toOctets).bind Prod.snd

/-- The hop an element writes. -/
def hopOf (element : Octets) : Hop where
  address := (valueOf "for".toList element).bind nodeAddress
  proto := valueOf "proto".toList element

/-- The hops of `Forwarded`, left to right. -/
def forwardedElements (headers : HeaderMap) : List Hop :=
  (headers.getAll Header.forwarded).flatMap fun value =>
    ((unquotedRsplit commas value.octets).map hopOf).reverse

/-- The hop an entry of `X-Forwarded-For` writes. -/
def addressHop (address : Octets) : Hop where
  address := (Octets.fromUtf8 address).bind nodeAddress
  proto := none

/-- The entries of one `X-Forwarded-For` line, left to right. -/
def addresses (line : Octets) : List Octets :=
  ((line.splitOn 44).map Octets.trimAscii).filter fun address => !address.isEmpty

/-- The scheme `X-Forwarded-Proto` states: its rightmost element that is not
empty, unless a line further right is not text. -/
def forwardedProto : List HeaderValue → Option Text
  | [] => none
  | line :: earlier =>
      match line.toStr with
      | none => none
      | some value =>
          match (((value.splitOn ',').reverse).map Text.trim).find? fun value => !value.isEmpty with
          | some proto => some proto
          | none => forwardedProto earlier

/-- The hops of `X-Forwarded-For`, left to right, and the scheme of
`X-Forwarded-Proto`. -/
def xForwardedElements (headers : HeaderMap) : List Hop × Option Text :=
  ((headers.getAll Header.xForwardedFor).flatMap fun value =>
      (addresses value.octets).map addressHop,
    forwardedProto (headers.getAll Header.xForwardedProto).reverse)

/-- Every element of a field, left to right, and the scheme the immediate
sender stated outside any element. -/
def elements (headers : HeaderMap) : ProxyHeader → List Hop × Option Text
  | .forwarded => (forwardedElements headers, none)
  | .xForwarded => xForwardedElements headers

/-! ## The walk -/

/-- Whether the sender of the element `believed` places from the right is
trusted. -/
def trustedSender (trusted : TrustedProxies) (sender : Option IpAddr) (believed : Nat) : Bool :=
  sender.any trusted.names || believed < trusted.hops

/-- From the socket peer over the chain, right to left, to the first untrusted
sender: the client, and the element the walk stopped on. -/
def walk (trusted : TrustedProxies) (believed : Nat) (client : Option IpAddr) (stop : Option Hop) :
    List Hop → Option IpAddr × Option Hop
  | [] => (client, stop)
  | hop :: further =>
      if trustedSender trusted client believed then
        walk trusted (believed + 1) hop.address (some hop) further
      else
        (client, stop)

end Forwarded

/-- What a request's forwarding fields say, once the trust policy has been
applied. -/
structure Forwarded where
  client : Option IpAddr
  proto : Option Text
  deriving DecidableEq

/-- Resolves what a head claims, as far as the policy permits; `peer` is the
address of the socket the request arrived on. -/
def Forwarded.resolve (headers : HeaderMap) (peer : Option IpAddr) (trusted : TrustedProxies) :
    Forwarded :=
  let peer := peer.map IpAddr.toCanonical
  match trusted.readHeader with
  | none => ⟨peer, none⟩
  | some header =>
      let (chain, peerProto) := elements headers header
      let peerIsTrusted := trusted.hops > 0 || peer.any trusted.names
      let (client, stop) := walk trusted 0 peer none chain.reverse
      let proto :=
        match stop.bind Hop.proto with
        | some proto => some proto
        | none => if peerIsTrusted then peerProto else none
      ⟨client, proto.map Text.toAsciiLowercase⟩

end Kynos.Http
