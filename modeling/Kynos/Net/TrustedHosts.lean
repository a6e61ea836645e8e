import Kynos.Http.Date
import Kynos.Http.Field
import Kynos.Net.Shown

/-!
# Trusted hosts

A request is let through where the host of its authority is one that is allowed,
or where it is loopback and that is allowed. Hosts are compared as text, each in
its canonical form, and two texts have one form exactly when they denote one
host.
-/

namespace Kynos.Net

open Kynos.Http

/-! ## The source -/

/-- `Authority`, as it is read: no octet of a host is whitespace. -/
structure Authority where
  userinfo : Option Text
  host : Text
  port : Option Text
  solid : ∀ character ∈ host, Text.isWhitespace character = false

/-- `Ipv4Addr::from_str`. -/
def parseIpv4 (text : Text) : Option (BitVec 32) :=
  (IpAddr.readIpv4 text).bind fun read =>
    if read.2.isEmpty then some (BitVec.ofNat 32 read.1) else none

/-- `Ipv6Addr::from_str`. -/
def parseIpv6 (text : Text) : Option (BitVec 128) :=
  (IpAddr.readIpv6 text).bind fun read =>
    if read.2.isEmpty then
      some (BitVec.ofNat 128 (read.1.foldl (fun bits group => bits * 65536 + group) 0))
    else
      none

/-- `Ipv4Addr::is_loopback`. -/
def isLoopbackIpv4 (bits : BitVec 32) : Bool :=
  bits >>> 24 == 127

/-- `Ipv6Addr::is_loopback`, and that of a mapped address. -/
def isLoopbackIpv6 (bits : BitVec 128) : Bool :=
  bits == 1 || (bits >>> 32 == 0xffff && isLoopbackIpv4 (bits.truncate 32))

/-- A host without its trailing dot. -/
def undot (host : Text) : Text :=
  (Date.stripSuffix ['.'] host).getD host

/-- What stands between the brackets of a host. -/
def unbracketed (host : Text) : Option Text :=
  (Date.stripPrefix ['['] host).bind (Date.stripSuffix [']'])

/-- `canonical`. -/
def canonical (host : Text) : Option Text :=
  let host := undot (Text.trim host)
  if host = [] then
    none
  else
    match IpAddr.parse ((unbracketed host).getD host) with
    | some (.v4 bits) => some (IpAddr.showIpv4 bits)
    | some (.v6 bits) => some ('[' :: (IpAddr.showIpv6 bits ++ [']']))
    | none => some (Text.toAsciiLowercase host)

/-- `is_loopback`. -/
def isLoopback (host : Text) : Bool :=
  if host = "localhost".toList || ".localhost".toList.isSuffixOf host then
    true
  else
    match unbracketed host with
    | some inner => (parseIpv6 inner).any isLoopbackIpv6
    | none => (parseIpv4 host).any isLoopbackIpv4

/-- `TrustedHosts`. -/
structure TrustedHosts where
  hosts : List Text
  loopback : Bool

namespace TrustedHosts

/-- `TrustedHosts::new`. -/
def new : TrustedHosts where
  hosts := []
  loopback := false

/-- `TrustedHosts::allow`. -/
def allow (this : TrustedHosts) (host : Text) : TrustedHosts :=
  { this with hosts := this.hosts ++ [(canonical host).getD host] }

/-- `TrustedHosts::allow_loopback`. -/
def allowLoopback (this : TrustedHosts) : TrustedHosts :=
  { this with loopback := true }

/-- The authority a request states: its target's, or else that of its `Host`, with
the reader of a field's authority. -/
def stated (readAuthority : Octets → Option Authority) (headers : HeaderMap)
    (authority : Option Authority) : Option Authority :=
  authority.or ((headers.get Header.host).bind fun value => readAuthority value.octets)

/-- `TrustedHosts::admits`. -/
def admits (readAuthority : Octets → Option Authority) (this : TrustedHosts) (headers : HeaderMap)
    (authority : Option Authority) : Bool :=
  ((stated readAuthority headers authority).bind fun authority => canonical authority.host).any
    fun host => (this.loopback && isLoopback host) || this.hosts.contains host

/-- The hosts of a list allowed, and loopback or not. -/
def allowing (allowed : List Text) (loopback : Bool) : TrustedHosts :=
  allowed.foldl allow (if loopback then new.allowLoopback else new)

end TrustedHosts

/-! ## What a host denotes -/

/-- A host: a name in lowercase, or an address. -/
inductive Host where
  | name (name : Text)
  | address (address : IpAddr)
  deriving DecidableEq

/-- A spelling of an address, bracketed or not, and with a trailing dot or not. -/
def SpellsAddress (text : Text) (address : IpAddr) : Prop :=
  ∃ form, IpAddr.parse form = some address ∧
    (undot text = form ∨ undot text = '[' :: (form ++ [']']))

/-- What a text denotes: an address it spells, or else a name, in any case and with
a trailing dot or not. -/
inductive Denotes (text : Text) : Host → Prop where
  | address {address : IpAddr} (spells : SpellsAddress text address) : Denotes text (.address address)
  | name (nonempty : undot text ≠ []) (isName : ∀ address, ¬ SpellsAddress text address) :
      Denotes text (.name (Text.toAsciiLowercase (undot text)))

/-- Two texts denote one host. -/
def SameHost (first second : Text) : Prop :=
  ∃ host, Denotes first host ∧ Denotes second host

/-- `localhost`, a name under it, or a loopback address. -/
def Host.IsLoopback : Host → Prop
  | .name text => text = "localhost".toList ∨ ".localhost".toList <:+ text
  | .address (.v4 bits) => isLoopbackIpv4 bits = true
  | .address (.v6 bits) => isLoopbackIpv6 bits = true

/-- The canonical form of a host. -/
def Host.shown : Host → Text
  | .name text => text
  | .address (.v4 bits) => IpAddr.showIpv4 bits
  | .address (.v6 bits) => '[' :: (IpAddr.showIpv6 bits ++ [']'])

/-! ## Addresses in any case -/

namespace IpAddr

open Text (toAsciiLower)

theorem toDigit_toAsciiLower (radix : Nat) (character : Char) :
    toDigit radix (toAsciiLower character) = toDigit radix character := by
  have code := Text.toNat_toAsciiLower character
  by_cases upper : 65 ≤ character.toNat ∧ character.toNat ≤ 90
  · have notDigit : ¬ (48 ≤ character.toNat ∧ character.toNat ≤ 57) := by omega
    have notLower : ¬ (97 ≤ character.toNat ∧ character.toNat ≤ 122) := by omega
    have digitless : ¬ (48 ≤ character.toNat + 32 ∧ character.toNat + 32 ≤ 57) := by omega
    have lower : 97 ≤ character.toNat + 32 ∧ character.toNat + 32 ≤ 122 := by omega
    have same : character.toNat + 32 - 87 = character.toNat - 55 := by omega
    rw [if_pos upper] at code
    simp only [toDigit, code, if_neg digitless, if_pos lower, if_neg notDigit, if_neg notLower,
      if_pos upper, same]
  · rw [if_neg upper] at code
    rw [toDigit, code, toDigit]

theorem readNumber_lower (radix maxDigits bound : Nat) (allowZeroPrefix : Bool) (text : Text) :
    readNumber radix maxDigits allowZeroPrefix bound (text.map toAsciiLower) =
      (readNumber radix maxDigits allowZeroPrefix bound text).map (Prod.map id (List.map toAsciiLower)) := by
  have zero (digits : Text) : (digits.map toAsciiLower).head? = some '0' ↔ digits.head? = some '0' := by
    rw [List.head?_map, Option.map_eq_some_iff]
    constructor
    · rintro ⟨digit, isHead, isZero⟩
      rw [isHead, (Text.toAsciiLower_eq_iff (by decide) digit).mp isZero]
    · intro isHead
      exact ⟨'0', isHead, by decide⟩
  simp only [readNumber, List.takeWhile_map, Function.comp_def, toDigit_toAsciiLower, List.isEmpty_map,
    List.length_map, List.foldl_map, zero]
  split_ifs
  · rfl
  · rfl
  · rfl
  · rw [Option.map_some, Prod.map, List.map_drop]
    rfl

theorem readSeparator_lower {separator : Char}
    (noLetter : separator.toNat < 65 ∨ 90 < separator.toNat ∧ separator.toNat < 97 ∨ 122 < separator.toNat)
    (index : Nat) (text : Text) :
    readSeparator separator index (text.map toAsciiLower) =
      (readSeparator separator index text).map (List.map toAsciiLower) := by
  cases index with
  | zero => rw [readSeparator_zero, readSeparator_zero, Option.map_some]
  | succ index =>
      cases text with
      | nil => rfl
      | cons letter rest =>
          have same := Text.toAsciiLower_eq_iff noLetter letter
          rw [List.map_cons, readSeparator, readSeparator, if_neg (Nat.succ_ne_zero index),
            if_neg (Nat.succ_ne_zero index)]
          simp only [same]
          split <;> rfl

theorem readIpv4From_lower (remaining index value : Nat) (text : Text) :
    readIpv4From remaining index value (text.map toAsciiLower) =
      (readIpv4From remaining index value text).map (Prod.map id (List.map toAsciiLower)) := by
  induction remaining generalizing index value text with
  | zero => rfl
  | succ remaining ih =>
      rw [readIpv4From, readIpv4From, readSeparator_lower (by decide)]
      cases readSeparator '.' index text with
      | none => rfl
      | some rest =>
          simp only [Option.map_some, Option.bind_eq_bind, Option.bind_some, readNumber_lower]
          cases readNumber 10 3 false 255 rest with
          | none => rfl
          | some read => exact ih _ _ _

theorem readIpv4_lower (text : Text) :
    readIpv4 (text.map toAsciiLower) = (readIpv4 text).map (Prod.map id (List.map toAsciiLower)) :=
  readIpv4From_lower 4 0 0 text

theorem readGroups_lower (remaining index : Nat) (text : Text) :
    readGroups remaining index (text.map toAsciiLower) =
      ((readGroups remaining index text).1, (readGroups remaining index text).2.1,
        (readGroups remaining index text).2.2.map toAsciiLower) := by
  induction remaining generalizing index text with
  | zero => rfl
  | succ remaining ih =>
      have separated : readSeparator ':' index (text.map toAsciiLower) =
          (readSeparator ':' index text).map (List.map toAsciiLower) :=
        readSeparator_lower (by decide) index text
      have embedded : (readSeparator ':' index (text.map toAsciiLower)).bind readIpv4 =
          ((readSeparator ':' index text).bind readIpv4).map (Prod.map id (List.map toAsciiLower)) := by
        rw [separated, Option.bind_map, Option.map_bind]
        exact Option.bind_congr fun rest _ => readIpv4_lower rest
      have group : (readSeparator ':' index (text.map toAsciiLower)).bind (readNumber 16 4 true 65535) =
          ((readSeparator ':' index text).bind (readNumber 16 4 true 65535)).map
            (Prod.map id (List.map toAsciiLower)) := by
        rw [separated, Option.bind_map, Option.map_bind]
        exact Option.bind_congr fun rest _ => readNumber_lower 16 4 65535 true rest
      have embedding : (if remaining > 0 then (readSeparator ':' index (text.map toAsciiLower)).bind readIpv4
          else none) = (if remaining > 0 then (readSeparator ':' index text).bind readIpv4 else none).map
            (Prod.map id (List.map toAsciiLower)) := by
        rw [embedded]
        split <;> rfl
      rw [readGroups, readGroups, embedding, group]
      cases if remaining > 0 then (readSeparator ':' index text).bind readIpv4 else none with
      | some read => rfl
      | none =>
          cases (readSeparator ':' index text).bind (readNumber 16 4 true 65535) with
          | none => rfl
          | some read =>
              dsimp only [Option.map_some, Prod.map]
              rw [ih]
              rfl

theorem readIpv6_lower (text : Text) :
    readIpv6 (text.map toAsciiLower) = (readIpv6 text).map (Prod.map id (List.map toAsciiLower)) := by
  have colon (character : Char) : toAsciiLower character = ':' ↔ character = ':' :=
    Text.toAsciiLower_eq_iff (by decide) character
  rw [readIpv6, readIpv6, readGroups_lower]
  generalize readGroups 8 0 text = read
  obtain ⟨head, headIpv4, rest⟩ := read
  dsimp only
  split
  · rfl
  · split
    · rfl
    · by_cases starts : ∃ more, rest = ':' :: ':' :: more
      · obtain ⟨more, rfl⟩ := starts
        have isColon : toAsciiLower ':' = ':' := by decide
        rw [List.map_cons, List.map_cons, isColon]
        change some (head ++ List.replicate (8 - head.length -
            (readGroups (8 - (head.length + 1)) 0 (more.map toAsciiLower)).1.length) 0 ++
              (readGroups (8 - (head.length + 1)) 0 (more.map toAsciiLower)).1,
            (readGroups (8 - (head.length + 1)) 0 (more.map toAsciiLower)).2.2) = _
        rw [readGroups_lower]
        rfl
      · have unmarked : ¬ ∃ more, rest.map toAsciiLower = ':' :: ':' :: more := by
          rintro ⟨more, isMarked⟩
          obtain ⟨first, others, rfl, isFirst, isRest⟩ := List.map_eq_cons_iff.mp isMarked
          obtain ⟨second, others, rfl, isSecond, -⟩ := List.map_eq_cons_iff.mp isRest
          rw [(colon first).mp isFirst, (colon second).mp isSecond] at starts
          exact starts ⟨others, rfl⟩
        split
        · rename_i isMarked
          exact absurd ⟨_, isMarked⟩ unmarked
        · split
          · exact absurd ⟨_, rfl⟩ starts
          · rfl

/-- An address is read in any case. -/
theorem parse_lower (text : Text) : parse (Text.toAsciiLowercase text) = parse text := by
  rw [Text.toAsciiLowercase, parse, parse, readIpv4_lower, readIpv6_lower]
  cases readIpv4 text with
  | some read => simp
  | none =>
      cases readIpv6 text with
      | none => rfl
      | some read => simp

theorem parse_bracket (rest : Text) : parse ('[' :: rest) = none := by
  have unread : readGroups 8 0 ('[' :: rest) = ([], false, '[' :: rest) := by
    refine readGroups_of_none ?_ ?_
    · rw [readSeparator_zero, Option.bind_some]
      exact readIpv4_of_stops (stops_cons (by decide))
    · rw [readSeparator_zero, Option.bind_some]
      exact readNumber_of_stops (stops_cons (by decide))
  rw [parse, readIpv4_of_stops (stops_cons (by decide)), readIpv6, unread]
  rfl

end IpAddr

/-- A text that starts as an IPv4 address is no IPv6 address. -/
theorem readIpv6_of_readIpv4 {text : Text} {read : Nat × Text}
    (isIpv4 : IpAddr.readIpv4 text = some read) : IpAddr.readIpv6 text = none := by
  have embedded : IpAddr.readGroups 8 0 text = ([read.1 / 65536, read.1 % 65536], true, read.2) := by
    refine IpAddr.readGroups_of_ipv4 ?_
    rw [IpAddr.readSeparator_zero, Option.bind_some, isIpv4]
  rw [IpAddr.readIpv6, embedded]
  rfl

theorem parse_eq_v4_iff {text : Text} {bits : BitVec 32} :
    IpAddr.parse text = some (.v4 bits) ↔ parseIpv4 text = some bits := by
  rw [IpAddr.parse, parseIpv4]
  cases IpAddr.readIpv4 text with
  | some read => simp
  | none =>
      cases IpAddr.readIpv6 text with
      | none => simp
      | some read => simp

theorem parse_eq_v6_iff {text : Text} {bits : BitVec 128} :
    IpAddr.parse text = some (.v6 bits) ↔ parseIpv6 text = some bits := by
  rw [IpAddr.parse, parseIpv6]
  cases isIpv4 : IpAddr.readIpv4 text with
  | some read => simp [readIpv6_of_readIpv4 isIpv4]
  | none =>
      cases IpAddr.readIpv6 text with
      | none => simp
      | some read => simp

/-! ## Hosts -/

theorem unbracketed_eq_some_iff {host inner : Text} :
    unbracketed host = some inner ↔ host = '[' :: (inner ++ [']']) := by
  simp only [unbracketed, Option.bind_eq_some_iff, Date.stripPrefix_eq_some_iff,
    Date.stripSuffix_eq_some_iff]
  constructor
  · rintro ⟨rest, rfl, rfl⟩
    rfl
  · rintro rfl
    exact ⟨inner ++ [']'], rfl, rfl⟩

/-- An address is spelled as it is read: with its brackets taken off, where it has
any. -/
theorem spellsAddress_iff {text : Text} {address : IpAddr} :
    SpellsAddress text address ↔
      IpAddr.parse ((unbracketed (undot text)).getD (undot text)) = some address := by
  constructor
  · rintro ⟨form, reads, rfl | isBracketed⟩
    · cases bracketed : unbracketed (undot text) with
      | none => exact reads
      | some inner =>
          rw [unbracketed_eq_some_iff.mp bracketed, IpAddr.parse_bracket] at reads
          cases reads
    · rw [unbracketed_eq_some_iff.mpr isBracketed]
      exact reads
  · intro reads
    cases bracketed : unbracketed (undot text) with
    | none =>
        rw [bracketed] at reads
        exact ⟨_, reads, .inl rfl⟩
    | some inner =>
        rw [bracketed] at reads
        exact ⟨inner, reads, .inr (unbracketed_eq_some_iff.mp bracketed)⟩

/-- A text denotes one host at most. -/
theorem Denotes.unique {text : Text} {first second : Host} (denotes : Denotes text first)
    (other : Denotes text second) : first = second := by
  cases denotes with
  | address spells =>
      cases other with
      | address others =>
          rw [spellsAddress_iff] at spells others
          rw [Option.some.inj (spells.symm.trans others)]
      | name _ isName => exact absurd spells (isName _)
  | name _ isName =>
      cases other with
      | address spells => exact absurd spells (isName _)
      | name => rfl

theorem undot_ne_nil {text : Text} {host : Host} (denotes : Denotes text host) : undot text ≠ [] := by
  cases denotes with
  | name nonempty => exact nonempty
  | address spells =>
      intro isNil
      rw [spellsAddress_iff, isNil] at spells
      cases spells

/-- The canonical form of a host is that of what it denotes. -/
theorem canonical_of_denotes {host : Text} {denoted : Host} (denotes : Denotes (Text.trim host) denoted) :
    canonical host = some denoted.shown := by
  rw [canonical, if_neg (undot_ne_nil denotes)]
  cases denotes with
  | @address address spells =>
      rw [spellsAddress_iff.mp spells]
      cases address <;> rfl
  | name _ isName =>
      have unread : IpAddr.parse ((unbracketed (undot (Text.trim host))).getD (undot (Text.trim host))) =
          none :=
        Option.eq_none_iff_forall_ne_some.mpr fun address reads =>
          isName address (spellsAddress_iff.mpr reads)
      rw [unread]
      rfl

theorem exists_denotes {text : Text} (nonempty : undot text ≠ []) : ∃ host, Denotes text host := by
  by_cases spells : ∃ address, SpellsAddress text address
  · obtain ⟨address, spells⟩ := spells
    exact ⟨_, .address spells⟩
  · exact ⟨_, .name nonempty (not_exists.mp spells)⟩

theorem canonical_eq_none {host : Text} (isNil : undot (Text.trim host) = []) : canonical host = none :=
  if_pos isNil

theorem canonical_eq_some_iff {host shown : Text} :
    canonical host = some shown ↔ ∃ denoted, Denotes (Text.trim host) denoted ∧ denoted.shown = shown := by
  constructor
  · intro isShown
    have nonempty : undot (Text.trim host) ≠ [] := fun isNil => by
      rw [canonical_eq_none isNil] at isShown
      cases isShown
    obtain ⟨denoted, denotes⟩ := exists_denotes nonempty
    rw [canonical_of_denotes denotes, Option.some.injEq] at isShown
    exact ⟨denoted, denotes, isShown⟩
  · rintro ⟨denoted, denotes, rfl⟩
    exact canonical_of_denotes denotes

/-! ## Canonical forms -/

/-- Whether a text reads as an address does not change with the case of a name. -/
theorem parse_of_name {text : Text} (isName : ∀ address, ¬ SpellsAddress text address) (address : IpAddr) :
    IpAddr.parse (Text.toAsciiLowercase (undot text)) ≠ some address := by
  intro reads
  rw [IpAddr.parse_lower] at reads
  exact isName address ⟨_, reads, .inl rfl⟩

theorem toAsciiLower_eq_bracket_iff {character : Char} :
    (Text.toAsciiLower character = '[' ↔ character = '[') ∧
      (Text.toAsciiLower character = ']' ↔ character = ']') :=
  ⟨Text.toAsciiLower_eq_iff (by decide) character, Text.toAsciiLower_eq_iff (by decide) character⟩

theorem parse_of_bracketed_name {text inner : Text} (isName : ∀ address, ¬ SpellsAddress text address)
    (bracketed : unbracketed (Text.toAsciiLowercase (undot text)) = some inner) (address : IpAddr) :
    IpAddr.parse inner ≠ some address := by
  intro reads
  have isBracketed := unbracketed_eq_some_iff.mp bracketed
  obtain ⟨first, others, isText, isFirst, isRest⟩ := List.map_eq_cons_iff.mp isBracketed
  obtain ⟨form, last, rfl, isForm, isLast⟩ := List.map_eq_append_iff.mp isRest
  obtain ⟨bracket, nothing, rfl, isBracket, isNil⟩ := List.map_eq_cons_iff.mp isLast
  obtain rfl := List.map_eq_nil_iff.mp isNil
  rw [toAsciiLower_eq_bracket_iff.1.mp isFirst, toAsciiLower_eq_bracket_iff.2.mp isBracket] at isText
  rw [← isForm] at reads
  exact isName address ⟨form, (IpAddr.parse_lower form).symm.trans reads, .inr isText⟩

/-- An address's letters are digits, colons, dots and brackets. -/
theorem notMem_shown {character : Char} (notHexadecimal : IpAddr.toDigit 16 character = none)
    (notDecimal : IpAddr.toDigit 10 character = none)
    (notMark : character ≠ ':' ∧ character ≠ '.' ∧ character ≠ '[' ∧ character ≠ ']') (address : IpAddr) :
    character ∉ Host.shown (.address address) := by
  have absent := IpAddr.notMem_display notHexadecimal notDecimal notMark.1 notMark.2.1 address
  cases address with
  | v4 bits => exact absent
  | v6 bits =>
      rw [Host.shown, List.mem_cons, List.mem_append, List.mem_singleton, not_or, not_or]
      exact ⟨notMark.2.2.1, absent, notMark.2.2.2⟩

theorem unbracketed_shown_v4 (bits : BitVec 32) :
    unbracketed (Host.shown (.address (.v4 bits))) = none := by
  refine Option.eq_none_iff_forall_ne_some.mpr fun inner bracketed => ?_
  have absent : '[' ∉ Host.shown (.address (.v4 bits)) :=
    IpAddr.notMem_showIpv4 (by decide) (by decide) bits
  rw [unbracketed_eq_some_iff.mp bracketed] at absent
  exact absent List.mem_cons_self

theorem unbracketed_shown_v6 (bits : BitVec 128) :
    unbracketed (Host.shown (.address (.v6 bits))) = some (IpAddr.showIpv6 bits) :=
  unbracketed_eq_some_iff.mpr rfl

/-- The canonical form of an address is read as the address. -/
theorem parse_shown (address : IpAddr) :
    IpAddr.parse ((unbracketed (Host.shown (.address address))).getD (Host.shown (.address address))) =
      some address := by
  cases address with
  | v4 bits =>
      rw [unbracketed_shown_v4]
      exact IpAddr.parse_display (.v4 bits)
  | v6 bits =>
      rw [unbracketed_shown_v6]
      exact IpAddr.parse_display (.v6 bits)

/-- The canonical form of a name is read as no address. -/
theorem parse_shown_name {text : Text} (isName : ∀ address, ¬ SpellsAddress text address)
    (address : IpAddr) :
    IpAddr.parse ((unbracketed (Text.toAsciiLowercase (undot text))).getD
      (Text.toAsciiLowercase (undot text))) ≠ some address := by
  cases bracketed : unbracketed (Text.toAsciiLowercase (undot text)) with
  | none => exact parse_of_name isName address
  | some inner => exact parse_of_bracketed_name isName bracketed address

/-- A canonical form is that of one host. -/
theorem shown_inj {first second : Text} {host other : Host} (denotes : Denotes first host)
    (others : Denotes second other) (same : host.shown = other.shown) : host = other := by
  cases denotes with
  | @address address spells =>
      have reads := parse_shown address
      rw [same] at reads
      cases others with
      | @address another _ =>
          rw [parse_shown another, Option.some.injEq] at reads
          rw [reads]
      | name _ isName => exact absurd reads (parse_shown_name isName address)
  | name _ isName =>
      cases others with
      | @address another _ =>
          have reads := parse_shown another
          rw [← same] at reads
          exact absurd reads (parse_shown_name isName another)
      | name => exact congrArg Host.name same

/-! ## Loopback -/

/-- A text with no `l` is no name of loopback. -/
theorem not_loopback_name {text : Text} (absent : 'l' ∉ text) :
    ¬ (text = "localhost".toList || ".localhost".toList.isSuffixOf text) = true := by
  rw [Bool.or_eq_true, decide_eq_true_eq, List.isSuffixOf_iff_suffix]
  rintro (rfl | ends)
  · exact absent (by decide)
  · exact absent (ends.subset (by decide))

/-- A canonical form is loopback where its host is. -/
theorem isLoopback_shown {text : Text} {host : Host} (denotes : Denotes text host) :
    isLoopback host.shown = true ↔ host.IsLoopback := by
  cases denotes with
  | @address address _ =>
      have absent : 'l' ∉ Host.shown (.address address) :=
        notMem_shown (by decide) (by decide) (by decide) address
      rw [isLoopback, if_neg (not_loopback_name absent)]
      cases address with
      | v4 bits =>
          have reads : parseIpv4 (Host.shown (.address (.v4 bits))) = some bits :=
            parse_eq_v4_iff.mp (IpAddr.parse_display (.v4 bits))
          rw [unbracketed_shown_v4, reads]
          rfl
      | v6 bits =>
          have reads : parseIpv6 (IpAddr.showIpv6 bits) = some bits :=
            parse_eq_v6_iff.mp (IpAddr.parse_display (.v6 bits))
          rw [unbracketed_shown_v6]
          dsimp only
          rw [reads]
          rfl
  | name _ isName =>
      rw [Host.IsLoopback, Host.shown, isLoopback]
      by_cases named : (Text.toAsciiLowercase (undot text) = "localhost".toList ||
          ".localhost".toList.isSuffixOf (Text.toAsciiLowercase (undot text))) = true
      · rw [if_pos named]
        rw [Bool.or_eq_true, decide_eq_true_eq, List.isSuffixOf_iff_suffix] at named
        exact iff_of_true rfl named
      · rw [if_neg named]
        rw [Bool.or_eq_true, decide_eq_true_eq, List.isSuffixOf_iff_suffix] at named
        refine iff_of_false ?_ named
        cases bracketed : unbracketed (Text.toAsciiLowercase (undot text)) with
        | none =>
            have unread : parseIpv4 (Text.toAsciiLowercase (undot text)) = none :=
              Option.eq_none_iff_forall_ne_some.mpr fun bits reads =>
                parse_of_name isName _ (parse_eq_v4_iff.mpr reads)
            rw [unread]
            exact Bool.false_ne_true
        | some inner =>
            have unread : parseIpv6 inner = none :=
              Option.eq_none_iff_forall_ne_some.mpr fun bits reads =>
                parse_of_bracketed_name isName bracketed _ (parse_eq_v6_iff.mpr reads)
            dsimp only
            rw [unread]
            exact Bool.false_ne_true

/-! ## What is admitted -/

theorem toDigit_of_isWhitespace {radix : Nat} {character : Char}
    (blank : Text.isWhitespace character = true) : IpAddr.toDigit radix character = none := by
  simp only [Text.isWhitespace, Bool.or_eq_true, Bool.and_eq_true, decide_eq_true_eq, beq_iff_eq] at blank
  have digit : ¬ (48 ≤ character.toNat ∧ character.toNat ≤ 57) := by omega
  have lower : ¬ (97 ≤ character.toNat ∧ character.toNat ≤ 122) := by omega
  have upper : ¬ (65 ≤ character.toNat ∧ character.toNat ≤ 90) := by omega
  simp only [IpAddr.toDigit, if_neg digit, if_neg lower, if_neg upper, if_neg (Nat.lt_irrefl radix)]

theorem isWhitespace_toAsciiLower (character : Char) :
    Text.isWhitespace (Text.toAsciiLower character) = Text.isWhitespace character := by
  have code := Text.toNat_toAsciiLower character
  by_cases upper : 65 ≤ character.toNat ∧ character.toNat ≤ 90
  · rw [if_pos upper] at code
    rw [Text.isWhitespace_of_visible (by omega) (by omega),
      Text.isWhitespace_of_visible (by omega) (by omega)]
  · rw [if_neg upper, Char.toNat_inj] at code
    rw [code]

theorem subset_undot (text : Text) : undot text ⊆ text := by
  rw [undot]
  cases stripped : Date.stripSuffix ['.'] text with
  | none => exact List.Subset.refl text
  | some rest =>
      rw [Date.stripSuffix_eq_some_iff.mp stripped]
      exact List.subset_append_left rest ['.']

/-- The canonical form of a host with no whitespace has none. -/
theorem solid_shown {text : Text} {host : Host} (denotes : Denotes text host)
    (solid : ∀ character ∈ text, Text.isWhitespace character = false) :
    ∀ character ∈ host.shown, Text.isWhitespace character = false := by
  intro character member
  cases denotes with
  | @address address _ =>
      refine Bool.eq_false_iff.mpr fun blank => ?_
      refine notMem_shown (toDigit_of_isWhitespace blank) (toDigit_of_isWhitespace blank) ?_ address member
      refine ⟨?_, ?_, ?_, ?_⟩ <;> rintro rfl <;> exact absurd blank (by decide)
  | name =>
      obtain ⟨letter, isLetter, rfl⟩ := List.mem_map.mp member
      rw [isWhitespace_toAsciiLower]
      exact solid letter (subset_undot text isLetter)

theorem shown_ne_nil {text : Text} {host : Host} (denotes : Denotes text host) : host.shown ≠ [] := by
  cases denotes with
  | @address address _ =>
      intro isNil
      have reads := parse_shown address
      rw [isNil] at reads
      cases reads
  | name nonempty => exact fun isNil => nonempty (List.map_eq_nil_iff.mp isNil)

theorem undot_eq_nil_iff {text : Text} : undot text = [] ↔ text = [] ∨ text = ['.'] := by
  rw [undot]
  cases stripped : Date.stripSuffix ['.'] text with
  | none =>
      refine ⟨.inl, fun isShort => isShort.resolve_right ?_⟩
      rintro rfl
      cases stripped
  | some rest =>
      rw [Date.stripSuffix_eq_some_iff.mp stripped]
      simp

namespace TrustedHosts

theorem allowing_eq (allowed : List Text) (loopback : Bool) :
    allowing allowed loopback = ⟨allowed.map fun host => (canonical host).getD host, loopback⟩ := by
  have all (this : TrustedHosts) : allowed.foldl allow this =
      ⟨this.hosts ++ allowed.map fun host => (canonical host).getD host, this.loopback⟩ := by
    induction allowed generalizing this with
    | nil => rw [List.foldl_nil, List.map_nil, List.append_nil]
    | cons host allowed ih => rw [List.foldl_cons, ih, allow, List.map_cons, List.append_assoc,
        List.singleton_append]
  rw [allowing, all]
  cases loopback <;> rfl

/-- A host is in the list exactly where it is one of those allowed. -/
theorem mem_hosts_iff {allowed : List Text} {text : Text} {host : Host} (named : ['.'] ∉ allowed)
    (denotes : Denotes text host) (solid : ∀ character ∈ text, Text.isWhitespace character = false) :
    host.shown ∈ allowed.map (fun host => (canonical host).getD host) ↔
      ∃ spelling ∈ allowed, Denotes (Text.trim spelling) host := by
  rw [List.mem_map]
  refine exists_congr fun spelling => and_congr_right fun member => ?_
  cases isShown : canonical spelling with
  | some shown =>
      obtain ⟨other, others, rfl⟩ := canonical_eq_some_iff.mp isShown
      rw [Option.getD_some]
      constructor
      · intro same
        rwa [← shown_inj others denotes same]
      · intro isHost
        rw [others.unique isHost]
  | none =>
      rw [Option.getD_none]
      refine iff_of_false ?_ fun isHost => ?_
      · rintro rfl
        have kept : Text.trim host.shown = host.shown :=
          Word.trimBy_eq_self_of_forall (solid_shown denotes solid)
        have isNil : undot (Text.trim host.shown) = [] := by
          by_contra nonempty
          obtain ⟨other, others⟩ := exists_denotes nonempty
          rw [canonical_of_denotes others] at isShown
          cases isShown
        rw [kept, undot_eq_nil_iff] at isNil
        rcases isNil with isNil | isDot
        · exact shown_ne_nil denotes isNil
        · rw [isDot] at member
          exact named member
      · rw [canonical_of_denotes isHost] at isShown
        cases isShown

theorem admits_iff (readAuthority : Octets → Option Authority) {allowed : List Text} (loopback : Bool)
    (named : ['.'] ∉ allowed) {headers : HeaderMap} {target : Option Authority} {authority : Authority}
    (isStated : stated readAuthority headers target = some authority) :
    admits readAuthority (allowing allowed loopback) headers target = true ↔
      (∃ spelling ∈ allowed, SameHost (Text.trim spelling) authority.host) ∨
        loopback = true ∧ ∃ host, Denotes authority.host host ∧ host.IsLoopback := by
  have kept : Text.trim authority.host = authority.host :=
    Word.trimBy_eq_self_of_forall authority.solid
  rw [admits, isStated, Option.bind_some, allowing_eq]
  dsimp only
  by_cases isNil : undot authority.host = []
  · rw [canonical_eq_none ((congrArg undot kept).trans isNil)]
    refine iff_of_false Bool.false_ne_true ?_
    rintro (⟨_, _, host, _, denotes⟩ | ⟨_, host, denotes, _⟩)
    · exact undot_ne_nil denotes isNil
    · exact undot_ne_nil denotes isNil
  · obtain ⟨host, denotes⟩ := exists_denotes isNil
    have only (other : Host) : Denotes authority.host other ↔ other = host :=
      ⟨fun others => others.unique denotes, fun same => same ▸ denotes⟩
    have isShown : canonical authority.host = some host.shown :=
      canonical_of_denotes (kept.symm ▸ denotes)
    rw [isShown, Option.any_some, Bool.or_eq_true, Bool.and_eq_true, List.contains_iff_mem,
      isLoopback_shown denotes, mem_hosts_iff named denotes authority.solid, or_comm]
    simp only [SameHost, only, exists_eq_right, exists_eq_left]

/-- A request is let through exactly where the host it states is one that is
allowed, or is loopback where that is. What else it states makes no difference. -/
theorem admits_exact (readAuthority : Octets → Option Authority) (allowed : List Text) (loopback : Bool)
    (named : ['.'] ∉ allowed) :
    (∀ headers target authority, stated readAuthority headers target = some authority →
      (admits readAuthority (allowing allowed loopback) headers target = true ↔
        (∃ spelling ∈ allowed, SameHost (Text.trim spelling) authority.host) ∨
          loopback = true ∧ ∃ host, Denotes authority.host host ∧ host.IsLoopback)) ∧
    ∀ headers otherHeaders (authority other : Authority), authority.host = other.host →
      admits readAuthority (allowing allowed loopback) headers (some authority) =
        admits readAuthority (allowing allowed loopback) otherHeaders (some other) := by
  refine ⟨fun headers target authority isStated => admits_iff readAuthority loopback named isStated, ?_⟩
  intro headers otherHeaders authority other same
  rw [admits, admits, stated, stated, Option.some_or, Option.some_or, Option.bind_some, Option.bind_some,
    same]

theorem solid_of_all {host : Text} (all : host.all (Text.isWhitespace · == false) = true) :
    ∀ character ∈ host, Text.isWhitespace character = false := fun character member =>
  beq_iff_eq.mp (List.all_eq_true.mp all character member)

/-- `API.example.com.:8080`. -/
def api : Authority where
  userinfo := none
  host := "API.example.com.".toList
  port := some "8080".toList
  solid := solid_of_all (by decide)

theorem admits_api : admits (fun _ => none) (allowing ["api.example.com".toList] false) ⟨[]⟩ (some api) =
      true ↔
    (∃ spelling ∈ ["api.example.com".toList], SameHost (Text.trim spelling) api.host) ∨
      false = true ∧ ∃ host, Denotes api.host host ∧ host.IsLoopback :=
  (admits_exact (fun _ => none) ["api.example.com".toList] false (by decide)).1 ⟨[]⟩ (some api) api rfl

/-- A host allowed with whitespace around it is the host without. -/
theorem admits_padded : ¬ ∀ (readAuthority : Octets → Option Authority) (allowed : List Text)
    (loopback : Bool) (headers : HeaderMap) (authority : Authority),
    admits readAuthority (allowing allowed loopback) headers (some authority) = true ↔
      (∃ spelling ∈ allowed, SameHost spelling authority.host) ∨
        loopback = true ∧ ∃ host, Denotes authority.host host ∧ host.IsLoopback := by
  intro exact
  have isAdmitted : admits (fun _ => none) (allowing [[' ', 'a']] false) ⟨[]⟩
      (some ⟨none, ['a'], none, solid_of_all (by decide)⟩) = true := by decide
  rcases (exact _ _ _ _ _).mp isAdmitted with ⟨spelling, member, host, padded, plain⟩ | ⟨isFalse, -⟩
  · obtain rfl := List.mem_singleton.mp member
    have unread (text : Text) (isNone : IpAddr.parse ((unbracketed (undot text)).getD (undot text)) = none)
        (address : IpAddr) : ¬ SpellsAddress text address := by
      rw [spellsAddress_iff, isNone]
      exact nofun
    have isPadded := padded.unique (.name (by decide) (unread [' ', 'a'] (by decide)))
    have isPlain := plain.unique (.name (by decide) (unread ['a'] (by decide)))
    exact absurd (Host.name.inj (isPadded.symm.trans isPlain)) (by decide)
  · cases isFalse

end TrustedHosts

end Kynos.Net
