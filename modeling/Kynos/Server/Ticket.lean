import Kynos.Http.Field
import Kynos.Numeral.Fixed

/-!
# Session tickets under shared keys

A ticket is the name of the key that sealed it, a salt, the second it was issued
at, and the session sealed with those three as associated data. A server issues
under one key and opens what that key and every accepted one sealed.
-/

namespace Kynos.Server.Ticket

open Kynos.Http Kynos.Numeral

/-- `NAME_LEN`. -/
def nameLen : Nat := 16

/-- `SALT_LEN`. -/
def saltLen : Nat := 32

/-- `ISSUED_LEN`. -/
def issuedLen : Nat := 8

/-- `HEADER_LEN`. -/
def headerLen : Nat := nameLen + saltLen + issuedLen

/-- The random octets of a ticket. -/
abbrev Salt := { octets : Octets // octets.length = saltLen }

/-- The key derivation and the cipher of a crypto provider: the name a key is
derived with, and what the key derived over a salt seals and opens under
associated data, where it can. -/
structure Provider (Key : Type) where
  name : Key → Octets
  nameLength : ∀ key, (name key).length = nameLen
  encrypt : Key → Salt → Octets → Octets → Option Octets
  decrypt : Key → Salt → Octets → Octets → Option Octets

variable {Key : Type} (provider : Provider Key)

/-- The three fields in the clear. -/
def header (key : Key) (salt : Salt) (issued : UInt64) : Octets :=
  provider.name key ++ salt.val ++ toBigEndian issuedLen issued.toNat

/-- `TicketKey::seal` under the salt that was drawn. -/
def sealUnder (key : Key) (salt : Salt) (issued : UInt64) (session : Octets) : Option Octets :=
  (provider.encrypt key salt (header provider key salt issued) session).map fun body =>
    header provider key salt issued ++ body

/-- `TicketKey::open`: the second a ticket was issued at, and its session. -/
def openUnder (key : Key) (ticket : Octets) : Option (Nat × Octets) :=
  if whole : headerLen ≤ ticket.length then
    let header := ticket.take headerLen
    let salt : Salt := ⟨(header.drop nameLen).take saltLen, by
      simp only [header, List.length_take, List.length_drop]
      have lengths : headerLen = nameLen + saltLen + issuedLen := rfl
      omega⟩
    (provider.decrypt key salt header (ticket.drop headerLen)).map fun session =>
      (ofBigEndian (header.drop (nameLen + saltLen)), session)
  else
    none

/-- `Generations`. -/
structure Generations (Key : Type) where
  issuing : Key
  accepted : List Key

/-- The keys a server opens tickets under. -/
def Generations.held (generations : Generations Key) : List Key :=
  generations.issuing :: generations.accepted

/-- `SharedTicketer::seal_at`, `random` being the salt drawn, where one could be. -/
def sealAt (generations : Generations Key) (random : Option Salt) (now : UInt64)
    (session : Octets) : Option Octets :=
  random.bind fun salt => sealUnder provider generations.issuing salt now session

/-- `SharedTicketer::open_at`. -/
def openAt (lifetime : Nat) (generations : Generations Key) (now : UInt64) (ticket : Octets) :
    Option Octets :=
  if nameLen ≤ ticket.length then
    (generations.held.find? fun key => provider.name key == ticket.take nameLen).bind fun key =>
      (openUnder provider key ticket).bind fun opened =>
        if now.toNat - opened.1 ≤ lifetime then some opened.2 else none
  else
    none

/-! ## One ticket -/

/-- An ideal derivation and cipher: distinct keys have distinct names, and what
is sealed opens to itself. -/
structure Ideal : Prop where
  named : Function.Injective provider.name
  inverse : ∀ key salt associated session body,
    provider.encrypt key salt associated session = some body →
      provider.decrypt key salt associated body = some session

theorem length_header (key : Key) (salt : Salt) (issued : UInt64) :
    (header provider key salt issued).length = headerLen := by
  simp only [header, List.length_append, provider.nameLength, salt.property, length_toBigEndian]
  rfl

theorem take_header (key : Key) (salt : Salt) (issued : UInt64) :
    (header provider key salt issued).take nameLen = provider.name key := by
  rw [header, List.append_assoc, List.take_left' (provider.nameLength key)]

theorem drop_header (key : Key) (salt : Salt) (issued : UInt64) :
    (header provider key salt issued).drop nameLen = salt.val ++ toBigEndian issuedLen issued.toNat := by
  rw [header, List.append_assoc, List.drop_left' (provider.nameLength key)]

theorem salt_header (key : Key) (salt : Salt) (issued : UInt64) :
    ((header provider key salt issued).drop nameLen).take saltLen = salt.val := by
  rw [drop_header, List.take_left' salt.property]

theorem issued_header (key : Key) (salt : Salt) (issued : UInt64) :
    ofBigEndian ((header provider key salt issued).drop (nameLen + saltLen)) = issued.toNat := by
  rw [← List.drop_drop, drop_header, List.drop_left' salt.property]
  exact ofBigEndian_toBigEndian issued.toNat_lt

/-- A ticket is a header and what was sealed under it. -/
theorem exists_of_sealUnder {provider : Provider Key} {key : Key} {salt : Salt} {issued : UInt64}
    {session ticket : Octets} (sealed : sealUnder provider key salt issued session = some ticket) :
    ∃ body, provider.encrypt key salt (header provider key salt issued) session = some body ∧
      ticket = header provider key salt issued ++ body := by
  obtain ⟨body, isBody, rfl⟩ := Option.map_eq_some_iff.mp sealed
  exact ⟨body, isBody, rfl⟩

/-- A key opens what it sealed. -/
theorem openUnder_of_sealUnder {provider : Provider Key} (ideal : Ideal provider) {key : Key}
    {salt : Salt} {issued : UInt64} {session ticket : Octets}
    (sealed : sealUnder provider key salt issued session = some ticket) :
    openUnder provider key ticket = some (issued.toNat, session) := by
  obtain ⟨body, isBody, rfl⟩ := exists_of_sealUnder sealed
  have length := length_header provider key salt issued
  have whole : headerLen ≤ (header provider key salt issued ++ body).length := by
    rw [List.length_append, length]
    exact Nat.le_add_right _ _
  rw [openUnder, dif_pos whole]
  simp only [List.take_left' length, List.drop_left' length, salt_header, issued_header,
    ideal.inverse _ _ _ _ _ isBody, Option.map_some]

/-- The name of a held key finds it. -/
theorem find_name {provider : Provider Key} (ideal : Ideal provider) {keys : List Key} {key : Key}
    (isHeld : key ∈ keys) :
    (keys.find? fun other => provider.name other == provider.name key) = some key := by
  have isSome : (keys.find? fun other => provider.name other == provider.name key).isSome :=
    List.find?_isSome.mpr ⟨key, isHeld, by simp⟩
  obtain ⟨found, isFound⟩ := Option.isSome_iff_exists.mp isSome
  have same : provider.name found = provider.name key := by
    simpa using List.find?_some isFound
  rw [isFound, ideal.named same]

/-- A ticket begins with the name of the key that sealed it. -/
theorem take_of_sealUnder {provider : Provider Key} {key : Key} {salt : Salt} {issued : UInt64}
    {session ticket : Octets} (sealed : sealUnder provider key salt issued session = some ticket) :
    ticket.take nameLen = provider.name key := by
  obtain ⟨body, -, rfl⟩ := exists_of_sealUnder sealed
  rw [List.take_append_of_le_length, take_header]
  rw [length_header]
  decide

/-- A replica that holds the key of a ticket opens it for its lifetime. -/
theorem openAt_of_sealUnder {provider : Provider Key} (ideal : Ideal provider) {lifetime : Nat}
    {generations : Generations Key} {now issued : UInt64} {key : Key} {salt : Salt}
    {session ticket : Octets} (sealed : sealUnder provider key salt issued session = some ticket)
    (isHeld : key ∈ generations.held) (young : now.toNat ≤ issued.toNat + lifetime) :
    openAt provider lifetime generations now ticket = some session := by
  have long : nameLen ≤ ticket.length := by
    have length := congrArg List.length (take_of_sealUnder sealed)
    rw [List.length_take, provider.nameLength] at length
    exact min_eq_left_iff.mp length
  rw [openAt, if_pos long, take_of_sealUnder sealed, find_name ideal isHeld, Option.bind_some,
    openUnder_of_sealUnder ideal sealed, Option.bind_some, if_pos (by simp only; omega)]

/-- What is opened names a key the replica holds and is young under it. -/
theorem exists_of_openAt {lifetime : Nat} {generations : Generations Key} {now : UInt64}
    {ticket session : Octets} (opens : openAt provider lifetime generations now ticket = some session) :
    ∃ key ∈ generations.held, ∃ issued, provider.name key = ticket.take nameLen ∧
      openUnder provider key ticket = some (issued, session) ∧ now.toNat ≤ issued + lifetime := by
  rw [openAt, Option.ite_none_right_eq_some] at opens
  obtain ⟨key, isFound, isOpened⟩ := Option.bind_eq_some_iff.mp opens.2
  obtain ⟨⟨issued, other⟩, isUnder, young⟩ := Option.bind_eq_some_iff.mp isOpened
  rw [Option.ite_none_right_eq_some, Option.some.injEq] at young
  obtain ⟨young, rfl⟩ := young
  have isNamed : provider.name key = ticket.take nameLen := by simpa using List.find?_some isFound
  refine ⟨key, List.mem_of_find?_eq_some isFound, issued, isNamed, isUnder, ?_⟩
  simp only at young
  omega

/-- What a key opens is a header and a body its cipher decrypts. -/
theorem exists_of_openUnder {key : Key} {ticket session : Octets} {issued : Nat}
    (opens : openUnder provider key ticket = some (issued, session)) :
    ∃ salt : Salt, ∃ header body, ticket = header ++ body ∧ header.length = headerLen ∧
      provider.decrypt key salt header body = some session ∧
      issued = ofBigEndian (header.drop (nameLen + saltLen)) := by
  rw [openUnder, Option.dite_none_right_eq_some] at opens
  obtain ⟨whole, opens⟩ := opens
  obtain ⟨other, decrypts, same⟩ := Option.map_eq_some_iff.mp opens
  obtain ⟨isIssued, rfl⟩ := Prod.mk.inj same
  exact ⟨_, _, _, (List.take_append_drop headerLen ticket).symm, List.length_take_of_le whole,
    decrypts, isIssued.symm⟩

end Kynos.Server.Ticket
