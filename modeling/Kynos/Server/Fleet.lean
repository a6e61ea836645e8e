import Mathlib.Logic.Function.Basic
import Kynos.Run.Runs
import Kynos.Server.Ticket

/-!
# Tickets over a fleet

The replicas of a fleet rotate their keys, seal sessions and open tickets in any
order, by clocks that agree. Under a disciplined rotation every ticket is opened
by every replica for its lifetime; under any rotation nothing else is.
-/

namespace Kynos.Server.Ticket

open Kynos.Http Kynos.Run

/-- A session a replica sealed, and the ticket it became. -/
structure Sealing (Key : Type) where
  key : Key
  salt : Salt
  issued : UInt64
  session : Octets
  ticket : Octets

/-- A fleet: the second its clocks show, the keys of each replica, and what was
sealed so far. -/
structure Fleet (Replica Key : Type) where
  now : UInt64
  generations : Replica → Generations Key
  sealings : List (Sealing Key)

/-- What happens to a fleet: its clocks show another second, or one replica
rotates its keys, seals a session under the salt it drew, or opens a ticket. -/
inductive Event (Replica Key : Type) where
  | clock (now : UInt64)
  | rotate (replica : Replica) (issuing : Key) (accepted : List Key)
  | encrypt (replica : Replica) (random : Option Salt) (session : Octets)
  | decrypt (replica : Replica) (ticket : Octets)

section Step

variable {Replica Key : Type} (provider : Provider Key)

/-- What a replica seals now. -/
def Fleet.sealing (fleet : Fleet Replica Key) (replica : Replica) (random : Option Salt)
    (session : Octets) : Option (Sealing Key) :=
  random.bind fun salt =>
    (sealAt provider (fleet.generations replica) random fleet.now session).map fun ticket =>
      { key := (fleet.generations replica).issuing, salt, issued := fleet.now, session, ticket }

/-- What a replica opens a ticket to now. -/
def Fleet.opening (lifetime : Nat) (fleet : Fleet Replica Key) (replica : Replica)
    (ticket : Octets) : Option Octets :=
  openAt provider lifetime (fleet.generations replica) fleet.now ticket

variable [DecidableEq Replica]

/-- One step of a fleet; rotating replaces both generations of one replica, and
opening changes nothing. -/
def step (fleet : Fleet Replica Key) : Event Replica Key → Fleet Replica Key
  | .clock now => { fleet with now }
  | .rotate replica issuing accepted =>
      { fleet with
        generations := Function.update fleet.generations replica { issuing, accepted } }
  | .encrypt replica random session =>
      { fleet with
        sealings := (fleet.sealing provider replica random session).toList ++ fleet.sealings }
  | .decrypt _ _ => fleet

/-- A key is issued by no replica before every replica holds it, and held by
every replica while a ticket any replica issued under it may be young. -/
def Disciplined (lifetime : Nat) (start : Fleet Replica Key) (events : List (Event Replica Key)) :
    Prop :=
  ∀ earlier later, earlier <+: later → later <+: events →
    (after (step provider) start later).now.toNat ≤
        (after (step provider) start earlier).now.toNat + lifetime →
      ∀ issuer holder, ((after (step provider) start earlier).generations issuer).issuing ∈
        ((after (step provider) start later).generations holder).held

end Step

/-- No octets were forged under keys: what the cipher decrypts under one of them
was sealed in the fleet under the same key, salt and header. -/
def Unforged {Key : Type} (provider : Provider Key) (keys : List Key)
    (sealings : List (Sealing Key)) (ticket : Octets) : Prop :=
  ∀ key ∈ keys, ∀ salt associated body session, ticket = associated ++ body →
    associated.length = headerLen → provider.decrypt key salt associated body = some session →
      ∃ sealing ∈ sealings, sealing.key = key ∧ sealing.salt = salt ∧
        header provider key salt sealing.issued = associated ∧
        provider.encrypt key salt associated sealing.session = some body

section Run

variable {Replica Key : Type} {provider : Provider Key} {fleet : Fleet Replica Key}

/-- A sealing is of the replica's issuing key and the fleet's second. -/
theorem Fleet.sealUnder_of_sealing {replica : Replica} {random : Option Salt} {session : Octets}
    {sealing : Sealing Key} (seals : fleet.sealing provider replica random session = some sealing) :
    sealing.key = (fleet.generations replica).issuing ∧ sealing.issued = fleet.now ∧
      sealUnder provider sealing.key sealing.salt sealing.issued sealing.session =
        some sealing.ticket := by
  obtain ⟨salt, rfl, isSealed⟩ := Option.bind_eq_some_iff.mp seals
  obtain ⟨ticket, isTicket, rfl⟩ := Option.map_eq_some_iff.mp isSealed
  exact ⟨rfl, rfl, isTicket⟩

/-- A ticket opened was sealed, and every sealing of it is under a key held, is
young, and is of the session it opens to. -/
theorem Fleet.exists_of_opening (ideal : Ideal provider) {lifetime : Nat}
    {replica : Replica} {ticket session : Octets}
    (honest : ∀ sealing ∈ fleet.sealings,
      sealUnder provider sealing.key sealing.salt sealing.issued sealing.session =
        some sealing.ticket)
    (unforged : Unforged provider (fleet.generations replica).held fleet.sealings ticket)
    (opens : fleet.opening provider lifetime replica ticket = some session) :
    (∃ sealing ∈ fleet.sealings, sealing.ticket = ticket) ∧
      ∀ sealing ∈ fleet.sealings, sealing.ticket = ticket →
        sealing.key ∈ (fleet.generations replica).held ∧ sealing.session = session ∧
          fleet.now.toNat ≤ sealing.issued.toNat + lifetime := by
  obtain ⟨key, isHeld, issued, isNamed, isOpened, young⟩ := exists_of_openAt provider opens
  constructor
  · obtain ⟨salt, associated, body, isTicket, length, decrypts, -⟩ :=
      exists_of_openUnder provider isOpened
    obtain ⟨sealing, logged, rfl, rfl, isHeader, isBody⟩ :=
      unforged key isHeld salt associated body session isTicket length decrypts
    refine ⟨sealing, logged, ?_⟩
    have sealed := honest sealing logged
    rw [sealUnder, isHeader, isBody, Option.map_some, Option.some.injEq] at sealed
    rw [← sealed, isTicket]
  · rintro sealing logged rfl
    have sealed := honest sealing logged
    obtain rfl : key = sealing.key := ideal.named (isNamed.trans (take_of_sealUnder sealed))
    rw [openUnder_of_sealUnder ideal sealed, Option.some.injEq, Prod.mk.injEq] at isOpened
    obtain ⟨rfl, isSession⟩ := isOpened
    exact ⟨isHeld, isSession, young⟩

variable [DecidableEq Replica]

theorem mem_sealings_step {event : Event Replica Key} {sealing : Sealing Key}
    (logged : sealing ∈ (step provider fleet event).sealings) :
    (∃ replica, sealing.key = (fleet.generations replica).issuing ∧ sealing.issued = fleet.now ∧
      sealUnder provider sealing.key sealing.salt sealing.issued sealing.session =
        some sealing.ticket) ∨ sealing ∈ fleet.sealings := by
  cases event with
  | clock now => exact Or.inr logged
  | rotate replica issuing accepted => exact Or.inr logged
  | decrypt replica ticket => exact Or.inr logged
  | encrypt replica random session =>
      rcases List.mem_append.mp logged with sealed | logged
      · exact Or.inl ⟨replica, Fleet.sealUnder_of_sealing (Option.mem_toList.mp sealed)⟩
      · exact Or.inr logged

/-- Whatever a fleet sealed was sealed by some replica under the key it issued
then, at the second it was then. -/
theorem exists_origin_of_mem_sealings {start : Fleet Replica Key} (fresh : start.sealings = [])
    {events : List (Event Replica Key)} {sealing : Sealing Key}
    (logged : sealing ∈ (after (step provider) start events).sealings) :
    ∃ earlier replica, earlier <+: events ∧
      sealing.key = ((after (step provider) start earlier).generations replica).issuing ∧
      sealing.issued = (after (step provider) start earlier).now ∧
      sealUnder provider sealing.key sealing.salt sealing.issued sealing.session =
        some sealing.ticket := by
  have accounts : Accounts (step provider) start (fun _ => True)
      (fun fleet sealing => sealing ∈ fleet.sealings)
      (fun fleet _ sealing => ∃ replica, sealing.key = (fleet.generations replica).issuing ∧
        sealing.issued = fleet.now ∧
        sealUnder provider sealing.key sealing.salt sealing.issued sealing.session =
          some sealing.ticket)
      (fun _ _ _ => False) :=
    { initially := trivial
      kept := fun _ _ _ => trivial
      empty := fun sealing logged => by simp [fresh] at logged
      accounted := fun fleet event sealing _ logged =>
        (mem_sealings_step logged).imp_right fun logged => ⟨logged, not_false⟩ }
  obtain ⟨earlier, origin, since, rfl, ⟨replica, sealed⟩, -⟩ := accounts.exists_origin logged
  exact ⟨earlier, replica, List.prefix_append _ _, sealed⟩

/-- Whatever the replicas do, in any order: under a disciplined rotation every
ticket is opened by every replica up to its lifetime, to exactly the session
sealed, and under any rotation a ticket that opens was sealed in the fleet, is
no older than its lifetime, and is under a key the replica holds. -/
theorem opens_sealed {provider : Provider Key} (ideal : Ideal provider) (lifetime : Nat)
    {start : Fleet Replica Key} (fresh : start.sealings = []) (events : List (Event Replica Key)) :
    (Disciplined provider lifetime start events →
      ∀ sealing ∈ (after (step provider) start events).sealings, ∀ replica,
        (after (step provider) start events).now.toNat ≤ sealing.issued.toNat + lifetime →
          (after (step provider) start events).opening provider lifetime replica sealing.ticket =
            some sealing.session) ∧
      ∀ replica ticket session,
        Unforged provider ((after (step provider) start events).generations replica).held
            (after (step provider) start events).sealings ticket →
          (after (step provider) start events).opening provider lifetime replica ticket =
              some session →
            (∃ sealing ∈ (after (step provider) start events).sealings, sealing.ticket = ticket) ∧
              ∀ sealing ∈ (after (step provider) start events).sealings, sealing.ticket = ticket →
                sealing.key ∈
                    ((after (step provider) start events).generations replica).held ∧
                  sealing.session = session ∧
                  (after (step provider) start events).now.toNat ≤
                    sealing.issued.toNat + lifetime := by
  constructor
  · intro disciplined sealing logged replica young
    obtain ⟨earlier, issuer, isEarlier, isKey, isIssued, sealed⟩ :=
      exists_origin_of_mem_sealings fresh logged
    have isHeld := disciplined earlier events isEarlier List.prefix_rfl (isIssued ▸ young) issuer
      replica
    exact openAt_of_sealUnder ideal sealed (isKey ▸ isHeld) young
  · intro replica ticket session unforged opens
    refine Fleet.exists_of_opening ideal (fun sealing logged => ?_) unforged opens
    obtain ⟨_, _, _, _, _, sealed⟩ := exists_origin_of_mem_sealings fresh logged
    exact sealed

end Run

/-! ## One rotation -/

/-- A cipher that writes the key, the salt and the associated data before the
session, and checks them. -/
def labelling : Provider UInt8 where
  name key := List.replicate nameLen key
  nameLength _ := List.length_replicate
  encrypt key salt associated session := some (key :: (salt.val ++ associated) ++ session)
  decrypt key salt associated body :=
    if key :: (salt.val ++ associated) <+: body then
      some (body.drop (key :: (salt.val ++ associated)).length)
    else
      none

theorem ideal_labelling : Ideal labelling where
  named key other same := (List.replicate_right_inj (by decide)).mp same
  inverse key salt associated session body isBody := by
    obtain rfl := Option.some.inj isBody
    simp [labelling]

/-- Two replicas that issue under the first key. -/
def twoReplicas : Fleet Bool UInt8 :=
  { now := 0, generations := fun _ => { issuing := 1, accepted := [] }, sealings := [] }

/-- Both accept the second key before one issues under it. -/
def rotation : List (Event Bool UInt8) :=
  [.rotate true 1 [2], .rotate false 1 [2], .clock 5, .rotate true 2 [1],
    .encrypt true (some ⟨List.replicate saltLen 3, List.length_replicate⟩) [7], .clock 9]

theorem disciplined_rotation : Disciplined labelling 4 twoReplicas rotation := by
  have each : ∀ later ∈ rotation.inits, ∀ earlier ∈ later.inits,
      (after (step labelling) twoReplicas later).now.toNat ≤
          (after (step labelling) twoReplicas earlier).now.toNat + 4 →
        ∀ issuer holder,
          ((after (step labelling) twoReplicas earlier).generations issuer).issuing ∈
            ((after (step labelling) twoReplicas later).generations holder).held := by
    decide
  intro earlier later isEarlier isLater
  exact each later (List.mem_inits _ _ |>.mpr isLater) earlier (List.mem_inits _ _ |>.mpr isEarlier)

theorem unforged_labelling (keys : List UInt8) {sealing : Sealing UInt8}
    (sealed : sealUnder labelling sealing.key sealing.salt sealing.issued sealing.session =
      some sealing.ticket) : Unforged labelling keys [sealing] sealing.ticket := by
  intro key _ salt associated body session isTicket length decrypts
  obtain ⟨own, isOwn, split⟩ := exists_of_sealUnder sealed
  obtain ⟨rfl, rfl⟩ := List.append_inj (isTicket.symm.trans split)
    (length.trans (length_header labelling _ _ _).symm)
  obtain ⟨labelled, -⟩ := Option.ite_none_right_eq_some.mp decrypts
  have written := Option.some.inj isOwn
  rw [← written, List.cons_append, List.cons_prefix_cons, List.append_assoc] at labelled
  obtain ⟨rfl, rest, isRest⟩ := labelled
  rw [List.append_assoc] at isRest
  have sameSalt := (List.append_inj isRest (salt.property.trans sealing.salt.property.symm)).1
  obtain rfl : salt = sealing.salt := Subtype.ext sameSalt
  exact ⟨sealing, List.mem_singleton_self _, rfl, rfl, rfl, isOwn⟩

/-- What the first replica sealed on the way. -/
def sealedAtFive : Sealing UInt8 :=
  let salt : Salt := ⟨List.replicate saltLen 3, List.length_replicate⟩
  { key := 2
    salt
    issued := 5
    session := [7]
    ticket := header labelling 2 salt 5 ++ (2 :: (salt.val ++ header labelling 2 salt 5) ++ [7]) }

theorem sealings_rotation :
    (after (step labelling) twoReplicas rotation).sealings = [sealedAtFive] :=
  rfl

theorem opens_sealed_rotation :
    (after (step labelling) twoReplicas rotation).opening labelling 4 false sealedAtFive.ticket =
        some [7] ∧
      (∃ sealing ∈ (after (step labelling) twoReplicas rotation).sealings,
        sealing.ticket = sealedAtFive.ticket) := by
  have logged : sealedAtFive ∈ (after (step labelling) twoReplicas rotation).sealings := by
    rw [sealings_rotation]
    exact List.mem_singleton_self _
  have opens := (opens_sealed ideal_labelling 4 rfl rotation).1 disciplined_rotation sealedAtFive
    logged false (by decide)
  have unforged : Unforged labelling
      ((after (step labelling) twoReplicas rotation).generations false).held
      (after (step labelling) twoReplicas rotation).sealings sealedAtFive.ticket := by
    rw [sealings_rotation]
    exact unforged_labelling _ rfl
  exact ⟨opens, ((opens_sealed ideal_labelling 4 rfl rotation).2 false sealedAtFive.ticket [7]
    unforged opens).1⟩

end Kynos.Server.Ticket
