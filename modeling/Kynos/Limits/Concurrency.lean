import Kynos.Body.Watched
import Kynos.Run.Shared

/-!
# Requests in flight

A cap on the requests in flight: each takes a slot, or waits for one in the order
they came, or is shed, and holds its slot until the body of its response has been
sent or is dropped. The steps of all requests interleave in any order.
-/

namespace Kynos.Limits

open Kynos.Body Kynos.Run

/-- `Concurrency`: the slots there are, and whether a request waits for one. -/
structure Concurrency where
  limit : Nat
  queues : Bool

/-- Where a request is. One that left the queue without a slot is `abandoned`, and one
that gave its slot back is `gone`. -/
inductive Phase (Error : Type) where
  | waiting
  | running
  | sending (body : Watched Error)
  | shed
  | abandoned
  | gone

variable {Error : Type}

namespace Phase

/-- The slots a request holds. A body that is watched gives the slot back when it
reports. -/
def held : Phase Error → Nat
  | .running => 1
  | .sending body => if body.armed then 1 else 0
  | .waiting | .shed | .abandoned | .gone => 0

/-- Whether a request has not been given a slot. -/
def Slotless : Phase Error → Prop
  | .waiting | .shed | .abandoned => True
  | .running | .sending _ | .gone => False

end Phase

/-- The slots that are free, the requests that wait for one, first to last, and where
each request is. -/
structure Slots (Error : Type) where
  free : Nat
  queue : List Nat
  requests : List (Phase Error)

/-- What happens to a request, by its place among those that came. -/
inductive Event (Error : Type) where
  | arrive
  | expire (request : Nat)
  | cancel (request : Nat)
  | respond (request : Nat) (inner : Assembled Error)
  | poll (request : Nat) (answer : Body.Answer (BoxError Error)) (inner : Assembled Error)
  | drop (request : Nat)

namespace Slots

/-- A request is somewhere else. -/
def move (slots : Slots Error) (request : Nat) (phase : Phase Error) : Slots Error :=
  { slots with requests := slots.requests.set request phase }

/-- A slot given back goes to the first request that waits. -/
def release (slots : Slots Error) : Slots Error :=
  match slots.queue with
  | [] => { slots with free := slots.free + 1 }
  | first :: rest => { slots with queue := rest, requests := slots.requests.set first .running }

/-- A request is somewhere else, and gives back the slot it held if it holds none there. -/
def settle (slots : Slots Error) (request : Nat) (before after : Phase Error) : Slots Error :=
  if after.held < before.held then (slots.move request after).release else slots.move request after

/-- `acquire`: a slot is taken where one is free. -/
def arrive (config : Concurrency) (slots : Slots Error) : Slots Error :=
  if 0 < slots.free then
    { slots with free := slots.free - 1, requests := slots.requests ++ [.running] }
  else if config.queues then
    { slots with
      queue := slots.queue ++ [slots.requests.length]
      requests := slots.requests ++ [.waiting] }
  else
    { slots with requests := slots.requests ++ [.shed] }

/-- A request that waits leaves the queue. -/
def leave (slots : Slots Error) (request : Nat) (phase : Phase Error) : Slots Error :=
  { slots with queue := slots.queue.erase request, requests := slots.requests.set request phase }

/-- `intercept`, step by step. -/
def step (config : Concurrency) (slots : Slots Error) : Event Error → Option (Slots Error)
  | .arrive => some (slots.arrive config)
  | .expire request =>
      match slots.requests[request]? with
      | some .waiting => some (slots.leave request .shed)
      | _ => none
  | .cancel request =>
      match slots.requests[request]? with
      | some .waiting => some (slots.leave request .abandoned)
      | some .running => some (slots.settle request .running .gone)
      | _ => none
  | .respond request inner =>
      match slots.requests[request]? with
      | some .running => some (slots.settle request .running (.sending (Watched.watching inner)))
      | _ => none
  | .poll request answer inner =>
      match slots.requests[request]? with
      | some (.sending body) =>
          some (slots.settle request (.sending body) (.sending (body.pollFrame answer inner)))
      | _ => none
  | .drop request =>
      match slots.requests[request]? with
      | some (.sending body) => some (slots.settle request (.sending body) .gone)
      | _ => none

/-- No request yet. -/
def initial (config : Concurrency) : Slots Error :=
  ⟨config.limit, [], []⟩

/-- The requests in flight. -/
def inFlight (slots : Slots Error) : Nat :=
  (slots.requests.map Phase.held).sum

/-! ## What every step keeps -/

/-- What holds of the slots after any steps, but for some that are missing. -/
structure Kept (config : Concurrency) (missing : Nat) (slots : Slots Error) : Prop where
  balanced : pooled Phase.held slots.free slots.requests + missing = config.limit
  queued : ∀ request, request ∈ slots.queue ↔ slots.requests[request]? = some .waiting
  ordered : slots.queue.Pairwise (· < ·)
  busy : slots.queue ≠ [] → slots.free = 0
  shedding : config.queues = false → slots.queue = []
  inOrder : ∀ (earlier later : Nat) (phase : Phase Error), earlier < later → slots.requests[earlier]? = some .waiting →
    slots.requests[later]? = some phase → phase.Slotless

theorem kept_initial (config : Concurrency) : Kept config 0 (initial config : Slots Error) where
  balanced := rfl
  queued request := by simp [initial]
  ordered := List.Pairwise.nil
  busy impossible := absurd rfl impossible
  shedding _ := rfl
  inOrder := by simp [initial]

variable {config : Concurrency} {slots : Slots Error} {request : Nat} {phase before after : Phase Error}

theorem ne_waiting_of_not_slotless (given : ¬ phase.Slotless) : phase ≠ .waiting := by
  rintro rfl
  exact given trivial

theorem held_of_slotless (slotless : phase.Slotless) : phase.held = 0 := by
  cases phase with
  | waiting | shed | abandoned => rfl
  | running | sending _ | gone => cases slotless

theorem held_le_one (phase : Phase Error) : phase.held ≤ 1 := by
  cases phase with
  | sending body =>
      rw [Phase.held]
      split <;> decide
  | waiting | running | shed | abandoned | gone => exact Nat.le_of_ble_eq_true rfl

theorem getElem?_set_of_some {phases : List (Phase Error)} (isThere : phases[request]? = some before)
    (index : Nat) :
    (phases.set request after)[index]? = if request = index then some after else phases[index]? := by
  obtain ⟨inside, -⟩ := List.getElem?_eq_some_iff.mp isThere
  rw [List.getElem?_set, if_pos inside]

/-- A request that was given a slot goes on with it, or has it to give back. -/
theorem Kept.move (kept : Kept config 0 slots) (isThere : slots.requests[request]? = some before)
    (given : ¬ before.Slotless) (stays : ¬ after.Slotless) (less : after.held ≤ before.held) :
    Kept config (before.held - after.held) (slots.move request after) where
  balanced := by
    have sums := sum_map_set Phase.held after isThere
    have balanced := kept.balanced
    simp only [pooled, Slots.move] at balanced ⊢
    omega
  queued other := by
    rw [Slots.move, kept.queued, getElem?_set_of_some isThere]
    split
    · next same =>
        rw [← same, isThere]
        simp [ne_waiting_of_not_slotless given, ne_waiting_of_not_slotless stays]
    · rfl
  ordered := kept.ordered
  busy := kept.busy
  shedding := kept.shedding
  inOrder earlier later phase ordered waits isPhase := by
    rw [Slots.move, getElem?_set_of_some isThere] at waits isPhase
    split at waits
    · exact absurd (Option.some.inj waits) (ne_waiting_of_not_slotless stays)
    · split at isPhase
      · next same =>
          exact absurd (kept.inOrder earlier later before ordered waits (same ▸ isThere)) given
      · exact kept.inOrder earlier later phase ordered waits isPhase

/-- A slot given back is free, or goes to the first request that waits. -/
theorem Kept.release (kept : Kept config 1 slots) : Kept config 0 slots.release := by
  rw [Slots.release]
  split
  · next empty =>
      refine ⟨?_, ?_, ?_, fun waits => absurd empty waits, kept.shedding, kept.inOrder⟩
      · have balanced := kept.balanced
        simp only [pooled] at balanced ⊢
        omega
      · exact kept.queued
      · exact kept.ordered
  · next first rest isQueue =>
      have isWaiting : slots.requests[first]? = some .waiting :=
        (kept.queued first).mp (isQueue ▸ List.mem_cons_self)
      have ordered := kept.ordered
      rw [isQueue, List.pairwise_cons] at ordered
      have free : slots.free = 0 := kept.busy (by rw [isQueue]; exact List.cons_ne_nil _ _)
      refine ⟨?_, ?_, ordered.2, fun _ => free, ?_, ?_⟩
      · have sums := sum_map_set Phase.held Phase.running isWaiting
        have balanced := kept.balanced
        simp only [Phase.held] at sums
        simp only [pooled] at balanced ⊢
        omega
      · intro other
        have inQueue := kept.queued other
        rw [isQueue, List.mem_cons] at inQueue
        simp only [getElem?_set_of_some isWaiting]
        split
        · next same =>
            subst same
            simp only [reduceCtorEq, Option.some.injEq, iff_false]
            exact fun member => Nat.lt_irrefl _ (ordered.1 first member)
        · next different =>
            rw [← inQueue]
            exact ⟨.inr, fun either => either.resolve_left (Ne.symm different)⟩
      · intro sheds
        rw [kept.shedding sheds] at isQueue
        cases isQueue
      · intro earlier later phase before waits isPhase
        simp only [getElem?_set_of_some isWaiting] at waits isPhase
        split at waits
        · cases waits
        · next different =>
            have member := (kept.queued earlier).mpr waits
            rw [isQueue, List.mem_cons] at member
            have after := ordered.1 earlier (member.resolve_left (Ne.symm different))
            split at isPhase
            · next same => omega
            · exact kept.inOrder earlier later phase before waits isPhase

/-- A request that was given a slot and is somewhere else gives back what it no longer
holds. -/
theorem Kept.settle (kept : Kept config 0 slots) (isThere : slots.requests[request]? = some before)
    (given : ¬ before.Slotless) (stays : ¬ after.Slotless) (less : after.held ≤ before.held) :
    Kept config 0 (slots.settle request before after) := by
  have moved := kept.move isThere given stays less
  rw [Slots.settle]
  split
  · next gives =>
      have one : before.held - after.held = 1 := by
        have most := held_le_one before
        omega
      rw [one] at moved
      exact moved.release
  · next keeps =>
      rw [Nat.sub_eq_zero_of_le (Nat.not_lt.mp keeps)] at moved
      exact moved

/-- A request leaves the queue. -/
theorem Kept.leave (kept : Kept config 0 slots) (isThere : slots.requests[request]? = some .waiting)
    (slotless : phase.Slotless) (different : phase ≠ .waiting) :
    Kept config 0 (slots.leave request phase) where
  balanced := by
    have sums := sum_map_set Phase.held phase isThere
    have balanced := kept.balanced
    rw [held_of_slotless slotless, held_of_slotless (show Phase.Slotless (.waiting : Phase Error) from trivial)] at sums
    simp only [pooled, Slots.leave] at balanced ⊢
    omega
  queued other := by
    have nodup : slots.queue.Nodup := kept.ordered.imp Nat.ne_of_lt
    rw [Slots.leave, nodup.mem_erase_iff, kept.queued, getElem?_set_of_some isThere]
    split
    · next same =>
        subst same
        simp [different]
    · next other => exact and_iff_right (Ne.symm other)
  ordered := kept.ordered.sublist List.erase_sublist
  busy waits := kept.busy fun empty => waits (by rw [Slots.leave, empty]; rfl)
  shedding sheds := by
    rw [Slots.leave, kept.shedding sheds]
    rfl
  inOrder earlier later other ordered waits isPhase := by
    rw [Slots.leave, getElem?_set_of_some isThere] at waits isPhase
    split at waits
    · exact absurd (Option.some.inj waits) different
    · split at isPhase
      · cases isPhase
        exact slotless
      · exact kept.inOrder earlier later other ordered waits isPhase

theorem getElem?_concat (phases : List (Phase Error)) (phase : Phase Error) (index : Nat) :
    (phases ++ [phase])[index]? = if index = phases.length then some phase else phases[index]? := by
  split
  · next same => rw [same, List.getElem?_concat_length]
  · next different =>
      rcases Nat.lt_or_gt_of_ne different with inside | past
      · exact List.getElem?_append_left inside
      · rw [List.getElem?_eq_none (Nat.le_of_lt past), List.getElem?_eq_none]
        rw [List.length_append, List.length_singleton]
        exact past

/-- A request that comes takes a slot, waits behind all others, or is shed. -/
theorem Kept.arrive (kept : Kept config 0 slots) : Kept config 0 (slots.arrive config) := by
  have before : ∀ other, other ∈ slots.queue → other < slots.requests.length := fun other member =>
    (List.getElem?_eq_some_iff.mp ((kept.queued other).mp member)).1
  have balanced := kept.balanced
  rw [pooled] at balanced
  rw [Slots.arrive]
  split
  · next isFree =>
      have empty : slots.queue = [] := by
        by_contra waits
        exact Nat.ne_of_gt isFree (kept.busy waits)
      have none : ∀ other : Nat, slots.requests[other]? ≠ some .waiting := fun other waits => by
        have member := (kept.queued other).mpr waits
        rw [empty] at member
        cases member
      refine ⟨?_, fun other => ?_, kept.ordered, fun waits => absurd empty waits, kept.shedding, ?_⟩
      · simp only [pooled, List.map_append, List.map_singleton, List.sum_append, List.sum_singleton, Phase.held]
        omega
      · rw [getElem?_concat, empty]
        split
        · simp
        · simp [none other]
      · intro earlier later other _ waits
        rw [getElem?_concat] at waits
        split at waits
        · cases waits
        · exact absurd waits (none earlier)
  · next full =>
      have taken : slots.free = 0 := Nat.eq_zero_of_not_pos full
      split
      · next waits =>
          refine ⟨?_, fun other => ?_, ?_, fun _ => taken, fun sheds => ?_, ?_⟩
          · simp only [pooled, List.map_append, List.map_singleton, List.sum_append, List.sum_singleton, Phase.held]
            omega
          · rw [getElem?_concat, List.mem_append, List.mem_singleton]
            split
            · next same => simp [same]
            · next different => rw [or_iff_left different, kept.queued]
          · refine List.pairwise_append.mpr ⟨kept.ordered, List.pairwise_singleton _ _, ?_⟩
            intro earlier member last isLast
            rw [List.mem_singleton.mp isLast]
            exact before earlier member
          · rw [waits] at sheds
            cases sheds
          · intro earlier later other ordered isEarlier isLater
            rw [getElem?_concat] at isEarlier isLater
            split at isLater
            · cases isLater
              trivial
            · next different =>
                have inside := (List.getElem?_eq_some_iff.mp isLater).1
                rw [if_neg (by omega)] at isEarlier
                exact kept.inOrder earlier later other ordered isEarlier isLater
      · refine ⟨?_, fun other => ?_, kept.ordered, fun _ => taken, kept.shedding, ?_⟩
        · simp only [pooled, List.map_append, List.map_singleton, List.sum_append, List.sum_singleton, Phase.held]
          omega
        · rw [getElem?_concat, kept.queued]
          split
          · next same => simp [same]
          · rfl
        · intro earlier later other ordered isEarlier isLater
          rw [getElem?_concat] at isEarlier isLater
          split at isEarlier
          · cases isEarlier
          · split at isLater
            · cases isLater
              trivial
            · exact kept.inOrder earlier later other ordered isEarlier isLater

/-! ## Runs -/

/-- A body that has reported does not take its slot again. -/
theorem held_pollFrame_le (body : Watched Error) (answer : Body.Answer (BoxError Error))
    (inner : Assembled Error) :
    (Phase.sending (body.pollFrame answer inner)).held ≤ (Phase.sending body).held := by
  cases armed : body.armed with
  | true =>
      simp only [Phase.held, armed, if_true]
      split <;> decide
  | false =>
      rw [Watched.pollFrame_of_not_armed armed]
      exact Nat.le_refl _

/-- The slots an event gives back. -/
def returned (slots : Slots Error) : Event Error → Nat
  | .arrive | .expire _ | .respond _ _ => 0
  | .cancel request =>
      match slots.requests[request]? with
      | some .running => 1
      | _ => 0
  | .poll request answer inner =>
      match slots.requests[request]? with
      | some (.sending body) =>
          (Phase.sending body).held - (Phase.sending (body.pollFrame answer inner)).held
      | _ => 0
  | .drop request =>
      match slots.requests[request]? with
      | some (.sending body) => (Phase.sending body).held
      | _ => 0

/-- What a step does, and the slots it gives back: a request comes, one that waits leaves
the queue, or one that was given a slot goes on. -/
inductive Stepped (config : Concurrency) (slots : Slots Error) : Nat → Slots Error → Prop where
  | arrived : Stepped config slots 0 (slots.arrive config)
  | left {request : Nat} {phase : Phase Error} (isThere : slots.requests[request]? = some .waiting)
      (slotless : phase.Slotless) (different : phase ≠ .waiting) :
      Stepped config slots 0 (slots.leave request phase)
  | settled {request : Nat} {before after : Phase Error} (isThere : slots.requests[request]? = some before)
      (given : ¬ before.Slotless) (stays : ¬ after.Slotless) (less : after.held ≤ before.held) :
      Stepped config slots (before.held - after.held) (slots.settle request before after)

theorem stepped_of_step {event : Event Error} {next : Slots Error}
    (steps : slots.step config event = some next) : Stepped config slots (slots.returned event) next := by
  cases event with
  | arrive =>
      cases steps
      exact .arrived
  | expire request =>
      simp only [step] at steps
      split at steps
      · next isThere =>
          cases steps
          exact .left isThere trivial (by simp)
      · cases steps
  | cancel request =>
      simp only [step] at steps
      split at steps
      · next isThere =>
          cases steps
          rw [returned, isThere]
          exact .left isThere trivial (by simp)
      · next isThere =>
          cases steps
          rw [returned, isThere]
          exact @Stepped.settled _ config slots request .running .gone isThere not_false not_false
            (Nat.zero_le _)
      · cases steps
  | respond request inner =>
      simp only [step] at steps
      split at steps
      · next isThere =>
          cases steps
          exact @Stepped.settled _ config slots request .running (.sending (Watched.watching inner)) isThere
            not_false not_false (Nat.le_refl _)
      · cases steps
  | poll request answer inner =>
      simp only [step] at steps
      split at steps
      · next body isThere =>
          cases steps
          rw [returned, isThere]
          exact .settled isThere not_false not_false (held_pollFrame_le body answer inner)
      · cases steps
  | drop request =>
      simp only [step] at steps
      split at steps
      · next body isThere =>
          cases steps
          rw [returned, isThere]
          exact @Stepped.settled _ config slots request (.sending body) .gone isThere not_false not_false
            (Nat.zero_le _)
      · cases steps

theorem Kept.stepped (kept : Kept config 0 slots) {count : Nat} {next : Slots Error}
    (steps : Stepped config slots count next) :
    Kept config 0 next := by
  cases steps with
  | arrived => exact kept.arrive
  | left isThere slotless different => exact kept.leave isThere slotless different
  | settled isThere given stays less => exact kept.settle isThere given stays less

theorem kept_of_reached {events : List (Event Error)}
    (run : reached (step config) (initial config) events = some slots) : Kept config 0 slots :=
  kept_reached (kept_initial config) (fun _ _ _ kept steps => kept.stepped (stepped_of_step steps)) run

/-- After any steps, the slots that are free and the requests in flight are the limit
together. While a request waits all slots are taken, and the next request to come takes
one exactly where fewer requests than the limit are in flight: it waits or is shed only
where no slot is free. -/
theorem inFlight_of_reached {events : List (Event Error)}
    (run : reached (step config) (initial config) events = some slots) :
    slots.free + slots.inFlight = config.limit ∧
      (∀ request : Nat, slots.requests[request]? = some .waiting → slots.inFlight = config.limit) ∧
      ∃ phase, (slots.arrive config).requests = slots.requests ++ [phase] ∧
        (phase = .running ↔ slots.inFlight < config.limit) ∧
        (phase = .waiting ↔ slots.inFlight = config.limit ∧ config.queues = true) ∧
        (phase = .shed ↔ slots.inFlight = config.limit ∧ config.queues = false) := by
  have kept := kept_of_reached run
  have balanced : slots.free + slots.inFlight = config.limit := kept.balanced
  refine ⟨balanced, fun request waits => ?_, ?_⟩
  · have member := (kept.queued request).mpr waits
    rw [kept.busy (List.ne_nil_of_mem member), Nat.zero_add] at balanced
    exact balanced
  · rw [arrive]
    split
    · next isFree =>
        have room : slots.inFlight < config.limit := by omega
        have notFull : ¬ slots.inFlight = config.limit := Nat.ne_of_lt room
        exact ⟨.running, rfl, by simp [room], by simp [notFull], by simp [notFull]⟩
    · next taken =>
        have full : slots.inFlight = config.limit := by omega
        split
        · next waits => exact ⟨.waiting, rfl, by simp [full], by simp [full, waits], by simp [waits]⟩
        · next sheds =>
            rw [Bool.not_eq_true] at sheds
            exact ⟨.shed, rfl, by simp [full], by simp [sheds], by simp [full, sheds]⟩

/-- One slot, for which requests wait. -/
def one : Concurrency :=
  ⟨1, true⟩

/-- The first of three requests has the slot. -/
def three : Slots Empty :=
  ⟨0, [1, 2], [.running, .waiting, .waiting]⟩

theorem inFlight_of_reached_three :
    three.free + three.inFlight = one.limit ∧
      (∀ request : Nat, three.requests[request]? = some .waiting → three.inFlight = one.limit) ∧
      ∃ phase, (three.arrive one).requests = three.requests ++ [phase] ∧
        (phase = .running ↔ three.inFlight < one.limit) ∧
        (phase = .waiting ↔ three.inFlight = one.limit ∧ one.queues = true) ∧
        (phase = .shed ↔ three.inFlight = one.limit ∧ one.queues = false) :=
  inFlight_of_reached (show reached (step one) (initial one) [.arrive, .arrive, .arrive] = some three from rfl)

/-! ## Waiting -/

/-- The requests ahead of one that waits. -/
def ahead (slots : Slots Error) (request : Nat) : Nat :=
  slots.queue.idxOf request

/-- The slots a run gives back. -/
def returnedBy (config : Concurrency) (slots : Slots Error) : List (Event Error) → Nat
  | [] => 0
  | event :: events =>
      slots.returned event +
        match slots.step config event with
        | none => 0
        | some next => next.returnedBy config events

theorem idxOf_erase_le {queue : List Nat} {other : Nat} (different : other ≠ request) :
    (queue.erase other).idxOf request ≤ queue.idxOf request := by
  induction queue with
  | nil => exact Nat.le_refl _
  | cons first queue ih =>
      by_cases same : first = other
      · rw [same, List.erase_cons_head, List.idxOf_cons_ne _ different]
        exact Nat.le_succ _
      · rw [List.erase_cons_tail (by simpa using same)]
        by_cases isRequest : first = request
        · rw [List.idxOf_cons_eq _ isRequest]
          exact Nat.zero_le _
        · rw [List.idxOf_cons_ne _ isRequest, List.idxOf_cons_ne _ isRequest]
          exact Nat.succ_le_succ ih

/-- A request that still waits after a step waited before it, and the slots given back
went to requests ahead of it. -/
theorem Kept.ahead_of_stepped (kept : Kept config 0 slots) {count : Nat} {next : Slots Error}
    (steps : Stepped config slots count next) (came : request < slots.requests.length)
    (waits : next.requests[request]? = some .waiting) :
    slots.requests[request]? = some .waiting ∧ count + next.ahead request ≤ slots.ahead request := by
  cases steps with
  | arrived =>
      have member : slots.requests[request]? = some .waiting → request ∈ slots.queue := (kept.queued request).mpr
      have apart : request ≠ slots.requests.length := Nat.ne_of_lt came
      rw [Slots.arrive] at waits
      rw [Slots.arrive]
      split at waits
      · next isFree =>
          rw [getElem?_concat, if_neg apart] at waits
          rw [if_pos isFree]
          exact ⟨waits, Nat.le_of_eq (Nat.zero_add _)⟩
      · next taken =>
          rw [if_neg taken]
          split at waits
          · next queues =>
              rw [getElem?_concat, if_neg apart] at waits
              rw [if_pos queues]
              refine ⟨waits, Nat.le_of_eq ?_⟩
              rw [Nat.zero_add]
              exact List.idxOf_append_of_mem (member waits)
          · next sheds =>
              rw [getElem?_concat, if_neg apart] at waits
              rw [if_neg sheds]
              exact ⟨waits, Nat.le_of_eq (Nat.zero_add _)⟩
  | @left other phase isThere slotless different =>
      simp only [Slots.leave, getElem?_set_of_some isThere] at waits
      split at waits
      · exact absurd (Option.some.inj waits) different
      · next apart =>
          refine ⟨waits, ?_⟩
          rw [Nat.zero_add]
          exact idxOf_erase_le apart
  | @settled other before after isThere given stays less =>
      have moved : (slots.move other after).requests[request]? = some .waiting →
          slots.requests[request]? = some .waiting := by
        intro waits
        rw [Slots.move, getElem?_set_of_some isThere] at waits
        split at waits
        · exact absurd (Option.some.inj waits) (ne_waiting_of_not_slotless stays)
        · exact waits
      rw [Slots.settle] at waits ⊢
      split at waits
      · next gives =>
          have most := held_le_one before
          rw [if_pos gives]
          rw [Slots.release] at waits ⊢
          split at waits
          · next empty =>
              have member := (kept.queued request).mpr (moved waits)
              rw [show slots.queue = [] from empty] at member
              cases member
          · next first rest isQueue =>
              have isFirst : (slots.move other after).requests[first]? = some .waiting := by
                have inQueue := (kept.queued first).mp (by
                  rw [show slots.queue = first :: rest from isQueue]
                  exact List.mem_cons_self)
                rw [Slots.move, getElem?_set_of_some isThere]
                split
                · next same =>
                    rw [same, inQueue] at isThere
                    exact absurd (Option.some.inj isThere).symm (ne_waiting_of_not_slotless given)
                · exact inQueue
              rw [getElem?_set_of_some isFirst] at waits
              split at waits
              · cases waits
              · next apart =>
                  refine ⟨moved waits, ?_⟩
                  have position : slots.ahead request = rest.idxOf request + 1 := by
                    rw [Slots.ahead, show slots.queue = first :: rest from isQueue,
                      List.idxOf_cons_ne _ apart]
                  rw [position]
                  simp only [Slots.ahead]
                  omega
      · next keeps =>
          rw [if_neg keeps, Nat.sub_eq_zero_of_le (Nat.not_lt.mp keeps), Nat.zero_add]
          exact ⟨moved waits, Nat.le_refl _⟩

theorem length_le_of_stepped {count : Nat} {next : Slots Error} (steps : Stepped config slots count next) :
    slots.requests.length ≤ next.requests.length := by
  cases steps with
  | arrived =>
      rw [Slots.arrive]
      split
      · simp
      · split <;> simp
  | left _ _ _ => simp [Slots.leave]
  | settled _ _ _ _ =>
      rw [Slots.settle]
      split
      · rw [Slots.release]
        split <;> simp [Slots.move]
      · simp [Slots.move]

/-- While a request waits, no more slots are given back than there are requests ahead of
it: each goes to one of these. -/
theorem Kept.ahead_of_reached {events : List (Event Error)} {last : Slots Error} (kept : Kept config 0 slots)
    (run : reached (step config) slots events = some last) (came : request < slots.requests.length)
    (waits : last.requests[request]? = some .waiting) :
    slots.requests[request]? = some .waiting ∧
      slots.returnedBy config events + last.ahead request ≤ slots.ahead request := by
  induction events generalizing slots with
  | nil =>
      cases run
      exact ⟨waits, Nat.le_of_eq (Nat.zero_add _)⟩
  | cons event events ih =>
      obtain ⟨next, steps, rest⟩ := Option.bind_eq_some_iff.mp run
      have stepped := stepped_of_step steps
      obtain ⟨later, fewer⟩ := ih (kept.stepped stepped) rest (came.trans_le (length_le_of_stepped stepped))
      obtain ⟨waited, ahead⟩ := kept.ahead_of_stepped stepped came later
      refine ⟨waited, ?_⟩
      rw [returnedBy, steps]
      simp only
      omega

/-- A request that waits has waited since it came. No request that came later was given
a slot before it, and while it waits no more slots are given back than there were
requests ahead of it. -/
theorem waits_in_order {start events : List (Event Error)} {last : Slots Error}
    (earlier : reached (step config) (initial config) start = some slots)
    (run : reached (step config) slots events = some last) (came : request < slots.requests.length)
    (waits : last.requests[request]? = some .waiting) :
    slots.requests[request]? = some .waiting ∧
      slots.returnedBy config events + last.ahead request ≤ slots.ahead request ∧
      ∀ (later : Nat) (phase : Phase Error), request < later → last.requests[later]? = some phase →
        phase.Slotless := by
  obtain ⟨waited, fewer⟩ := (kept_of_reached earlier).ahead_of_reached run came waits
  have whole : reached (step config) (initial config) (start ++ events) = some last := by
    rw [reached_append, earlier]
    exact run
  exact ⟨waited, fewer, fun later phase ordered isLater =>
    (kept_of_reached whole).inOrder request later phase ordered waits isLater⟩

/-- The slot of the first goes to the second. -/
def two : Slots Empty :=
  ⟨0, [2], [.gone, .running, .waiting]⟩

theorem waits_in_order_three :
    three.requests[2]? = some .waiting ∧
      three.returnedBy one [.cancel 0] + two.ahead 2 ≤ three.ahead 2 ∧
      ∀ (later : Nat) (phase : Phase Empty), 2 < later → two.requests[later]? = some phase →
        phase.Slotless :=
  waits_in_order (show reached (step one) (initial one) [.arrive, .arrive, .arrive] = some three from rfl)
    (show reached (step one) three [.cancel 0] = some two from rfl) (by decide) rfl

end Slots

end Kynos.Limits
