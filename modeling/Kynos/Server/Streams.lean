import Kynos.Numeral.Unsigned
import Kynos.Run.Runs

/-!
# The streams of a connection

`Streams` of `server/protocol/http2.rs`: two counters, and a notification from
each close that leaves no stream in flight to the wait for an idle connection.
Each operation on a counter or on the notification is one step, and the steps of
streams and of the wait interleave in any order. A connection has fewer streams
than the counters can count.
-/

namespace Kynos.Server

open Kynos.Numeral Kynos.Run

/-- Where `Streams::idle` is. A wait that is registered with the notification
has been `woken` or not, and `opened` is what it read of the counter. -/
inductive Idle where
  /-- It has no timeout. -/
  | never
  /-- At the top of its loop. -/
  | start
  /-- Registered, and about to read `closed`. -/
  | enabled (woken : Bool)
  /-- About to read `opened`. -/
  | reading (woken : Bool) (closed : Nat)
  /-- About to sleep. -/
  | settled (woken : Bool) (opened : Nat)
  /-- In `quiet.await`. -/
  | waiting (woken : Bool)
  /-- Asleep, unless it is woken. -/
  | sleeping (woken : Bool) (opened : Nat)
  /-- About to read `opened` again. -/
  | slept (woken : Bool) (opened : Nat)
  | resolved
  deriving DecidableEq, Repr

/-- `Streams`, the streams that are being closed and the wait: `counted` holds
what each close read when it counted itself and has not compared yet, and
`notifying` is how many found none in flight and have not notified yet. -/
structure Streams where
  opened : Nat
  closed : Nat
  permit : Bool
  counted : List Nat
  notifying : Nat
  idle : Idle
  deriving DecidableEq, Repr

/-- One step of a stream or of the wait. -/
inductive Step where
  /-- `Streams::open` -/
  | opens
  /-- `fetch_add` in `InFlight::drop` -/
  | counts
  /-- The comparison in `InFlight::drop`, of the close that counted itself as
  the given one. -/
  | compares (closed : Nat)
  /-- `notify_one` in `InFlight::drop` -/
  | notifies
  /-- `notified` and `enable` -/
  | registers
  /-- The two loads, the second with the branch taken on both. -/
  | readsClosed
  | readsOpened
  /-- `quiet.await` or `&mut quiet` ready. -/
  | wakes
  /-- The sleep begins. -/
  | sleeps
  /-- The sleep is over. -/
  | elapses
  /-- The last load, with the branch taken on it. -/
  | rechecks
  deriving DecidableEq, Repr

/-- A step of the wait. -/
def Step.isIdle : Step → Bool
  | opens | counts | compares _ | notifies => false
  | registers | readsClosed | readsOpened | wakes | sleeps | elapses | rechecks => true

namespace Idle

/-- Wakes the wait, if it is registered and was not woken yet. -/
def wake : Idle → Option Idle
  | enabled false => some (enabled true)
  | reading false closed => some (reading true closed)
  | settled false opened => some (settled true opened)
  | waiting false => some (waiting true)
  | sleeping false opened => some (sleeping true opened)
  | slept false opened => some (slept true opened)
  | _ => none

end Idle

namespace Streams

/-- No stream yet, and a wait for `timeout`. -/
def new (timeout : Option Duration) : Streams where
  opened := 0
  closed := 0
  permit := false
  counted := []
  notifying := 0
  idle := if timeout.isSome then .start else .never

/-- `Notify::notify_one`: the wait is woken, or one permit is stored. -/
def notifyOne (streams : Streams) : Streams :=
  match streams.idle.wake with
  | some idle => { streams with idle := idle }
  | none => { streams with permit := true }

/-- One step, where it is possible. -/
def step (streams : Streams) : Step → Option Streams
  | .opens => some { streams with opened := streams.opened + 1 }
  | .counts =>
      if streams.closed < streams.opened then
        some { streams with
          closed := streams.closed + 1
          counted := (streams.closed + 1) :: streams.counted }
      else
        none
  | .compares closed =>
      if closed ∈ streams.counted then
        let counted := streams.counted.erase closed
        if closed = streams.opened then
          some { streams with counted := counted, notifying := streams.notifying + 1 }
        else
          some { streams with counted := counted }
      else
        none
  | .notifies =>
      if 0 < streams.notifying then
        some { streams with notifying := streams.notifying - 1 }.notifyOne
      else
        none
  | .registers =>
      match streams.idle with
      | .start => some { streams with permit := false, idle := .enabled streams.permit }
      | _ => none
  | .readsClosed =>
      match streams.idle with
      | .enabled woken => some { streams with idle := .reading woken streams.closed }
      | _ => none
  | .readsOpened =>
      match streams.idle with
      | .reading woken closed =>
          if streams.opened = 0 ∨ closed ≠ streams.opened then
            some { streams with idle := .waiting woken }
          else
            some { streams with idle := .settled woken streams.opened }
      | _ => none
  | .wakes =>
      match streams.idle with
      | .waiting true => some { streams with idle := .start }
      | .sleeping true _ => some { streams with idle := .start }
      | _ => none
  | .sleeps =>
      match streams.idle with
      | .settled woken opened => some { streams with idle := .sleeping woken opened }
      | _ => none
  | .elapses =>
      match streams.idle with
      | .sleeping woken opened => some { streams with idle := .slept woken opened }
      | _ => none
  | .rechecks =>
      match streams.idle with
      | .slept woken opened =>
          if streams.opened = opened then
            some { streams with idle := .resolved }
          else
            -- A wait that is dropped after it was woken hands its permit on.
            some { streams with permit := streams.permit || woken, idle := .start }
      | _ => none

/-- The state of a connection after some steps. -/
def run (timeout : Option Duration) (steps : List Step) : Option Streams :=
  reached step (new timeout) steps

end Streams

end Kynos.Server
