import Kynos.Numeral.Unsigned
import Kynos.Run.Runs
import Kynos.Run.Shared

/-!
# Serving until shutdown

`BoundServer::serve` and its accept loops, one to a listener: the permits for
connections they share, the state of the server they all observe, and the drain
that ends it. Each check of that state and each action is one step, the steps of
loops, connections and server interleave in any order, and of the branches of a
`select!` that are ready any may be taken.
-/

namespace Kynos.Server

open Kynos.Numeral Kynos.Run

/-! ## Failed accepts -/

/-- `io::ErrorKind`, as far as failed accepts are told apart by it. -/
inductive ErrorKind where
  | interrupted
  | connectionAborted
  | connectionReset
  | networkDown
  | networkUnreachable
  | hostUnreachable
  | invalidInput
  | other
  deriving DecidableEq, Repr

/-- `AcceptRetry`. -/
inductive AcceptRetry where
  | now
  | after (delay : Duration)
  | never
  deriving DecidableEq, Repr

/-- `ACCEPT_RETRY_INITIAL`. -/
def acceptRetryInitial : Duration := Duration.fromMillis 10

/-- `ACCEPT_RETRY_MAX`. -/
def acceptRetryMax : Duration := Duration.fromMillis 1000

/-- `AcceptBackoff`. -/
structure AcceptBackoff where
  next : Duration
  deriving DecidableEq, Repr

namespace AcceptBackoff

/-- `AcceptBackoff::default`, and what `AcceptBackoff::succeed` leaves. -/
def initial : AcceptBackoff := ⟨acceptRetryInitial⟩

/-- The last arm of `AcceptBackoff::fail`. -/
def wait (backoff : AcceptBackoff) : AcceptRetry × AcceptBackoff :=
  (.after backoff.next, ⟨min (backoff.next * 2) acceptRetryMax⟩)

/-- `AcceptBackoff::fail`, on Linux and elsewhere. -/
def fail (isLinux : Bool) (backoff : AcceptBackoff) : ErrorKind → AcceptRetry × AcceptBackoff
  | .interrupted | .connectionAborted | .connectionReset => (.now, backoff)
  | .networkDown | .networkUnreachable | .hostUnreachable =>
      if isLinux then (.now, backoff) else backoff.wait
  | .invalidInput => (.never, backoff)
  | .other => backoff.wait

end AcceptBackoff

/-! ## Accept loops -/

/-- `Lifecycle`. -/
inductive Lifecycle where
  | running
  | draining
  | forced
  deriving DecidableEq, Repr

/-- Where an accept loop is. Before each action it waits for, it has `checked` in the same
poll that the server is running, or not yet. -/
inductive Phase where
  /-- At the top of the loop. -/
  | starting
  /-- In `acquire_owned`. -/
  | acquiring (checked : Bool)
  /-- In `accept`, with a permit. -/
  | accepting (checked : Bool)
  /-- In `sleep`. -/
  | sleeping (checked : Bool) (delay : Duration)
  /-- In `join_next`. -/
  | draining
  /-- In `connections.shutdown`. -/
  | shutting
  | ended (panicked : Bool)
  deriving DecidableEq, Repr

/-- `accept_loop`, the connections it spawned (those that run, those that finished and have
not been joined, and those that were aborted and have yet to end) and whether the server has
joined it. -/
structure AcceptLoop where
  phase : Phase
  backoff : AcceptBackoff
  running : Nat
  finished : Nat
  cancelled : Nat
  joined : Bool
  deriving DecidableEq, Repr

/-- A step of an accept loop or of one of its connections. -/
inductive LoopStep where
  /-- `try_join_next`, until no connection has finished. -/
  | starts
  /-- `wait_until_stopping` is polled. -/
  | checks
  /-- The poll found nothing ready. -/
  | parks
  | acquires
  /-- `accept` gives a connection, or fails. -/
  | accepts (failure : Option ErrorKind)
  /-- The sleep is over. -/
  | elapses
  /-- A connection ends. -/
  | finishes
  /-- `join_next` gives a connection. -/
  | reaps
  /-- `connections.shutdown` is called. -/
  | shuts
  /-- An aborted connection ends. -/
  | cancels
  | ends
  | panics
  deriving DecidableEq, Repr

namespace AcceptLoop

def new : AcceptLoop where
  phase := .starting
  backoff := .initial
  running := 0
  finished := 0
  cancelled := 0
  joined := false

/-- A loop whose task is dropped, which aborts its connections. -/
def dropped (loop : AcceptLoop) (panicked : Bool) : AcceptLoop :=
  { loop with phase := .ended panicked, running := 0, cancelled := loop.cancelled + loop.running }

/-- The permit a loop gives back where its task is dropped. -/
def released (loop : AcceptLoop) : Nat :=
  match loop.phase with
  | .accepting _ => 1
  | _ => 0

/-- What a failed accept leads to, and the kind it is reported as, if it is. -/
def failed (isLinux : Bool) (loop : AcceptLoop) (kind : ErrorKind) : AcceptLoop × Option ErrorKind :=
  match loop.backoff.fail isLinux kind with
  | (.now, backoff) => ({ loop with phase := .starting, backoff := backoff }, none)
  | (.after delay, backoff) => ({ loop with phase := .sleeping false delay, backoff := backoff }, none)
  | (.never, backoff) => ({ loop with phase := .draining, backoff := backoff }, some kind)

/-- A step of a loop: the permits that are free after it, and a failure it reports. -/
def step (isLinux : Bool) (lifecycle : Lifecycle) (permits : Nat) (loop : AcceptLoop) :
    LoopStep → Option (AcceptLoop × Nat × Option ErrorKind)
  | .starts =>
      match loop.phase with
      | .starting => some ({ loop with phase := .acquiring false, finished := 0 }, permits, none)
      | _ => none
  | .checks =>
      match loop.phase with
      | .acquiring _ =>
          if lifecycle = .running then some ({ loop with phase := .acquiring true }, permits, none)
          else some ({ loop with phase := .draining }, permits, none)
      | .accepting _ =>
          if lifecycle = .running then some ({ loop with phase := .accepting true }, permits, none)
          else some ({ loop with phase := .draining }, permits + 1, none)
      | .sleeping _ delay =>
          if lifecycle = .running then some ({ loop with phase := .sleeping true delay }, permits, none)
          else some ({ loop with phase := .draining }, permits, none)
      | _ => none
  | .parks =>
      match loop.phase with
      | .acquiring true => some ({ loop with phase := .acquiring false }, permits, none)
      | .accepting true => some ({ loop with phase := .accepting false }, permits, none)
      | .sleeping true delay => some ({ loop with phase := .sleeping false delay }, permits, none)
      | _ => none
  | .acquires =>
      match loop.phase, permits with
      | .acquiring true, permits + 1 => some ({ loop with phase := .accepting false }, permits, none)
      | _, _ => none
  | .accepts failure =>
      match loop.phase, failure with
      | .accepting true, none =>
          some ({ loop with phase := .starting, backoff := .initial, running := loop.running + 1 }, permits, none)
      | .accepting true, some kind =>
          let (loop, failure) := loop.failed isLinux kind
          some (loop, permits + 1, failure)
      | _, _ => none
  | .elapses =>
      match loop.phase with
      | .sleeping true _ => some ({ loop with phase := .starting }, permits, none)
      | _ => none
  | .finishes =>
      match loop.running with
      | running + 1 =>
          some ({ loop with running := running, finished := loop.finished + 1 }, permits + 1, none)
      | 0 => none
  | .reaps =>
      match loop.phase, loop.finished with
      | .draining, finished + 1 => some ({ loop with finished := finished }, permits, none)
      | _, _ => none
  | .shuts =>
      if loop.phase = .draining ∧ lifecycle = .forced then
        some ({ loop with phase := .shutting, running := 0, cancelled := loop.cancelled + loop.running },
          permits, none)
      else none
  | .cancels =>
      match loop.cancelled with
      | cancelled + 1 => some ({ loop with cancelled := cancelled }, permits + 1, none)
      | 0 => none
  | .ends =>
      if (loop.phase = .draining ∧ loop.running = 0 ∧ loop.finished = 0) ∨
          (loop.phase = .shutting ∧ loop.cancelled = 0) then
        some ({ loop with phase := .ended false }, permits, none)
      else none
  | .panics =>
      match loop.phase with
      | .ended _ => none
      | _ => some (loop.dropped true, permits + loop.released, none)

end AcceptLoop

/-! ## The server -/

/-- `ServerError`, as far as serving ends with one. -/
inductive ServerError where
  | accept (address : Nat) (source : ErrorKind)
  | acceptLoop (panicked : Bool)
  | signal
  | shutdownTimeout (timeout : Duration)
  | shutdownForced
  deriving DecidableEq, Repr

/-- `Drain`. -/
inductive Drain where
  | complete
  | timedOut
  | forced
  deriving DecidableEq, Repr

/-- `BoundServer`, with the listeners it has and the two settings that bound it. -/
structure BoundServer where
  listeners : Nat
  maxConnections : Nat
  shutdownTimeout : Duration
  isLinux : Bool
  listening : 0 < listeners
  connectable : 0 < maxConnections

/-- Where `BoundServer::serve` is. -/
inductive Main where
  /-- In the first `select!`. -/
  | serving
  /-- In the second one, after an error or without one, and whether shutdown can still be
  forced. -/
  | draining (rootError : Option ServerError) (forceable : Bool)
  /-- In `accept_loops.shutdown`. -/
  | aborting (rootError : Option ServerError) (drain : Drain)
  | returned (result : Except ServerError Unit)
  deriving DecidableEq, Repr

/-- A server and its accept loops, in the order of the listeners. -/
structure Serving where
  lifecycle : Lifecycle
  permits : Nat
  loops : List AcceptLoop
  failures : List ServerError
  main : Main
  deriving DecidableEq, Repr

/-- A step of an accept loop, or of the server. -/
inductive ServingStep where
  | loop (index : Nat) (step : LoopStep)
  /-- `failures.recv`. -/
  | receives
  /-- `accept_loops.join_next` gives a loop. -/
  | joins (index : Nat)
  /-- The shutdown signal: whether a further one can force it, or that it could not be
  registered. -/
  | signals (forceable : Option Bool)
  | forces
  | timesOut
  | completes
  /-- A loop is dropped by `accept_loops.shutdown`. -/
  | aborts (index : Nat)
  | returns
  deriving DecidableEq, Repr

namespace BoundServer

variable (server : BoundServer)

/-- What `serve` begins with. -/
def start : Serving where
  lifecycle := .running
  permits := server.maxConnections
  loops := List.replicate server.listeners .new
  failures := []
  main := .serving

/-- What `serve` returns. -/
def result (rootError : Option ServerError) : Drain → Except ServerError Unit :=
  match rootError with
  | some error => fun _ => .error error
  | none => fun
      | .complete => .ok ()
      | .timedOut => .error (.shutdownTimeout server.shutdownTimeout)
      | .forced => .error .shutdownForced

/-- A step of the server. -/
def step (state : Serving) : ServingStep → Option Serving
  | .loop index taken => do
      let loop ← state.loops[index]?
      let (loop, permits, failure) ← loop.step server.isLinux state.lifecycle state.permits taken
      some { state with
        permits := permits
        loops := state.loops.set index loop
        failures := state.failures ++ (failure.map fun kind => ServerError.accept index kind).toList }
  | .receives =>
      match state.main, state.failures with
      | .serving, error :: failures =>
          some { state with lifecycle := .draining, failures := failures, main := .draining (some error) false }
      | _, _ => none
  | .joins index => do
      let loop ← state.loops[index]?
      match loop.phase, loop.joined with
      | .ended panicked, false =>
          let loops := state.loops.set index { loop with joined := true }
          match state.main with
          | .serving =>
              some { state with
                lifecycle := .draining
                loops := loops
                main := .draining (if panicked then some (.acceptLoop true) else none) false }
          | .draining _ _ => if server.shutdownTimeout = 0 then none else some { state with loops := loops }
          | .aborting _ _ => some { state with loops := loops }
          | .returned _ => none
      | _, _ => none
  | .signals signal =>
      match state.main, signal with
      | .serving, some forceable =>
          some { state with lifecycle := .draining, main := .draining none forceable }
      | .serving, none =>
          some { state with lifecycle := .draining, main := .draining (some .signal) false }
      | _, _ => none
  | .forces =>
      match state.main with
      | .draining none true =>
          if server.shutdownTimeout = 0 then none
          else some { state with lifecycle := .forced, main := .aborting none .forced }
      | _ => none
  | .timesOut =>
      match state.main with
      | .draining rootError _ => some { state with lifecycle := .forced, main := .aborting rootError .timedOut }
      | _ => none
  | .completes =>
      match state.main with
      | .draining rootError _ =>
          if server.shutdownTimeout ≠ 0 ∧ state.loops.all AcceptLoop.joined then
            some { state with main := .returned (server.result rootError .complete) }
          else none
      | _ => none
  | .aborts index => do
      let loop ← state.loops[index]?
      match state.main, loop.phase with
      | .aborting _ _, .ended _ => none
      | .aborting _ _, _ =>
          some { state with
            permits := state.permits + loop.released
            loops := state.loops.set index (loop.dropped false) }
      | _, _ => none
  | .returns =>
      match state.main with
      | .aborting rootError drain =>
          if state.loops.all AcceptLoop.joined then
            some { state with main := .returned (server.result rootError drain) }
          else none
      | _ => none

end BoundServer

/-! ## What a step of a loop does -/

namespace AcceptLoop

variable {isLinux : Bool} {lifecycle : Lifecycle} {permits : Nat} {loop : AcceptLoop}

/-- The changes a step of a loop may make. -/
inductive Stepped (isLinux : Bool) (lifecycle : Lifecycle) (permits : Nat) (loop : AcceptLoop) :
    LoopStep → AcceptLoop → Nat → Option ErrorKind → Prop where
  | starts (phase : loop.phase = .starting) : Stepped isLinux lifecycle permits loop .starts
      { loop with phase := .acquiring false, finished := 0 } permits none
  | checksAcquiring {checked : Bool} (phase : loop.phase = .acquiring checked) (runs : lifecycle = .running) :
      Stepped isLinux lifecycle permits loop .checks { loop with phase := .acquiring true } permits none
  | checksAccepting {checked : Bool} (phase : loop.phase = .accepting checked) (runs : lifecycle = .running) :
      Stepped isLinux lifecycle permits loop .checks { loop with phase := .accepting true } permits none
  | checksSleeping {checked : Bool} {delay : Duration} (phase : loop.phase = .sleeping checked delay)
      (runs : lifecycle = .running) :
      Stepped isLinux lifecycle permits loop .checks { loop with phase := .sleeping true delay } permits none
  | leavesAcquiring {checked : Bool} (phase : loop.phase = .acquiring checked) (stops : lifecycle ≠ .running) :
      Stepped isLinux lifecycle permits loop .checks { loop with phase := .draining } permits none
  | leavesAccepting {checked : Bool} (phase : loop.phase = .accepting checked) (stops : lifecycle ≠ .running) :
      Stepped isLinux lifecycle permits loop .checks { loop with phase := .draining } (permits + 1) none
  | leavesSleeping {checked : Bool} {delay : Duration} (phase : loop.phase = .sleeping checked delay)
      (stops : lifecycle ≠ .running) :
      Stepped isLinux lifecycle permits loop .checks { loop with phase := .draining } permits none
  | parksAcquiring (phase : loop.phase = .acquiring true) :
      Stepped isLinux lifecycle permits loop .parks { loop with phase := .acquiring false } permits none
  | parksAccepting (phase : loop.phase = .accepting true) :
      Stepped isLinux lifecycle permits loop .parks { loop with phase := .accepting false } permits none
  | parksSleeping {delay : Duration} (phase : loop.phase = .sleeping true delay) :
      Stepped isLinux lifecycle permits loop .parks { loop with phase := .sleeping false delay } permits none
  | acquires {left : Nat} (phase : loop.phase = .acquiring true) (free : permits = left + 1) :
      Stepped isLinux lifecycle permits loop .acquires { loop with phase := .accepting false } left none
  | accepts (phase : loop.phase = .accepting true) : Stepped isLinux lifecycle permits loop (.accepts none)
      { loop with phase := .starting, backoff := .initial, running := loop.running + 1 } permits none
  | retries {kind : ErrorKind} {backoff : AcceptBackoff} (phase : loop.phase = .accepting true)
      (fails : loop.backoff.fail isLinux kind = (.now, backoff)) :
      Stepped isLinux lifecycle permits loop (.accepts (some kind))
        { loop with phase := .starting, backoff := backoff } (permits + 1) none
  | waits {kind : ErrorKind} {delay : Duration} {backoff : AcceptBackoff} (phase : loop.phase = .accepting true)
      (fails : loop.backoff.fail isLinux kind = (.after delay, backoff)) :
      Stepped isLinux lifecycle permits loop (.accepts (some kind))
        { loop with phase := .sleeping false delay, backoff := backoff } (permits + 1) none
  | stops {kind : ErrorKind} {backoff : AcceptBackoff} (phase : loop.phase = .accepting true)
      (fails : loop.backoff.fail isLinux kind = (.never, backoff)) :
      Stepped isLinux lifecycle permits loop (.accepts (some kind))
        { loop with phase := .draining, backoff := backoff } (permits + 1) (some kind)
  | elapses {delay : Duration} (phase : loop.phase = .sleeping true delay) :
      Stepped isLinux lifecycle permits loop .elapses { loop with phase := .starting } permits none
  | finishes {running : Nat} (some : loop.running = running + 1) : Stepped isLinux lifecycle permits loop .finishes
      { loop with running := running, finished := loop.finished + 1 } (permits + 1) none
  | reaps {finished : Nat} (phase : loop.phase = .draining) (some : loop.finished = finished + 1) :
      Stepped isLinux lifecycle permits loop .reaps { loop with finished := finished } permits none
  | shuts (phase : loop.phase = .draining) (forced : lifecycle = .forced) :
      Stepped isLinux lifecycle permits loop .shuts
        { loop with phase := .shutting, running := 0, cancelled := loop.cancelled + loop.running } permits none
  | cancels {cancelled : Nat} (some : loop.cancelled = cancelled + 1) :
      Stepped isLinux lifecycle permits loop .cancels { loop with cancelled := cancelled } (permits + 1) none
  | endsDrained (phase : loop.phase = .draining) (none : loop.running = 0) (reaped : loop.finished = 0) :
      Stepped isLinux lifecycle permits loop .ends { loop with phase := .ended false } permits Option.none
  | endsShut (phase : loop.phase = .shutting) (none : loop.cancelled = 0) :
      Stepped isLinux lifecycle permits loop .ends { loop with phase := .ended false } permits Option.none
  | panics (alive : ∀ panicked, loop.phase ≠ .ended panicked) :
      Stepped isLinux lifecycle permits loop .panics (loop.dropped true) (permits + loop.released) none

theorem stepped_of_step {taken : LoopStep} {next : AcceptLoop} {after : Nat} {failure : Option ErrorKind}
    (stepped : loop.step isLinux lifecycle permits taken = some (next, after, failure)) :
    Stepped isLinux lifecycle permits loop taken next after failure := by
  cases taken with
  | starts =>
      simp only [step] at stepped
      split at stepped
      next phase =>
        cases stepped
        exact .starts phase
      next => cases stepped
  | checks =>
      simp only [step] at stepped
      split at stepped
      next checked phase =>
        split at stepped
        next runs =>
          cases stepped
          exact .checksAcquiring phase runs
        next stops =>
          cases stepped
          exact .leavesAcquiring phase stops
      next checked phase =>
        split at stepped
        next runs =>
          cases stepped
          exact .checksAccepting phase runs
        next stops =>
          cases stepped
          exact .leavesAccepting phase stops
      next checked delay phase =>
        split at stepped
        next runs =>
          cases stepped
          exact .checksSleeping phase runs
        next stops =>
          cases stepped
          exact .leavesSleeping phase stops
      next => cases stepped
  | parks =>
      simp only [step] at stepped
      split at stepped
      next phase =>
        cases stepped
        exact .parksAcquiring phase
      next phase =>
        cases stepped
        exact .parksAccepting phase
      next delay phase =>
        cases stepped
        exact .parksSleeping phase
      next => cases stepped
  | acquires =>
      simp only [step] at stepped
      split at stepped
      next left phase =>
        cases stepped
        exact .acquires phase rfl
      next => cases stepped
  | accepts result =>
      simp only [step] at stepped
      split at stepped
      next phase =>
        cases stepped
        exact .accepts phase
      next kind phase =>
        rw [failed] at stepped
        rcases fails : loop.backoff.fail isLinux kind with ⟨retry, backoff⟩
        rw [fails] at stepped
        cases retry with
        | now =>
            cases stepped
            exact .retries phase fails
        | after delay =>
            cases stepped
            exact .waits phase fails
        | never =>
            cases stepped
            exact .stops phase fails
      next => cases stepped
  | elapses =>
      simp only [step] at stepped
      split at stepped
      next delay phase =>
        cases stepped
        exact .elapses phase
      next => cases stepped
  | finishes =>
      simp only [step] at stepped
      split at stepped
      next running isRunning =>
        cases stepped
        exact .finishes isRunning
      next => cases stepped
  | reaps =>
      simp only [step] at stepped
      split at stepped
      next finished phase isFinished =>
        cases stepped
        exact .reaps phase isFinished
      next => cases stepped
  | shuts =>
      simp only [step] at stepped
      split at stepped
      next both =>
        cases stepped
        exact .shuts both.1 both.2
      next => cases stepped
  | cancels =>
      simp only [step] at stepped
      split at stepped
      next cancelled isCancelled =>
        cases stepped
        exact .cancels isCancelled
      next => cases stepped
  | ends =>
      simp only [step] at stepped
      split at stepped
      next either =>
        cases stepped
        rcases either with ⟨phase, none, reaped⟩ | ⟨phase, none⟩
        · exact .endsDrained phase none reaped
        · exact .endsShut phase none
      next => cases stepped
  | panics =>
      simp only [step] at stepped
      split at stepped
      next => cases stepped
      next alive =>
        cases stepped
        exact .panics alive

end AcceptLoop

end Kynos.Server
