import Kynos.Body.Frame
import Kynos.Run.Runs

/-!
# A body that encodes another as its frames arrive

A poll goes round a loop until it has an answer. Each round calls the inner body
or the encoder once, or neither, and nothing happens between two rounds of one
poll that could not happen between two polls: a run is a list of rounds. The
encoder puts octets into its buffer whatever it answers.
-/

namespace Kynos.Compression

open Kynos.Http Kynos.Range Kynos.Body Kynos.Run

variable {Error : Type}

/-- How eagerly encoded octets are handed to the client. -/
inductive LatencyMode where
  | interactive
  | throughput
  deriving DecidableEq, Repr

/-- What the body is doing. -/
inductive State where
  | feeding
  | flushing
  | finishing
  | done
  | failed
  deriving DecidableEq, Repr

/-- The body: beside its own state, the octets the encoder has written and
nobody has taken, those read from the inner body and not yet handed to the
encoder, and the trailers held back until the coded stream is finished. -/
structure Streamed where
  latency : LatencyMode
  state : State
  buffer : Octets
  pending : Octets
  trailers : Option HeaderMap
  deriving DecidableEq

/-- What a round calls and what it is told, with the octets the encoder put into
its buffer in between. -/
inductive Call (Error : Type) where
  | inner (answer : Answer Error)
  | write (answer : Poll (Except Error Nat)) (emitted : Octets)
  | flush (answer : Poll (Except Error Unit)) (emitted : Octets)
  | shutdown (answer : Poll (Except Error Unit)) (emitted : Octets)
  | idle

namespace Streamed

/-- Encodes under a mode. -/
def new (latency : LatencyMode) : Streamed :=
  ⟨latency, .feeding, [], [], none⟩

/-- The encoder puts octets into its buffer. -/
def fill (this : Streamed) (emitted : Octets) : Streamed :=
  { this with buffer := this.buffer ++ emitted }

/-- The encoded octets so far as a frame, if there are any. -/
def emit (this : Streamed) : Streamed × Option (Answer Error) :=
  if this.buffer = [] then (this, none)
  else ({ this with buffer := [] }, some (.ready (some (.ok (.data this.buffer)))))

/-- Yields an error and ends the body as failed. -/
def fail (this : Streamed) (error : Error) : Streamed × Option (Answer Error) :=
  ({ this with state := .failed }, some (.ready (some (.error error))))

/-- The encoder's answer to a write, where none accepted is an error. -/
def accepted (writeZero : Error) : Except Error Nat → Except Error Nat
  | .ok 0 => .error writeZero
  | other => other

/-- Whether the body has ended. -/
def isEndStream (this : Streamed) : Bool :=
  this.state = .done && this.trailers.isNone

/-- The body after a write that accepted some of the pending octets. -/
def advance (this : Streamed) (written : Nat) : Streamed × Option (Answer Error) :=
  let this := { this with pending := this.pending.drop written }
  if this.pending = [] ∧ this.latency = .interactive then ({ this with state := .flushing }, none)
  else this.emit

/-- The body after what its inner body answered. -/
def take (this : Streamed) : Answer Error → Streamed × Option (Answer Error)
  | .pending => (this, some .pending)
  | .ready none => ({ this with state := .finishing }, none)
  | .ready (some (.error error)) => this.fail error
  | .ready (some (.ok (.data octets))) => ({ this with pending := octets }, none)
  | .ready (some (.ok (.trailers fields))) => ({ this with trailers := some fields }, none)

/-- One round of the loop of a poll: the body after it, and the answer of the
poll if it has one. It fails on a call the body does not make, and on a write that
accepts more than it was given. -/
def turn (writeZero : Error) (this : Streamed) :
    Call Error → Option (Streamed × Option (Answer Error))
  | .idle =>
      match this.state with
      | .done =>
          some ({ this with trailers := none },
            some (.ready (this.trailers.map fun fields => .ok (.trailers fields))))
      | .failed => some (this, some (.ready none))
      | _ => none
  | .shutdown answer emitted =>
      if this.state = .finishing then
        match answer with
        | .pending => some (this.fill emitted, some .pending)
        | .ready (.error error) => some ((this.fill emitted).fail error)
        | .ready (.ok ()) => some { this.fill emitted with state := .done }.emit
      else none
  | .flush answer emitted =>
      if this.state = .flushing then
        match answer with
        | .pending => some (this.fill emitted, some .pending)
        | .ready (.error error) => some ((this.fill emitted).fail error)
        | .ready (.ok ()) => some { this.fill emitted with state := .feeding }.emit
      else none
  | .write answer emitted =>
      if this.state = .feeding ∧ this.pending ≠ [] then
        match answer with
        | .pending => some (this.fill emitted, some .pending)
        | .ready result =>
            match accepted writeZero result with
            | .error error => some ((this.fill emitted).fail error)
            | .ok written =>
                if written ≤ this.pending.length then some ((this.fill emitted).advance written)
                else none
      else none
  | .inner answer =>
      if this.state = .feeding ∧ this.pending = [] then some (this.take answer) else none

end Streamed

/-! ## Runs -/

/-- A body, what its polls have answered, and the octets its encoder has
accepted. -/
structure Trace (Error : Type) where
  body : Streamed
  answers : List (Answer Error)
  handed : Octets

/-- The octets a call accepts of those pending. -/
def Call.accepts (pending : Octets) : Call Error → Octets
  | .write (.ready (.ok written)) _ => pending.take written
  | _ => []

namespace Trace

/-- Nothing polled yet. -/
def start (latency : LatencyMode) : Trace Error :=
  ⟨Streamed.new latency, [], []⟩

/-- One round. -/
def step (writeZero : Error) (trace : Trace Error) (call : Call Error) : Option (Trace Error) :=
  (trace.body.turn writeZero call).map fun turned =>
    ⟨turned.1, trace.answers ++ turned.2.toList, trace.handed ++ call.accepts trace.body.pending⟩

/-- The rounds of a run, each possible. -/
def run (writeZero : Error) (latency : LatencyMode) (calls : List (Call Error)) :
    Option (Trace Error) :=
  reached (step writeZero) (start latency) calls

end Trace

/-! ## What calls say -/

/-- The data a call reads. -/
def Call.read : Call Error → Octets
  | .inner answer => answer.octets
  | _ => []

/-- The octets the encoder emits in a call. -/
def Call.emitted : Call Error → Octets
  | .write _ emitted => emitted
  | .flush _ emitted => emitted
  | .shutdown _ emitted => emitted
  | _ => []

/-- The trailers a call reads. -/
def Call.trailers : Call Error → Option HeaderMap
  | .inner answer => answer.trailers
  | _ => none

/-- Whether the inner body or the encoder fails in a call. -/
def Call.failure (writeZero : Error) : Call Error → Option Error
  | .inner answer => answer.error
  | .write (.ready (.error error)) _ => some error
  | .write (.ready (.ok 0)) _ => some writeZero
  | .flush (.ready (.error error)) _ => some error
  | .shutdown (.ready (.error error)) _ => some error
  | _ => none

/-- The inner data there has been, in order. -/
def readOf (calls : List (Call Error)) : Octets :=
  calls.flatMap Call.read

/-- What the encoder has emitted, in order. -/
def emittedOf (calls : List (Call Error)) : Octets :=
  calls.flatMap Call.emitted

/-- The last trailers there have been. -/
def lastTrailers (calls : List (Call Error)) : Option HeaderMap :=
  (calls.filterMap Call.trailers).getLast?

section Append

variable (calls : List (Call Error)) (call : Call Error)

@[simp]
theorem readOf_append (more : List (Call Error)) :
    readOf (calls ++ more) = readOf calls ++ readOf more :=
  List.flatMap_append

@[simp]
theorem readOf_singleton : readOf [call] = call.read :=
  List.append_nil _

@[simp]
theorem emittedOf_append (more : List (Call Error)) :
    emittedOf (calls ++ more) = emittedOf calls ++ emittedOf more :=
  List.flatMap_append

@[simp]
theorem emittedOf_singleton : emittedOf [call] = call.emitted :=
  List.append_nil _

theorem lastTrailers_concat :
    lastTrailers (calls ++ [call]) = call.trailers.or (lastTrailers calls) := by
  rw [lastTrailers, lastTrailers, List.filterMap_append, List.getLast?_append]
  cases found : call.trailers <;> simp [found]

end Append

end Kynos.Compression
