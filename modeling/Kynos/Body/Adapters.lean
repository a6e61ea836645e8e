import Kynos.Compression.Lossless
import Kynos.Numeral.Unsigned

/-!
# Bodies and the adapters around them

Whole octets, a stream of chunks, a body read one span at a time, and octets
before a failure, each possibly bounded in time or encoded as its frames arrive.
What a poll finds depends on the sources beneath, on the timers and on the
encoders, which may do anything their interfaces allow.
-/

namespace Kynos.Body

open Kynos.Http Kynos.Numeral Kynos.Range Kynos.Compression

/-- Why a body fails. -/
inductive BoxError (Error : Type) where
  | boxed (error : Error)
  | truncated (first last : Nat)
  | timedOut (after : Duration)
  | writeZero
  deriving DecidableEq, Repr

variable {Error : Type}

/-- The error of a body read one span at a time. -/
def BoxError.ofBodyError : BodyError Error → BoxError Error
  | .source error => .boxed error
  | .truncated first last => .truncated first last

/-- A body assembled of the adapters, with the state of each. -/
inductive Assembled (Error : Type) where
  | full (data : Option Octets)
  | stream
  | spans (source : ByteSource Error) (this : Reading)
  | failedAfter (arrived : Option Octets) (error : Option (BoxError Error))
  | bounded (inner : Assembled Error) (limit : Duration) (resetEachFrame spent : Bool)
  | streamed (inner : Assembled Error) (this : Streamed)

namespace Assembled

/-- A body holding exactly these octets. -/
def fromBytes (octets : Octets) : Assembled Error :=
  .full (if octets = [] then none else some octets)

/-- Whether the body says it has ended. -/
def isEndStream : Assembled Error → Bool
  | .full data => data.isNone
  | .stream => false
  | .spans _ _ => false
  | .failedAfter _ _ => false
  | .bounded inner _ _ _ => inner.isEndStream
  | .streamed _ this => this.isEndStream

/-- What a poll of a body read one span at a time finds. -/
def spansAnswer : Poll (Polled Error) → Answer (BoxError Error)
  | .pending => .pending
  | .ready found => .ready (found.map fun frame =>
      match frame with
      | .ok octets => .ok (.data octets)
      | .error error => .error (.ofBodyError error))

/-- What a poll may find, and the body after it. -/
inductive Polls : Assembled Error → Answer (BoxError Error) → Assembled Error → Prop where
  | full (data : Option Octets) :
      Polls (.full data) (.ready (data.map fun octets => .ok (.data octets))) (.full none)
  | stream {answer : Answer (BoxError Error)} (chunks : answer.trailers = none) :
      Polls .stream answer .stream
  | spans (source : ByteSource Error) (this : Reading) (ready : Bool) :
      Polls (.spans source this) (spansAnswer (this.pollFrame source ready).1)
        (.spans source (this.pollFrame source ready).2)
  | arrived (octets : Octets) (error : Option (BoxError Error)) :
      Polls (.failedAfter (some octets) error) (.ready (some (.ok (.data octets))))
        (.failedAfter none error)
  | failedAfter (error : Option (BoxError Error)) :
      Polls (.failedAfter none error) (.ready (error.map .error)) (.failedAfter none none)
  | boundedSpent (inner : Assembled Error) (limit : Duration) (reset : Bool) :
      Polls (.bounded inner limit reset true) (.ready none) (.bounded inner limit reset true)
  | boundedEnded {inner : Assembled Error} {limit : Duration} {reset : Bool}
      (ended : inner.isEndStream = true) :
      Polls (.bounded inner limit reset false) (.ready none) (.bounded inner limit reset false)
  -- The inner body goes first where each frame restarts the clock.
  | idle {inner next : Assembled Error} {limit : Duration} {answer : Answer (BoxError Error)}
      (going : inner.isEndStream = false) (polled : Polls inner answer next) :
      Polls (.bounded inner limit true false) answer (.bounded next limit true false)
  | idleTimedOut {inner next : Assembled Error} {limit : Duration}
      (going : inner.isEndStream = false) (polled : Polls inner .pending next) :
      Polls (.bounded inner limit true false) (.ready (some (.error (.timedOut limit))))
        (.bounded next limit true true)
  | deadline {inner next : Assembled Error} {limit : Duration} {answer : Answer (BoxError Error)}
      (going : inner.isEndStream = false) (polled : Polls inner answer next) :
      Polls (.bounded inner limit false false) answer (.bounded next limit false false)
  | deadlinePassed {inner : Assembled Error} {limit : Duration} (going : inner.isEndStream = false) :
      Polls (.bounded inner limit false false) (.ready (some (.error (.timedOut limit))))
        (.bounded inner limit false true)
  -- A poll of an encoding body goes round its loop until a round answers.
  | streamedRound {inner last : Assembled Error} {this next : Streamed} {call : Call (BoxError Error)}
      {answer : Answer (BoxError Error)} (encoder : ∀ found, call ≠ .inner found)
      (turn : this.turn .writeZero call = some (next, none))
      (rest : Polls (.streamed inner next) answer last) : Polls (.streamed inner this) answer last
  | streamedReads {inner read last : Assembled Error} {this next : Streamed}
      {found answer : Answer (BoxError Error)} (polled : Polls inner found read)
      (turn : this.turn .writeZero (.inner found) = some (next, none))
      (rest : Polls (.streamed read next) answer last) : Polls (.streamed inner this) answer last
  | streamedAnswers {inner : Assembled Error} {this next : Streamed} {call : Call (BoxError Error)}
      {answer : Answer (BoxError Error)} (encoder : ∀ found, call ≠ .inner found)
      (turn : this.turn .writeZero call = some (next, some answer)) :
      Polls (.streamed inner this) answer (.streamed inner next)
  | streamedPasses {inner read : Assembled Error} {this next : Streamed}
      {found answer : Answer (BoxError Error)} (polled : Polls inner found read)
      (turn : this.turn .writeZero (.inner found) = some (next, some answer)) :
      Polls (.streamed inner this) answer (.streamed read next)

/-! ## Ending -/

variable {body inner next : Assembled Error} {answer : Answer (BoxError Error)}

/-- A body that says it has ended has nothing more to yield. -/
theorem Polls.of_ended (polled : body.Polls answer next) (ended : body.isEndStream = true) :
    answer = .ready none ∧ next.isEndStream = true := by
  induction polled with
  | full data =>
      rw [isEndStream, Option.isNone_iff_eq_none] at ended
      rw [ended]
      exact ⟨rfl, rfl⟩
  | stream | spans | arrived | failedAfter => cases ended
  | boundedSpent | boundedEnded => exact ⟨rfl, ended⟩
  | idle going | idleTimedOut going | deadline going | deadlinePassed going =>
      cases going.symm.trans ended
  | streamedRound encoder turn | streamedReads polled turn =>
      cases ((Streamed.turned_of_turn turn).of_ended ended).1
  | streamedAnswers encoder turn | streamedPasses polled turn =>
      obtain ⟨found, ended⟩ := (Streamed.turned_of_turn turn).of_ended ended
      exact ⟨Option.some.inj found, ended⟩

/-- A body that found nothing yet has not ended. -/
theorem Polls.of_pending (polled : body.Polls answer next) (pending : answer = .pending) :
    next.isEndStream = false := by
  induction polled with
  | full | arrived | failedAfter | boundedSpent | boundedEnded | idleTimedOut | deadlinePassed =>
      cases pending
  | stream | spans => rfl
  | idle going polled ih | deadline going polled ih => exact ih pending
  | streamedRound encoder turn rest ih => exact ih pending
  | streamedReads polled turn rest _ ih => exact ih pending
  | streamedAnswers encoder turn | streamedPasses polled turn =>
      exact (Streamed.turned_of_turn turn).of_pending (congrArg some pending)

/-- A body that never says it has ended. -/
def Unending : Assembled Error → Prop
  | .full _ => False
  | .stream => True
  | .spans _ _ => True
  | .failedAfter _ _ => True
  | .bounded inner _ _ spent => inner.Unending ∨ spent = true ∧ inner.isEndStream = false
  | .streamed _ this => this.state = .failed

theorem Unending.isEndStream (unending : body.Unending) : body.isEndStream = false := by
  induction body with
  | full => cases unending
  | stream | spans | failedAfter => rfl
  | bounded inner limit reset spent ih =>
      rcases unending with unending | ⟨-, going⟩
      · exact ih unending
      · exact going
  | streamed inner this =>
      rw [Unending] at unending
      simp [Assembled.isEndStream, Streamed.isEndStream, unending]

theorem Polls.unending (polled : body.Polls answer next) (unending : body.Unending) :
    next.Unending := by
  induction polled with
  | full => cases unending
  | stream | spans | arrived | failedAfter => trivial
  | boundedSpent | boundedEnded => exact unending
  | idle going polled ih | idleTimedOut going polled ih | deadline going polled ih =>
      exact .inl (ih (unending.resolve_right (by simp)))
  | deadlinePassed going => exact .inr ⟨rfl, going⟩
  | streamedRound encoder turn | streamedReads polled turn =>
      cases (Streamed.turned_of_turn turn).of_failed unending
  | streamedAnswers encoder turn | streamedPasses polled turn =>
      cases (Streamed.turned_of_turn turn).of_failed unending
      exact unending

/-- A body that yielded an error never says it has ended. -/
theorem Polls.of_error {error : BoxError Error} (polled : body.Polls answer next)
    (failed : answer = .ready (some (.error error))) : next.Unending := by
  induction polled with
  | full data => cases data <;> cases failed
  | stream | spans | failedAfter => trivial
  | arrived | boundedSpent | boundedEnded => cases failed
  | idle going polled ih | deadline going polled ih => exact .inl (ih failed)
  | idleTimedOut going polled => exact .inr ⟨rfl, polled.of_pending rfl⟩
  | deadlinePassed going => exact .inr ⟨rfl, going⟩
  | streamedRound encoder turn rest ih => exact ih failed
  | streamedReads polled turn rest _ ih => exact ih failed
  | streamedAnswers encoder turn | streamedPasses polled turn =>
      exact (Streamed.turned_of_turn turn).of_error (congrArg some failed)

end Assembled

end Kynos.Body
