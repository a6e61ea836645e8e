import Kynos.Server.Shutdown

/-!
# Failed accepts over a run

Each listener waits after a failed accept for as long as the failures since it last
accepted say, doubling from 10 ms to a second, whatever the other listeners, the
connections and the server do in between.
-/

namespace Kynos.Server

open Kynos.Numeral Kynos.Run

/-- The wait after so many failures in a row. -/
def AcceptBackoff.schedule (failures : Nat) : Duration :=
  min (acceptRetryInitial * 2 ^ failures) acceptRetryMax

/-- Whether a listener waits after a failure, on Linux or elsewhere. -/
def ErrorKind.waits (isLinux : Bool) : ErrorKind → Bool
  | .interrupted | .connectionAborted | .connectionReset | .invalidInput => false
  | .networkDown | .networkUnreachable | .hostUnreachable => !isLinux
  | .other => true

/-- The failures in a row that a listener waits after, after a step of its loop. -/
def LoopStep.streak (isLinux : Bool) (failures : Nat) : LoopStep → Nat
  | .accepts none => 0
  | .accepts (some kind) => if kind.waits isLinux then failures + 1 else failures
  | _ => failures

/-- The same of the listener at an index, after a step of the server. -/
def ServingStep.streak (isLinux : Bool) (index failures : Nat) : ServingStep → Nat
  | .loop other taken => if other = index then taken.streak isLinux failures else failures
  | _ => failures

/-- The failures in a row of the listener at an index, after a run. -/
def streak (isLinux : Bool) (index : Nat) (steps : List ServingStep) : Nat :=
  steps.foldl (ServingStep.streak isLinux index) 0

namespace AcceptBackoff

theorem schedule_zero : schedule 0 = acceptRetryInitial := by
  decide

theorem schedule_succ (failures : Nat) : schedule (failures + 1) = min (schedule failures * 2) acceptRetryMax := by
  have capped (wait most : Nat) : min (wait * 2) most = min (min wait most * 2) most := by omega
  rw [schedule, schedule, Nat.pow_succ, ← Nat.mul_assoc]
  exact capped _ _

theorem wait_schedule (failures : Nat) :
    wait ⟨schedule failures⟩ = (.after (schedule failures), ⟨schedule (failures + 1)⟩) := by
  rw [wait, schedule_succ]

theorem fail_of_waits {isLinux : Bool} {kind : ErrorKind} (backoff : AcceptBackoff)
    (waits : kind.waits isLinux = true) : backoff.fail isLinux kind = backoff.wait := by
  cases kind with
  | networkDown | networkUnreachable | hostUnreachable =>
      cases isLinux with
      | true => cases waits
      | false => rfl
  | other => rfl
  | _ => cases waits

theorem fail_of_not_waits {isLinux : Bool} {kind : ErrorKind} (backoff : AcceptBackoff)
    (waits : kind.waits isLinux = false) : backoff.fail isLinux kind = (.now, backoff) ∨
      backoff.fail isLinux kind = (.never, backoff) := by
  cases kind with
  | networkDown | networkUnreachable | hostUnreachable =>
      cases isLinux with
      | true => exact .inl rfl
      | false => cases waits
  | other => cases waits
  | invalidInput => exact .inr rfl
  | _ => exact .inl rfl

end AcceptBackoff

namespace AcceptLoop

/-- A loop waits as long as its failures in a row say, and would wait longer after the
next one. -/
structure Scheduled (failures : Nat) (loop : AcceptLoop) : Prop where
  next : loop.backoff = ⟨AcceptBackoff.schedule failures⟩
  sleeping : ∀ checked delay, loop.phase = .sleeping checked delay →
    ∃ earlier, failures = earlier + 1 ∧ delay = AcceptBackoff.schedule earlier

theorem scheduled_new : Scheduled 0 new where
  next := rfl
  sleeping := nofun

variable {isLinux : Bool} {lifecycle : Lifecycle} {permits after failures : Nat} {loop next : AcceptLoop}
  {taken : LoopStep} {failure : Option ErrorKind}

/-- A loop that does not sleep waits for nothing. -/
theorem Scheduled.awake (scheduled : Scheduled failures loop) (backoff : next.backoff = loop.backoff)
    (awake : ∀ checked delay, next.phase ≠ .sleeping checked delay) : Scheduled failures next where
  next := backoff.trans scheduled.next
  sleeping checked delay phase := absurd phase (awake checked delay)

theorem Scheduled.dropped (scheduled : Scheduled failures loop) (panicked : Bool) :
    Scheduled failures (loop.dropped panicked) :=
  scheduled.awake rfl nofun

theorem Stepped.scheduled (stepped : Stepped isLinux lifecycle permits loop taken next after failure)
    (scheduled : Scheduled failures loop) : Scheduled (taken.streak isLinux failures) next := by
  cases stepped with
  | checksSleeping phase runs | parksSleeping phase =>
      constructor
      case next => exact scheduled.next
      case sleeping =>
        rintro checked delay ⟨⟩
        exact scheduled.sleeping _ _ phase
  | accepts phase =>
      constructor
      case next => exact congrArg AcceptBackoff.mk AcceptBackoff.schedule_zero.symm
      case sleeping => exact nofun
  | @retries kind backoff phase fails =>
      cases waits : kind.waits isLinux with
      | true =>
          rw [AcceptBackoff.fail_of_waits _ waits] at fails
          cases fails
      | false =>
          rw [LoopStep.streak, waits]
          rcases AcceptBackoff.fail_of_not_waits loop.backoff waits with same | same
          · cases same.symm.trans fails
            exact scheduled.awake rfl nofun
          · cases same.symm.trans fails
  | @waits kind delay backoff phase fails =>
      cases waits : kind.waits isLinux with
      | true =>
          rw [AcceptBackoff.fail_of_waits _ waits, scheduled.next, AcceptBackoff.wait_schedule] at fails
          cases fails
          rw [LoopStep.streak, waits]
          constructor
          case next => rfl
          case sleeping =>
            rintro checked delay ⟨⟩
            exact ⟨failures, rfl, rfl⟩
      | false =>
          rcases AcceptBackoff.fail_of_not_waits loop.backoff waits with same | same
          · cases same.symm.trans fails
          · cases same.symm.trans fails
  | @stops kind backoff phase fails =>
      cases waits : kind.waits isLinux with
      | true =>
          rw [AcceptBackoff.fail_of_waits _ waits] at fails
          cases fails
      | false =>
          rw [LoopStep.streak, waits]
          rcases AcceptBackoff.fail_of_not_waits loop.backoff waits with same | same
          · cases same.symm.trans fails
          · cases same.symm.trans fails
            exact scheduled.awake rfl nofun
  | finishes | cancels | reaps =>
      constructor
      case next => exact scheduled.next
      case sleeping => exact scheduled.sleeping
  | panics => exact scheduled.dropped true
  | _ => exact scheduled.awake rfl nofun

end AcceptLoop

namespace BoundServer

variable {server : BoundServer} {state next : Serving} {taken : ServingStep} {steps : List ServingStep}

/-- A change of one loop keeps the others. -/
theorem scheduled_set {loops : List AcceptLoop} {other index failures after : Nat} {loop changed : AcceptLoop}
    (all : ∀ loop, loops[index]? = some loop → loop.Scheduled failures)
    (isOther : loops[other]? = some loop)
    (same : other = index → loop.Scheduled failures → changed.Scheduled after)
    (rest : other ≠ index → after = failures) :
    ∀ loop, (loops.set other changed)[index]? = some loop → loop.Scheduled after := by
  intro found isLoop
  by_cases isIndex : other = index
  · subst isIndex
    have bounded : other < loops.length := (List.getElem?_eq_some_iff.mp isOther).1
    rw [List.getElem?_set_self bounded] at isLoop
    cases isLoop
    exact same rfl (all loop isOther)
  · rw [List.getElem?_set_ne isIndex] at isLoop
    rw [rest isIndex]
    exact all found isLoop

theorem Stepped.scheduled {index failures : Nat} (stepped : Stepped server state taken next)
    (all : ∀ loop, state.loops[index]? = some loop → loop.Scheduled failures) :
    ∀ loop, next.loops[index]? = some loop → loop.Scheduled (taken.streak server.isLinux index failures) := by
  cases stepped with
  | loop isLoop stepped =>
      apply scheduled_set all isLoop
      · intro isIndex scheduled
        rw [ServingStep.streak, if_pos isIndex]
        exact stepped.scheduled scheduled
      · exact fun isOther => if_neg isOther
  | joinsFirst isLoop | joins isLoop =>
      apply scheduled_set all isLoop
      · exact fun _ scheduled => ⟨scheduled.next, scheduled.sleeping⟩
      · exact fun _ => rfl
  | aborts isLoop =>
      apply scheduled_set all isLoop
      · exact fun _ scheduled => scheduled.dropped false
      · exact fun _ => rfl
  | _ => exact all

/-- Over every interleaving, a listener that sleeps after a failed accept does for 10 ms doubled
with each failure since it last accepted, up to a second, and the next failure would bring one
doubling more. -/
theorem scheduled_of_reached (run : reached server.step server.start steps = some state) {index : Nat}
    {loop : AcceptLoop} (isLoop : state.loops[index]? = some loop) :
    loop.Scheduled (streak server.isLinux index steps) := by
  have holds : ∀ loop, state.loops[index]? = some loop → loop.Scheduled (streak server.isLinux index steps) := by
    apply invariant_reached _ _ run
    · intro loop isLoop
      rw [List.eq_of_mem_replicate (List.mem_of_getElem? isLoop)]
      exact AcceptLoop.scheduled_new
    · intro steps state taken next earlier all isStep
      rw [streak, List.foldl_append]
      exact (stepped_of_step isStep).scheduled all
  exact holds loop isLoop

/-- Two accepts fail for want of a descriptor. -/
def single.failing : List ServingStep :=
  [.loop 0 .starts, .loop 0 .checks, .loop 0 .acquires, .loop 0 .checks, .loop 0 (.accepts (some .other)),
    .loop 0 .checks, .loop 0 .elapses, .loop 0 .starts, .loop 0 .checks, .loop 0 .acquires, .loop 0 .checks,
    .loop 0 (.accepts (some .other))]

theorem scheduled_of_reached_single :
    AcceptLoop.Scheduled 2
      ⟨.sleeping false (Duration.fromMillis 20), ⟨Duration.fromMillis 40⟩, 0, 0, 0, false⟩ := by
  have run : reached single.step single.start single.failing = some
      { single.start with
        loops := [⟨.sleeping false (Duration.fromMillis 20), ⟨Duration.fromMillis 40⟩, 0, 0, 0, false⟩] } := by
    decide
  exact @scheduled_of_reached _ _ _ run 0 _ rfl

end BoundServer

end Kynos.Server
