import Kynos.Server.Shutdown

/-!
# How serving ends

A server that stops accepts at most one more connection to a listener, and takes
a bounded number of steps: where none is left it has returned, with every loop
ended and every permit free. Where its drain is neither forced nor timed out, it
returns once no connection is left to wait for, with the error it stopped for or
without one.
-/

namespace Kynos.Server

open Kynos.Numeral Kynos.Run

/-! ## Loops -/

/-- A bound on the steps a phase is left by while the server stops. -/
def Phase.weight : Phase → Nat
  | .ended _ => 0
  | .shutting => 1
  | .draining => 2
  | .acquiring checked => 3 + checked.toNat
  | .starting => 4
  | .sleeping checked _ => 3 + 2 * checked.toNat
  | .accepting checked => 3 + 4 * checked.toNat

/-- Whether a step accepts a connection. -/
def LoopStep.accepted : LoopStep → Nat
  | .accepts none => 1
  | _ => 0

namespace AcceptLoop

variable {isLinux : Bool} {lifecycle : Lifecycle} {permits after : Nat} {loop next : AcceptLoop} {taken : LoopStep}
  {failure : Option ErrorKind}

/-- A bound on the steps of a loop while the server stops. -/
def weight (loop : AcceptLoop) : Nat :=
  loop.phase.weight + 2 * loop.running + loop.finished + loop.cancelled + (!loop.joined).toNat

theorem dropped_weight_lt (alive : ∀ panicked, loop.phase ≠ .ended panicked) (panicked : Bool) :
    (loop.dropped panicked).weight < loop.weight := by
  have positive : 0 < loop.phase.weight := by
    cases phase : loop.phase with
    | ended panicked => exact absurd phase (alive panicked)
    | _ => simp only [Phase.weight]; omega
  have none : (Phase.ended panicked).weight = 0 := rfl
  simp only [weight, dropped]
  omega

theorem Stepped.weight_lt (stepped : Stepped isLinux lifecycle permits loop taken next after failure)
    (stopping : lifecycle ≠ .running) : next.weight < loop.weight := by
  cases stepped with
  | panics alive => exact dropped_weight_lt alive true
  | checksAcquiring _ runs | checksAccepting _ runs | checksSleeping _ runs => exact absurd runs stopping
  | _ => simp only [weight, Phase.weight, Bool.toNat_true, Bool.toNat_false, *]; omega

theorem joined_weight_lt (unjoined : loop.joined = false) : ({ loop with joined := true } : AcceptLoop).weight < loop.weight := by
  simp only [weight, unjoined, Bool.not_true, Bool.not_false, Bool.toNat_true, Bool.toNat_false]
  omega

/-- The accept a loop that checked before the server stopped may still make. -/
def grace (loop : AcceptLoop) : Nat :=
  if loop.phase = .accepting true then 1 else 0

theorem grace_le_one (loop : AcceptLoop) : loop.grace ≤ 1 := by
  rw [grace]
  split <;> simp

/-- A loop that is not running has no more than its grace to accept in. -/
theorem Stepped.accepted_le (stepped : Stepped isLinux lifecycle permits loop taken next after failure)
    (stopping : lifecycle ≠ .running) : taken.accepted + next.grace ≤ loop.grace := by
  cases stepped with
  | checksAcquiring _ runs | checksAccepting _ runs | checksSleeping _ runs => exact absurd runs stopping
  | _ => simp [LoopStep.accepted, grace, dropped, *]

/-- The grace of one loop of several. -/
def graceAt (loops : List AcceptLoop) (index : Nat) : Nat :=
  (loops[index]?.map grace).getD 0

theorem graceAt_le_one (loops : List AcceptLoop) (index : Nat) : graceAt loops index ≤ 1 := by
  rw [graceAt]
  cases loops[index]? with
  | none => exact Nat.zero_le 1
  | some loop => exact loop.grace_le_one

theorem graceAt_set_le {loops : List AcceptLoop} {other cost : Nat} (isLoop : loops[other]? = some loop)
    (less : cost + next.grace ≤ loop.grace) (index : Nat) :
    (if other = index then cost else 0) + graceAt (loops.set other next) index ≤ graceAt loops index := by
  rw [graceAt, graceAt]
  by_cases isOther : other = index
  · subst isOther
    have bounded : other < loops.length := (List.getElem?_eq_some_iff.mp isLoop).1
    rw [List.getElem?_set_self bounded, isLoop, if_pos rfl]
    exact less
  · rw [List.getElem?_set_ne isOther, if_neg isOther, Nat.zero_add]

theorem exists_step (isLinux : Bool) (lifecycle : Lifecycle) (permits : Nat)
    (alive : ∀ panicked, loop.phase ≠ .ended panicked) :
    ∃ taken, taken ≠ .panics ∧ (loop.step isLinux lifecycle permits taken).isSome = true := by
  cases phase : loop.phase with
  | starting => exact ⟨.starts, by simp, by simp [step, phase]⟩
  | acquiring checked =>
      refine ⟨.checks, by simp, ?_⟩
      simp only [step, phase]
      split <;> rfl
  | accepting checked =>
      refine ⟨.checks, by simp, ?_⟩
      simp only [step, phase]
      split <;> rfl
  | sleeping checked delay =>
      refine ⟨.checks, by simp, ?_⟩
      simp only [step, phase]
      split <;> rfl
  | draining =>
      cases running : loop.running with
      | succ running => exact ⟨.finishes, by simp, by simp [step, running]⟩
      | zero =>
          cases finished : loop.finished with
          | succ finished => exact ⟨.reaps, by simp, by simp [step, phase, finished]⟩
          | zero => exact ⟨.ends, by simp, by simp [step, phase, running, finished]⟩
  | shutting =>
      cases cancelled : loop.cancelled with
      | succ cancelled => exact ⟨.cancels, by simp, by simp [step, cancelled]⟩
      | zero => exact ⟨.ends, by simp, by simp [step, phase, cancelled]⟩
  | ended panicked => exact absurd phase (alive panicked)

end AcceptLoop

/-! ## The server -/

/-- A bound on the steps `serve` itself takes while it stops. -/
def Main.weight : Main → Nat
  | .serving => 3
  | .draining _ _ => 2
  | .aborting _ _ => 1
  | .returned _ => 0

/-- A bound on the steps of a server that stops. -/
def Serving.weight (state : Serving) : Nat :=
  (state.loops.map AcceptLoop.weight).sum + state.main.weight

/-- Whether the server was told to stop, or stopped by itself. -/
def Serving.IsStopping (state : Serving) : Prop :=
  state.lifecycle ≠ .running

/-- Whether a step accepts a connection of the listener at an index. -/
def ServingStep.acceptedAt (index : Nat) : ServingStep → Nat
  | .loop other taken => if other = index then taken.accepted else 0
  | _ => 0

namespace BoundServer

variable {server : BoundServer} {state next stopping : Serving} {taken : ServingStep} {index : Nat}

theorem Stepped.isStopping (stepped : Stepped server state taken next) (stopping : state.IsStopping) :
    next.IsStopping := by
  cases stepped with
  | loop => exact stopping
  | receives => exact nofun
  | joinsFirst => exact nofun
  | joins => exact stopping
  | signals => exact nofun
  | forces => exact nofun
  | timesOut => exact nofun
  | completes => exact stopping
  | aborts => exact stopping
  | returns => exact stopping

theorem Stepped.weight_lt (stepped : Stepped server state taken next) (stopping : state.IsStopping) :
    next.weight < state.weight := by
  have changed {index : Nat} {loop after : AcceptLoop} (isLoop : state.loops[index]? = some loop)
      (less : after.weight < loop.weight) :
      ((state.loops.set index after).map AcceptLoop.weight).sum < (state.loops.map AcceptLoop.weight).sum :=
    sum_map_set_lt isLoop less
  cases stepped with
  | loop isLoop stepped =>
      apply Nat.add_lt_add_right
      exact changed isLoop (stepped.weight_lt stopping)
  | receives main =>
      simp only [Serving.weight, main, Main.weight]
      omega
  | joinsFirst isLoop phase unjoined main =>
      have less := changed isLoop (AcceptLoop.joined_weight_lt unjoined)
      simp only [Serving.weight, main, Main.weight]
      omega
  | joins isLoop phase unjoined unreturned =>
      apply Nat.add_lt_add_right
      exact changed isLoop (AcceptLoop.joined_weight_lt unjoined)
  | signals main =>
      simp only [Serving.weight, main, Main.weight]
      omega
  | forces main =>
      simp only [Serving.weight, main, Main.weight]
      omega
  | timesOut main =>
      simp only [Serving.weight, main, Main.weight]
      omega
  | completes main joined =>
      simp only [Serving.weight, main, Main.weight]
      omega
  | aborts isLoop main alive =>
      apply Nat.add_lt_add_right
      exact changed isLoop (AcceptLoop.dropped_weight_lt alive false)
  | returns main joined =>
      simp only [Serving.weight, main, Main.weight]
      omega

theorem Stepped.acceptedAt_le (stepped : Stepped server state taken next) (stopping : state.IsStopping)
    (index : Nat) :
    taken.acceptedAt index + AcceptLoop.graceAt next.loops index ≤ AcceptLoop.graceAt state.loops index := by
  have unchanged {other : Nat} {loop after : AcceptLoop} (isLoop : state.loops[other]? = some loop)
      (less : after.grace ≤ loop.grace) :
      0 + AcceptLoop.graceAt (state.loops.set other after) index ≤ AcceptLoop.graceAt state.loops index := by
    have noneMore : 0 + after.grace ≤ loop.grace := by rwa [Nat.zero_add]
    have set := AcceptLoop.graceAt_set_le isLoop noneMore index
    rwa [ite_self] at set
  cases stepped with
  | loop isLoop stepped => exact AcceptLoop.graceAt_set_le isLoop (stepped.accepted_le stopping) index
  | joinsFirst isLoop => exact unchanged isLoop (Nat.le_refl _)
  | joins isLoop => exact unchanged isLoop (Nat.le_refl _)
  | aborts isLoop => exact unchanged isLoop (Nat.zero_le _)
  | _ => simp [ServingStep.acceptedAt]

theorem Stepped.drains {rootError : Option ServerError} (stepped : Stepped server state taken next)
    (unforced : taken ≠ .forces) (waited : taken ≠ .timesOut)
    (drains : (∃ forceable, state.main = .draining rootError forceable) ∨
      state.main = .returned (server.result rootError .complete)) :
    (∃ forceable, next.main = .draining rootError forceable) ∨
      next.main = .returned (server.result rootError .complete) := by
  cases stepped with
  | loop => exact drains
  | joins => exact drains
  | aborts => exact drains
  | forces => exact absurd rfl unforced
  | timesOut => exact absurd rfl waited
  | completes main joined =>
      rcases drains with ⟨forceable, drains⟩ | returned
      · obtain ⟨rfl, -⟩ := Main.draining.inj (main.symm.trans drains)
        exact .inr rfl
      · exact absurd (main.symm.trans returned) nofun
  | receives main | joinsFirst _ _ _ main | signals main | returns main =>
      rcases drains with ⟨forceable, drains⟩ | returned
      · exact absurd (main.symm.trans drains) nofun
      · exact absurd (main.symm.trans returned) nofun

theorem exists_unjoined (unjoined : ¬ ∀ loop ∈ state.loops, loop.joined = true) :
    ∃ (index : Nat) (loop : AcceptLoop), state.loops[index]? = some loop ∧ loop.joined = false := by
  obtain ⟨loop, unjoined⟩ := not_forall.mp unjoined
  obtain ⟨member, unjoined⟩ := Classical.not_imp.mp unjoined
  obtain ⟨index, isLoop⟩ := List.mem_iff_getElem?.mp member
  exact ⟨index, loop, isLoop, Bool.eq_false_of_not_eq_true unjoined⟩

theorem loop_step_isSome {loop : AcceptLoop} {taken : LoopStep} (isLoop : state.loops[index]? = some loop)
    (possible : (loop.step server.isLinux state.lifecycle state.permits taken).isSome = true) :
    (server.step state (.loop index taken)).isSome = true := by
  obtain ⟨result, isResult⟩ := Option.isSome_iff_exists.mp possible
  simp [step, isLoop, isResult]

/-- A server that drains can go on by itself, without its drain being forced or timed out. -/
theorem exists_step_of_draining {rootError : Option ServerError} {forceable : Bool}
    (main : state.main = .draining rootError forceable) (waits : server.shutdownTimeout ≠ 0) :
    ∃ taken, taken ≠ .forces ∧ taken ≠ .timesOut ∧ (∀ index, taken ≠ .loop index .panics) ∧
      (server.step state taken).isSome = true := by
  by_cases joined : ∀ loop ∈ state.loops, loop.joined = true
  · refine ⟨.completes, by simp, by simp, by simp, ?_⟩
    simp [step, main, waits, List.all_eq_true.mpr joined]
  · obtain ⟨index, loop, isLoop, unjoined⟩ := exists_unjoined joined
    by_cases ended : loop.HasEnded
    · obtain ⟨panicked, phase⟩ := ended
      refine ⟨.joins index, by simp, by simp, by simp, ?_⟩
      simp [step, isLoop, phase, unjoined, main, waits]
    · obtain ⟨taken, calm, possible⟩ := AcceptLoop.exists_step server.isLinux state.lifecycle state.permits
        fun panicked phase => ended ⟨panicked, phase⟩
      refine ⟨.loop index taken, by simp, by simp, ?_, loop_step_isSome isLoop possible⟩
      intro other isPanic
      exact calm (ServingStep.loop.inj isPanic).2

/-- A server that stops can go on until it returns. -/
theorem exists_step_of_stopping (sound : Sound server state) (stopping : state.IsStopping)
    (unreturned : ∀ result, state.main ≠ .returned result) :
    ∃ taken, (server.step state taken).isSome = true := by
  cases main : state.main with
  | serving => exact absurd (sound.serving.mpr main) stopping
  | draining rootError forceable => exact ⟨.timesOut, by simp [step, main]⟩
  | aborting rootError drain =>
      by_cases joined : ∀ loop ∈ state.loops, loop.joined = true
      · exact ⟨.returns, by simp [step, main, List.all_eq_true.mpr joined]⟩
      · obtain ⟨index, loop, isLoop, unjoined⟩ := exists_unjoined joined
        cases phase : loop.phase with
        | ended panicked => exact ⟨.joins index, by simp [step, isLoop, phase, unjoined, main]⟩
        | _ => exact ⟨.aborts index, by simp [step, isLoop, phase, main]⟩
  | returned result => exact absurd main (unreturned result)

/-! ## Runs -/

section Runs

variable {before steps : List ServingStep}

/-- Once a server stops, each of its listeners accepts one more connection at most. -/
theorem accepted_le_one (stops : stopping.IsStopping)
    (run : reached server.step stopping steps = some state) (index : Nat) :
    state.IsStopping ∧ (steps.map (ServingStep.acceptedAt index)).sum ≤ 1 := by
  have kept : ∀ state taken next, state.IsStopping → server.step state taken = some next →
      next.IsStopping ∧
        taken.acceptedAt index + AcceptLoop.graceAt next.loops index ≤ AcceptLoop.graceAt state.loops index := by
    intro state taken next stopping isStep
    have stepped := stepped_of_step isStep
    exact ⟨stepped.isStopping stopping, stepped.acceptedAt_le stopping index⟩
  obtain ⟨stops, used⟩ := sum_map_add_le_bound (ServingStep.acceptedAt index)
    (fun state => AcceptLoop.graceAt state.loops index) stops kept run
  constructor
  · exact stops
  · exact (Nat.le_add_right _ _).trans (used.trans (AcceptLoop.graceAt_le_one _ _))

theorem accepted_le_one_single : single.stopped.IsStopping ∧
    (single.drained.map (ServingStep.acceptedAt 0)).sum ≤ 1 :=
  accepted_le_one (show single.stopping.IsStopping from nofun) single.reached_stopped 0

/-- A server that stops takes a bounded number of steps, and where none is left it has
returned, every loop has ended and every permit is free. -/
theorem returned_of_stuck (run : reached server.step server.start before = some stopping)
    (stops : stopping.IsStopping) (later : reached server.step stopping steps = some state) :
    steps.length ≤ stopping.weight ∧
      ((∀ taken, server.step state taken = none) →
        (∃ result, state.main = .returned result) ∧ (∀ loop ∈ state.loops, loop.HasEnded) ∧
          state.permits = server.maxConnections) := by
  have kept : ∀ state taken next, Sound server state ∧ state.IsStopping →
      server.step state taken = some next →
      (Sound server next ∧ next.IsStopping) ∧ next.weight < state.weight := by
    intro state taken next holds isStep
    obtain ⟨sound, stopping⟩ := holds
    have stepped := stepped_of_step isStep
    exact ⟨⟨stepped.sound sound, stepped.isStopping stopping⟩, stepped.weight_lt stopping⟩
  obtain ⟨⟨sound, stops⟩, used⟩ :=
    length_add_le_bound Serving.weight ⟨sound_of_reached run, stops⟩ kept later
  constructor
  · exact (Nat.le_add_right _ _).trans used
  · intro stuck
    have returned : ∃ result, state.main = .returned result := by
      by_contra unreturned
      obtain ⟨taken, possible⟩ :=
        exists_step_of_stopping sound stops fun result main => unreturned ⟨result, main⟩
      rw [stuck taken] at possible
      cases possible
    obtain ⟨result, main⟩ := returned
    have ended (loop : AcceptLoop) (member : loop ∈ state.loops) : loop.HasEnded :=
      (sound.loops loop member).joined (sound.returned result main loop member)
    refine ⟨⟨result, main⟩, ended, ?_⟩
    rw [← sound.pooled]
    apply Eq.symm
    apply pooled_eq_free
    intro loop member
    obtain ⟨index, isLoop⟩ := List.mem_iff_getElem?.mp member
    obtain ⟨panicked, phase⟩ := ended loop member
    have none := (sound.loops loop member).ended ⟨panicked, phase⟩
    have noneCancelled : loop.cancelled = 0 := by
      cases cancelled : loop.cancelled with
      | zero => rfl
      | succ cancelled =>
          have possible : (server.step state (.loop index .cancels)).isSome = true :=
            loop_step_isSome isLoop (by simp [AcceptLoop.step, *])
          rw [stuck] at possible
          cases possible
    simp only [AcceptLoop.held, AcceptLoop.released, phase, none, noneCancelled]

theorem returned_of_stuck_single : single.drained.length ≤ single.stopping.weight ∧
    ((∀ taken, single.step single.stopped taken = none) →
      (∃ result, single.stopped.main = .returned result) ∧ (∀ loop ∈ single.stopped.loops, loop.HasEnded) ∧
        single.stopped.permits = 1) :=
  returned_of_stuck single.reached_stopping nofun single.reached_stopped

/-- A drain that is neither forced nor timed out completes: where the server cannot go on by
itself, it has returned the error it stopped for, or none. -/
theorem returned_of_drained {rootError : Option ServerError} {forceable : Bool}
    (main : stopping.main = .draining rootError forceable) (waits : server.shutdownTimeout ≠ 0)
    (later : reached server.step stopping steps = some state)
    (graceful : ∀ taken ∈ steps, taken ≠ .forces ∧ taken ≠ .timesOut)
    (stuck : ∀ taken, taken ≠ .forces → taken ≠ .timesOut → (∀ index, taken ≠ .loop index .panics) →
      server.step state taken = none) :
    state.main = .returned (server.result rootError .complete) := by
  have holds : (∀ taken ∈ steps, taken ≠ .forces ∧ taken ≠ .timesOut) →
      (∃ forceable, state.main = .draining rootError forceable) ∨
        state.main = .returned (server.result rootError .complete) := by
    apply invariant_reached _ _ later
    · exact fun _ => .inl ⟨forceable, main⟩
    · intro steps state taken next earlier ih isStep graceful
      have earlierGraceful : ∀ taken ∈ steps, taken ≠ .forces ∧ taken ≠ .timesOut :=
        fun taken member => graceful taken (List.mem_append_left _ member)
      obtain ⟨unforced, waited⟩ := graceful taken (List.mem_append_right _ (List.mem_singleton_self _))
      exact (stepped_of_step isStep).drains unforced waited (ih earlierGraceful)
  rcases holds graceful with ⟨forceable, main⟩ | returned
  · obtain ⟨taken, unforced, waited, calm, possible⟩ := exists_step_of_draining main waits
    rw [stuck taken unforced waited calm] at possible
    cases possible
  · exact returned

theorem single.stuck (taken : ServingStep) : single.step stopped taken = none := by
  cases taken with
  | loop index taken =>
      cases index with
      | zero => cases taken <;> rfl
      | succ index => rfl
  | joins index | aborts index =>
      cases index with
      | zero => rfl
      | succ index => rfl
  | _ => rfl

theorem returned_of_drained_single : single.stopped.main = .returned (single.result none .complete) := by
  have waits : single.shutdownTimeout ≠ 0 := by decide
  have main : single.stopping.main = .draining none true := rfl
  apply returned_of_drained main waits single.reached_stopped
  · decide
  · exact fun taken _ _ _ => single.stuck taken

end Runs

end BoundServer

end Kynos.Server
