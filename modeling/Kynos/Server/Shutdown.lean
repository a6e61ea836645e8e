import Kynos.Server.Serving

/-!
# What serving keeps

Over every interleaving of accept loops, connections and server, permits are held
by a loop or a connection or are free, so no more connections are open than were
permitted, and a server that returns without an error has none left to close.
-/

namespace Kynos.Server

open Kynos.Numeral Kynos.Run

/-! ## Loops -/

namespace AcceptLoop

/-- The permits of a loop and its connections. -/
def held (loop : AcceptLoop) : Nat :=
  loop.released + loop.running + loop.cancelled

/-- The connections that are open, aborted or not. -/
def connections (loop : AcceptLoop) : Nat :=
  loop.running + loop.cancelled

theorem connections_le_held (loop : AcceptLoop) : loop.connections ≤ loop.held := by
  rw [connections, held]
  omega

/-- Whether a loop has ended. -/
def HasEnded (loop : AcceptLoop) : Prop :=
  ∃ panicked, loop.phase = .ended panicked

/-- A loop that has ended runs no connection, and connections are aborted only where the
stop is forced or their loop panicked. -/
structure Sound (lifecycle : Lifecycle) (loop : AcceptLoop) : Prop where
  ended : loop.HasEnded → loop.running = 0
  joined : loop.joined = true → loop.HasEnded
  shutting : loop.phase = .shutting → loop.running = 0 ∧ lifecycle = .forced
  cancelled : lifecycle ≠ .forced → 0 < loop.cancelled → loop.phase = .ended true

theorem sound_new (lifecycle : Lifecycle) : Sound lifecycle new where
  ended _ := rfl
  joined := nofun
  shutting := nofun
  cancelled _ some := absurd some (Nat.lt_irrefl 0)

theorem Sound.mono {lifecycle later : Lifecycle} {loop : AcceptLoop} (sound : Sound lifecycle loop)
    (forced : lifecycle = .forced → later = .forced) : Sound later loop where
  ended := sound.ended
  joined := sound.joined
  shutting phase := ⟨(sound.shutting phase).1, forced (sound.shutting phase).2⟩
  cancelled unforced := sound.cancelled (mt forced unforced)

variable {isLinux : Bool} {lifecycle : Lifecycle} {permits after : Nat} {loop next : AcceptLoop} {taken : LoopStep}
  {failure : Option ErrorKind}

/-- What a loop takes is no longer free, and what it gives back is. -/
theorem Stepped.balanced (stepped : Stepped isLinux lifecycle permits loop taken next after failure) :
    after + next.held = permits + loop.held := by
  cases stepped <;> simp only [held, released, dropped, *] <;> omega

theorem dropped_balanced (permits : Nat) (loop : AcceptLoop) (panicked : Bool) :
    permits + loop.released + (loop.dropped panicked).held = permits + loop.held := by
  simp only [held, released, dropped]
  omega

theorem not_hasEnded {phase : Phase} (isPhase : loop.phase = phase) (alive : ∀ panicked, phase ≠ .ended panicked) :
    ¬loop.HasEnded := by
  rintro ⟨panicked, isEnded⟩
  exact alive panicked (isPhase.symm.trans isEnded)

/-- A loop that goes from work to work, its connections neither joined nor aborted, is sound. -/
theorem Sound.goesOn (sound : Sound lifecycle loop) {phase later : Phase} (isPhase : loop.phase = phase)
    (isLater : next.phase = later) (joined : next.joined = loop.joined) (cancelled : next.cancelled = loop.cancelled)
    (works : ∀ panicked, phase ≠ .ended panicked) (stays : ∀ panicked, later ≠ .ended panicked)
    (notShutting : later ≠ .shutting) : Sound lifecycle next where
  ended isEnded := absurd isEnded (not_hasEnded isLater stays)
  joined isJoined := absurd (sound.joined (joined.symm.trans isJoined)) (not_hasEnded isPhase works)
  shutting isShutting := absurd (isLater.symm.trans isShutting) notShutting
  cancelled unforced some :=
    absurd ⟨true, sound.cancelled unforced (cancelled ▸ some)⟩ (not_hasEnded isPhase works)

theorem Stepped.sound (stepped : Stepped isLinux lifecycle permits loop taken next after failure)
    (sound : Sound lifecycle loop) : Sound lifecycle next := by
  cases stepped with
  | starts phase | checksAcquiring phase _ | checksAccepting phase _ | checksSleeping phase _
  | leavesAcquiring phase _ | leavesAccepting phase _ | leavesSleeping phase _ | parksAcquiring phase
  | parksAccepting phase | parksSleeping phase | acquires phase _ | accepts phase | retries phase _
  | waits phase _ | stops phase _ | elapses phase =>
      exact sound.goesOn phase rfl rfl rfl (by simp) (by simp) (by simp)
  | reaps phase _ => exact sound.goesOn phase phase rfl rfl (by simp) (by simp) (by simp)
  | finishes some =>
      constructor
      case ended =>
        intro isEnded
        rw [sound.ended isEnded] at some
        cases some
      case joined => exact sound.joined
      case shutting =>
        intro phase
        rw [(sound.shutting phase).1] at some
        cases some
      case cancelled => exact sound.cancelled
  | shuts phase forced =>
      constructor
      case ended =>
        rintro ⟨panicked, isEnded⟩
        cases isEnded
      case joined =>
        intro isJoined
        exact absurd (sound.joined isJoined) (not_hasEnded phase (by simp))
      case shutting => exact fun _ => ⟨rfl, forced⟩
      case cancelled => exact fun unforced => absurd forced unforced
  | cancels some =>
      constructor
      case ended => exact sound.ended
      case joined => exact sound.joined
      case shutting => exact sound.shutting
      case cancelled =>
        intro unforced _
        exact sound.cancelled unforced (some ▸ Nat.succ_pos _)
  | endsDrained phase none _ =>
      constructor
      case ended => exact fun _ => none
      case joined => exact fun _ => ⟨false, rfl⟩
      case shutting =>
        intro isShutting
        cases isShutting
      case cancelled =>
        intro unforced some
        exact absurd ⟨true, sound.cancelled unforced some⟩ (not_hasEnded phase (by simp))
  | endsShut phase none =>
      constructor
      case ended => exact fun _ => (sound.shutting phase).1
      case joined => exact fun _ => ⟨false, rfl⟩
      case shutting =>
        intro isShutting
        cases isShutting
      case cancelled => exact fun _ some => absurd none (Nat.pos_iff_ne_zero.mp some)
  | panics _ =>
      constructor
      case ended => exact fun _ => rfl
      case joined => exact fun _ => ⟨true, rfl⟩
      case shutting =>
        intro isShutting
        cases isShutting
      case cancelled => exact fun _ _ => rfl

theorem Stepped.joined_eq (stepped : Stepped isLinux lifecycle permits loop taken next after failure) :
    next.joined = loop.joined := by
  cases stepped <;> rfl

theorem Sound.join (sound : Sound lifecycle loop) (ended : loop.HasEnded) : Sound lifecycle { loop with joined := true } where
  ended := sound.ended
  joined _ := ended
  shutting := sound.shutting
  cancelled := sound.cancelled

theorem sound_dropped (loop : AcceptLoop) (panicked : Bool) : Sound .forced (loop.dropped panicked) where
  ended _ := rfl
  joined _ := ⟨panicked, rfl⟩
  shutting := nofun
  cancelled unforced := absurd rfl unforced

end AcceptLoop

/-! ## The server -/

namespace BoundServer

variable {server : BoundServer} {state next : Serving} {taken : ServingStep} {index : Nat}

/-- The changes a step of the server may make. -/
inductive Stepped (server : BoundServer) (state : Serving) : ServingStep → Serving → Prop where
  | loop {index permits : Nat} {taken : LoopStep} {loop next : AcceptLoop} {failure : Option ErrorKind}
      (isLoop : state.loops[index]? = some loop)
      (stepped : loop.Stepped server.isLinux state.lifecycle state.permits taken next permits failure) :
      Stepped server state (.loop index taken) { state with
        permits := permits
        loops := state.loops.set index next
        failures := state.failures ++ (failure.map fun kind => ServerError.accept index kind).toList }
  | receives {error : ServerError} {failures : List ServerError} (main : state.main = .serving) :
      Stepped server state .receives
        { state with lifecycle := .draining, failures := failures, main := .draining (some error) false }
  | joinsFirst {index : Nat} {loop : AcceptLoop} {rootError : Option ServerError} {panicked : Bool}
      (isLoop : state.loops[index]? = some loop) (phase : loop.phase = .ended panicked) (unjoined : loop.joined = false)
      (main : state.main = .serving) : Stepped server state (.joins index)
        { state with
          lifecycle := .draining
          loops := state.loops.set index { loop with joined := true }
          main := .draining rootError false }
  | joins {index : Nat} {loop : AcceptLoop} {panicked : Bool} (isLoop : state.loops[index]? = some loop)
      (phase : loop.phase = .ended panicked) (unjoined : loop.joined = false)
      (unreturned : ∀ result, state.main ≠ .returned result) :
      Stepped server state (.joins index)
        { state with loops := state.loops.set index { loop with joined := true } }
  | signals {forceable : Option Bool} {rootError : Option ServerError} {forces : Bool} (main : state.main = .serving) :
      Stepped server state (.signals forceable)
        { state with lifecycle := .draining, main := .draining rootError forces }
  | forces {rootError : Option ServerError} {forceable : Bool} (main : state.main = .draining rootError forceable) :
      Stepped server state .forces { state with lifecycle := .forced, main := .aborting rootError .forced }
  | timesOut {rootError : Option ServerError} {forceable : Bool} (main : state.main = .draining rootError forceable) :
      Stepped server state .timesOut { state with lifecycle := .forced, main := .aborting rootError .timedOut }
  | completes {rootError : Option ServerError} {forceable : Bool} (main : state.main = .draining rootError forceable)
      (joined : ∀ loop ∈ state.loops, loop.joined = true) :
      Stepped server state .completes { state with main := .returned (server.result rootError .complete) }
  | aborts {index : Nat} {loop : AcceptLoop} {rootError : Option ServerError} {drain : Drain}
      (isLoop : state.loops[index]? = some loop) (main : state.main = .aborting rootError drain)
      (alive : ∀ panicked, loop.phase ≠ .ended panicked) :
      Stepped server state (.aborts index) { state with
        permits := state.permits + loop.released
        loops := state.loops.set index (loop.dropped false) }
  | returns {rootError : Option ServerError} {drain : Drain} (main : state.main = .aborting rootError drain)
      (joined : ∀ loop ∈ state.loops, loop.joined = true) :
      Stepped server state .returns { state with main := .returned (server.result rootError drain) }

theorem stepped_of_step (stepped : server.step state taken = some next) : Stepped server state taken next := by
  cases taken with
  | loop index taken =>
      obtain ⟨loop, isLoop, rest⟩ := Option.bind_eq_some_iff.mp stepped
      obtain ⟨⟨after, permits, failure⟩, isStep, rest⟩ := Option.bind_eq_some_iff.mp rest
      cases rest
      exact .loop isLoop (AcceptLoop.stepped_of_step isStep)
  | receives =>
      simp only [step] at stepped
      split at stepped
      next main isFailures =>
        cases stepped
        exact .receives main
      next => cases stepped
  | joins index =>
      obtain ⟨loop, isLoop, rest⟩ := Option.bind_eq_some_iff.mp stepped
      split at rest
      next panicked phase unjoined =>
        split at rest
        next main =>
          cases rest
          exact .joinsFirst isLoop phase unjoined main
        next main =>
          split at rest
          next => cases rest
          next =>
            cases rest
            exact .joins isLoop phase unjoined (by simp [main])
        next main =>
          cases rest
          exact .joins isLoop phase unjoined (by simp [main])
        next => cases rest
      next => cases rest
  | signals forceable =>
      simp only [step] at stepped
      split at stepped
      next main =>
        cases stepped
        exact .signals main
      next main =>
        cases stepped
        exact .signals main
      next => cases stepped
  | forces =>
      simp only [step] at stepped
      split at stepped
      next main =>
        split at stepped
        next => cases stepped
        next =>
          cases stepped
          exact .forces main
      next => cases stepped
  | timesOut =>
      simp only [step] at stepped
      split at stepped
      next main =>
        cases stepped
        exact .timesOut main
      next => cases stepped
  | completes =>
      simp only [step] at stepped
      split at stepped
      next main =>
        split at stepped
        next both =>
          cases stepped
          exact .completes main (List.all_eq_true.mp both.2)
        next => cases stepped
      next => cases stepped
  | aborts index =>
      obtain ⟨loop, isLoop, rest⟩ := Option.bind_eq_some_iff.mp stepped
      split at rest
      next => cases rest
      next main alive =>
        cases rest
        exact .aborts isLoop main alive
      next => cases rest
  | returns =>
      simp only [step] at stepped
      split at stepped
      next main =>
        split at stepped
        next joined =>
          cases stepped
          exact .returns main (List.all_eq_true.mp joined)
        next => cases stepped
      next => cases stepped

/-- What holds of a server at every step. -/
structure Sound (server : BoundServer) (state : Serving) : Prop where
  pooled : pooled AcceptLoop.held state.permits state.loops = server.maxConnections
  loops : ∀ loop ∈ state.loops, loop.Sound state.lifecycle
  serving : state.lifecycle = .running ↔ state.main = .serving
  draining : ∀ rootError forceable, state.main = .draining rootError forceable → state.lifecycle = .draining
  aborting : ∀ rootError drain, state.main = .aborting rootError drain →
    drain ≠ .complete ∧ state.lifecycle = .forced
  returned : ∀ result, state.main = .returned result → ∀ loop ∈ state.loops, loop.joined = true
  complete : state.main = .returned (.ok ()) → state.lifecycle = .draining

theorem sound_start (server : BoundServer) : Sound server server.start where
  pooled := pooled_replicate_zero _ rfl
  loops loop member := by
    rw [List.eq_of_mem_replicate member]
    exact AcceptLoop.sound_new _
  serving := by simp [start]
  draining := by simp [start]
  aborting := by simp [start]
  returned := by simp [start]
  complete := by simp [start]

/-- A server is stopped with an error, unless all was left to complete. -/
theorem result_ne_ok {drain : Drain} (incomplete : drain ≠ .complete) (rootError : Option ServerError) :
    server.result rootError drain ≠ .ok () := by
  cases rootError with
  | some error => exact nofun
  | none =>
      cases drain with
      | complete => exact absurd rfl incomplete
      | timedOut => exact nofun
      | forced => exact nofun

/-- A server that was serving begins to drain. -/
theorem Sound.stop (sound : Sound server state) (main : state.main = .serving) {loops : List AcceptLoop}
    (isPooled : Run.pooled AcceptLoop.held state.permits loops = server.maxConnections)
    (isSound : ∀ loop ∈ loops, loop.Sound state.lifecycle) (failures : List ServerError)
    (rootError : Option ServerError) (forceable : Bool) :
    Sound server { state with
      lifecycle := .draining
      loops := loops
      failures := failures
      main := .draining rootError forceable } where
  pooled := isPooled
  loops loop member := by
    apply (isSound loop member).mono
    rw [sound.serving.mpr main]
    exact nofun
  serving := by simp
  draining := by simp
  aborting := by simp
  returned := by simp
  complete := by simp

/-- A drain that is not complete is forced. -/
theorem Sound.force (sound : Sound server state) {drain : Drain} (incomplete : drain ≠ .complete)
    (rootError : Option ServerError) :
    Sound server { state with lifecycle := .forced, main := .aborting rootError drain } where
  pooled := sound.pooled
  loops loop member := (sound.loops loop member).mono fun _ => rfl
  serving := by simp
  draining := by simp
  aborting _ _ main := by
    cases main
    exact ⟨incomplete, rfl⟩
  returned := by simp
  complete := by simp

theorem pooled_joined {loop : AcceptLoop} (isLoop : state.loops[index]? = some loop) :
    pooled AcceptLoop.held state.permits (state.loops.set index { loop with joined := true }) =
      pooled AcceptLoop.held state.permits state.loops :=
  pooled_set isLoop rfl

theorem Stepped.sound (stepped : Stepped server state taken next) (sound : Sound server state) : Sound server next := by
  have member {index : Nat} {loop : AcceptLoop} (isLoop : state.loops[index]? = some loop) :
      loop.Sound state.lifecycle := sound.loops loop (List.mem_of_getElem? isLoop)
  cases stepped with
  | loop isLoop stepped =>
      constructor
      case pooled => exact (pooled_set isLoop stepped.balanced).trans sound.pooled
      case loops => exact forall_mem_set sound.loops (stepped.sound (member isLoop))
      case serving => exact sound.serving
      case draining => exact sound.draining
      case aborting => exact sound.aborting
      case returned =>
        intro result main
        have joined := sound.returned result main
        apply forall_mem_set joined
        exact stepped.joined_eq.trans (joined _ (List.mem_of_getElem? isLoop))
      case complete => exact sound.complete
  | receives main => exact sound.stop main sound.pooled sound.loops _ _ _
  | joinsFirst isLoop phase unjoined main =>
      exact sound.stop main ((pooled_joined isLoop).trans sound.pooled)
        (forall_mem_set sound.loops ((member isLoop).join ⟨_, phase⟩)) _ _ _
  | joins isLoop phase unjoined unreturned =>
      constructor
      case pooled => exact (pooled_joined isLoop).trans sound.pooled
      case loops => exact forall_mem_set sound.loops ((member isLoop).join ⟨_, phase⟩)
      case serving => exact sound.serving
      case draining => exact sound.draining
      case aborting => exact sound.aborting
      case returned => exact fun result main => absurd main (unreturned result)
      case complete => exact fun main => absurd main (unreturned _)
  | signals main => exact sound.stop main sound.pooled sound.loops _ _ _
  | forces main => exact sound.force (by decide) _
  | timesOut main => exact sound.force (by decide) _
  | completes main joined =>
      have lifecycle := sound.draining _ _ main
      constructor
      case pooled => exact sound.pooled
      case loops => exact sound.loops
      case serving => simp [lifecycle]
      case draining => simp
      case aborting => simp
      case returned => exact fun _ _ => joined
      case complete => exact fun _ => lifecycle
  | @aborts index loop rootError drain isLoop main alive =>
      have forced := (sound.aborting _ _ main).2
      constructor
      case pooled => exact (pooled_set isLoop (loop.dropped_balanced state.permits false)).trans sound.pooled
      case loops =>
        apply forall_mem_set sound.loops
        rw [forced]
        exact loop.sound_dropped false
      case serving => exact sound.serving
      case draining => exact sound.draining
      case aborting => exact sound.aborting
      case returned => simp [main]
      case complete => simp [main]
  | returns main joined =>
      constructor
      case pooled => exact sound.pooled
      case loops => exact sound.loops
      case serving =>
        rw [sound.serving, main]
        simp
      case draining => simp
      case aborting => simp
      case returned => exact fun _ _ => joined
      case complete =>
        intro isOk
        exact absurd (Main.returned.inj isOk) (result_ne_ok (sound.aborting _ _ main).1 _)

/-! ## Runs -/

section Runs

variable {steps : List ServingStep}

theorem sound_of_reached (run : reached server.step server.start steps = some state) : Sound server state :=
  kept_reached (sound_start server) (fun _ _ _ sound stepped => (stepped_of_step stepped).sound sound) run

/-- Over every interleaving, the permits that are free and those that loops and connections
hold are as many as connections may be open, and no more are. -/
theorem connections_le (run : reached server.step server.start steps = some state) :
    pooled AcceptLoop.held state.permits state.loops = server.maxConnections ∧
      (state.loops.map AcceptLoop.connections).sum ≤ server.maxConnections := by
  have isPooled := (sound_of_reached run).pooled
  constructor
  · exact isPooled
  · rw [← isPooled]
    exact sum_map_le_pooled fun loop _ => loop.connections_le_held

/-- One listener, one connection at a time and thirty seconds to drain in. -/
def single : BoundServer where
  listeners := 1
  maxConnections := 1
  shutdownTimeout := Duration.fromMillis 30000
  isLinux := true
  listening := Nat.one_pos
  connectable := Nat.one_pos

/-- A connection is accepted, and the signal comes while it is served. -/
def single.signalled : List ServingStep :=
  [.loop 0 .starts, .loop 0 .checks, .loop 0 .acquires, .loop 0 .checks, .loop 0 (.accepts none), .signals (some true)]

/-- The connection ends, and its loop is joined. -/
def single.drained : List ServingStep :=
  [.loop 0 .starts, .loop 0 .checks, .loop 0 .finishes, .loop 0 .reaps, .loop 0 .ends, .joins 0, .completes]

def single.stopping : Serving where
  lifecycle := .draining
  permits := 0
  loops := [⟨.starting, .initial, 1, 0, 0, false⟩]
  failures := []
  main := .draining none true

def single.stopped : Serving where
  lifecycle := .draining
  permits := 1
  loops := [⟨.ended false, .initial, 0, 0, 0, true⟩]
  failures := []
  main := .returned (.ok ())

theorem single.reached_stopping : reached single.step single.start signalled = some stopping :=
  rfl

theorem single.reached_stopped : reached single.step stopping drained = some stopped :=
  rfl

theorem connections_le_single :
    pooled AcceptLoop.held single.stopping.permits single.stopping.loops = 1 ∧
      (single.stopping.loops.map AcceptLoop.connections).sum ≤ 1 :=
  connections_le single.reached_stopping

/-- A server that returns without an error leaves no connection open but those of a loop that
panicked. -/
theorem closed_of_returned (run : reached server.step server.start steps = some state)
    (returned : state.main = .returned (.ok ())) :
    (∀ loop ∈ state.loops, loop.HasEnded ∧ loop.running = 0 ∧ (0 < loop.cancelled → loop.phase = .ended true)) ∧
      ((∀ loop ∈ state.loops, loop.phase ≠ .ended true) → state.permits = server.maxConnections) := by
  have sound := sound_of_reached run
  have ended (loop : AcceptLoop) (member : loop ∈ state.loops) : loop.HasEnded :=
    (sound.loops loop member).joined (sound.returned _ returned loop member)
  have unforced : state.lifecycle ≠ .forced := by
    rw [sound.complete returned]
    decide
  have cancelled (loop : AcceptLoop) (member : loop ∈ state.loops) : 0 < loop.cancelled → loop.phase = .ended true :=
    (sound.loops loop member).cancelled unforced
  constructor
  · intro loop member
    exact ⟨ended loop member, (sound.loops loop member).ended (ended loop member), cancelled loop member⟩
  · intro calm
    rw [← sound.pooled]
    apply Eq.symm
    apply pooled_eq_free
    intro loop member
    obtain ⟨panicked, phase⟩ := ended loop member
    have none := (sound.loops loop member).ended ⟨panicked, phase⟩
    have noneCancelled : loop.cancelled = 0 :=
      Nat.eq_zero_of_not_pos fun some => calm loop member (cancelled loop member some)
    simp only [AcceptLoop.held, AcceptLoop.released, phase, none, noneCancelled]

theorem closed_of_returned_single :
    (∀ loop ∈ single.stopped.loops, loop.HasEnded ∧ loop.running = 0 ∧
        (0 < loop.cancelled → loop.phase = .ended true)) ∧
      ((∀ loop ∈ single.stopped.loops, loop.phase ≠ .ended true) → single.stopped.permits = 1) := by
  have run : reached single.step single.start (single.signalled ++ single.drained) = some single.stopped := by
    rw [reached_append, single.reached_stopping]
    exact single.reached_stopped
  exact closed_of_returned run rfl

end Runs

end BoundServer

end Kynos.Server
