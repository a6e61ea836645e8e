import Kynos.Body.Frame
import Kynos.Numeral.Unsigned
import Kynos.Run.Runs

/-!
# Bodies bounded in time

Three bodies that poll another one and a timer: a request body that fails once its
reader has waited too long for a frame, a request body held to a deadline, and a
response body held to either. A timer is ready from its deadline on. What each
yields is what the body beneath does, but for one error at the end.
-/

namespace Kynos.Body

open Kynos.Numeral Kynos.Range Kynos.Run

variable {Error : Type}

/-! ## The source -/

/-- `tokio::time::Instant`, in nanoseconds since the clock's start. -/
abbrev Instant := Nat

/-- The clock: its last instant, and when a sleep past it ends. -/
structure Clock where
  last : Instant
  far : Instant → Duration → Instant

/-- `Instant::checked_add`. -/
def Clock.checkedAdd (clock : Clock) (now : Instant) (span : Duration) : Option Instant :=
  if now + span ≤ clock.last then some (now + span) else none

/-- The deadline of `tokio::time::sleep`. -/
def Clock.sleep (clock : Clock) (now : Instant) (span : Duration) : Instant :=
  (clock.checkedAdd now span).getD (clock.far now span)

/-- Why a bounded body fails: as the body beneath does, or for its timer. -/
inductive Failed (Error : Type)
  | inner (error : Error)
  | timedOut

/-- An answer of the body beneath, handed on. -/
def passed : Answer Error → Answer (Failed Error)
  | .pending => .pending
  | .ready none => .ready none
  | .ready (some (.ok frame)) => .ready (some (.ok frame))
  | .ready (some (.error error)) => .ready (some (.error (.inner error)))

/-- The timer's error. -/
def late : Answer (Failed Error) :=
  .ready (some (.error .timedOut))

theorem passed_ne_late (found : Answer Error) : passed found ≠ late := by
  cases found with
  | pending => exact nofun
  | ready item =>
      cases item with
      | none => exact nofun
      | some result => cases result <;> exact nofun

/-- `Idle`, beside the body beneath and its limit. -/
structure Idle where
  timer : Option Instant
  waiting : Bool
  stalled : Bool
  spent : Bool

namespace Idle

/-- As `bounded` makes it. -/
def new : Idle where
  timer := none
  waiting := false
  stalled := false
  spent := false

/-- `Idle::poll_frame`, the answer of the body beneath given. -/
def pollFrame (clock : Clock) (limit : Duration) (this : Idle) (now : Instant) (_ended : Bool)
    (polled : Answer Error) : Answer (Failed Error) × Idle :=
  if this.spent then
    (.ready none, this)
  else
    match polled with
    | .ready polled => (passed (.ready polled), { this with waiting := false })
    | .pending =>
        let started :=
          if this.waiting then
            some this.timer
          else
            (clock.checkedAdd now limit).map some
        match started with
        | none => (.pending, { this with waiting := true })
        | some timer =>
            if timer.any (· ≤ now) then
              (late, { timer := timer, waiting := true, stalled := true, spent := true })
            else
              (.pending, { this with timer := timer, waiting := true })

end Idle

/-- `Deadlined`, beside the body beneath. -/
structure Deadlined where
  deadline : Option Instant
  timer : Option Instant
  overdue : Bool
  spent : Bool

namespace Deadlined

/-- As `intercept` makes it. -/
def new (deadline : Option Instant) : Deadlined where
  deadline := deadline
  timer := none
  overdue := false
  spent := false

/-- `Deadlined::poll_frame`, the answer of the body beneath given. -/
def pollFrame (clock : Clock) (this : Deadlined) (now : Instant) (_ended : Bool)
    (polled : Answer Error) : Answer (Failed Error) × Deadlined :=
  if this.spent then
    (.ready none, this)
  else
    match polled with
    | .ready polled => (passed (.ready polled), this)
    | .pending =>
        match this.deadline with
        | none => (.pending, this)
        | some deadline =>
            let timer := this.timer.getD (clock.sleep now (deadline - now))
            if timer ≤ now then
              (late, { this with timer := some timer, overdue := true, spent := true })
            else
              (.pending, { this with timer := some timer })

end Deadlined

/-- `Bounded`, beside the body beneath. -/
structure Bounded where
  timer : Instant
  limit : Duration
  resetEachFrame : Bool
  spent : Bool

namespace Bounded

/-- As `intercept` makes it when the head is ready. -/
def new (clock : Clock) (now : Instant) (limit : Duration) (resetEachFrame : Bool) : Bounded where
  timer := clock.sleep now limit
  limit := limit
  resetEachFrame := resetEachFrame
  spent := false

/-- `Bounded::poll_frame`, whether the body beneath has ended and its answer given. -/
def pollFrame (clock : Clock) (this : Bounded) (now : Instant) (ended : Bool)
    (polled : Answer Error) : Answer (Failed Error) × Bounded :=
  if this.spent then
    (.ready none, this)
  else if ended then
    (.ready none, this)
  else if this.resetEachFrame then
    match polled with
    | .ready (some (.ok frame)) =>
        (passed (.ready (some (.ok frame))),
          { this with timer := (clock.checkedAdd now this.limit).getD this.timer })
    | .pending =>
        if this.timer ≤ now then
          (late, { this with spent := true })
        else
          (.pending, this)
    | polled => (passed polled, this)
  else if this.timer ≤ now then
    (late, { this with spent := true })
  else
    (passed polled, this)

end Bounded

/-! ## Runs -/

/-- A poll: when, whether the body beneath says it has ended, what that answers, and the
answer. A body that has ended has no more frames. -/
structure Asked (Error : Type) where
  time : Instant
  ended : Bool
  found : Answer Error
  answer : Answer (Failed Error)
  atEnd : ended = true → found = .ready none

section Runs

variable {Body : Type}

/-- Time goes on, and the body is polled. -/
def Stepped (clock : Clock) (poll : Body → Instant → Bool → Answer Error → Answer (Failed Error) × Body)
    (before : Instant × Body) (asked : Asked Error) (after : Instant × Body) : Prop :=
  before.1 ≤ asked.time ∧ asked.time ≤ clock.last ∧
    (asked.answer, after.2) = poll before.2 asked.time asked.ended asked.found ∧
      after.1 = asked.time

/-- A body that hands on what the one beneath answers until it fails for its timer,
and nothing more from there on. -/
structure FailsOnce (poll : Body → Instant → Bool → Answer Error → Answer (Failed Error) × Body)
    (spent : Body → Bool) : Prop where
  of_spent : ∀ this now ended found, spent this = true →
    poll this now ended found = (.ready none, this)
  of_unspent : ∀ this now ended found, (ended = true → found = .ready none) → spent this = false →
    ((poll this now ended found).1 = passed found ∧ spent (poll this now ended found).2 = false) ∨
      ((poll this now ended found).1 = late ∧ spent (poll this now ended found).2 = true)

/-- What a run's answers are: those of the body beneath up to the timer's error,
which comes once, and the end after it. -/
structure Unchanged (run : List (Asked Error)) : Prop where
  before : ∀ earlier asked later, run = earlier ++ asked :: later →
    (∀ other ∈ earlier, other.answer ≠ late) → asked.answer ≠ late →
      asked.answer = passed asked.found
  after : ∀ earlier asked later, run = earlier ++ asked :: later → asked.answer = late →
    ∀ other ∈ later, other.answer = .ready none

variable {clock : Clock} {spent : Body → Bool}
  {poll : Body → Instant → Bool → Answer Error → Answer (Failed Error) × Body}
  {start state : Instant × Body} {run : List (Asked Error)} {asked : Asked Error}

/-- A body is spent once its timer's error has come, and what it answers is unchanged
but for that. -/
theorem FailsOnce.of_steps (failsOnce : FailsOnce poll spent) (fresh : spent start.2 = false)
    (steps : Steps (Stepped clock poll) start run state) :
    (spent state.2 = true ↔ ∃ asked ∈ run, asked.answer = late) ∧ Unchanged run := by
  induction steps with
  | nil =>
      refine ⟨by simp [fresh], ⟨fun earlier asked later split => ?_, fun earlier asked later split => ?_⟩⟩
      · exact absurd split (by simp)
      · exact absurd split (by simp)
  | @concat run asked state next _ stepped ih =>
      obtain ⟨isSpent, unchanged⟩ := ih
      obtain ⟨-, -, polled, -⟩ := stepped
      have isAnswer : asked.answer = (poll state.2 asked.time asked.ended asked.found).1 :=
        congrArg Prod.fst polled
      have isNext : next.2 = (poll state.2 asked.time asked.ended asked.found).2 :=
        congrArg Prod.snd polled
      cases wasSpent : spent state.2 with
      | true =>
          have failed := isSpent.mp wasSpent
          have isPolled := failsOnce.of_spent _ asked.time asked.ended asked.found wasSpent
          rw [isPolled] at isAnswer isNext
          refine ⟨⟨fun _ => ?_, fun _ => by rw [isNext, wasSpent]⟩, ⟨?_, ?_⟩⟩
          · obtain ⟨other, member, isLate⟩ := failed
            exact ⟨other, List.mem_append_left _ member, isLate⟩
          · intro earlier other later split notYet notLate
            rcases last_or_earlier split with ⟨rfl, rfl, -⟩ | ⟨rest, rfl, rfl⟩
            · obtain ⟨failure, member, isLate⟩ := failed
              exact absurd isLate (notYet failure member)
            · exact unchanged.before earlier other rest rfl notYet notLate
          · intro earlier other later split isLate
            rcases last_or_earlier split with ⟨rfl, rfl, rfl⟩ | ⟨rest, rfl, rfl⟩
            · exact nofun
            · rw [List.forall_mem_append, List.forall_mem_singleton]
              exact ⟨unchanged.after earlier other rest rfl isLate, isAnswer⟩
      | false =>
          have unfailed : ¬ ∃ asked ∈ run, asked.answer = late := by
            rw [← isSpent, wasSpent]
            exact Bool.false_ne_true
          have isLast : ((∃ other ∈ run ++ [asked], other.answer = late) ↔ asked.answer = late) := by
            simp only [List.mem_append, List.mem_singleton, or_and_right, exists_or, unfailed,
              false_or, exists_eq_left]
          have outcome := failsOnce.of_unspent _ asked.time asked.ended asked.found asked.atEnd wasSpent
          rw [← isAnswer, ← isNext] at outcome
          refine ⟨?_, ⟨?_, ?_⟩⟩
          · rw [isLast]
            rcases outcome with ⟨isPassed, unspent⟩ | ⟨isLate, nowSpent⟩
            · rw [unspent, isPassed]
              exact iff_of_false Bool.false_ne_true (passed_ne_late _)
            · exact iff_of_true nowSpent isLate
          · intro earlier other later split notYet notLate
            rcases last_or_earlier split with ⟨rfl, rfl, -⟩ | ⟨rest, rfl, rfl⟩
            · exact (outcome.resolve_right fun isLate => notLate isLate.1).1
            · exact unchanged.before earlier other rest rfl notYet notLate
          · intro earlier other later split isLate
            rcases last_or_earlier split with ⟨rfl, rfl, rfl⟩ | ⟨rest, rfl, rfl⟩
            · exact nofun
            · exact absurd ⟨other, by simp, isLate⟩ unfailed

end Runs

/-! ## The three bodies -/

section Bodies

variable (clock : Clock)

theorem Idle.failsOnce (limit : Duration) : @FailsOnce Error Idle
    (fun this => this.pollFrame clock limit) Idle.spent where
  of_spent this now ended found spent := if_pos spent
  of_unspent this now ended found _ unspent := by
    cases found with
    | ready polled =>
        rw [pollFrame, if_neg (by rw [unspent]; exact Bool.false_ne_true)]
        exact .inl ⟨rfl, unspent⟩
    | pending =>
        rw [pollFrame, if_neg (by rw [unspent]; exact Bool.false_ne_true)]
        dsimp only
        split
        · exact .inl ⟨rfl, unspent⟩
        · split
          · exact .inr ⟨rfl, rfl⟩
          · exact .inl ⟨rfl, unspent⟩

theorem Deadlined.failsOnce : @FailsOnce Error Deadlined
    (fun this => this.pollFrame clock) Deadlined.spent where
  of_spent this now ended found spent := if_pos spent
  of_unspent this now ended found _ unspent := by
    cases found with
    | ready polled =>
        rw [pollFrame, if_neg (by rw [unspent]; exact Bool.false_ne_true)]
        exact .inl ⟨rfl, unspent⟩
    | pending =>
        rw [pollFrame, if_neg (by rw [unspent]; exact Bool.false_ne_true)]
        dsimp only
        split
        · exact .inl ⟨rfl, unspent⟩
        · split
          · exact .inr ⟨rfl, rfl⟩
          · exact .inl ⟨rfl, unspent⟩

theorem Bounded.failsOnce : @FailsOnce Error Bounded
    (fun this => this.pollFrame clock) Bounded.spent where
  of_spent this now ended found spent := if_pos spent
  of_unspent this now ended found atEnd unspent := by
    rw [pollFrame.eq_def, if_neg (by rw [unspent]; exact Bool.false_ne_true)]
    split
    · rename_i hasEnded
      rw [atEnd hasEnded]
      exact .inl ⟨rfl, unspent⟩
    · split
      · split
        · exact .inl ⟨rfl, unspent⟩
        · split
          · exact .inr ⟨rfl, rfl⟩
          · exact .inl ⟨rfl, unspent⟩
        · exact .inl ⟨rfl, unspent⟩
      · split
        · exact .inr ⟨rfl, rfl⟩
        · exact .inl ⟨rfl, unspent⟩

end Bodies

end Kynos.Body
