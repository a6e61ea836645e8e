import Kynos.Server.Streams

/-!
# Idle connections

Over every interleaving, the wait for an idle connection resolves only after a
whole sleep in which no stream was in flight, and no wakeup is lost: the wait is
not left to the notification alone once no stream is in flight and every close
has notified.
-/

namespace Kynos.Server

open Kynos.Numeral Kynos.Run

namespace Streams

variable {streams next : Streams} {timeout : Option Duration} {steps : List Step} {taken : Step}

/-! ## What a step does -/

/-- The changes a step may make. -/
inductive Stepped (streams : Streams) : Step → Streams → Prop where
  | opens : Stepped streams .opens { streams with opened := streams.opened + 1 }
  | counts (inFlight : streams.closed < streams.opened) :
      Stepped streams .counts { streams with
        closed := streams.closed + 1
        counted := (streams.closed + 1) :: streams.counted }
  | comparesLast {closed : Nat} (last : closed = streams.opened) :
      Stepped streams (.compares closed) { streams with
        counted := streams.counted.erase closed
        notifying := streams.notifying + 1 }
  | comparesOther {closed : Nat} (other : closed ≠ streams.opened) :
      Stepped streams (.compares closed) { streams with counted := streams.counted.erase closed }
  | notifies : Stepped streams .notifies
      { streams with notifying := streams.notifying - 1 }.notifyOne
  | registers (idle : streams.idle = .start) :
      Stepped streams .registers { streams with permit := false, idle := .enabled streams.permit }
  | readsClosed {woken : Bool} (idle : streams.idle = .enabled woken) :
      Stepped streams .readsClosed { streams with idle := .reading woken streams.closed }
  | waits {woken : Bool} {closed : Nat} (idle : streams.idle = .reading woken closed)
      (busy : streams.opened = 0 ∨ closed ≠ streams.opened) :
      Stepped streams .readsOpened { streams with idle := .waiting woken }
  | settles {woken : Bool} (idle : streams.idle = .reading woken streams.opened)
      (some : streams.opened ≠ 0) :
      Stepped streams .readsOpened { streams with idle := .settled woken streams.opened }
  | wakes : Stepped streams .wakes { streams with idle := .start }
  | sleeps {woken : Bool} {opened : Nat} (idle : streams.idle = .settled woken opened) :
      Stepped streams .sleeps { streams with idle := .sleeping woken opened }
  | elapses {woken : Bool} {opened : Nat} (idle : streams.idle = .sleeping woken opened) :
      Stepped streams .elapses { streams with idle := .slept woken opened }
  | resolves {woken : Bool} (idle : streams.idle = .slept woken streams.opened) :
      Stepped streams .rechecks { streams with idle := .resolved }
  | retries {woken : Bool} : Stepped streams .rechecks
      { streams with permit := streams.permit || woken, idle := .start }

theorem stepped_of_step (stepped : streams.step taken = some next) : Stepped streams taken next := by
  rw [step.eq_def] at stepped
  split at stepped
  · cases stepped
    exact .opens
  · split at stepped
    next inFlight =>
      cases stepped
      exact .counts inFlight
    next => cases stepped
  · split at stepped
    next =>
      simp only at stepped
      split at stepped
      next last =>
        cases stepped
        exact .comparesLast last
      next other =>
        cases stepped
        exact .comparesOther other
    next => cases stepped
  · split at stepped
    next =>
      cases stepped
      exact .notifies
    next => cases stepped
  · split at stepped
    next idle =>
      cases stepped
      exact .registers idle
    next => cases stepped
  · split at stepped
    next idle =>
      cases stepped
      exact .readsClosed idle
    next => cases stepped
  · split at stepped
    next woken closed idle =>
      split at stepped
      next busy =>
        cases stepped
        exact .waits idle busy
      next quiet =>
        cases stepped
        rw [not_or, not_not] at quiet
        exact .settles (quiet.2 ▸ idle) quiet.1
    next => cases stepped
  · split at stepped
    · cases stepped
      exact .wakes
    · cases stepped
      exact .wakes
    · cases stepped
  · split at stepped
    next idle =>
      cases stepped
      exact .sleeps idle
    next => cases stepped
  · split at stepped
    next idle =>
      cases stepped
      exact .elapses idle
    next => cases stepped
  · split at stepped
    next woken opened idle =>
      split at stepped
      next same =>
        cases stepped
        exact .resolves (same ▸ idle)
      next =>
        cases stepped
        exact .retries
    next => cases stepped

/-! ## No wakeup is lost -/

/-- A wait that has not yet decided, or that the notification reaches. -/
def Aware (streams : Streams) : Prop :=
  match streams.idle with
  | .waiting woken => woken = true ∨ streams.permit = true
  | .reading woken closed => closed = streams.closed ∨ woken = true ∨ streams.permit = true
  | _ => True

/-- No more streams were closed than opened, and where as many were, the close of
the last one has yet to notify, or the wait is aware of it. -/
structure Heard (streams : Streams) : Prop where
  closed_le : streams.closed ≤ streams.opened
  heard : streams.opened = streams.closed → 0 < streams.closed →
    streams.closed ∈ streams.counted ∨ 0 < streams.notifying ∨ streams.Aware

theorem heard_new : (new timeout).Heard :=
  ⟨Nat.le_refl 0, fun _ some => absurd some (Nat.lt_irrefl 0)⟩

/-- A notification leaves no wait unaware. -/
theorem aware_notifyOne (streams : Streams) : streams.notifyOne.Aware := by
  rw [notifyOne]
  rcases idle : streams.idle with _ | _ | woken | ⟨woken, closed⟩ | ⟨woken, opened⟩ | woken |
    ⟨woken, opened⟩ | ⟨woken, opened⟩ | _ <;> try cases woken
  all_goals simp [Idle.wake, Aware]

theorem notifyOne_counters (streams : Streams) :
    streams.notifyOne.opened = streams.opened ∧ streams.notifyOne.closed = streams.closed := by
  rw [notifyOne]
  split <;> exact ⟨rfl, rfl⟩

theorem Heard.step (heard : streams.Heard) (stepped : Stepped streams taken next) : next.Heard := by
  obtain ⟨closed_le, heard⟩ := heard
  cases stepped with
  | opens =>
      refine ⟨Nat.le_succ_of_le closed_le, fun same => ?_⟩
      simp only at same
      omega
  | counts inFlight => exact ⟨inFlight, fun _ _ => .inl List.mem_cons_self⟩
  | comparesLast last => exact ⟨closed_le, fun _ _ => .inr (.inl (Nat.succ_pos _))⟩
  | comparesOther other =>
      refine ⟨closed_le, fun same some => ?_⟩
      rcases heard same some with counted | later
      · have differs : streams.closed ≠ _ := fun isOther => other (isOther ▸ same).symm
        exact .inl ((List.mem_erase_of_ne differs).mpr counted)
      · exact .inr later
  | notifies =>
      obtain ⟨opened, closed⟩ :=
        notifyOne_counters { streams with notifying := streams.notifying - 1 }
      exact ⟨by rw [opened, closed]; exact closed_le, fun _ _ => .inr (.inr (aware_notifyOne _))⟩
  | readsClosed => exact ⟨closed_le, fun _ _ => .inr (.inr (.inl rfl))⟩
  | waits idle busy =>
      refine ⟨closed_le, fun same some => ?_⟩
      rcases heard same some with counted | notifying | aware
      · exact .inl counted
      · exact .inr (.inl notifying)
      · rw [Aware, idle] at aware
        rcases aware with fresh | woken
        · simp only at same some
          rcases busy with none | stale
          · omega
          · exact absurd (fresh.trans same.symm) stale
        · exact .inr (.inr woken)
  | registers | settles | wakes | sleeps | elapses | resolves | retries =>
      exact ⟨closed_le, fun _ _ => .inr (.inr trivial)⟩

theorem heard_of_run (run : run timeout steps = some streams) : streams.Heard :=
  kept_reached heard_new (fun _ _ _ heard stepped => Heard.step heard (stepped_of_step stepped)) run

/-! ## What a resolved wait slept through -/

/-- A sleep that began with no stream in flight, but one at least before it, and
during which none opened. -/
def Rested (timeout : Option Duration) (steps : List Step) : Prop :=
  ∃ before during after began, steps = before ++ .sleeps :: (during ++ .elapses :: after) ∧
    run timeout before = some began ∧ began.opened = began.closed ∧ 1 ≤ began.closed ∧
    .opens ∉ during ∧ ∀ taken ∈ during, taken.isIdle = false

/-- What is known of the counters where the wait is. -/
def Tracks (timeout : Option Duration) (steps : List Step) (streams : Streams) : Prop :=
  match streams.idle with
  | .reading _ closed => closed ≤ streams.closed
  | .settled _ opened => 1 ≤ opened ∧ opened ≤ streams.closed
  | .sleeping _ opened => ∃ before during began, steps = before ++ .sleeps :: during ∧
      run timeout before = some began ∧ 1 ≤ opened ∧ opened ≤ began.closed ∧
      streams.opened = began.opened + during.count .opens ∧ ∀ taken ∈ during, taken.isIdle = false
  | .slept _ opened => ∃ before during after began,
      steps = before ++ .sleeps :: (during ++ .elapses :: after) ∧
      run timeout before = some began ∧ 1 ≤ opened ∧ opened ≤ began.closed ∧
      streams.opened = began.opened + (during.count .opens + after.count .opens) ∧
      ∀ taken ∈ during, taken.isIdle = false
  | .resolved => Rested timeout steps
  | _ => True

theorem Rested.append (rested : Rested timeout steps) (more : List Step) :
    Rested timeout (steps ++ more) := by
  obtain ⟨before, during, after, began, rfl, rest⟩ := rested
  exact ⟨before, during, after ++ more, began, by simp, rest⟩

/-- A step of a stream adds to the counters, and ends no sleep. -/
theorem Tracks.other (tracks : Tracks timeout steps streams) (notIdle : taken.isIdle = false)
    (opened : next.opened = streams.opened + if taken = .opens then 1 else 0)
    (closed_le : streams.closed ≤ next.closed) (same : next.idle = streams.idle) :
    Tracks timeout (steps ++ [taken]) next := by
  have counted : ∀ steps : List Step, (steps ++ [taken]).count .opens =
      steps.count .opens + if taken = .opens then 1 else 0 := fun steps => by
    rw [List.count_append, List.count_singleton]
    simp only [beq_iff_eq]
  rw [Tracks, same]
  rw [Tracks] at tracks
  cases idle : streams.idle with
  | never | start | enabled | waiting => trivial
  | reading =>
      rw [idle] at tracks
      exact Nat.le_trans tracks closed_le
  | settled =>
      rw [idle] at tracks
      exact ⟨tracks.1, Nat.le_trans tracks.2 closed_le⟩
  | sleeping =>
      rw [idle] at tracks
      obtain ⟨before, during, began, rfl, run, some, le, count, others⟩ := tracks
      refine ⟨before, during ++ [taken], began, by simp, run, some, le, ?_, ?_⟩
      · rw [opened, count, counted, Nat.add_assoc]
      · rw [List.forall_mem_append]
        exact ⟨others, List.forall_mem_singleton.mpr notIdle⟩
  | slept =>
      rw [idle] at tracks
      obtain ⟨before, during, after, began, rfl, run, some, le, count, others⟩ := tracks
      refine ⟨before, during, after ++ [taken], began, by simp, run, some, le, ?_, others⟩
      rw [opened, count, counted, Nat.add_assoc, Nat.add_assoc]
  | resolved =>
      rw [idle] at tracks
      exact Rested.append tracks _

/-- Waking the wait changes nothing it has read. -/
theorem tracks_notifyOne (tracks : Tracks timeout steps streams) :
    Tracks timeout steps streams.notifyOne := by
  rw [notifyOne]
  split
  next woken isWoken =>
    rw [Tracks] at tracks ⊢
    cases idle : streams.idle with
    | enabled woken | reading woken | settled woken | waiting woken | sleeping woken | slept woken =>
        rw [idle] at isWoken tracks
        cases woken <;> cases isWoken
        exact tracks
    | never | start | resolved =>
        rw [idle] at isWoken
        cases isWoken
  next => exact tracks

theorem Tracks.step (run : Streams.run timeout steps = some streams)
    (tracks : Tracks timeout steps streams) (stepped : Stepped streams taken next) :
    Tracks timeout (steps ++ [taken]) next := by
  cases stepped with
  | opens => exact tracks.other rfl rfl (Nat.le_refl _) rfl
  | counts => exact tracks.other rfl rfl (Nat.le_succ _) rfl
  | comparesLast | comparesOther => exact tracks.other rfl rfl (Nat.le_refl _) rfl
  | notifies => exact tracks_notifyOne (tracks.other rfl rfl (Nat.le_refl _) rfl)
  | registers | waits | wakes | retries => trivial
  | readsClosed => exact Nat.le_refl _
  | settles idle some =>
      rw [Tracks, idle] at tracks
      exact ⟨Nat.pos_of_ne_zero some, tracks⟩
  | sleeps idle =>
      rw [Tracks, idle] at tracks
      exact ⟨steps, [], streams, rfl, run, tracks.1, tracks.2, rfl, nofun⟩
  | elapses idle =>
      rw [Tracks, idle] at tracks
      obtain ⟨before, during, began, rfl, runBefore, some, le, count, others⟩ := tracks
      exact ⟨before, during, [], began, by simp, runBefore, some, le, count, others⟩
  | resolves idle =>
      rw [Tracks, idle] at tracks
      obtain ⟨before, during, after, began, rfl, runBefore, some, le, count, others⟩ := tracks
      have closed_le := (heard_of_run runBefore).closed_le
      have none : during.count .opens = 0 := by omega
      exact ⟨before, during, after ++ [.rechecks], began, by simp, runBefore, by omega, by omega,
        List.count_eq_zero.mp none, others⟩

theorem tracks_of_run (run : run timeout steps = some streams) : Tracks timeout steps streams := by
  refine invariant_reached ?_ (fun _ _ _ _ run tracks stepped =>
    Tracks.step run tracks (stepped_of_step stepped)) run
  cases timeout <;> trivial

/-- Over every interleaving, the wait resolves only after a whole sleep in which
no stream was in flight, and it does not wait for the notification alone where no
stream is in flight, every close has notified and no permit is stored. -/
theorem idle_sound (run : run timeout steps = some streams) :
    (streams.idle = .resolved → Rested timeout steps) ∧
      ¬ (streams.idle = .waiting false ∧ streams.opened = streams.closed ∧ 1 ≤ streams.closed ∧
        streams.counted = [] ∧ streams.notifying = 0 ∧ streams.permit = false) := by
  constructor
  · intro resolved
    have tracks := tracks_of_run run
    rwa [Tracks, resolved] at tracks
  · rintro ⟨waits, same, some, counted, notifying, permit⟩
    rcases (heard_of_run run).heard same some with inFlight | notifies | aware
    · rw [counted] at inFlight
      cases inFlight
    · omega
    · rw [Aware, waits, permit] at aware
      rcases aware with woken | stored
      · cases woken
      · cases stored

/-- A wait that sleeps once while a stream opens and closes, and once without. -/
def twoSleeps : List Step :=
  [.registers, .opens, .readsClosed, .readsOpened, .counts, .compares 1, .notifies, .wakes,
    .registers, .readsClosed, .readsOpened, .sleeps, .opens, .elapses, .counts, .rechecks,
    .compares 2, .notifies, .registers, .readsClosed, .readsOpened, .sleeps, .elapses, .rechecks]

theorem idle_sound_twoSleeps : Rested (some 1000000000) twoSleeps := by
  have run : run (some 1000000000) twoSleeps = some ⟨2, 2, false, [], 0, .resolved⟩ := by decide
  exact (idle_sound run).1 rfl

end Streams

end Kynos.Server
