import Kynos.Body.Timed

/-!
# What a timer's error says

A body held to the time its reader waits should fail only after the body beneath
was pending, with the reader waiting, for as long as the limit. One starts its
timer with the wait. The other starts it with the frame before, so a reader that
comes late finds it has run already.
-/

namespace Kynos.Body

open Kynos.Numeral Kynos.Range Kynos.Run

variable {Error : Type}

/-! ## Waiting -/

/-- Whether a poll of the body beneath finds nothing yet. -/
def isPending : Answer Error → Bool
  | .pending => true
  | .ready _ => false

/-- When the wait of the last poll began, if it waits: at the first of the polls that
found nothing since one was answered. -/
def waitStart (run : List (Asked Error)) : Option Instant :=
  run.foldl (fun since asked =>
    if isPending asked.found then some (since.getD asked.time) else none) none

/-- The timer's error never takes the place of an answer that is ready. -/
def NeverReplaces (run : List (Asked Error)) : Prop :=
  ∀ asked ∈ run, asked.answer = late → asked.found = .pending

/-- The timer's error comes only after the body beneath was pending for the limit,
with the reader waiting. -/
def Waited (limit : Duration) (run : List (Asked Error)) : Prop :=
  ∀ earlier asked later, run = earlier ++ asked :: later → asked.answer = late →
    ∃ since, waitStart (earlier ++ [asked]) = some since ∧ since + limit ≤ asked.time

/-- The first poll of a run that is due. -/
def FirstDue (due : List (Asked Error) → Asked Error → Prop) (earlier : List (Asked Error))
    (asked : Asked Error) : Prop :=
  due earlier asked ∧ ∀ before other after, earlier = before ++ other :: after → ¬ due before other

theorem isPending_iff {found : Answer Error} : isPending found = true ↔ found = .pending := by
  cases found with
  | pending => exact iff_of_true rfl rfl
  | ready item => exact iff_of_false Bool.false_ne_true nofun

theorem waitStart_concat (run : List (Asked Error)) (asked : Asked Error) :
    waitStart (run ++ [asked]) =
      if isPending asked.found then some ((waitStart run).getD asked.time) else none := by
  rw [waitStart, List.foldl_append]
  rfl

theorem waitStart_of_pending {run : List (Asked Error)} {asked : Asked Error}
    (pending : asked.found = .pending) :
    waitStart (run ++ [asked]) = some ((waitStart run).getD asked.time) := by
  rw [waitStart_concat, if_pos (isPending_iff.mpr pending)]

/-- A body none of whose polls fails before an answer that is ready never does. -/
theorem neverReplaces_of_steps {Body : Type} {clock : Clock}
    {poll : Body → Instant → Bool → Answer Error → Answer (Failed Error) × Body}
    (Invariant : Body → Prop) {start state : Instant × Body} {run : List (Asked Error)}
    (kept : ∀ this now ended found, Invariant this →
      ((poll this now ended found).1 = late → found = .pending) ∧
        Invariant (poll this now ended found).2)
    (initially : Invariant start.2) (steps : Steps (Stepped clock poll) start run state) :
    NeverReplaces run := by
  have keptBeside : ∀ state asked next, Invariant state.2 → Stepped clock poll state asked next →
      (asked.answer = late → asked.found = .pending) ∧ Invariant next.2 := by
    rintro ⟨_, this⟩ asked ⟨_, next⟩ holds ⟨-, -, polled, -⟩
    have isKept := kept this asked.time asked.ended asked.found holds
    rw [← polled] at isKept
    exact isKept
  exact (steps.forall_labels keptBeside initially).1

/-- The polls before the timer's error are answered otherwise. -/
theorem Unchanged.unfailed {run : List (Asked Error)} (unchanged : Unchanged run) {earlier later : List (Asked Error)}
    {asked : Asked Error} (split : run = earlier ++ asked :: later) (isLate : asked.answer = late) :
    ∀ other ∈ earlier, other.answer ≠ late := by
  intro other member otherLate
  obtain ⟨before, after, rfl⟩ := List.append_of_mem member
  have isEnd := unchanged.after before other (after ++ asked :: later) (by simp [split]) otherLate
    asked (by simp)
  exact nomatch isLate.symm.trans isEnd

/-- Where each poll of a body that has not failed fails exactly when it is due, the
timer's error comes at the first poll that is. -/
theorem late_iff_firstDue {due : List (Asked Error) → Asked Error → Prop} {run : List (Asked Error)}
    (unchanged : Unchanged run)
    (fails : ∀ earlier asked later, run = earlier ++ asked :: later →
      (∀ other ∈ earlier, other.answer ≠ late) → (asked.answer = late ↔ due earlier asked))
    {earlier later : List (Asked Error)} {asked : Asked Error} (split : run = earlier ++ asked :: later) :
    asked.answer = late ↔ FirstDue due earlier asked := by
  constructor
  · intro isLate
    have unfailed := unchanged.unfailed split isLate
    refine ⟨(fails earlier asked later split unfailed).mp isLate, ?_⟩
    rintro before other after rfl isDue
    refine unfailed other (by simp) ((fails before other (after ++ asked :: later) (by simp [split])
      fun former member => unfailed former (List.mem_append_left _ member)).mpr isDue)
  · rintro ⟨isDue, isFirst⟩
    refine (fails earlier asked later split ?_).mpr isDue
    clear isDue
    induction earlier using List.reverseRecOn generalizing asked later with
    | nil => exact nofun
    | append_singleton before other ih =>
        have isEarlier : run = before ++ other :: asked :: later := by simp [split]
        have unfailed := ih isEarlier fun former due after isBefore =>
          isFirst former due (after ++ [other]) (by simp [isBefore])
        rw [List.forall_mem_append, List.forall_mem_singleton]
        exact ⟨unfailed, fun isLate => isFirst before other [] rfl
          ((fails before other (asked :: later) isEarlier unfailed).mp isLate)⟩

/-! ## A request body -/

namespace Idle

/-- When the wait began, and the end its timer was last set to, where the clock
reaches that. -/
def timing (clock : Clock) (limit : Duration) (run : List (Asked Error)) :
    Option Instant × Option Instant :=
  run.foldl (fun timing asked =>
    if isPending asked.found then
      (some (timing.1.getD asked.time),
        if timing.1.isSome then timing.2 else (clock.checkedAdd asked.time limit).or timing.2)
    else
      (none, timing.2)) (none, none)

/-- A poll that finds nothing, when the end of the timer set for its wait has come. -/
def Due (clock : Clock) (limit : Duration) (earlier : List (Asked Error)) (asked : Asked Error) : Prop :=
  asked.found = .pending ∧ ∃ ending ≤ asked.time,
    (if (timing clock limit earlier).1.isSome then (timing clock limit earlier).2
      else clock.checkedAdd asked.time limit) = some ending

/-- The clock reaches the end of the first wait that is due. -/
def InTime (clock : Clock) (limit : Duration) (run : List (Asked Error)) : Prop :=
  ∀ earlier asked later, run = earlier ++ asked :: later → FirstDue (Due clock limit) earlier asked →
    (waitStart earlier).getD asked.time + limit ≤ clock.last

variable {clock : Clock} {limit : Duration} {this : Idle} {now : Instant} {ended : Bool}
  {run : List (Asked Error)} {asked : Asked Error}

/-- The end a poll that finds nothing is held to. -/
def due (clock : Clock) (limit : Duration) (this : Idle) (now : Instant) : Option Instant :=
  if this.waiting then this.timer else clock.checkedAdd now limit

theorem pollFrame_pending (unspent : this.spent = false) :
    this.pollFrame clock limit now ended (.pending : Answer Error) =
      if (due clock limit this now).any (· ≤ now) then
        (late, ⟨(due clock limit this now).or this.timer, true, true, true⟩)
      else
        (.pending, { this with timer := (due clock limit this now).or this.timer, waiting := true }) := by
  rw [pollFrame, if_neg (by rw [unspent]; exact Bool.false_ne_true), due]
  cases waits : this.waiting with
  | true =>
      cases isTimer : this.timer <;> rfl
  | false =>
      cases clock.checkedAdd now limit <;> rfl

theorem pollFrame_ready (unspent : this.spent = false) (polled : Option (Except Error Frame)) :
    this.pollFrame clock limit now ended (.ready polled) =
      (passed (.ready polled), { this with waiting := false }) := by
  rw [pollFrame, if_neg (by rw [unspent]; exact Bool.false_ne_true)]

theorem timing_concat (run : List (Asked Error)) (asked : Asked Error) :
    timing clock limit (run ++ [asked]) =
      if isPending asked.found then
        (some ((timing clock limit run).1.getD asked.time),
          if (timing clock limit run).1.isSome then
            (timing clock limit run).2
          else
            (clock.checkedAdd asked.time limit).or (timing clock limit run).2)
      else
        (none, (timing clock limit run).2) := by
  rw [timing, List.foldl_append]
  rfl

theorem timing_fst (run : List (Asked Error)) :
    (timing clock limit run).1 = waitStart run := by
  induction run using List.reverseRecOn with
  | nil => rfl
  | append_singleton run asked ih =>
      rw [timing_concat, waitStart_concat, ← ih]
      split <;> rfl

/-- What a body that has not failed remembers of its run. -/
structure Tracks (clock : Clock) (limit : Duration) (run : List (Asked Error))
    (this : Idle) : Prop where
  timer : this.timer = (timing clock limit run).2
  waiting : this.waiting = (timing clock limit run).1.isSome
  ends : ∀ since, (timing clock limit run).1 = some since → since + limit ≤ clock.last →
    (timing clock limit run).2 = some (since + limit)

theorem Tracks.ready (tracks : Tracks clock limit run this) {polled : Option (Except Error Frame)}
    (found : asked.found = .ready polled) :
    Tracks clock limit (run ++ [asked]) { this with waiting := false } := by
  have answered : ¬ isPending asked.found = true := by
    rw [isPending_iff, found]
    exact nofun
  have isTiming : timing clock limit (run ++ [asked]) = (none, (timing clock limit run).2) := by
    rw [timing_concat, if_neg answered]
  refine ⟨?_, ?_, ?_⟩
  · rw [isTiming]
    exact tracks.timer
  · rw [isTiming]
    rfl
  · rw [isTiming]
    exact nofun

theorem Tracks.pending (tracks : Tracks clock limit run this) (found : asked.found = .pending) :
    Tracks clock limit (run ++ [asked])
      { this with timer := (due clock limit this asked.time).or this.timer, waiting := true } := by
  have isTiming : timing clock limit (run ++ [asked]) =
      (some ((timing clock limit run).1.getD asked.time),
        (due clock limit this asked.time).or this.timer) := by
    rw [timing_concat, if_pos (isPending_iff.mpr found), due, tracks.waiting, tracks.timer]
    cases (timing clock limit run).1 with
    | none => rfl
    | some since => cases (timing clock limit run).2 <;> rfl
  refine ⟨?_, ?_, ?_⟩
  · rw [isTiming]
  · rw [isTiming]
    rfl
  · rw [isTiming]
    rintro since ⟨⟩ inRange
    dsimp only
    cases waits : (timing clock limit run).1 with
    | none =>
        rw [waits] at inRange
        have fresh : due clock limit this asked.time = some (asked.time + limit) := by
          rw [due, tracks.waiting, waits, if_neg (by exact Bool.false_ne_true)]
          exact if_pos inRange
        rw [fresh]
        rfl
    | some since =>
        rw [waits] at inRange
        have kept : due clock limit this asked.time = some (since + limit) := by
          rw [due, tracks.waiting, waits, Option.isSome_some, if_pos rfl, tracks.timer]
          exact tracks.ends since waits inRange
        rw [kept]
        rfl

theorem tracks_of_steps {start : Instant} {state : Instant × Idle}
    (steps : Steps (Stepped clock fun this => this.pollFrame clock limit) (start, new) run state)
    (unspent : state.2.spent = false) : Tracks clock limit run state.2 := by
  induction steps with
  | nil => exact ⟨rfl, rfl, nofun⟩
  | @concat run asked state next _ stepped ih =>
      obtain ⟨-, -, polled, -⟩ := stepped
      have isNext : next.2 = (state.2.pollFrame clock limit asked.time asked.ended asked.found).2 :=
        congrArg Prod.snd polled
      have wasUnspent : state.2.spent = false := by
        refine Bool.eq_false_iff.mpr fun wasSpent => ?_
        rw [isNext, (failsOnce clock limit).of_spent _ _ _ _ wasSpent, wasSpent] at unspent
        cases unspent
      have tracks := ih wasUnspent
      cases found : asked.found with
      | ready polled =>
          rw [found, pollFrame_ready wasUnspent] at isNext
          rw [isNext]
          exact tracks.ready found
      | pending =>
          rw [found, pollFrame_pending wasUnspent] at isNext
          split at isNext
          · rw [isNext] at unspent
            cases unspent
          · rw [isNext]
            exact tracks.pending found

theorem answer_late_iff (unspent : this.spent = false) {found : Answer Error} :
    (this.pollFrame clock limit now ended found).1 = late ↔
      found = .pending ∧ ∃ ending ≤ now, due clock limit this now = some ending := by
  cases found with
  | ready polled =>
      rw [pollFrame_ready unspent]
      exact iff_of_false (passed_ne_late _) nofun
  | pending =>
      rw [pollFrame_pending unspent, and_iff_right rfl]
      cases due clock limit this now with
      | none => exact iff_of_false nofun nofun
      | some ending =>
          by_cases passed : ending ≤ now
          · rw [if_pos (by simpa using passed)]
            exact iff_of_true rfl ⟨ending, passed, rfl⟩
          · rw [if_neg (by simpa using passed)]
            refine iff_of_false nofun ?_
            rintro ⟨ending, isPassed, ⟨⟩⟩
            exact passed isPassed

theorem Tracks.due_iff (tracks : Tracks clock limit run this) :
    (asked.found = .pending ∧ ∃ ending ≤ asked.time, due clock limit this asked.time = some ending) ↔
      Due clock limit run asked := by
  rw [Due, due, tracks.waiting, tracks.timer]

/-- A wait whose end the clock reaches is due only once it has lasted the limit. -/
theorem Tracks.add_le_of_due (tracks : Tracks clock limit run this) (isDue : Due clock limit run asked)
    (inRange : (waitStart run).getD asked.time + limit ≤ clock.last) :
    (waitStart run).getD asked.time + limit ≤ asked.time := by
  obtain ⟨-, ending, hasPassed, isEnding⟩ := isDue
  have isStart : waitStart run = (timing clock limit run).1 := (timing_fst run).symm
  rw [isStart] at inRange ⊢
  cases waits : (timing clock limit run).1 with
  | none =>
      rw [waits] at inRange isEnding
      rw [Option.isSome_none, if_neg Bool.false_ne_true] at isEnding
      have isEnd : clock.checkedAdd asked.time limit = some (asked.time + limit) := if_pos inRange
      rw [isEnd] at isEnding
      exact (Option.some.inj isEnding).trans_le hasPassed
  | some since =>
      rw [waits] at inRange isEnding
      rw [Option.isSome_some, if_pos rfl, tracks.ends since waits inRange] at isEnding
      exact (Option.some.inj isEnding).trans_le hasPassed

section Steps

variable {start : Instant} {state : Instant × Idle}

/-- A poll is told from the run before it, which has not failed. -/
theorem exists_tracks (steps : Steps (Stepped clock fun this => this.pollFrame clock limit)
    (start, new) run state) {earlier later : List (Asked Error)} (split : run = earlier ++ asked :: later)
    (unfailed : ∀ other ∈ earlier, other.answer ≠ late) :
    ∃ this : Idle, this.spent = false ∧ Tracks clock limit earlier this ∧ asked.time ≤ clock.last ∧
      asked.answer = (this.pollFrame clock limit asked.time asked.ended asked.found).1 := by
  obtain ⟨before, next, earlierSteps, -, inRange, polled, -⟩ := steps.exists_of_split split
  have isSpent := ((failsOnce clock limit).of_steps rfl earlierSteps).1
  have unspent : before.2.spent = false := by
    refine Bool.eq_false_iff.mpr fun spent => ?_
    obtain ⟨other, member, isLate⟩ := isSpent.mp spent
    exact unfailed other member isLate
  exact ⟨before.2, unspent, tracks_of_steps earlierSteps unspent, inRange, congrArg Prod.fst polled⟩

theorem answer_late_iff_firstDue (steps : Steps (Stepped clock fun this => this.pollFrame clock limit)
    (start, new) run state) {earlier later : List (Asked Error)} (split : run = earlier ++ asked :: later) :
    asked.answer = late ↔ FirstDue (Due clock limit) earlier asked := by
  refine late_iff_firstDue ((failsOnce clock limit).of_steps rfl steps).2 ?_ split
  intro earlier asked later split unfailed
  obtain ⟨this, unspent, tracks, -, answered⟩ := exists_tracks steps split unfailed
  rw [answered, answer_late_iff unspent, tracks.due_iff]

/-- A request body fails only once its reader has waited the limit, where the clock
reaches the end of the wait. -/
theorem waited_iff (steps : Steps (Stepped clock fun this => this.pollFrame clock limit)
    (start, new) run state) : Waited limit run ↔ InTime clock limit run := by
  constructor
  · intro waited earlier asked later split isFirst
    have isLate := (answer_late_iff_firstDue steps split).mpr isFirst
    obtain ⟨since, isStart, hasWaited⟩ := waited earlier asked later split isLate
    rw [waitStart_of_pending isFirst.1.1, Option.some.injEq] at isStart
    obtain ⟨_, _, _, -, inRange, -⟩ := steps.exists_of_split split
    rw [isStart]
    exact hasWaited.trans inRange
  · intro inTime earlier asked later split isLate
    have isFirst := (answer_late_iff_firstDue steps split).mp isLate
    have inRange := inTime earlier asked later split isFirst
    obtain ⟨this, -, tracks, -⟩ := exists_tracks steps split
      (((failsOnce clock limit).of_steps rfl steps).2.unfailed split isLate)
    exact ⟨_, waitStart_of_pending isFirst.1.1, tracks.add_le_of_due isFirst.1 inRange⟩

/-- A request body never fails in the place of an answer that is ready. -/
theorem neverReplaces (steps : Steps (Stepped clock fun this => this.pollFrame clock limit)
    (start, new) run state) : NeverReplaces run := by
  refine neverReplaces_of_steps (fun _ => True)
    (fun this now ended found _ => ⟨fun isLate => ?_, trivial⟩) trivial steps
  cases spent : this.spent with
  | true =>
      rw [(failsOnce clock limit).of_spent _ _ _ _ spent] at isLate
      exact nomatch isLate
  | false => exact ((answer_late_iff spent).mp isLate).1

end Steps

end Idle

/-- A request body held to a deadline never fails in the place of an answer that is
ready. -/
theorem Deadlined.neverReplaces {clock : Clock} {start state : Instant × Deadlined}
    {run : List (Asked Error)}
    (steps : Steps (Stepped clock fun this => this.pollFrame clock) start run state) :
    NeverReplaces run := by
  refine neverReplaces_of_steps (fun _ => True)
    (fun this now ended found _ => ⟨fun isLate => ?_, trivial⟩) trivial steps
  cases found with
  | pending => rfl
  | ready polled =>
      rw [pollFrame] at isLate
      split at isLate
      · cases isLate
      · exact absurd isLate (passed_ne_late _)

/-! ## A response body -/

namespace Bounded

/-- The end the timer of an idle body was last set to: that of its limit from the
last frame, or from the head. -/
def timerEnd (clock : Clock) (limit : Duration) (head : Instant) (run : List (Asked Error)) : Instant :=
  run.foldl (fun ending asked =>
    match asked.found with
    | .ready (some (.ok _)) => (clock.checkedAdd asked.time limit).getD ending
    | _ => ending) (clock.sleep head limit)

/-- A poll that finds nothing, when the timer's end has come. -/
def Due (clock : Clock) (limit : Duration) (head : Instant) (earlier : List (Asked Error))
    (asked : Asked Error) : Prop :=
  asked.found = .pending ∧ timerEnd clock limit head earlier ≤ asked.time

/-- The first wait that is due has lasted the limit: its reader was not late. -/
def InTime (clock : Clock) (limit : Duration) (head : Instant) (run : List (Asked Error)) : Prop :=
  ∀ earlier asked later, run = earlier ++ asked :: later →
    FirstDue (Due clock limit head) earlier asked →
      (waitStart earlier).getD asked.time + limit ≤ asked.time

variable {clock : Clock} {limit : Duration} {head : Instant} {now : Instant} {ended : Bool}
  {run : List (Asked Error)} {asked : Asked Error}

/-- An idle body that has not failed. -/
def idling (limit : Duration) (timer : Instant) : Bounded where
  timer := timer
  limit := limit
  resetEachFrame := true
  spent := false

theorem timerEnd_concat (run : List (Asked Error)) (asked : Asked Error) :
    timerEnd clock limit head (run ++ [asked]) =
      match asked.found with
      | .ready (some (.ok _)) =>
          (clock.checkedAdd asked.time limit).getD (timerEnd clock limit head run)
      | _ => timerEnd clock limit head run := by
  rw [timerEnd, List.foldl_append]
  rfl

theorem pollFrame_of_due (isDue : Due clock limit head run asked) :
    (idling limit (timerEnd clock limit head run)).pollFrame clock asked.time asked.ended asked.found =
      (late, { idling limit (timerEnd clock limit head run) with spent := true }) := by
  obtain ⟨found, passed⟩ := isDue
  have isOpen : ¬ asked.ended = true := fun ended => nomatch found.symm.trans (asked.atEnd ended)
  rw [pollFrame.eq_def, found, idling, if_neg Bool.false_ne_true, if_neg isOpen, if_pos rfl]
  exact if_pos passed

theorem pollFrame_of_not_due (notDue : ¬ Due clock limit head run asked) :
    (idling limit (timerEnd clock limit head run)).pollFrame clock asked.time asked.ended asked.found =
      (passed asked.found, idling limit (timerEnd clock limit head (run ++ [asked]))) := by
  rw [timerEnd_concat, pollFrame.eq_def, idling, if_neg Bool.false_ne_true]
  by_cases ended : asked.ended = true
  · rw [if_pos ended, asked.atEnd ended]
    rfl
  · rw [if_neg ended, if_pos rfl]
    cases found : asked.found with
    | ready item =>
        cases item with
        | none => rfl
        | some result => cases result <;> rfl
    | pending => exact if_neg fun passed => notDue ⟨found, passed⟩

section Steps

variable {state : Instant × Bounded}

/-- An idle body that has not failed remembers the end its timer was last set to. -/
theorem eq_idling_of_steps (steps : Steps (Stepped clock fun this => this.pollFrame clock)
    (head, new clock head limit true) run state) (unspent : state.2.spent = false) :
    state.2 = idling limit (timerEnd clock limit head run) := by
  induction steps with
  | nil => rfl
  | @concat run asked state next _ stepped ih =>
      obtain ⟨-, -, polled, -⟩ := stepped
      have isNext : next.2 = (state.2.pollFrame clock asked.time asked.ended asked.found).2 :=
        congrArg Prod.snd polled
      have wasUnspent : state.2.spent = false := by
        refine Bool.eq_false_iff.mpr fun wasSpent => ?_
        rw [isNext, (failsOnce clock).of_spent _ _ _ _ wasSpent, wasSpent] at unspent
        cases unspent
      rw [ih wasUnspent] at isNext
      by_cases isDue : Due clock limit head run asked
      · rw [isNext, pollFrame_of_due isDue] at unspent
        cases unspent
      · rw [isNext, pollFrame_of_not_due isDue]

theorem answer_late_iff_firstDue (steps : Steps (Stepped clock fun this => this.pollFrame clock)
    (head, new clock head limit true) run state) {earlier later : List (Asked Error)}
    (split : run = earlier ++ asked :: later) :
    asked.answer = late ↔ FirstDue (Due clock limit head) earlier asked := by
  refine late_iff_firstDue ((failsOnce clock).of_steps rfl steps).2 ?_ split
  intro earlier asked later split unfailed
  obtain ⟨before, next, earlierSteps, -, -, polled, -⟩ := steps.exists_of_split split
  have isSpent := ((failsOnce clock).of_steps rfl earlierSteps).1
  have unspent : before.2.spent = false := by
    refine Bool.eq_false_iff.mpr fun spent => ?_
    obtain ⟨other, member, isLate⟩ := isSpent.mp spent
    exact unfailed other member isLate
  have answered : asked.answer = _ := congrArg Prod.fst polled
  rw [answered, eq_idling_of_steps earlierSteps unspent]
  dsimp only
  by_cases isDue : Due clock limit head earlier asked
  · rw [pollFrame_of_due isDue]
    exact iff_of_true rfl isDue
  · rw [pollFrame_of_not_due isDue]
    exact iff_of_false (passed_ne_late _) isDue

/-- An idle body fails only after a wait of the limit exactly where no reader comes
late for one. -/
theorem waited_iff (steps : Steps (Stepped clock fun this => this.pollFrame clock)
    (head, new clock head limit true) run state) :
    Waited limit run ↔ InTime clock limit head run := by
  constructor
  · intro waited earlier asked later split isFirst
    have isLate := (answer_late_iff_firstDue steps split).mpr isFirst
    obtain ⟨since, isStart, hasWaited⟩ := waited earlier asked later split isLate
    rw [waitStart_of_pending isFirst.1.1, Option.some.injEq] at isStart
    rw [isStart]
    exact hasWaited
  · intro inTime earlier asked later split isLate
    have isFirst := (answer_late_iff_firstDue steps split).mp isLate
    exact ⟨_, waitStart_of_pending isFirst.1.1,
      inTime earlier asked later split isFirst⟩

/-- An idle body never fails in the place of an answer that is ready. -/
theorem neverReplaces (steps : Steps (Stepped clock fun this => this.pollFrame clock)
    (head, new clock head limit true) run state) : NeverReplaces run := by
  intro asked member isLate
  obtain ⟨earlier, later, split⟩ := List.append_of_mem member
  exact ((answer_late_iff_firstDue steps split).mp isLate).1.1

end Steps

end Bounded

/-! ## The four bodies -/

/-- A body bounded in time hands on what the one beneath answers up to its timer's
error, which comes once. But for a response's deadline, it never takes the place of
an answer that is ready, and it comes only after a wait of the limit where the first
wait that is due has lasted as long. -/
theorem timed_exact (clock : Clock) (limit : Duration) (deadline : Option Instant) (start : Instant)
    (run : List (Asked Error)) :
    (∀ state, Steps (Stepped clock fun this => this.pollFrame clock limit) (start, Idle.new) run state →
      Unchanged run ∧ NeverReplaces run ∧ (Waited limit run ↔ Idle.InTime clock limit run)) ∧
    (∀ state, Steps (Stepped clock fun this => this.pollFrame clock) (start, Deadlined.new deadline)
        run state →
      Unchanged run ∧ NeverReplaces run) ∧
    (∀ state, Steps (Stepped clock fun this => this.pollFrame clock)
        (start, Bounded.new clock start limit true) run state →
      Unchanged run ∧ NeverReplaces run ∧ (Waited limit run ↔ Bounded.InTime clock limit start run)) ∧
    ∀ state, Steps (Stepped clock fun this => this.pollFrame clock)
        (start, Bounded.new clock start limit false) run state →
      Unchanged run :=
  ⟨fun _ steps => ⟨((Idle.failsOnce clock limit).of_steps rfl steps).2, Idle.neverReplaces steps,
      Idle.waited_iff steps⟩,
    fun _ steps => ⟨((Deadlined.failsOnce clock).of_steps rfl steps).2, Deadlined.neverReplaces steps⟩,
    fun _ steps => ⟨((Bounded.failsOnce clock).of_steps rfl steps).2, Bounded.neverReplaces steps,
      Bounded.waited_iff steps⟩,
    fun _ steps => ((Bounded.failsOnce clock).of_steps rfl steps).2⟩

/-- A clock of a hundred instants. -/
def Clock.hundred : Clock where
  last := 100
  far _ _ := 100

/-- An idle response body of limit ten, read thirty instants after its first frame. -/
def readLate : List (Asked Error) :=
  [⟨1, false, .ready (some (.ok (.data []))), .ready (some (.ok (.data []))), nofun⟩,
    ⟨31, false, .pending, late, nofun⟩]

theorem steps_readLate : Steps (Stepped Clock.hundred fun this => this.pollFrame Clock.hundred)
    (0, Bounded.new Clock.hundred 0 10 true) (readLate : List (Asked Empty))
    (31, { Bounded.idling 10 11 with spent := true }) := by
  have first : Steps (Stepped Clock.hundred fun this => this.pollFrame Clock.hundred)
      (0, Bounded.new Clock.hundred 0 10 true) (readLate.take 1 : List (Asked Empty))
      (1, Bounded.idling 10 11) :=
    Steps.nil.concat ⟨by decide, by decide, rfl, rfl⟩
  exact first.concat ⟨by decide, by decide, rfl, rfl⟩

theorem timed_readLate : Unchanged (readLate : List (Asked Empty)) ∧
    NeverReplaces (readLate : List (Asked Empty)) ∧
    (Waited 10 (readLate : List (Asked Empty)) ↔
      Bounded.InTime Clock.hundred 10 0 (readLate : List (Asked Empty))) :=
  (timed_exact Clock.hundred 10 none 0 readLate).2.2.1 _ steps_readLate

/-- A reader that comes late fails a response body that was pending for no time. -/
theorem not_waited_readLate : ∃ (clock : Clock) (limit : Duration) (start : Instant)
    (run : List (Asked Empty)) (state : Instant × Bounded),
    Steps (Stepped clock fun this => this.pollFrame clock) (start, Bounded.new clock start limit true)
      run state ∧ ¬ Waited limit run := by
  refine ⟨Clock.hundred, 10, 0, readLate, _, steps_readLate, fun waited => ?_⟩
  obtain ⟨since, isStart, hasWaited⟩ := waited [_] _ [] rfl rfl
  cases Option.some.inj isStart
  exact absurd hasWaited (by decide)

end Kynos.Body
