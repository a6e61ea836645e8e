import Mathlib.Data.List.Basic
import Mathlib.Tactic.Common
import Mathlib.Data.List.Forall2

/-!
# Computations that make calls, and may be tried before

A dry run reports what is wrong with a step and goes on; a real one stops there.
Where the two keep in step as long as nothing is reported, a dry run without a
report is followed by a real one that succeeds.

What a computation answers, and the calls it made on the way, first to last. A
failure ends it: what would have come after makes no call.
-/

namespace Kynos.Run

variable {Trial Real Step Report : Type*} {Failure Value Result : Type*}

theorem bind_eq_ok_iff {α β : Type*} {first : Except Failure α} {next : α → Except Failure β}
    {result : β} :
    first.bind next = .ok result ↔ ∃ value, first = .ok value ∧ next value = .ok result := by
  cases first with
  | error failure => simp [Except.bind]
  | ok value => simp [Except.bind]

/-- The state after every step, and all reports. -/
def dryRun (attempt : Trial → Step → Trial × Option Report) (start : Trial × List Report)
    (steps : List Step) : Trial × List Report :=
  steps.foldl (fun state step =>
    ((attempt state.1 step).1, state.2 ++ (attempt state.1 step).2.toList)) start

variable {attempt : Trial → Step → Trial × Option Report} {start : Trial × List Report}

@[simp]
theorem dryRun_nil : dryRun attempt start [] = start :=
  rfl

theorem dryRun_cons (step : Step) (steps : List Step) :
    dryRun attempt start (step :: steps) =
      dryRun attempt
        ((attempt start.1 step).1, start.2 ++ (attempt start.1 step).2.toList) steps :=
  rfl

/-- A report was there, or some step gave it. -/
theorem exists_of_mem_dryRun {steps : List Step} {report : Report}
    (member : report ∈ (dryRun attempt start steps).2) :
    report ∈ start.2 ∨ ∃ step ∈ steps, ∃ trial, (attempt trial step).2 = some report := by
  induction steps generalizing start with
  | nil => exact .inl member
  | cons step steps ih =>
      rw [dryRun_cons] at member
      rcases ih member with before | ⟨later, inSteps, trial, reported⟩
      · rcases List.mem_append.mp before with before | now
        · exact .inl before
        · exact .inr ⟨step, List.mem_cons_self, start.1, Option.mem_toList.mp now⟩
      · exact .inr ⟨later, List.mem_cons_of_mem _ inSteps, trial, reported⟩

theorem reports_eq_nil_of_dryRun {steps : List Step}
    (silent : (dryRun attempt start steps).2 = []) : start.2 = [] := by
  induction steps generalizing start with
  | nil => exact silent
  | cons step steps ih => exact (List.append_eq_nil_iff.mp (ih silent)).1

/-- A dry run without a report is followed by a real run. -/
theorem exists_of_dryRun (perform : Real → Step → Except Failure Real)
    (Same : Trial → Real → Prop) {steps : List Step} {real : Real}
    (silent : (dryRun attempt start steps).2 = []) (same : Same start.1 real)
    (kept : ∀ step ∈ steps, ∀ trial real, Same trial real → (attempt trial step).2 = none →
      ∃ next, perform real step = .ok next ∧ Same (attempt trial step).1 next) :
    ∃ final, steps.foldlM perform real = .ok final ∧
      Same (dryRun attempt start steps).1 final := by
  induction steps generalizing start real with
  | nil => exact ⟨real, rfl, same⟩
  | cons step steps ih =>
      rw [dryRun_cons] at silent
      have quiet := (List.append_eq_nil_iff.mp (reports_eq_nil_of_dryRun silent)).2
      obtain ⟨next, performed, sameNext⟩ :=
        kept step List.mem_cons_self _ _ same (Option.toList_eq_nil_iff.mp quiet)
      obtain ⟨final, run, sameFinal⟩ :=
        ih silent sameNext fun later inSteps => kept later (List.mem_cons_of_mem _ inSteps)
      refine ⟨final, ?_, sameFinal⟩
      rw [List.foldlM_cons, performed]
      exact run

end Kynos.Run

namespace Kynos.Run

/-- A computation that makes calls and may fail. -/
structure Traced (Call Failure Value : Type*) where
  calls : List Call
  answer : Except Failure Value

namespace Traced

variable {Call Failure Value Result Item : Type*}

/-- An answer without a call. -/
def settle (answer : Except Failure Value) : Traced Call Failure Value :=
  ⟨[], answer⟩

/-- One call and its answer. -/
def call (made : Call) (answer : Except Failure Value) : Traced Call Failure Value :=
  ⟨[made], answer⟩

/-- One computation, then another. -/
def bind (first : Traced Call Failure Value) (next : Value → Traced Call Failure Result) :
    Traced Call Failure Result :=
  match first.answer with
  | .error failure => ⟨first.calls, .error failure⟩
  | .ok value => ⟨first.calls ++ (next value).calls, (next value).answer⟩

/-- A computation with what it answers changed. -/
def mapAnswer (change : Except Failure Value → Except Failure Result)
    (first : Traced Call Failure Value) : Traced Call Failure Result :=
  ⟨first.calls, change first.answer⟩

/-- A step for each item, in order. -/
def each (step : Item → Traced Call Failure Result) :
    List Item → Traced Call Failure (List Result)
  | [] => settle (.ok [])
  | item :: rest => (step item).bind fun value => (each step rest).bind fun values =>
      settle (.ok (value :: values))

variable {first : Traced Call Failure Value} {next : Value → Traced Call Failure Result}

@[simp]
theorem calls_settle (answer : Except Failure Value) :
    (settle answer : Traced Call Failure Value).calls = [] :=
  rfl

@[simp]
theorem answer_settle (answer : Except Failure Value) :
    (settle answer : Traced Call Failure Value).answer = answer :=
  rfl

@[simp]
theorem calls_call (made : Call) (answer : Except Failure Value) : (call made answer).calls = [made] :=
  rfl

@[simp]
theorem answer_call (made : Call) (answer : Except Failure Value) :
    (call made answer).answer = answer :=
  rfl

theorem bind_of_ok {value : Value} (isOk : first.answer = .ok value) :
    first.bind next = ⟨first.calls ++ (next value).calls, (next value).answer⟩ := by
  simp only [bind, isOk]

theorem bind_of_error {failure : Failure} (failed : first.answer = .error failure) :
    first.bind next = ⟨first.calls, .error failure⟩ := by
  simp only [bind, failed]

theorem answer_bind_eq_ok_iff {result : Result} :
    (first.bind next).answer = .ok result ↔
      ∃ value, first.answer = .ok value ∧ (next value).answer = .ok result := by
  cases isAnswer : first.answer with
  | error failure => simp [bind_of_error isAnswer]
  | ok value => simp [bind_of_ok isAnswer]

/-- A call is of the first computation, or of the second once the first has
answered. -/
theorem mem_calls_bind {made : Call} (member : made ∈ (first.bind next).calls) :
    made ∈ first.calls ∨ ∃ value, first.answer = .ok value ∧ made ∈ (next value).calls := by
  cases isAnswer : first.answer with
  | error failure =>
      rw [bind_of_error isAnswer] at member
      exact .inl member
  | ok value =>
      rw [bind_of_ok isAnswer, List.mem_append] at member
      exact member.imp_right fun later => ⟨value, rfl, later⟩

variable {step : Item → Traced Call Failure Result}

/-- All steps answer exactly where each does. -/
theorem answer_each_eq_ok_iff {items : List Item} {values : List Result} :
    (each step items).answer = .ok values ↔
      List.Forall₂ (fun item value => (step item).answer = .ok value) items values := by
  induction items generalizing values with
  | nil =>
      rw [List.forall₂_nil_left_iff]
      simp [each, eq_comm]
  | cons item rest ih =>
      simp only [each, answer_bind_eq_ok_iff, answer_settle, Except.ok.injEq, ih,
        List.forall₂_cons_left_iff]
      constructor
      · rintro ⟨value, isValue, others, areOthers, rfl⟩
        exact ⟨value, others, isValue, areOthers, rfl⟩
      · rintro ⟨value, others, isValue, areOthers, rfl⟩
        exact ⟨value, isValue, others, areOthers, rfl⟩

/-- A call of a loop is one of some step. -/
theorem exists_of_mem_calls_each {items : List Item} {made : Call}
    (member : made ∈ (each step items).calls) : ∃ item ∈ items, made ∈ (step item).calls := by
  induction items with
  | nil => cases member
  | cons item rest ih =>
      rcases mem_calls_bind member with now | ⟨value, -, later⟩
      · exact ⟨item, List.mem_cons_self, now⟩
      · rcases mem_calls_bind later with later | ⟨values, -, settled⟩
        · obtain ⟨other, inRest, isCall⟩ := ih later
          exact ⟨other, List.mem_cons_of_mem _ inRest, isCall⟩
        · cases settled

end Traced

end Kynos.Run
