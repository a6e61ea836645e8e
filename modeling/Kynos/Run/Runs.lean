import Mathlib.Data.List.Basic
import Mathlib.Data.List.Induction

/-!
# Runs

A step has a label and may lead to several states, or it is an event that is
possible or not. A run is the labels or the events of the steps taken, the last
one at its end: what holds at the start and is kept by every step holds after
every run. Where a system holds items, and a step only holds what it adds and
what was held and is not dropped, whatever is held after a run was added by one
event of it, and no event since has dropped it.
-/

namespace Kynos.Run

variable {State Label : Type*}

/-- Steps lead from one state to another, with these labels. -/
inductive Steps (step : State → Label → State → Prop) (start : State) : List Label → State → Prop where
  | nil : Steps step start [] start
  | concat {labels : List Label} {label : Label} {state next : State}
      (earlier : Steps step start labels state) (stepped : step state label next) :
      Steps step start (labels ++ [label]) next

variable {step : State → Label → State → Prop} {start state : State} {labels : List Label}

/-- What every step keeps of a state, it keeps in a run, where every label is
one such steps have. -/
theorem Steps.forall_labels {Invariant : State → Prop} {Allowed : Label → Prop}
    (kept : ∀ state label next, Invariant state → step state label next →
      Allowed label ∧ Invariant next)
    (initially : Invariant start) (run : Steps step start labels state) :
    (∀ label ∈ labels, Allowed label) ∧ Invariant state := by
  induction run with
  | nil => exact ⟨nofun, initially⟩
  | concat earlier stepped ih =>
      obtain ⟨allowed, invariant⟩ := ih
      obtain ⟨last, next⟩ := kept _ _ _ invariant stepped
      exact ⟨List.forall_mem_append.mpr ⟨allowed, List.forall_mem_singleton.mpr last⟩, next⟩

/-- An item of a list with one more is the last one, or an earlier one. -/
theorem last_or_earlier {Item : Type*} {items before after : List Item} {item last : Item}
    (split : items ++ [last] = before ++ item :: after) :
    (before = items ∧ item = last ∧ after = []) ∨
      ∃ rest, after = rest ++ [last] ∧ items = before ++ item :: rest := by
  rcases List.eq_nil_or_concat' after with rfl | ⟨rest, other, rfl⟩
  · obtain ⟨rfl, rfl⟩ := List.append_singleton_inj.mp split
    exact .inl ⟨rfl, rfl, rfl⟩
  · rw [← List.cons_append, ← List.append_assoc] at split
    obtain ⟨rfl, rfl⟩ := List.append_singleton_inj.mp split
    exact .inr ⟨rest, rfl, rfl⟩

/-- The step of a run that has a label, and the run up to it. -/
theorem Steps.exists_of_split {earlier later : List Label} {label : Label}
    (run : Steps step start labels state) (split : labels = earlier ++ label :: later) :
    ∃ before next, Steps step start earlier before ∧ step before label next := by
  induction run generalizing later with
  | nil => exact absurd split (by simp)
  | concat run stepped ih =>
      rcases last_or_earlier split with ⟨rfl, rfl, -⟩ | ⟨rest, -, isEarlier⟩
      · exact ⟨_, _, run, stepped⟩
      · exact ih isEarlier

end Kynos.Run

namespace Kynos.Run

variable {State Event : Type*}

/-- The state after events, each of which was possible. -/
def reached (step : State → Event → Option State) (start : State) (events : List Event) :
    Option State :=
  events.foldlM step start

variable {step : State → Event → Option State} {start state : State}

@[simp]
theorem reached_nil : reached step start [] = some start :=
  rfl

theorem reached_append (events more : List Event) :
    reached step start (events ++ more) =
      (reached step start events).bind fun state => reached step state more :=
  List.foldlM_append

theorem reached_concat_eq_some_iff {events : List Event} {event : Event} :
    reached step start (events ++ [event]) = some state ↔
      ∃ before, reached step start events = some before ∧ step before event = some state := by
  rw [reached_append, Option.bind_eq_some_iff]
  refine exists_congr fun before => and_congr_right fun _ => ?_
  simp [reached]

/-- A run is possible up to each of its events, and each is possible there. -/
theorem exists_of_reached {before after : List Event} {event : Event}
    (run : reached step start (before ++ event :: after) = some state) :
    ∃ earlier next, reached step start before = some earlier ∧ step earlier event = some next ∧
      reached step next after = some state := by
  rw [reached_append, Option.bind_eq_some_iff] at run
  obtain ⟨earlier, before, rest⟩ := run
  obtain ⟨next, stepped, rest⟩ := Option.bind_eq_some_iff.mp rest
  exact ⟨earlier, next, before, stepped, rest⟩

/-- What holds at the start and is kept by every step holds after every run. -/
theorem invariant_reached {Invariant : List Event → State → Prop} (initially : Invariant [] start)
    (kept : ∀ events state event next, reached step start events = some state →
      Invariant events state → step state event = some next → Invariant (events ++ [event]) next)
    {events : List Event} (run : reached step start events = some state) :
    Invariant events state := by
  induction events using List.reverseRecOn generalizing state with
  | nil =>
      cases run
      exact initially
  | append_singleton events event ih =>
      obtain ⟨before, earlier, stepped⟩ := reached_concat_eq_some_iff.mp run
      exact kept events before event state earlier (ih earlier) stepped

theorem kept_reached {Invariant : State → Prop} (initially : Invariant start)
    (kept : ∀ state event next, Invariant state → step state event = some next → Invariant next)
    {events : List Event} (run : reached step start events = some state) : Invariant state :=
  @invariant_reached State Event step start state (fun _ => Invariant) initially
    (fun _ state event next _ => kept state event next) events run

end Kynos.Run

namespace Kynos.Run

variable {State Event Item : Type*}

/-- The state after events, one after another. -/
def after (step : State → Event → State) (start : State) (events : List Event) : State :=
  events.foldl step start

section After

variable (step : State → Event → State) (start : State)

@[simp]
theorem after_nil : after step start [] = start :=
  rfl

@[simp]
theorem after_concat (events : List Event) (event : Event) :
    after step start (events ++ [event]) = step (after step start events) event := by
  simp [after]

/-- What holds at the start and is kept by every step holds after every run. -/
theorem invariant_after {Invariant : State → Prop} (initially : Invariant start)
    (kept : ∀ state event, Invariant state → Invariant (step state event)) (events : List Event) :
    Invariant (after step start events) := by
  induction events using List.reverseRecOn with
  | nil => exact initially
  | append_singleton events event ih =>
      rw [after_concat]
      exact kept _ event ih

end After

/-- How a system comes to hold items: what an event adds and drops may depend on
the state it meets, which keeps an invariant. -/
structure Accounts (step : State → Event → State) (start : State) (Invariant : State → Prop)
    (Holds : State → Item → Prop) (Adds Drops : State → Event → Item → Prop) : Prop where
  initially : Invariant start
  kept : ∀ state event, Invariant state → Invariant (step state event)
  empty : ∀ item, ¬ Holds start item
  accounted : ∀ state event item, Invariant state → Holds (step state event) item →
    Adds state event item ∨ (Holds state item ∧ ¬ Drops state event item)

variable {step : State → Event → State} {start : State} {Invariant : State → Prop}
  {Holds : State → Item → Prop} {Adds Drops : State → Event → Item → Prop}

/-- What is held after a run was added by some event of it, and dropped by none
since. -/
theorem Accounts.exists_origin (accounts : Accounts step start Invariant Holds Adds Drops)
    {events : List Event} {item : Item} (held : Holds (after step start events) item) :
    ∃ earlier origin since, events = earlier ++ origin :: since ∧
      Adds (after step start earlier) origin item ∧
      ∀ before event rest, since = before ++ event :: rest →
        ¬ Drops (after step start (earlier ++ origin :: before)) event item := by
  induction events using List.reverseRecOn with
  | nil => exact absurd held (accounts.empty item)
  | append_singleton events event ih =>
      rw [after_concat] at held
      have invariant := invariant_after step start accounts.initially accounts.kept events
      rcases accounts.accounted _ event item invariant held with added | ⟨held, notDropped⟩
      · refine ⟨events, event, [], rfl, added, fun before other rest none => ?_⟩
        exact absurd none.symm (by simp)
      · obtain ⟨earlier, origin, since, rfl, added, notSince⟩ := ih held
        refine ⟨earlier, origin, since ++ [event], by simp, added, fun before other rest split => ?_⟩
        rcases List.eq_nil_or_concat' rest with rfl | ⟨rest, last, rfl⟩
        · obtain ⟨rfl, rfl⟩ := List.append_singleton_inj.mp split
          exact notDropped
        · rw [← List.cons_append, ← List.append_assoc] at split
          exact notSince before other rest (List.append_singleton_inj.mp split).1

end Kynos.Run
