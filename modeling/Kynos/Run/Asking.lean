import Mathlib

/-!
# Questions asked one after another

A question is answered yes or no, or not at all, and changes a state. Questions
are joined the way `||`, `&&`, `any` and `all` join them: what is asked next
depends on the answers before. What is known of the answers is known of the
joined question, and a joined question is answered where the single ones are.

The greatest solution of a monotone equation on a complete lattice, with a part
of it assumed. What is below it may be assumed as well, so a solution can be
found by assuming what is being looked into; and what holds where it and the
greatest solution are assumed is below the greatest solution.
-/

namespace Kynos.Run

universe u v

/-- A question: an answer and the state after it. -/
abbrev Ask (σ : Type u) :=
  σ → Option (Bool × σ)

namespace Ask

variable {σ : Type u} {ι : Type v}

/-- An answer that is known. -/
def known (answer : Bool) : Ask σ := fun state =>
  some (answer, state)

/-- `||`. -/
def orElse (first second : Ask σ) : Ask σ := fun state =>
  (first state).bind fun result => if result.1 then some result else second result.2

/-- `&&`. -/
def andAlso (first second : Ask σ) : Ask σ := fun state =>
  (first state).bind fun result => if result.1 then second result.2 else some result

/-- `Iterator::any`. -/
def any (ask : ι → Ask σ) : List ι → Ask σ
  | [] => known false
  | item :: rest => (ask item).orElse (any ask rest)

/-- `Iterator::all`. -/
def all (ask : ι → Ask σ) : List ι → Ask σ
  | [] => known true
  | item :: rest => (ask item).andAlso (all ask rest)

/-! ## What is known of an answer -/

/-- What holds of every state, and how a state may change. -/
structure Discipline (σ : Type u) where
  sound : σ → Prop
  step : σ → σ → Prop
  refl : ∀ state, step state state
  trans : ∀ {first second third}, step first second → step second third → step first third

/-- What a question's answers say: of the state after a yes, and in case of a no. -/
def Answers (discipline : Discipline σ) (ask : Ask σ) (yes : σ → Prop) (no : Prop) : Prop :=
  ∀ ⦃state⦄, discipline.sound state → ∀ ⦃answer state'⦄, ask state = some (answer, state') →
    discipline.sound state' ∧ discipline.step state state' ∧ (if answer then yes state' else no)

section Answers

variable {discipline : Discipline σ} {ask first second : Ask σ} {yes yes' : σ → Prop}
  {no no' : Prop}

theorem Answers.mono (answers : Answers discipline ask yes no)
    (weaker : ∀ state, yes state → yes' state) (also : no → no') :
    Answers discipline ask yes' no' := by
  intro state sound answer state' asked
  obtain ⟨kept, step, told⟩ := answers sound asked
  refine ⟨kept, step, ?_⟩
  cases answer with
  | true => exact weaker state' told
  | false => exact also told

theorem answers_true (holds : ∀ state, yes state) : Answers discipline (known true) yes no := by
  rintro state sound _ _ ⟨⟩
  exact ⟨sound, discipline.refl state, holds state⟩

theorem answers_false (holds : no) : Answers discipline (known false) yes no := by
  rintro state sound _ _ ⟨⟩
  exact ⟨sound, discipline.refl state, holds⟩

theorem Answers.orElse (one : Answers discipline first yes no)
    (other : Answers discipline second yes' no') :
    Answers discipline (first.orElse second) (fun state => yes state ∨ yes' state) (no ∧ no') := by
  intro state sound answer state' asked
  obtain ⟨⟨answered, middle⟩, isFirst, isSecond⟩ := Option.bind_eq_some_iff.mp asked
  obtain ⟨kept, step, told⟩ := one sound isFirst
  cases answered with
  | true =>
      cases isSecond
      exact ⟨kept, step, .inl told⟩
  | false =>
      obtain ⟨kept', step', told'⟩ := other kept isSecond
      refine ⟨kept', discipline.trans step step', ?_⟩
      cases answer with
      | true => exact .inr told'
      | false => exact ⟨told, told'⟩

/-- A first yes must last while the second is asked. -/
theorem Answers.andAlso (lasts : ∀ {state state'}, discipline.step state state' → yes state → yes state')
    (one : Answers discipline first yes no) (other : Answers discipline second yes' no') :
    Answers discipline (first.andAlso second) (fun state => yes state ∧ yes' state) (no ∨ no') := by
  intro state sound answer state' asked
  obtain ⟨⟨answered, middle⟩, isFirst, isSecond⟩ := Option.bind_eq_some_iff.mp asked
  obtain ⟨kept, step, told⟩ := one sound isFirst
  cases answered with
  | false =>
      cases isSecond
      exact ⟨kept, step, .inl told⟩
  | true =>
      obtain ⟨kept', step', told'⟩ := other kept isSecond
      refine ⟨kept', discipline.trans step step', ?_⟩
      cases answer with
      | true => exact ⟨lasts step' told, told'⟩
      | false => exact .inr told'

variable {each : ι → Ask σ} {holds : ι → σ → Prop} {fails : ι → Prop} {items : List ι}

theorem answers_any (answers : ∀ item ∈ items, Answers discipline (each item) (holds item) (fails item)) :
    Answers discipline (any each items) (fun state => ∃ item ∈ items, holds item state)
      (∀ item ∈ items, fails item) := by
  induction items with
  | nil => exact answers_false nofun
  | cons item items ih =>
      rw [List.forall_mem_cons] at answers
      refine (answers.1.orElse (ih answers.2)).mono ?_ List.forall_mem_cons.mpr
      rintro state (held | ⟨other, member, held⟩)
      · exact ⟨item, List.mem_cons_self, held⟩
      · exact ⟨other, List.mem_cons_of_mem item member, held⟩

theorem answers_all
    (lasts : ∀ {item state state'}, discipline.step state state' → holds item state → holds item state')
    (answers : ∀ item ∈ items, Answers discipline (each item) (holds item) (fails item)) :
    Answers discipline (all each items) (fun state => ∀ item ∈ items, holds item state)
      (∃ item ∈ items, fails item) := by
  induction items with
  | nil => exact answers_true fun _ => nofun
  | cons item items ih =>
      rw [List.forall_mem_cons] at answers
      refine (Answers.andAlso lasts answers.1 (ih answers.2)).mono
        (fun state held => List.forall_mem_cons.mpr held) ?_
      rintro (failed | ⟨other, member, failed⟩)
      · exact ⟨item, List.mem_cons_self, failed⟩
      · exact ⟨other, List.mem_cons_of_mem item member, failed⟩

end Answers

/-! ## Questions that are answered -/

/-- Questions, of more and more fuel, that from the states that satisfy a
property get an answer in the end, and leave such a state. -/
def Settles (property : σ → Prop) (ask : Nat → Ask σ) : Prop :=
  ∀ ⦃state⦄, property state → ∃ fuel answer state', property state' ∧
    ∀ enough ≥ fuel, ask enough state = some (answer, state')

section Settles

variable {property : σ → Prop} {ask first second : Nat → Ask σ}

theorem settles_known (answer : Bool) : Settles property fun _ => known answer :=
  fun state holds => ⟨0, answer, state, holds, fun _ _ => rfl⟩

theorem Settles.orElse (one : Settles property first) (other : Settles property second) :
    Settles property fun fuel => (first fuel).orElse (second fuel) := by
  intro state holds
  obtain ⟨fuel, answered, middle, kept, asked⟩ := one holds
  cases answered with
  | true =>
      refine ⟨fuel, true, middle, kept, fun enough above => ?_⟩
      change (first enough state).bind _ = _
      rw [asked enough above]
      rfl
  | false =>
      obtain ⟨fuel', answer, state', kept', asked'⟩ := other kept
      refine ⟨max fuel fuel', answer, state', kept', fun enough above => ?_⟩
      change (first enough state).bind _ = _
      rw [asked enough (Nat.le_trans (Nat.le_max_left ..) above)]
      exact asked' enough (Nat.le_trans (Nat.le_max_right ..) above)

theorem Settles.andAlso (one : Settles property first) (other : Settles property second) :
    Settles property fun fuel => (first fuel).andAlso (second fuel) := by
  intro state holds
  obtain ⟨fuel, answered, middle, kept, asked⟩ := one holds
  cases answered with
  | false =>
      refine ⟨fuel, false, middle, kept, fun enough above => ?_⟩
      change (first enough state).bind _ = _
      rw [asked enough above]
      rfl
  | true =>
      obtain ⟨fuel', answer, state', kept', asked'⟩ := other kept
      refine ⟨max fuel fuel', answer, state', kept', fun enough above => ?_⟩
      change (first enough state).bind _ = _
      rw [asked enough (Nat.le_trans (Nat.le_max_left ..) above)]
      exact asked' enough (Nat.le_trans (Nat.le_max_right ..) above)

variable {each : Nat → ι → Ask σ} {items : List ι}

theorem settles_any (settles : ∀ item ∈ items, Settles property fun fuel => each fuel item) :
    Settles property fun fuel => any (each fuel) items := by
  induction items with
  | nil => exact settles_known false
  | cons item items ih =>
      rw [List.forall_mem_cons] at settles
      exact settles.1.orElse (ih settles.2)

theorem settles_all (settles : ∀ item ∈ items, Settles property fun fuel => each fuel item) :
    Settles property fun fuel => all (each fuel) items := by
  induction items with
  | nil => exact settles_known true
  | cons item items ih =>
      rw [List.forall_mem_cons] at settles
      exact settles.1.andAlso (ih settles.2)

/-- One step of fuel is spent. -/
theorem Settles.succ {ask' : Nat → Ask σ} (settles : Settles property ask)
    (spends : ∀ fuel, ask' (fuel + 1) = ask fuel) : Settles property ask' := by
  intro state holds
  obtain ⟨fuel, answer, state', kept, asked⟩ := settles holds
  refine ⟨fuel + 1, answer, state', kept, fun enough above => ?_⟩
  obtain ⟨less, rfl⟩ : ∃ less, enough = less + 1 := ⟨enough - 1, by omega⟩
  rw [spends]
  exact asked less (by omega)

end Settles

end Ask

end Kynos.Run

namespace Kynos.Fixpoint

universe u

variable {L : Type u} [CompleteLattice L] (step : L →o L)

/-- The equation with a part assumed. -/
def stepAssuming (given : L) : L →o L where
  toFun held := step (held ⊔ given)
  monotone' _ _ below := step.monotone (sup_le_sup_right below given)

/-- The greatest solution with a part assumed. -/
def assuming (given : L) : L :=
  (stepAssuming step given).gfp

/-- What is assumed and what then holds. -/
def believing (given : L) : L :=
  assuming step given ⊔ given

theorem step_believing (given : L) : step (believing step given) = assuming step given :=
  (stepAssuming step given).map_gfp

theorem le_assuming {held given : L} (below : held ≤ step (held ⊔ given)) :
    held ≤ assuming step given :=
  (stepAssuming step given).le_gfp below

theorem assuming_bot : assuming step ⊥ = step.gfp := by
  have same : stepAssuming step ⊥ = step := by
    ext held
    change step (held ⊔ ⊥) = step held
    rw [sup_bot_eq]
  rw [assuming, same]

theorem believing_bot : believing step ⊥ = step.gfp := by
  rw [believing, sup_bot_eq, assuming_bot]

theorem assuming_mono {given given' : L} (below : given ≤ given') :
    assuming step given ≤ assuming step given' := by
  refine le_assuming step ?_
  rw [← step_believing step given]
  exact step.monotone (sup_le_sup (le_of_eq (step_believing step given).symm) below)

/-- What is shown may be assumed in showing it. -/
theorem le_assuming_iff {held given : L} :
    held ≤ assuming step given ↔ held ≤ assuming step (given ⊔ held) := by
  refine ⟨fun below => below.trans (assuming_mono step le_sup_left), fun below => ?_⟩
  refine below.trans (le_assuming step ?_)
  rw [← step_believing step (given ⊔ held)]
  refine step.monotone (sup_le ?_ (sup_le le_sup_right ?_))
  · exact (le_of_eq (step_believing step (given ⊔ held)).symm).trans le_sup_left
  · rw [step_believing]
    exact below.trans le_sup_left

/-- What holds where it and the greatest solution are assumed is below that. -/
theorem le_gfp_of_le {held : L} (below : held ≤ step (held ⊔ step.gfp)) : held ≤ step.gfp := by
  have joined : held ⊔ step.gfp ≤ step (held ⊔ step.gfp) := by
    refine sup_le below ?_
    conv_lhs => rw [← step.map_gfp]
    exact step.monotone le_sup_right
  exact le_sup_left.trans (step.le_gfp joined)

end Kynos.Fixpoint
