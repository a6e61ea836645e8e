import Kynos.OpenApi.Requires
import Mathlib.Logic.Function.Basic
import Mathlib.Order.Lattice.Nat
import Mathlib.Order.WithBot

/-!
# Whether a schema requires a property, remembered

The components' answers are remembered. A no rests on nothing, and a yes on the
components assumed to require: it is kept for good where none of them is outside
the component, and until the first of them is answered where one is. What is
remembered is so never another answer than the plain recursion's.
-/

namespace Kynos.OpenApi

open Kynos.Collection Kynos.Fixpoint Kynos.Run

variable {Number : Type}

/-! ## The source -/

/-- `Verdict`. -/
inductive Verdict
  | following (entered : Nat)
  | assumed (entered : Nat)
  | reached (required : Bool)
  deriving DecidableEq

/-- `Judged`: the components followed for one property. `usize::MAX` is `⊤`. -/
structure Judged where
  verdicts : Text → Option Verdict
  entered : Nat
  assumed : List Text
  lowestCut : WithTop Nat

namespace Judged

/-- `Judged::default`. -/
def empty : Judged where
  verdicts _ := none
  entered := 0
  assumed := []
  lowestCut := ⊤

/-- A component that is followed from here. -/
def enter (name : Text) (judged : Judged) : Judged where
  verdicts := Function.update judged.verdicts name (some (.following judged.entered))
  entered := judged.entered + 1
  assumed := judged.assumed
  lowestCut := ⊤

/-- Verdicts with those of some components replaced. -/
def replaced (names : List Text) (verdict : Option Verdict) (verdicts : Text → Option Verdict) :
    Text → Option Verdict := fun name =>
  if name ∈ names then verdict else verdicts name

/-- A component that was followed since a state: its verdict, and what becomes of
those assumed meanwhile. -/
def leave (name : Text) (before : Judged) (required : Bool) (judged : Judged) : Judged :=
  let assumedFrom := before.assumed.length
  if !required then
    { verdicts := Function.update (replaced (judged.assumed.drop assumedFrom) none judged.verdicts)
        name (some (.reached false))
      entered := judged.entered
      assumed := judged.assumed.take assumedFrom
      lowestCut := min ⊤ before.lowestCut }
  else if before.entered ≤ judged.lowestCut then
    { verdicts := Function.update
        (replaced (judged.assumed.drop assumedFrom) (some (.reached true)) judged.verdicts)
        name (some (.reached true))
      entered := judged.entered
      assumed := judged.assumed.take assumedFrom
      lowestCut := min judged.lowestCut before.lowestCut }
  else
    { verdicts := Function.update judged.verdicts name (some (.assumed before.entered))
      entered := judged.entered
      assumed := judged.assumed ++ [name]
      lowestCut := min judged.lowestCut before.lowestCut }

/-- A component still followed or assumed is reached. -/
def cut (entered : Nat) (judged : Judged) : Judged :=
  { judged with lowestCut := min judged.lowestCut entered }

/-- The component under a name, by its verdict or by following it. -/
def follow (ask : Schema Number → Ask Judged) (name : Text) (target : Schema Number) : Ask Judged :=
  fun judged =>
    match judged.verdicts name with
    | some (.reached required) => some (required, judged)
    | some (.following entered) => some (true, judged.cut entered)
    | some (.assumed entered) => some (true, judged.cut entered)
    | none =>
        (ask target (judged.enter name)).map fun result =>
          (result.1, leave name judged result.1 result.2)

end Judged

/-- `requires`. -/
def requires (schemas : Map (Schema Number)) (property : Text) :
    Nat → SchemaObject Number (Schema Number) → Ask Judged
  | 0, _ => fun _ => none
  | fuel + 1, object =>
      consider schemas property (Judged.follow (asked (requires schemas property fuel)))
        (asked (requires schemas property fuel)) object

/-! ## What is remembered -/

namespace Judged

variable (schemas : Map (Schema Number)) (property : Text)

/-- What the verdicts say of the greatest solution. -/
structure Sound (judged : Judged) : Prop where
  below : ∀ name entered, judged.verdicts name = some (.following entered) ∨
    judged.verdicts name = some (.assumed entered) → entered < judged.entered
  listed : ∀ name, name ∈ judged.assumed ↔ ∃ entered, judged.verdicts name = some (.assumed entered)
  reached : ∀ name, judged.verdicts name = some (.reached true) →
    name ∈ (require schemas property).gfp
  refuted : ∀ name, judged.verdicts name = some (.reached false) →
    name ∉ (require schemas property).gfp

/-- The components that came out requiring, and those that are assumed to and were
entered no earlier than the lowest cut. -/
def believed (judged : Judged) : Set Text :=
  { name | judged.verdicts name = some (.reached true) ∨
    ∃ entered : Nat, (judged.verdicts name = some (.following entered) ∨
      judged.verdicts name = some (.assumed entered)) ∧ judged.lowestCut ≤ entered }

/-- How a question changes what is remembered. -/
structure Step (before after : Judged) : Prop where
  kept : ∀ name verdict, before.verdicts name = some verdict → after.verdicts name = some verdict
  entered : before.entered ≤ after.entered
  cut : after.lowestCut ≤ before.lowestCut
  grown : ∃ added, after.assumed = before.assumed ++ added ∧
    ∀ name ∈ added, before.verdicts name = none
  following : ∀ name entered, after.verdicts name = some (.following entered) →
    before.verdicts name = some (.following entered)
  justified : ∀ name entered, after.verdicts name = some (.assumed entered) →
    before.verdicts name = some (.assumed entered) ∨
      name ∈ require schemas property after.believed

variable {schemas property} {before after last : Judged}

theorem Step.believed_subset (step : Step schemas property before after) :
    before.believed ⊆ after.believed := by
  rintro name (isReached | ⟨entered, isOpen, isCut⟩)
  · exact .inl (step.kept _ _ isReached)
  · exact .inr ⟨entered, isOpen.imp (step.kept _ _) (step.kept _ _), step.cut.trans isCut⟩

theorem Step.refl (judged : Judged) : Step schemas property judged judged where
  kept _ _ isVerdict := isVerdict
  entered := le_rfl
  cut := le_rfl
  grown := ⟨[], (List.append_nil _).symm, nofun⟩
  following _ _ isVerdict := isVerdict
  justified _ _ isVerdict := .inl isVerdict

theorem Step.none_of_none (step : Step schemas property before after) {name : Text}
    (isNone : after.verdicts name = none) : before.verdicts name = none := by
  cases isVerdict : before.verdicts name with
  | none => rfl
  | some verdict =>
      rw [step.kept _ _ isVerdict] at isNone
      cases isNone

theorem Step.trans (first : Step schemas property before after)
    (second : Step schemas property after last) : Step schemas property before last where
  kept _ _ isVerdict := second.kept _ _ (first.kept _ _ isVerdict)
  entered := first.entered.trans second.entered
  cut := second.cut.trans first.cut
  grown := by
    obtain ⟨added, isAfter, new⟩ := first.grown
    obtain ⟨added', isLast, new'⟩ := second.grown
    refine ⟨added ++ added', by rw [isLast, isAfter, List.append_assoc], fun name member => ?_⟩
    rcases List.mem_append.mp member with inFirst | inSecond
    · exact new name inFirst
    · exact first.none_of_none (new' name inSecond)
  following _ _ isVerdict := first.following _ _ (second.following _ _ isVerdict)
  justified name entered isVerdict := by
    rcases second.justified _ _ isVerdict with isAssumed | isJustified
    · refine (first.justified _ _ isAssumed).imp_right fun isJustified => ?_
      exact (require schemas property).monotone second.believed_subset isJustified
    · exact .inr isJustified

variable (schemas property) in
/-- Verdicts that are sound and are kept. -/
def discipline : Ask.Discipline Judged where
  sound := Sound schemas property
  step := Step schemas property
  refl := Step.refl
  trans := Step.trans

/-! ## A component that was followed -/

variable {name : Text} {judged : Judged} {added : List Text}

theorem enter_self (name : Text) (judged : Judged) :
    (judged.enter name).verdicts name = some (.following judged.entered) :=
  Function.update_self ..

theorem enter_of_ne {other : Text} (different : other ≠ name) (judged : Judged) :
    (judged.enter name).verdicts other = judged.verdicts other :=
  Function.update_of_ne different ..

variable (schemas property) in
/-- A component was followed from a state to another, some assumed meanwhile. -/
structure Followed (name : Text) (judged after : Judged) (added : List Text) : Prop where
  sound : Sound schemas property judged
  soundAfter : Sound schemas property after
  fresh : judged.verdicts name = none
  step : Step schemas property (judged.enter name) after
  isAfter : after.assumed = judged.assumed ++ added
  new : ∀ other ∈ added, other ≠ name ∧ judged.verdicts other = none

theorem sound_enter (sound : Sound schemas property judged) (fresh : judged.verdicts name = none) :
    Sound schemas property (judged.enter name) where
  below other entered isOpen := by
    by_cases same : other = name
    · subst same
      rw [enter_self] at isOpen
      rcases isOpen with isFollowing | isAssumed
      · cases isFollowing
        exact Nat.lt_succ_self _
      · cases isAssumed
    · rw [enter_of_ne same] at isOpen
      exact Nat.lt_succ_of_lt (sound.below other entered isOpen)
  listed other := by
    rw [show (judged.enter name).assumed = judged.assumed from rfl, sound.listed]
    by_cases same : other = name
    · subst same
      rw [enter_self, fresh]
      simp
    · rw [enter_of_ne same]
  reached other isReached := by
    by_cases same : other = name
    · subst same
      rw [enter_self] at isReached
      cases isReached
    · rw [enter_of_ne same] at isReached
      exact sound.reached other isReached
  refuted other isRefuted := by
    by_cases same : other = name
    · subst same
      rw [enter_self] at isRefuted
      cases isRefuted
    · rw [enter_of_ne same] at isRefuted
      exact sound.refuted other isRefuted

theorem exists_followed (sound : Sound schemas property judged) (fresh : judged.verdicts name = none)
    (soundAfter : Sound schemas property after)
    (step : Step schemas property (judged.enter name) after) :
    ∃ added, Followed schemas property name judged after added := by
  obtain ⟨added, isAfter, new⟩ := step.grown
  refine ⟨added, sound, soundAfter, fresh, step, isAfter, fun other member => ?_⟩
  have isNew := new other member
  have different : other ≠ name := by
    rintro rfl
    rw [enter_self] at isNew
    cases isNew
  rw [enter_of_ne different] at isNew
  exact ⟨different, isNew⟩

namespace Followed

variable (followed : Followed schemas property name judged after added)

include followed

theorem drop_eq : after.assumed.drop judged.assumed.length = added := by
  rw [followed.isAfter, List.drop_left]

theorem take_eq : after.assumed.take judged.assumed.length = judged.assumed := by
  rw [followed.isAfter, List.take_left]

theorem isFollowing : after.verdicts name = some (.following judged.entered) :=
  followed.step.kept _ _ (enter_self name judged)

theorem ne_of_some {other : Text} {verdict : Verdict}
    (isVerdict : judged.verdicts other = some verdict) : other ≠ name := by
  rintro rfl
  rw [followed.fresh] at isVerdict
  cases isVerdict

theorem notMem_of_some {other : Text} {verdict : Verdict}
    (isVerdict : judged.verdicts other = some verdict) : other ∉ added := by
  intro member
  rw [(followed.new other member).2] at isVerdict
  cases isVerdict

theorem kept {other : Text} {verdict : Verdict} (isVerdict : judged.verdicts other = some verdict) :
    after.verdicts other = some verdict := by
  refine followed.step.kept _ _ ?_
  rw [enter_of_ne (followed.ne_of_some isVerdict), isVerdict]

theorem following {other : Text} {entered : Nat}
    (isFollowing : after.verdicts other = some (.following entered)) (different : other ≠ name) :
    judged.verdicts other = some (.following entered) := by
  rw [← enter_of_ne different]
  exact followed.step.following _ _ isFollowing

theorem assumed {other : Text} {entered : Nat}
    (isAssumed : after.verdicts other = some (.assumed entered)) :
    other ∈ added ∨ judged.verdicts other = some (.assumed entered) := by
  have isListed := (followed.soundAfter.listed other).mpr ⟨entered, isAssumed⟩
  rw [followed.isAfter, List.mem_append] at isListed
  rcases isListed with wasListed | isAdded
  · obtain ⟨earlier, wasAssumed⟩ := (followed.sound.listed other).mp wasListed
    have same := followed.kept wasAssumed
    rw [isAssumed] at same
    cases same
    exact .inr wasAssumed
  · exact .inl isAdded

theorem entered_le : judged.entered ≤ after.entered :=
  (Nat.le_succ _).trans followed.step.entered

omit followed in
/-- A verdict after the component is settled: its own, that of those assumed
meanwhile, or as it was. -/
theorem settled_eq_some {verdict : Option Verdict} {required : Bool} {other : Text} {isNow : Verdict}
    (isVerdict : Function.update (replaced added verdict after.verdicts) name
      (some (.reached required)) other = some isNow) :
    (other = name ∧ isNow = .reached required) ∨ (other ∈ added ∧ verdict = some isNow) ∨
      (other ≠ name ∧ other ∉ added ∧ after.verdicts other = some isNow) := by
  by_cases same : other = name
  · rw [same, Function.update_self] at isVerdict
    exact .inl ⟨same, (Option.some.inj isVerdict).symm⟩
  · rw [Function.update_of_ne same, replaced] at isVerdict
    split at isVerdict
    · rename_i member
      exact .inr (.inl ⟨member, isVerdict⟩)
    · rename_i absent
      exact .inr (.inr ⟨same, absent, isVerdict⟩)

/-- What was known before is known after. -/
theorem settled_of_some {verdict : Option Verdict} {required : Bool} {other : Text}
    {was : Verdict} (isVerdict : judged.verdicts other = some was) :
    Function.update (replaced added verdict after.verdicts) name (some (.reached required)) other =
      some was := by
  rw [Function.update_of_ne (followed.ne_of_some isVerdict), replaced,
    if_neg (followed.notMem_of_some isVerdict), followed.kept isVerdict]

section Settled

variable {verdict : Option Verdict} {required : Bool} {lowest : WithTop Nat}
  (isNone : verdict = none ∨ verdict = some (.reached true))

include isNone

omit followed in
/-- What is not settled is as it was. -/
theorem settled_of_open {other : Text} {isNow : Verdict} (isOpen : ∀ required, isNow ≠ .reached required)
    (isVerdict : Function.update (replaced added verdict after.verdicts) name
      (some (.reached required)) other = some isNow) :
    other ≠ name ∧ other ∉ added ∧ after.verdicts other = some isNow := by
  rcases settled_eq_some isVerdict with ⟨-, isReached⟩ | ⟨-, same⟩ | isAfter
  · exact absurd isReached (isOpen required)
  · rcases isNone with isNone | isReached
    · rw [isNone] at same
      cases same
    · rw [isReached] at same
      exact absurd (Option.some.inj same).symm (isOpen true)
  · exact isAfter

/-- A component is settled with those assumed meanwhile. -/
theorem sound_settled (promoted : verdict = some (.reached true) →
      ∀ other ∈ added, other ∈ (require schemas property).gfp)
    (holds : required = true → name ∈ (require schemas property).gfp)
    (fails : required = false → name ∉ (require schemas property).gfp) :
    Sound schemas property ⟨Function.update (replaced added verdict after.verdicts) name
      (some (.reached required)), after.entered, judged.assumed, lowest⟩ where
  below other entered isOpen := by
    refine followed.soundAfter.below other entered (isOpen.imp ?_ ?_)
    · exact fun isFollowing => (settled_of_open isNone (by simp) isFollowing).2.2
    · exact fun isAssumed => (settled_of_open isNone (by simp) isAssumed).2.2
  listed other := by
    change other ∈ judged.assumed ↔ _
    rw [followed.sound.listed]
    constructor
    · rintro ⟨entered, wasAssumed⟩
      exact ⟨entered, followed.settled_of_some wasAssumed⟩
    · rintro ⟨entered, isAssumed⟩
      obtain ⟨-, absent, isAfter⟩ := settled_of_open isNone (by simp) isAssumed
      exact ⟨entered, (followed.assumed isAfter).resolve_left absent⟩
  reached other isReached := by
    rcases settled_eq_some isReached with ⟨rfl, same⟩ | ⟨member, same⟩ | ⟨-, -, isAfter⟩
    · cases same
      exact holds rfl
    · exact promoted same other member
    · exact followed.soundAfter.reached other isAfter
  refuted other isRefuted := by
    rcases settled_eq_some isRefuted with ⟨rfl, same⟩ | ⟨-, rfl⟩ | ⟨-, -, isAfter⟩
    · cases same
      exact fails rfl
    · rcases isNone with isNone | isReached
      · cases isNone
      · cases isReached
    · exact followed.soundAfter.refuted other isAfter

theorem step_settled (lower : lowest ≤ judged.lowestCut) :
    Step schemas property judged ⟨Function.update (replaced added verdict after.verdicts) name
      (some (.reached required)), after.entered, judged.assumed, lowest⟩ where
  kept _ _ isVerdict := followed.settled_of_some isVerdict
  entered := followed.entered_le
  cut := lower
  grown := ⟨[], (List.append_nil _).symm, nofun⟩
  following other entered isFollowing := by
    obtain ⟨different, -, isAfter⟩ := settled_of_open isNone (by simp) isFollowing
    exact followed.following isAfter different
  justified other entered isAssumed := by
    obtain ⟨-, absent, isAfter⟩ := settled_of_open isNone (by simp) isAssumed
    exact .inl ((followed.assumed isAfter).resolve_left absent)

end Settled

/-- What rests on nothing outside the component requires. -/
theorem promoted (uncut : judged.entered ≤ after.lowestCut)
    (holds : name ∈ require schemas property after.believed) :
    ∀ other, other = name ∨ other ∈ added → other ∈ (require schemas property).gfp := by
  have outside {entered : Nat} (isCut : after.lowestCut ≤ entered) : ¬ entered < judged.entered :=
    Nat.not_lt.mpr (WithTop.coe_le_coe.mp (uncut.trans isCut))
  have inside : after.believed ⊆
      { other | other = name ∨ other ∈ added } ∪ (require schemas property).gfp := by
    rintro other (isReached | ⟨entered, isFollowing | isAssumed, isCut⟩)
    · exact .inr (followed.soundAfter.reached other isReached)
    · by_cases same : other = name
      · exact .inl (.inl same)
      · exact absurd (followed.sound.below other entered (.inl (followed.following isFollowing same)))
          (outside isCut)
    · rcases followed.assumed isAssumed with isAdded | wasAssumed
      · exact .inl (.inr isAdded)
      · exact absurd (followed.sound.below other entered (.inr wasAssumed)) (outside isCut)
  have below : { other | other = name ∨ other ∈ added } ⊆ require schemas property
      ({ other | other = name ∨ other ∈ added } ∪ (require schemas property).gfp) := ?_
  · exact fun other isInside => le_gfp_of_le (require schemas property) below isInside
  rintro other (rfl | isAdded)
  · exact (require schemas property).monotone inside holds
  · refine (require schemas property).monotone inside ?_
    obtain ⟨different, isNew⟩ := followed.new other isAdded
    obtain ⟨entered, isAssumed⟩ := (followed.soundAfter.listed other).mp (by
      rw [followed.isAfter]
      exact List.mem_append_right _ isAdded)
    refine (followed.step.justified _ _ isAssumed).resolve_left fun wasAssumed => ?_
    rw [enter_of_ne different, isNew] at wasAssumed
    cases wasAssumed

/-! ### A component that is assumed -/

section Assumed

variable {lowest : WithTop Nat}

theorem believed_assumed (lower : lowest ≤ after.lowestCut) : after.believed ⊆
    believed ⟨Function.update after.verdicts name (some (.assumed judged.entered)), after.entered,
      after.assumed ++ [name], lowest⟩ := by
  have isFollowing := followed.isFollowing
  rintro other (isReached | ⟨entered, isOpen, isCut⟩)
  · have different : other ≠ name := by
      rintro rfl
      rw [isFollowing] at isReached
      cases isReached
    exact .inl ((Function.update_of_ne different ..).trans isReached)
  · refine .inr ⟨entered, ?_, lower.trans isCut⟩
    by_cases same : other = name
    · subst same
      rw [isFollowing] at isOpen
      rcases isOpen with isOpen | isOpen <;> cases isOpen
      exact .inr (Function.update_self ..)
    · exact isOpen.imp (Function.update_of_ne same ..).trans (Function.update_of_ne same ..).trans

omit followed in
theorem assumed_eq_some {entered : Nat} {other : Text} {isNow : Verdict}
    (isVerdict : Function.update after.verdicts name (some (.assumed entered)) other = some isNow) :
    (other = name ∧ isNow = .assumed entered) ∨
      (other ≠ name ∧ after.verdicts other = some isNow) := by
  by_cases same : other = name
  · rw [same, Function.update_self] at isVerdict
    exact .inl ⟨same, (Option.some.inj isVerdict).symm⟩
  · rw [Function.update_of_ne same] at isVerdict
    exact .inr ⟨same, isVerdict⟩

theorem sound_assumed : Sound schemas property
    ⟨Function.update after.verdicts name (some (.assumed judged.entered)), after.entered,
      after.assumed ++ [name], lowest⟩ where
  below other entered isOpen := by
    rcases isOpen with isFollowing | isAssumed
    · rcases assumed_eq_some isFollowing with ⟨-, isAssumed⟩ | ⟨-, isAfter⟩
      · cases isAssumed
      · exact followed.soundAfter.below other entered (.inl isAfter)
    · rcases assumed_eq_some isAssumed with ⟨-, same⟩ | ⟨-, isAfter⟩
      · cases same
        exact followed.soundAfter.below name judged.entered (.inl followed.isFollowing)
      · exact followed.soundAfter.below other entered (.inr isAfter)
  listed other := by
    change other ∈ after.assumed ++ [name] ↔ _
    rw [List.mem_append, List.mem_singleton, followed.soundAfter.listed]
    constructor
    · rintro (⟨entered, isAssumed⟩ | rfl)
      · have different : other ≠ name := by
          rintro rfl
          rw [followed.isFollowing] at isAssumed
          cases isAssumed
        exact ⟨entered, (Function.update_of_ne different ..).trans isAssumed⟩
      · exact ⟨judged.entered, Function.update_self ..⟩
    · rintro ⟨entered, isAssumed⟩
      rcases assumed_eq_some isAssumed with ⟨isName, -⟩ | ⟨-, isAfter⟩
      · exact .inr isName
      · exact .inl ⟨entered, isAfter⟩
  reached other isReached := by
    rcases assumed_eq_some isReached with ⟨-, isAssumed⟩ | ⟨-, isAfter⟩
    · cases isAssumed
    · exact followed.soundAfter.reached other isAfter
  refuted other isRefuted := by
    rcases assumed_eq_some isRefuted with ⟨-, isAssumed⟩ | ⟨-, isAfter⟩
    · cases isAssumed
    · exact followed.soundAfter.refuted other isAfter

theorem step_assumed (lower : lowest ≤ after.lowestCut) (outer : lowest ≤ judged.lowestCut)
    (holds : name ∈ require schemas property after.believed) : Step schemas property judged
    ⟨Function.update after.verdicts name (some (.assumed judged.entered)), after.entered,
      after.assumed ++ [name], lowest⟩ where
  kept other verdict isVerdict :=
    (Function.update_of_ne (followed.ne_of_some isVerdict) ..).trans (followed.kept isVerdict)
  entered := followed.entered_le
  cut := outer
  grown := by
    refine ⟨added ++ [name], by rw [followed.isAfter, List.append_assoc], fun other member => ?_⟩
    rcases List.mem_append.mp member with isAdded | isName
    · exact (followed.new other isAdded).2
    · rw [List.mem_singleton.mp isName, followed.fresh]
  following other entered isFollowing := by
    rcases assumed_eq_some isFollowing with ⟨-, isAssumed⟩ | ⟨different, isAfter⟩
    · cases isAssumed
    · exact followed.following isAfter different
  justified other entered isAssumed := by
    have grown := (require schemas property).monotone (followed.believed_assumed lower)
    rcases assumed_eq_some isAssumed with ⟨rfl, -⟩ | ⟨different, isAfter⟩
    · exact .inr (grown holds)
    · rcases followed.step.justified _ _ isAfter with wasAssumed | isJustified
      · rw [enter_of_ne different] at wasAssumed
        exact .inl wasAssumed
      · exact .inr (grown isJustified)

end Assumed

/-- What is remembered of a component that was followed, by its answer. -/
theorem answered_leave {target : Schema Number} {required : Bool}
    (found : schemas.lookup name = some target)
    (told : if required then Entails schemas property after.believed target
      else ¬ Entails schemas property (require schemas property).gfp target) :
    Sound schemas property (leave name judged required after) ∧
      Step schemas property judged (leave name judged required after) ∧
        if required then name ∈ (leave name judged required after).believed
        else name ∉ (require schemas property).gfp := by
  cases required with
  | false =>
      have refuted : name ∉ (require schemas property).gfp := by
        rw [← (require schemas property).map_gfp, mem_require_iff found]
        exact told
      have isLeft : leave name judged false after = ⟨Function.update (replaced added none
          after.verdicts) name (some (.reached false)), after.entered, judged.assumed,
            min ⊤ judged.lowestCut⟩ := by
        rw [leave, followed.drop_eq, followed.take_eq]
        rfl
      rw [isLeft]
      exact ⟨followed.sound_settled (.inl rfl) nofun nofun fun _ => refuted,
        followed.step_settled (.inl rfl) (min_le_right ..), refuted⟩
  | true =>
      have holds : name ∈ require schemas property after.believed := (mem_require_iff found).mpr told
      by_cases uncut : judged.entered ≤ after.lowestCut
      · have promoted := followed.promoted uncut holds
        have isLeft : leave name judged true after = ⟨Function.update (replaced added
            (some (.reached true)) after.verdicts) name (some (.reached true)), after.entered,
              judged.assumed, min after.lowestCut judged.lowestCut⟩ := by
          rw [leave, followed.drop_eq, followed.take_eq]
          simp only [Bool.not_true, Bool.false_eq_true, if_false, if_pos uncut]
        rw [isLeft]
        exact ⟨followed.sound_settled (.inr rfl) (fun _ other isAdded => promoted other (.inr isAdded))
            (fun _ => promoted name (.inl rfl)) nofun,
          followed.step_settled (.inr rfl) (min_le_right ..), .inl (Function.update_self ..)⟩
      · have isLeft : leave name judged true after = ⟨Function.update after.verdicts name
            (some (.assumed judged.entered)), after.entered, after.assumed ++ [name],
              min after.lowestCut judged.lowestCut⟩ := by
          rw [leave]
          simp only [Bool.not_true, Bool.false_eq_true, if_false, if_neg uncut]
        rw [isLeft]
        refine ⟨followed.sound_assumed, followed.step_assumed (min_le_left ..) (min_le_right ..) holds,
          .inr ⟨judged.entered, .inr (Function.update_self ..), ?_⟩⟩
        exact (min_le_left ..).trans (le_of_not_ge uncut)

end Followed

/-! ## The answers -/

theorem sound_cut (sound : Sound schemas property judged) (entered : Nat) :
    Sound schemas property (judged.cut entered) :=
  ⟨sound.below, sound.listed, sound.reached, sound.refuted⟩

theorem step_cut (judged : Judged) (entered : Nat) :
    Step schemas property judged (judged.cut entered) where
  kept _ _ isVerdict := isVerdict
  entered := le_rfl
  cut := min_le_left ..
  grown := ⟨[], (List.append_nil _).symm, nofun⟩
  following _ _ isVerdict := isVerdict
  justified _ _ isVerdict := .inl isVerdict

/-- A component is answered with what is then believed, or truly not. -/
theorem answers_follow {ask : Schema Number → Ask Judged} {target : Schema Number}
    (found : schemas.lookup name = some target)
    (answers : Ask.Answers (discipline schemas property) (ask target)
      (fun judged => Entails schemas property judged.believed target)
      (¬ Entails schemas property (require schemas property).gfp target)) :
    Ask.Answers (discipline schemas property) (follow ask name target)
      (fun judged => name ∈ judged.believed) (name ∉ (require schemas property).gfp) := by
  intro judged sound answer after asked
  rw [follow] at asked
  split at asked
  · rename_i isReached
    cases asked
    refine ⟨sound, Step.refl judged, ?_⟩
    cases answer with
    | true => exact .inl isReached
    | false => exact sound.refuted name isReached
  · rename_i entered isFollowing
    cases asked
    exact ⟨sound_cut sound entered, step_cut judged entered,
      .inr ⟨entered, .inl isFollowing, min_le_right ..⟩⟩
  · rename_i entered isAssumed
    cases asked
    exact ⟨sound_cut sound entered, step_cut judged entered,
      .inr ⟨entered, .inr isAssumed, min_le_right ..⟩⟩
  · rename_i fresh
    obtain ⟨⟨required, inner⟩, isInner, isAfter⟩ := Option.map_eq_some_iff.mp asked
    cases isAfter
    obtain ⟨soundInner, stepInner, told⟩ := answers (sound_enter sound fresh) isInner
    obtain ⟨added, followed⟩ := exists_followed sound fresh soundInner stepInner
    exact followed.answered_leave found told

end Judged

section Requires

variable {schemas : Map (Schema Number)} {property : Text}

/-- The remembered recursion answers as the greatest solution does, with what it
assumes assumed. -/
theorem answers_requires (fuel : Nat) (object : SchemaObject Number (Schema Number)) :
    Ask.Answers (Judged.discipline schemas property) (requires schemas property fuel object)
      (fun judged => Entails schemas property judged.believed (.object object))
      (¬ Entails schemas property (require schemas property).gfp (.object object)) := by
  induction fuel generalizing object with
  | zero => exact fun _ _ _ _ => nofun
  | succ fuel ih =>
      refine answers_consider ?_ Judged.Step.believed_subset (answers_asked ih) object
      exact fun name target found => Judged.answers_follow found (answers_asked ih target)

namespace Judged

/-- The components that are followed. -/
def path (judged : Judged) : Set Text :=
  { name | ∃ entered, judged.verdicts name = some (.following entered) }

variable {judged after : Judged}

theorem Step.path_eq (step : Step schemas property judged after) : after.path = judged.path := by
  ext name
  constructor
  · rintro ⟨entered, isFollowing⟩
    exact ⟨entered, step.following name entered isFollowing⟩
  · rintro ⟨entered, wasFollowing⟩
    exact ⟨entered, step.kept _ _ wasFollowing⟩

theorem path_enter (name : Text) (judged : Judged) :
    (judged.enter name).path = insert name judged.path := by
  ext other
  by_cases same : other = name
  · subst same
    simp [path, enter_self]
  · simp [path, enter_of_ne same, same]

theorem sound_empty : Sound schemas property empty where
  below _ _ := by
    rintro (isOpen | isOpen) <;> cases isOpen
  listed name := by simp [empty]
  reached _ := nofun
  refuted _ := nofun

theorem path_empty : empty.path = ∅ := by
  ext name
  simp [path, empty]

/-- A component is answered where what it is is, with it on the path. -/
theorem settles_follow {ask : Nat → Schema Number → Ask Judged} {name : Text} {target : Schema Number}
    {on : Set Text} (found : schemas.lookup name = some target)
    (answers : ∀ fuel, Ask.Answers (discipline schemas property) (ask fuel target)
      (fun judged => Entails schemas property judged.believed target)
      (¬ Entails schemas property (require schemas property).gfp target))
    (settles : name ∉ on → Ask.Settles (fun judged => Sound schemas property judged ∧
      judged.path = insert name on) fun fuel => ask fuel target) :
    Ask.Settles (fun judged => Sound schemas property judged ∧ judged.path = on) fun fuel =>
      follow (ask fuel) name target := by
  rintro judged ⟨sound, rfl⟩
  have settled : ∃ fuel answer after, ∀ enough ≥ fuel,
      follow (ask enough) name target judged = some (answer, after) := by
    cases isVerdict : judged.verdicts name with
    | some verdict =>
        cases verdict with
        | following entered => exact ⟨0, true, judged.cut entered, fun _ _ => by rw [follow, isVerdict]⟩
        | assumed entered => exact ⟨0, true, judged.cut entered, fun _ _ => by rw [follow, isVerdict]⟩
        | reached required => exact ⟨0, required, judged, fun _ _ => by rw [follow, isVerdict]⟩
    | none =>
        have isNew : name ∉ judged.path := by
          rintro ⟨entered, isFollowing⟩
          rw [isVerdict] at isFollowing
          cases isFollowing
        obtain ⟨fuel, required, inner, -, asked⟩ :=
          settles isNew ⟨sound_enter sound isVerdict, path_enter name judged⟩
        refine ⟨fuel, required, leave name judged required inner, fun enough above => ?_⟩
        rw [follow, isVerdict]
        exact congrArg (Option.map _) (asked enough above)
  obtain ⟨fuel, answer, after, asked⟩ := settled
  obtain ⟨kept, step, -⟩ := answers_follow found (answers fuel) sound (asked fuel le_rfl)
  exact ⟨fuel, answer, after, ⟨kept, step.path_eq⟩, asked⟩

/-- What is believed where nothing is followed is true. -/
theorem believed_subset_gfp (sound : Sound schemas property after)
    (step : Step schemas property empty after) :
    after.believed ⊆ (require schemas property).gfp := by
  refine le_gfp_of_le (require schemas property) ?_
  rintro name (isReached | ⟨entered, isFollowing | isAssumed, -⟩)
  · have isSolution := sound.reached name isReached
    rw [← (require schemas property).map_gfp] at isSolution
    exact (require schemas property).monotone Set.subset_union_right isSolution
  · cases step.following name entered isFollowing
  · rcases step.justified name entered isAssumed with wasAssumed | isJustified
    · cases wasAssumed
    · exact (require schemas property).monotone Set.subset_union_left isJustified

end Judged

variable (schemas property) in
/-- The remembered recursion is answered. -/
theorem settles_requires (on : Set Text) (schema : Schema Number) :
    Ask.Settles (fun judged => Judged.Sound schemas property judged ∧ judged.path = on) fun fuel =>
      asked (requires schemas property fuel) schema := by
  induction left : (unfollowed schemas on).ncard using Nat.strong_induction_on
    generalizing on schema with
  | _ left ih =>
      induction schema using Schema.induction with
      | bool admits => exact Ask.settles_known _
      | object object within =>
          have followed (reference name : Text) (target : Schema Number)
              (_ : object.reference = some reference)
              (found : targetOf schemas reference = some (name, target)) :
              Ask.Settles (fun judged => Judged.Sound schemas property judged ∧ judged.path = on)
                fun fuel => Judged.follow (asked (requires schemas property fuel)) name target := by
            have isEntry := lookup_of_targetOf found
            refine Judged.settles_follow isEntry
              (fun fuel => answers_asked (answers_requires fuel) target) fun isNew => ?_
            refine ih _ ?_ (insert name on) target rfl
            rw [← left]
            exact ncard_unfollowed_insert_lt isEntry isNew
          exact (settles_consider followed within).succ fun fuel => rfl

/-- Whether a schema requires a property is answered, remembering and plainly, as
in the greatest solution of the components' equations. -/
theorem requires_exact (schemas : Map (Schema Number)) (property : Text)
    (object : SchemaObject Number (Schema Number)) :
    ∃ fuel answer judged,
      (answer = true ↔ Entails schemas property (require schemas property).gfp (.object object)) ∧
        ∀ enough ≥ fuel,
          requires schemas property enough object Judged.empty = some (answer, judged) ∧
            plainlyRequires schemas property enough [] object () = some (answer, ()) := by
  obtain ⟨fuel, answer, judged, -, asked⟩ :=
    settles_requires schemas property ∅ (.object object)
      ⟨Judged.sound_empty, Judged.path_empty⟩
  obtain ⟨fuel', answer', ⟨⟩, -, plain⟩ :=
    settles_plainlyRequires schemas property [] (.object object) trivial
  have isAnswer : answer = true ↔
      Entails schemas property (require schemas property).gfp (.object object) := by
    obtain ⟨sound, step, told⟩ := answers_requires fuel object Judged.sound_empty (asked fuel le_rfl)
    cases answer with
    | true => exact iff_of_true rfl (told.mono (Judged.believed_subset_gfp sound step))
    | false => exact iff_of_false Bool.false_ne_true told
  have isPlain : answer' = true ↔
      Entails schemas property (require schemas property).gfp (.object object) := by
    obtain ⟨-, -, told⟩ := answers_plainlyRequires fuel' [] object trivial (plain fuel' le_rfl)
    have bare : believing (require schemas property) { name | name ∈ ([] : List Text) } =
        (require schemas property).gfp := by
      rw [← believing_bot]
      congr 1
      ext name
      simp
    rw [bare] at told
    cases answer' with
    | true => exact iff_of_true rfl told
    | false => exact iff_of_false Bool.false_ne_true told
  have same : answer' = answer := Bool.eq_iff_iff.mpr (isPlain.trans isAnswer.symm)
  refine ⟨max fuel fuel', answer, judged, isAnswer, fun enough above => ⟨?_, ?_⟩⟩
  · exact asked enough (le_trans (le_max_left ..) above)
  · rw [← same]
    exact plain enough (le_trans (le_max_right ..) above)

end Requires

end Kynos.OpenApi
