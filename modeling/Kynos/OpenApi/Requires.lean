import Kynos.Collection.Assoc
import Kynos.OpenApi.SchemaObject
import Kynos.Run.Asking
import Mathlib.Data.Set.Card

/-!
# Whether a schema requires a property

A schema requires a property where a keyword it holds does, or where a component
it refers to does. The components' answers solve equations in each other, and a
component that is being followed counts as requiring. Followed again on every
path, a component is answered as in the greatest solution, with the components
on the path assumed.
-/

namespace Kynos.OpenApi

open Kynos.Collection Kynos.Fixpoint Kynos.Run

variable {Number : Type} {σ : Type}

/-! ## The source -/

/-- `component_name`. -/
def componentName (reference sectionName : Text) : Option Text :=
  (reference.dropPrefix? "#/components/".toList).bind fun rest =>
    (rest.dropPrefix? sectionName).bind fun rest => rest.dropPrefix? ['/']

/-- The entry of `components.schemas` a reference names. -/
def targetOf (schemas : Map (Schema Number)) (reference : Text) :
    Option (Text × Schema Number) :=
  (componentName reference "schemas".toList).bind fun name =>
    (schemas.lookup name).map fun schema => (name, schema)

/-- What requires a property, or may unseen, in the schema itself. -/
def statesRequired (property : Text) (object : SchemaObject Number (Schema Number)) : Bool :=
  (object.required.getD []).any (· == property) || object.dynamicRef.isSome || object.not.isSome ||
    !object.dependentSchemas.isEmpty || !object.dependentRequired.isEmpty

/-- What `requires` asks of a schema within another. -/
def asked (object : SchemaObject Number (Schema Number) → Ask σ) : Schema Number → Ask σ
  | .bool admits => .known !admits
  | .object held => object held

/-- The two arms of a conditional. -/
def arms (object : SchemaObject Number (Schema Number)) : Option (List (Schema Number)) :=
  match object.ifSchema, object.thenSchema, object.elseSchema with
  | some _, some arm, some otherwise => some [arm, otherwise]
  | _, _, _ => none

/-- The component a `$ref` names, asked; a reference elsewhere may require unseen. -/
def askReference (schemas : Map (Schema Number)) (follow : Text → Schema Number → Ask σ) :
    Option Text → Ask σ
  | none => .known false
  | some reference =>
      match targetOf schemas reference with
      | none => .known true
      | some (name, target) => follow name target

/-- Both arms asked, where there are two. -/
def askArms (ask : Schema Number → Ask σ) : Option (List (Schema Number)) → Ask σ
  | none => .known false
  | some arms => .all ask arms

/-- The body of `requires`, given how the component under a name is asked and how
a schema within the schema is. -/
def consider (schemas : Map (Schema Number)) (property : Text)
    (follow : Text → Schema Number → Ask σ) (ask : Schema Number → Ask σ)
    (object : SchemaObject Number (Schema Number)) : Ask σ :=
  .orElse (.known (statesRequired property object)) <|
    .orElse (askReference schemas follow object.reference) <|
      .orElse (.any ask (object.allOf.getD [])) <|
        .orElse (.any (.all ask) ([object.oneOf, object.anyOf].filterMap id))
          (askArms ask (arms object))

/-- The plain recursion: a component on the current path requires, and nothing is
remembered. -/
def plainlyRequires (schemas : Map (Schema Number)) (property : Text) :
    Nat → List Text → SchemaObject Number (Schema Number) → Ask Unit
  | 0, _, _ => fun _ => none
  | fuel + 1, path, object =>
      consider schemas property
        (fun name target =>
          if name ∈ path then
            .known true
          else
            asked (plainlyRequires schemas property fuel (name :: path)) target)
        (asked (plainlyRequires schemas property fuel path)) object

/-! ## The equations -/

/-- Whether a schema requires a property where the components of a set do. -/
inductive Entails (schemas : Map (Schema Number)) (property : Text) (held : Set Text) :
    Schema Number → Prop
  | never : Entails schemas property held (.bool false)
  | stated {object} (states : statesRequired property object = true) :
      Entails schemas property held (.object object)
  | unseen {object reference} (refers : object.reference = some reference)
      (missing : targetOf schemas reference = none) : Entails schemas property held (.object object)
  | referred {object reference name target} (refers : object.reference = some reference)
      (found : targetOf schemas reference = some (name, target)) (isHeld : name ∈ held) :
      Entails schemas property held (.object object)
  | member {object schema} (isMember : schema ∈ object.allOf.getD [])
      (entails : Entails schemas property held schema) :
      Entails schemas property held (.object object)
  | branches {object branches} (isOne : branches ∈ [object.oneOf, object.anyOf].filterMap id)
      (entail : ∀ branch ∈ branches, Entails schemas property held branch) :
      Entails schemas property held (.object object)
  | conditional {object both} (isConditional : arms object = some both)
      (entail : ∀ arm ∈ both, Entails schemas property held arm) :
      Entails schemas property held (.object object)

section Entails

variable {schemas : Map (Schema Number)} {property : Text}

theorem Entails.mono {held held' : Set Text} (below : held ⊆ held') {schema : Schema Number}
    (entails : Entails schemas property held schema) : Entails schemas property held' schema := by
  induction entails with
  | never => exact .never
  | stated states => exact .stated states
  | unseen refers missing => exact .unseen refers missing
  | referred refers found isHeld => exact .referred refers found (below isHeld)
  | member isMember _ ih => exact .member isMember ih
  | branches isOne _ ih => exact .branches isOne ih
  | conditional isConditional _ ih => exact .conditional isConditional ih

/-- The components that require a property where those of a set do. -/
def require (schemas : Map (Schema Number)) (property : Text) : Set Text →o Set Text where
  toFun held := { name | ∃ target, schemas.lookup name = some target ∧
    Entails schemas property held target }
  monotone' := by
    rintro held held' below name ⟨target, found, entails⟩
    exact ⟨target, found, entails.mono below⟩

theorem mem_require_iff {held : Set Text} {name : Text} {target : Schema Number}
    (found : schemas.lookup name = some target) :
    name ∈ require schemas property held ↔ Entails schemas property held target := by
  constructor
  · rintro ⟨other, isOther, entails⟩
    rw [found] at isOther
    cases isOther
    exact entails
  · exact fun entails => ⟨target, found, entails⟩

theorem lookup_of_targetOf {reference name : Text} {target : Schema Number}
    (found : targetOf schemas reference = some (name, target)) :
    schemas.lookup name = some target := by
  obtain ⟨other, -, isEntry⟩ := Option.bind_eq_some_iff.mp found
  obtain ⟨schema, isSchema, same⟩ := Option.map_eq_some_iff.mp isEntry
  cases same
  exact isSchema

end Entails

/-! ## The body -/

section Consider

variable {schemas : Map (Schema Number)} {property : Text} {discipline : Ask.Discipline σ}
  {believed : σ → Set Text} {truth : Set Text}

section Answers

variable {follow : Text → Schema Number → Ask σ} {ask : Schema Number → Ask σ}
  (followed : ∀ name target, schemas.lookup name = some target →
    Ask.Answers discipline (follow name target) (fun state => name ∈ believed state) (name ∉ truth))
  (lasts : ∀ {state state'}, discipline.step state state' → believed state ⊆ believed state')
  (within : ∀ schema, Ask.Answers discipline (ask schema)
    (fun state => Entails schemas property (believed state) schema)
    (¬ Entails schemas property truth schema))
  (object : SchemaObject Number (Schema Number))

include followed in
theorem answers_askReference : Ask.Answers discipline (askReference schemas follow object.reference)
    (fun state => Entails schemas property (believed state) (.object object))
    (∀ reference, object.reference = some reference →
      ∃ name target, targetOf schemas reference = some (name, target) ∧ name ∉ truth) := by
  cases refers : object.reference with
  | none => exact Ask.answers_false nofun
  | some reference =>
      cases found : targetOf schemas reference with
      | none =>
          rw [askReference, found]
          exact Ask.answers_true fun _ => .unseen refers found
      | some entry =>
          obtain ⟨name, target⟩ := entry
          rw [askReference, found]
          refine (followed name target (lookup_of_targetOf found)).mono
            (fun _ => .referred refers found) ?_
          rintro outside _ ⟨⟩
          exact ⟨name, target, found, outside⟩

include lasts within

theorem answers_all_ask (schemas' : List (Schema Number)) : Ask.Answers discipline (.all ask schemas')
    (fun state => ∀ schema ∈ schemas', Entails schemas property (believed state) schema)
    (∃ schema ∈ schemas', ¬ Entails schemas property truth schema) :=
  Ask.answers_all (fun step entails => entails.mono (lasts step)) fun schema _ => within schema

theorem answers_askArms : Ask.Answers discipline (askArms ask (arms object))
    (fun state => Entails schemas property (believed state) (.object object))
    (∀ both, arms object = some both →
      ∃ arm ∈ both, ¬ Entails schemas property truth arm) := by
  cases isConditional : arms object with
  | none => exact Ask.answers_false nofun
  | some both =>
      refine (answers_all_ask lasts within both).mono (fun _ => .conditional isConditional) ?_
      rintro fails _ ⟨⟩
      exact fails

include followed

/-- What a body's answers tell, where those it asks for do: a yes of what is
believed then, a no of the truth. -/
theorem answers_consider : Ask.Answers discipline (consider schemas property follow ask object)
    (fun state => Entails schemas property (believed state) (.object object))
    (¬ Entails schemas property truth (.object object)) := by
  have states : Ask.Answers discipline (.known (statesRequired property object))
      (fun state => Entails schemas property (believed state) (.object object))
      (statesRequired property object = false) := by
    cases isStated : statesRequired property object with
    | true => exact Ask.answers_true fun _ => .stated isStated
    | false => exact Ask.answers_false rfl
  have branches : Ask.Answers discipline (.any (.all ask) ([object.oneOf, object.anyOf].filterMap id))
      (fun state => ∃ branches ∈ [object.oneOf, object.anyOf].filterMap id,
        ∀ branch ∈ branches, Entails schemas property (believed state) branch)
      (∀ branches ∈ [object.oneOf, object.anyOf].filterMap id,
        ∃ branch ∈ branches, ¬ Entails schemas property truth branch) :=
    Ask.answers_any fun branches _ => answers_all_ask lasts within branches
  have referred : Ask.Answers discipline (askReference schemas follow object.reference)
      (fun state => Entails schemas property (believed state) (.object object))
      (∀ reference, object.reference = some reference →
        ∃ name target, targetOf schemas reference = some (name, target) ∧ name ∉ truth) :=
    answers_askReference followed object
  refine (states.orElse (referred.orElse
    ((Ask.answers_any fun member _ => within member).orElse
      (branches.orElse (answers_askArms lasts within object))))).mono ?_ ?_
  · rintro state (stated | referred | ⟨member, isMember, entails⟩ | ⟨all, isOne, entail⟩ | arms)
    · exact stated
    · exact referred
    · exact .member isMember entails
    · exact .branches isOne entail
    · exact arms
  · rintro ⟨unstated, unreferred, noMember, noBranches, noArms⟩ entails
    cases entails with
    | stated isStated =>
        rw [unstated] at isStated
        cases isStated
    | unseen refers missing =>
        obtain ⟨name, target, found, -⟩ := unreferred _ refers
        rw [missing] at found
        cases found
    | referred refers found isHeld =>
        obtain ⟨name, target, isTarget, outside⟩ := unreferred _ refers
        rw [found] at isTarget
        cases isTarget
        exact outside isHeld
    | member isMember entails => exact noMember _ isMember entails
    | branches isOne entail =>
        obtain ⟨branch, isBranch, fails⟩ := noBranches _ isOne
        exact fails (entail branch isBranch)
    | conditional isConditional entail =>
        obtain ⟨arm, isArm, fails⟩ := noArms _ isConditional
        exact fails (entail arm isArm)

end Answers

section Settles

variable {holds : σ → Prop} {follow : Nat → Text → Schema Number → Ask σ}
  {ask : Nat → Schema Number → Ask σ} {object : SchemaObject Number (Schema Number)}

theorem mem_subschemas_of_allOf {schema : Schema Number} (member : schema ∈ object.allOf.getD []) :
    schema ∈ object.subschemas := by
  simp [Applicators.subschemas, Applicators.held, Applicators.inOrder, Held.schemas, member]

theorem mem_subschemas_of_branches {branches : List (Schema Number)} {schema : Schema Number}
    (isOne : branches ∈ [object.oneOf, object.anyOf].filterMap id) (member : schema ∈ branches) :
    schema ∈ object.subschemas := by
  obtain ⟨held, isHeld, isSome⟩ := List.mem_filterMap.mp isOne
  have inHeld : schema ∈ held.getD [] := by
    rw [show held = some branches from isSome]
    exact member
  rcases List.mem_pair.mp isHeld with rfl | rfl <;>
    simp [Applicators.subschemas, Applicators.held, Applicators.inOrder, Held.schemas, inHeld]

theorem mem_subschemas_of_arms {both : List (Schema Number)} {schema : Schema Number}
    (isConditional : arms object = some both) (member : schema ∈ both) :
    schema ∈ object.subschemas := by
  rw [arms] at isConditional
  split at isConditional
  · rename_i hasThen hasElse
    cases isConditional
    rcases List.mem_pair.mp member with rfl | rfl
    · simp [Applicators.subschemas, Applicators.held, Applicators.inOrder, Held.schemas, hasThen]
    · simp [Applicators.subschemas, Applicators.held, Applicators.inOrder, Held.schemas, hasElse]
  · cases isConditional

/-- A body is answered where what it asks for is. -/
theorem settles_consider
    (followed : ∀ reference name target, object.reference = some reference →
      targetOf schemas reference = some (name, target) →
        Ask.Settles holds fun fuel => follow fuel name target)
    (within : ∀ schema ∈ object.subschemas, Ask.Settles holds fun fuel => ask fuel schema) :
    Ask.Settles holds fun fuel => consider schemas property (follow fuel) (ask fuel) object := by
  have referred : Ask.Settles holds fun fuel =>
      askReference schemas (follow fuel) object.reference := by
    cases refers : object.reference with
    | none => exact Ask.settles_known false
    | some reference =>
        cases found : targetOf schemas reference with
        | none =>
            simp only [askReference, found]
            exact Ask.settles_known true
        | some entry =>
            simp only [askReference, found]
            exact followed reference entry.1 entry.2 refers found
  have conditional : Ask.Settles holds fun fuel => askArms (ask fuel) (arms object) := by
    cases isConditional : arms object with
    | none => exact Ask.settles_known false
    | some both =>
        exact Ask.settles_all fun arm isArm => within arm (mem_subschemas_of_arms isConditional isArm)
  have branches : Ask.Settles holds fun fuel =>
      .any (.all (ask fuel)) ([object.oneOf, object.anyOf].filterMap id) :=
    Ask.settles_any fun branches isOne =>
      Ask.settles_all fun branch isBranch => within branch (mem_subschemas_of_branches isOne isBranch)
  have members : Ask.Settles holds fun fuel => .any (ask fuel) (object.allOf.getD []) :=
    Ask.settles_any fun member isMember => within member (mem_subschemas_of_allOf isMember)
  exact (Ask.settles_known _).orElse (referred.orElse (members.orElse (branches.orElse conditional)))

end Settles

end Consider

/-! ## The plain recursion -/

section Plain

variable {schemas : Map (Schema Number)} {property : Text}

/-- The components a path leaves to follow. -/
def unfollowed (schemas : Map (Schema Number)) (followed : Set Text) : Set Text :=
  { name | name ∈ schemas.map Prod.fst ∧ name ∉ followed }

theorem ncard_unfollowed_insert_lt {followed : Set Text} {name : Text} {target : Schema Number}
    (found : schemas.lookup name = some target) (isNew : name ∉ followed) :
    (unfollowed schemas (insert name followed)).ncard < (unfollowed schemas followed).ncard := by
  have finite : (unfollowed schemas followed).Finite :=
    (List.finite_toSet (schemas.map Prod.fst)).subset fun _ member => member.1
  refine Set.ncard_lt_ncard ?_ finite
  refine ⟨fun other member => ⟨member.1, fun isFollowed => member.2 (.inr isFollowed)⟩, fun below => ?_⟩
  have isKey : name ∈ schemas.map Prod.fst := by
    obtain ⟨before, after, rfl, -⟩ := List.lookup_eq_some_iff.mp found
    simp
  exact (below ⟨isKey, isNew⟩).2 (.inl rfl)

theorem setOf_mem_cons (name : Text) (path : List Text) :
    ({ other | other ∈ name :: path } : Set Text) = insert name { other | other ∈ path } := by
  ext other
  simp

/-- Nothing is kept between the questions of the plain recursion. -/
def forgetful : Ask.Discipline Unit where
  sound _ := True
  step _ _ := True
  refl _ := trivial
  trans _ _ := trivial

theorem answers_asked {discipline : Ask.Discipline σ} {believed : σ → Set Text} {truth : Set Text}
    {ask : SchemaObject Number (Schema Number) → Ask σ}
    (answers : ∀ object, Ask.Answers discipline (ask object)
      (fun state => Entails schemas property (believed state) (.object object))
      (¬ Entails schemas property truth (.object object))) (schema : Schema Number) :
    Ask.Answers discipline (asked ask schema)
      (fun state => Entails schemas property (believed state) schema)
      (¬ Entails schemas property truth schema) := by
  cases schema with
  | object object => exact answers object
  | bool admits =>
      cases admits with
      | true => exact Ask.answers_false nofun
      | false => exact Ask.answers_true fun _ => .never

/-- A component follows from the solution that assumes a path exactly where what it
is follows from the solution that assumes it too. -/
theorem mem_believing_iff {path : Set Text} {name : Text} {target : Schema Number}
    (found : schemas.lookup name = some target) (isNew : name ∉ path) :
    name ∈ believing (require schemas property) path ↔
      Entails schemas property (believing (require schemas property) (insert name path)) target := by
  rw [← mem_require_iff found, step_believing, ← Set.singleton_subset_iff, ← Set.singleton_subset_iff,
    Set.insert_eq, Set.union_comm]
  have shown : {name} ⊆ assuming (require schemas property) path ↔
      {name} ⊆ assuming (require schemas property) (path ∪ {name}) :=
    le_assuming_iff (require schemas property)
  refine Iff.trans ?_ shown
  simp [believing, isNew]

/-- The plain recursion answers as the greatest solution that assumes its path. -/
theorem answers_plainlyRequires (fuel : Nat) (path : List Text)
    (object : SchemaObject Number (Schema Number)) :
    Ask.Answers forgetful (plainlyRequires schemas property fuel path object)
      (fun _ => Entails schemas property (believing (require schemas property) { name | name ∈ path })
        (.object object))
      (¬ Entails schemas property (believing (require schemas property) { name | name ∈ path })
        (.object object)) := by
  induction fuel generalizing path object with
  | zero => exact fun _ _ _ _ => nofun
  | succ fuel ih =>
      refine answers_consider ?_ (fun _ => subset_rfl) (answers_asked (ih path)) object
      intro name target found
      split
      · rename_i onPath
        exact Ask.answers_true fun _ => .inr onPath
      · rename_i isNew
        have answers := answers_asked (ih (name :: path)) target
        rw [setOf_mem_cons] at answers
        exact answers.mono (fun _ => (mem_believing_iff found isNew).mpr)
          (mt (mem_believing_iff found isNew).mp)

variable (schemas property) in
/-- The plain recursion is answered. -/
theorem settles_plainlyRequires (path : List Text) (schema : Schema Number) :
    Ask.Settles (fun _ : Unit => True) fun fuel =>
      asked (plainlyRequires schemas property fuel path) schema := by
  induction left : (unfollowed schemas { name | name ∈ path }).ncard using Nat.strong_induction_on
    generalizing path schema with
  | _ left ih =>
      induction schema using Schema.induction with
      | bool admits => exact Ask.settles_known _
      | object object within =>
          have followed (reference name : Text) (target : Schema Number)
              (_ : object.reference = some reference)
              (found : targetOf schemas reference = some (name, target)) :
              Ask.Settles (fun _ : Unit => True) fun fuel =>
                if name ∈ path then
                  .known true
                else
                  asked (plainlyRequires schemas property fuel (name :: path)) target := by
            by_cases onPath : name ∈ path
            · simp only [if_pos onPath]
              exact Ask.settles_known true
            · simp only [if_neg onPath]
              refine ih _ ?_ (name :: path) target rfl
              rw [← left, setOf_mem_cons]
              exact ncard_unfollowed_insert_lt (lookup_of_targetOf found) onPath
          exact (settles_consider followed within).succ fun fuel => rfl

end Plain

/-!
## References to components

An object of a document stands inline, or is a reference to a component of its
section. A reference is read where it names the component as it is written.
-/

/-- `RefOr`. Of a `Ref`, its location. -/
inductive RefOr (T : Type)
  | ref (location : Text)
  | item (item : T)
  deriving DecidableEq

/-- `literal_component_name`. -/
def literalComponentName (reference sectionName : Text) : Option Text :=
  (componentName reference sectionName).filter fun name =>
    !name.any fun character => character == '/' || character == '~' || character == '%'

end Kynos.OpenApi
