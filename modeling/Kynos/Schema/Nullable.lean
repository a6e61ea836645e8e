import Kynos.OpenApi.AdmitsNull
import Mathlib.Order.Lattice

/-!
# Widening a schema by null

An optional value is described by the schema of what it may hold, widened to
admit `null`. A single `type` is widened where it stands, and a schema whose
`type` names `null` is left as it is; but a value is valid where every keyword
admits it, so `null` is only admitted where the keywords beside the `type` do.
-/

namespace Kynos.OpenApi

variable {Number : Type}

/-! ## The source -/

/-- `Schema::of_type`. -/
def Schema.ofType (type : SchemaType) : Schema Number :=
  .object { SchemaObject.empty Number _ with ty := some (.one type) }

/-- `with_object`. -/
def withObject (schema : Schema Number)
    (edit : SchemaObject Number (Schema Number) → SchemaObject Number (Schema Number)) :
    Schema Number :=
  match schema with
  | .object object => .object (edit object)
  | .bool true => .object (edit (.empty Number _))
  | .bool false => .object (edit { SchemaObject.empty Number _ with not := some (.bool true) })

/-- Whether a schema has a single `type` and no `$ref`. -/
def promotable (schema : Schema Number) : Bool :=
  schema.asObject.any fun object =>
    object.reference.isNone &&
      match object.ty with
      | some (.one _) => true
      | _ => false

/-- `nullable`. -/
def nullable (schema : Schema Number) : Schema Number :=
  if schema.asObject.any typeAdmitsNull then
    schema
  else if promotable schema then
    withObject schema fun object =>
      match object.ty with
      | some (.one type) => { object with ty := some (.many [type, .null]) }
      | _ => object
  else
    withObject (.object (.empty Number _)) fun object =>
      { object with anyOf := some [schema, .ofType .null] }

/-- A schema of branches alone. -/
def SchemaObject.branches (members : Option (List (Schema Number))) :
    SchemaObject Number (Schema Number) :=
  { SchemaObject.empty Number (Schema Number) with anyOf := members }

/-- The three ways a schema is widened. -/
inductive Widening : Schema Number → Schema Number → Prop
  | named {object} (names : typeAdmitsNull object = true) :
      Widening (.object object) (.object object)
  | promoted {object type} (unnamed : typeAdmitsNull object = false)
      (promotes : promotable (.object object) = true) (single : object.ty = some (.one type)) :
      Widening (.object object) (.object { object with ty := some (.many [type, .null]) })
  | branched {schema} (unnamed : schema.asObject.any typeAdmitsNull = false)
      (plain : promotable schema = false) :
      Widening schema (.object (.branches (some [schema, .ofType .null])))

theorem widening_nullable (schema : Schema Number) : Widening schema (nullable schema) := by
  unfold nullable
  split
  · next names =>
      cases schema with
      | bool _ => cases names
      | object object => exact .named names
  · next unnamed =>
      split
      · next promotes =>
          cases schema with
          | bool _ => cases promotes
          | object object =>
              have single := promotes
              rw [promotable, Schema.asObject, Option.any_some, Bool.and_eq_true] at single
              cases types : object.ty with
              | none => simp [types] at single
              | some types' =>
                  cases types' with
                  | many _ => simp [types] at single
                  | one type =>
                      simp only [withObject, types]
                      exact .promoted (Bool.eq_false_iff.mpr unnamed) promotes types
      · next plain =>
          exact .branched (Bool.eq_false_iff.mpr unnamed) (Bool.eq_false_iff.mpr plain)

theorem nullable_of_names {object : SchemaObject Number (Schema Number)}
    (names : typeAdmitsNull object = true) : nullable (.object object) = .object object := by
  rw [nullable, Schema.asObject, Option.any_some, if_pos names]

/-! ## Values a schema admits -/

/-- Whether a value is of a type. -/
def SchemaType.holds (isInteger : Number → Bool) : SchemaType → Value Number → Bool
  | .null, .null => true
  | .boolean, .bool _ => true
  | .object, .object _ => true
  | .array, .array _ => true
  | .number, .number _ => true
  | .string, .string _ => true
  | .integer, .number held => isInteger held
  | _, _ => false

/-- Whether a value is of one of the types. -/
def TypeSet.holds (isInteger : Number → Bool) (value : Value Number) : TypeSet → Bool
  | .one type => type.holds isInteger value
  | .many types => types.any fun type => type.holds isInteger value

theorem holds_null (isInteger : Number → Bool) (types : TypeSet) :
    types.holds isInteger .null = types.namesNull := by
  cases types with
  | one type => cases type <;> rfl
  | many types =>
      refine List.any_congr rfl fun type => ?_
      cases type <;> rfl

theorem holds_null_eq_false {isInteger : Number → Bool} {value : Value Number}
    (other : value ≠ .null) : SchemaType.null.holds isInteger value = false := by
  cases value with
  | null => exact absurd rfl other
  | _ => rfl

variable [LinearOrder Number]

mutual

/-- Two values are the same, in whatever order the members of objects stand. -/
def Value.same : Value Number → Value Number → Bool
  | .null, .null => true
  | .bool left, .bool right => left == right
  | .number left, .number right => left == right
  | .string left, .string right => left == right
  | .array left, .array right => sameItems left right
  | .object left, .object right => left.length == right.length && sameMembers left right
  | _, _ => false

/-- Two arrays hold the same values. -/
def sameItems : List (Value Number) → List (Value Number) → Bool
  | [], [] => true
  | left :: lefts, right :: rights => left.same right && sameItems lefts rights
  | _, _ => false

/-- Each of some members is a member of another object. -/
def sameMembers : List (Text × Value Number) → List (Text × Value Number) → Bool
  | [], _ => true
  | (name, left) :: lefts, rights =>
      ((rights.lookup name).any fun right => left.same right) && sameMembers lefts rights

end

/-- A schema without its `type`. -/
def SchemaObject.untyped (object : SchemaObject Number (Schema Number)) :
    SchemaObject Number (Schema Number) :=
  { object with ty := none }

/-- What validity is relative to: numbers, patterns, what a reference names, and
the keywords that are not spelled out, which do not read `type`. -/
structure Vocabulary (Number : Type) where
  isInteger : Number → Bool
  isMultiple : Number → Number → Bool
  fits : Text → Text → Bool
  reference : Text → Value Number → Bool
  dynamicReference : Text → Value Number → Bool
  others : SchemaObject Number (Schema Number) → Value Number → Bool
  others_branches : ∀ members value, others (.branches members) value = true

/-- Whether a value is within the bounds of its type. -/
def SchemaObject.bounds (object : SchemaObject Number (Schema Number))
    (vocabulary : Vocabulary Number) : Value Number → Bool
  | .number number =>
      (object.multipleOf.all fun of => of.all (vocabulary.isMultiple number)) &&
        (object.maximum.all fun most => most.all (number ≤ ·)) &&
        (object.exclusiveMaximum.all fun most => most.all (number < ·)) &&
        (object.minimum.all fun least => least.all (· ≤ number)) &&
        object.exclusiveMinimum.all fun least => least.all (· < number)
  | .string text =>
      object.maxLength.all (text.length ≤ ·) && object.minLength.all (· ≤ text.length) &&
        object.pattern.all (vocabulary.fits text)
  | .array items =>
      object.maxItems.all (items.length ≤ ·) && object.minItems.all (· ≤ items.length)
  | .object members =>
      object.maxProperties.all (members.length ≤ ·) &&
        object.minProperties.all (· ≤ members.length) &&
        object.required.all fun names => names.all fun name => (members.lookup name).isSome
  | .null => true
  | .bool _ => true

variable (vocabulary : Vocabulary Number)

/-- Whether a value is valid against a schema. -/
def admits : Schema Number → Value Number → Bool
  | .bool admitted, _ => admitted
  | .object object, value =>
      object.ty.all (TypeSet.holds vocabulary.isInteger value) &&
        (object.reference.all fun reference => vocabulary.reference reference value) &&
        (object.dynamicRef.all fun reference => vocabulary.dynamicReference reference value) &&
        object.constValue.all value.same &&
        (object.enumeration.all fun values => values.any value.same) &&
        object.bounds vocabulary value &&
        ((object.allOf.getD []).attach.all fun member => admits member.1 value) &&
        (object.anyOf.isNone || (object.anyOf.getD []).attach.any fun member => admits member.1 value) &&
        (object.oneOf.isNone ||
          (object.oneOf.getD []).attach.countP (fun member => admits member.1 value) == 1) &&
        (object.not.toList.attach.all fun refused => !admits refused.1 value) &&
        (object.ifSchema.toList.attach.all fun condition =>
          if admits condition.1 value then
            object.thenSchema.toList.attach.all fun arm => admits arm.1 value
          else
            object.elseSchema.toList.attach.all fun arm => admits arm.1 value) &&
        vocabulary.others object.untyped value
termination_by schema => sizeOf schema
decreasing_by
  · exact sizeOf_lt_of_held (held_allOf object) member.2
  · exact sizeOf_lt_of_held (held_anyOf object) member.2
  · exact sizeOf_lt_of_held (held_oneOf object) member.2
  · exact sizeOf_lt_of_held (held_not object) refused.2
  · exact sizeOf_lt_of_held (held_ifSchema object) condition.2
  · exact sizeOf_lt_of_held (held_thenSchema object) arm.2
  · exact sizeOf_lt_of_held (held_elseSchema object) arm.2

variable {vocabulary} {object : SchemaObject Number (Schema Number)} {value : Value Number}

theorem admits_bool (admitted : Bool) : admits vocabulary (.bool admitted) value = admitted := by
  rw [admits]

theorem admits_object_eq : admits vocabulary (.object object) value =
    (object.ty.all (TypeSet.holds vocabulary.isInteger value) &&
      (object.reference.all fun reference => vocabulary.reference reference value) &&
      (object.dynamicRef.all fun reference => vocabulary.dynamicReference reference value) &&
      object.constValue.all value.same &&
      (object.enumeration.all fun values => values.any value.same) &&
      object.bounds vocabulary value &&
      ((object.allOf.getD []).all fun member => admits vocabulary member value) &&
      (object.anyOf.isNone || (object.anyOf.getD []).any fun member => admits vocabulary member value) &&
      (object.oneOf.isNone ||
        (object.oneOf.getD []).countP (fun member => admits vocabulary member value) == 1) &&
      (object.not.all fun refused => !admits vocabulary refused value) &&
      (object.ifSchema.all fun condition =>
        if admits vocabulary condition value then
          object.thenSchema.all fun arm => admits vocabulary arm value
        else
          object.elseSchema.all fun arm => admits vocabulary arm value) &&
      vocabulary.others object.untyped value) := by
  have arms (held : Option (Schema Number)) :=
    all_attach_toList held fun arm => admits vocabulary arm value
  rw [admits,
    List.all_subtype (g := fun member => admits vocabulary member value) fun _ _ => rfl,
    List.unattach_attach,
    List.any_subtype (g := fun member => admits vocabulary member value) fun _ _ => rfl,
    List.unattach_attach, List.countP_attach (p := fun member => admits vocabulary member value),
    all_attach_toList object.not fun refused => !admits vocabulary refused value,
    arms object.thenSchema, arms object.elseSchema,
    all_attach_toList object.ifSchema fun condition =>
      if admits vocabulary condition value then
        object.thenSchema.all fun arm => admits vocabulary arm value
      else
        object.elseSchema.all fun arm => admits vocabulary arm value]

/-- A value is valid where it is of the types, and valid against the other keywords. -/
theorem admits_object : admits vocabulary (.object object) value =
    (object.ty.all (TypeSet.holds vocabulary.isInteger value) &&
      admits vocabulary (.object object.untyped) value) := by
  rw [admits_object_eq, admits_object_eq]
  simp only [SchemaObject.untyped, Option.all_none, Bool.true_and, Bool.and_assoc]
  rfl

/-- Branches alone admit what one of them does. -/
theorem admits_branches (members : List (Schema Number)) :
    admits vocabulary (.object (.branches (some members))) value =
      members.any fun member => admits vocabulary member value := by
  rw [admits_object_eq, show SchemaObject.untyped (.branches (some members)) =
    .branches (some members) from rfl, vocabulary.others_branches]
  cases value <;> simp [SchemaObject.branches, SchemaObject.empty, SchemaObject.bounds]

/-- A type alone admits the values of it. -/
theorem admits_ofType (type : SchemaType) :
    admits vocabulary (Schema.ofType type) value = type.holds vocabulary.isInteger value := by
  rw [Schema.ofType, admits_object, admits_object_eq]
  rw [show SchemaObject.untyped (SchemaObject.untyped { SchemaObject.empty Number _ with
    ty := some (.one type) }) = .branches none from rfl, vocabulary.others_branches]
  cases value <;> simp [SchemaObject.untyped, SchemaObject.empty, SchemaObject.bounds, TypeSet.holds]

/-! ## What is widened -/

/-- The keywords beside the `type` of a schema admit `null`, where its `type` is
what is to admit it: it names `null`, or is a single one without a `$ref`. -/
def OpenBeside (vocabulary : Vocabulary Number) (schema : Schema Number) : Prop :=
  ∀ object, schema = .object object → typeAdmitsNull object = true ∨ promotable schema = true →
    admits vocabulary (.object object.untyped) .null = true

/-- A schema is widened by `null` and nothing else. -/
def WidenedByNull (vocabulary : Vocabulary Number) (schema widened : Schema Number) : Prop :=
  ∀ value, admits vocabulary widened value = true ↔
    admits vocabulary schema value = true ∨ value = .null

/-- A schema whose `type` names `null` is left as it is. -/
theorem widenedByNull_self_iff (names : typeAdmitsNull object = true) :
    WidenedByNull vocabulary (.object object) (.object object) ↔
      admits vocabulary (.object object.untyped) .null = true := by
  have typed : object.ty.all (TypeSet.holds vocabulary.isInteger .null) = true := by
    obtain ⟨types, isTypes, namesNull⟩ := (Option.any_eq_true _ _).mp names
    rw [isTypes, Option.all_some, holds_null, namesNull]
  have same : admits vocabulary (.object object) .null =
      admits vocabulary (.object object.untyped) .null := by
    rw [admits_object, typed, Bool.true_and]
  rw [← same]
  constructor
  · exact fun widened => (widened .null).mpr (.inr rfl)
  · intro admitted value
    refine ⟨.inl, ?_⟩
    rintro (before | rfl)
    · exact before
    · exact admitted

/-- A single `type` is widened where it stands. -/
theorem widenedByNull_promoted_iff {type : SchemaType} (single : object.ty = some (.one type)) :
    WidenedByNull vocabulary (.object object)
        (.object { object with ty := some (.many [type, .null]) }) ↔
      admits vocabulary (.object object.untyped) .null = true := by
  have before (value : Value Number) : admits vocabulary (.object object) value =
      (type.holds vocabulary.isInteger value && admits vocabulary (.object object.untyped) value) := by
    rw [admits_object, single, Option.all_some, TypeSet.holds]
  have after (value : Value Number) :
      admits vocabulary (.object { object with ty := some (.many [type, .null]) }) value =
        ((type.holds vocabulary.isInteger value || SchemaType.null.holds vocabulary.isInteger value) &&
          admits vocabulary (.object object.untyped) value) := by
    rw [admits_object, Option.all_some, TypeSet.holds, List.any_cons, List.any_cons, List.any_nil,
      Bool.or_false]
    rfl
  constructor
  · intro widened
    have admitted := (widened .null).mpr (.inr rfl)
    rw [after, Bool.and_eq_true] at admitted
    exact admitted.2
  · intro beside value
    rw [before, after]
    cases value with
    | null => simp [beside, SchemaType.holds]
    | _ => simp [SchemaType.holds]

variable (vocabulary) in
/-- Any other schema is one of two branches. -/
theorem widenedByNull_branches (schema : Schema Number) :
    WidenedByNull vocabulary schema (.object (.branches (some [schema, .ofType .null]))) := by
  intro value
  rw [admits_branches, List.any_cons, List.any_cons, List.any_nil, Bool.or_false, admits_ofType,
    Bool.or_eq_true]
  refine or_congr_right ?_
  cases value <;> simp [SchemaType.holds]

/-! ## Every schema -/

/-- Whichever way a schema is widened. -/
theorem Widening.widenedByNull_iff {schema widened : Schema Number}
    (widening : Widening schema widened) :
    WidenedByNull vocabulary schema widened ↔ OpenBeside vocabulary schema := by
  cases widening with
  | named names =>
      rw [widenedByNull_self_iff names]
      constructor
      · rintro beside _ ⟨⟩ _
        exact beside
      · exact fun beside => beside _ rfl (.inl names)
  | promoted unnamed promotes single =>
      rw [widenedByNull_promoted_iff single]
      constructor
      · rintro beside _ ⟨⟩ _
        exact beside
      · exact fun beside => beside _ rfl (.inr promotes)
  | branched unnamed plain =>
      refine iff_of_true (widenedByNull_branches vocabulary schema) ?_
      rintro object rfl (names | promotes)
      · rw [Schema.asObject, Option.any_some, names] at unnamed
        cases unnamed
      · rw [promotes] at plain
        cases plain

/-- A schema widened twice admits what it does widened once. -/
theorem admits_nullable_nullable (schema : Schema Number) (value : Value Number) :
    admits vocabulary (nullable (nullable schema)) value =
      admits vocabulary (nullable schema) value := by
  have widening := widening_nullable schema
  generalize nullable schema = once at widening
  cases widening with
  | named names => rw [nullable_of_names names]
  | promoted _ _ single =>
      refine congrArg (fun widened => admits vocabulary widened value) (nullable_of_names ?_)
      simp [typeAdmitsNull, TypeSet.namesNull]
  | branched _ _ =>
      have again := widenedByNull_branches vocabulary
        (.object (.branches (some [schema, .ofType .null]))) value
      have admitted := (widenedByNull_branches vocabulary schema .null).mpr (.inr rfl)
      refine Bool.eq_iff_iff.mpr (again.trans (or_iff_left_of_imp ?_))
      rintro rfl
      exact admitted

/-- `nullable` widens by `null` and nothing else exactly where the keywords beside
a `type` that is to admit it do. Twice is as once. -/
theorem nullable_exact (vocabulary : Vocabulary Number) (schema : Schema Number) :
    (WidenedByNull vocabulary schema (nullable schema) ↔ OpenBeside vocabulary schema) ∧
      ∀ value, admits vocabulary (nullable (nullable schema)) value =
        admits vocabulary (nullable schema) value :=
  ⟨(widening_nullable schema).widenedByNull_iff, admits_nullable_nullable schema⟩

/-! ## A type beside an enumeration -/

/-- A vocabulary of natural numbers, without patterns and references. -/
def naturals : Vocabulary Nat where
  isInteger _ := true
  isMultiple number of := number % of == 0
  fits _ _ := false
  reference _ _ := false
  dynamicReference _ _ := false
  others _ _ := true
  others_branches _ _ := rfl

/-- One of two words. -/
theorem not_widenedByNull_words :
    ¬ ∀ (vocabulary : Vocabulary Nat) (schema : Schema Nat),
      WidenedByNull vocabulary schema (nullable schema) := by
  intro widened
  have admitted := (widened naturals (.object { SchemaObject.empty Nat _ with
    ty := some (.one .string)
    enumeration := some [.string "asc".toList, .string "desc".toList] }) .null).mpr (.inr rfl)
  simp [nullable, Schema.asObject, typeAdmitsNull, promotable, withObject, SchemaObject.empty,
    TypeSet.namesNull, admits_object_eq, Value.same] at admitted

end Kynos.OpenApi
