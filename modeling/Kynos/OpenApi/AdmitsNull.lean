import Kynos.OpenApi.SchemaObject

/-!
# Whether a schema admits null

A query string may be absent where its schema visibly admits `null`: it is the
`true` schema, its `type` names `null`, or a member of its `anyOf` or `oneOf`
does. Validity conjoins the keywords, and `oneOf` demands exactly one of its
members; what is visible is so valid unless another keyword refuses it.
-/

namespace Kynos.OpenApi

variable {Number : Type}

/-! ## The source -/

/-- Whether a set of types names `null`. -/
def TypeSet.namesNull : TypeSet → Bool
  | .one .null => true
  | .one _ => false
  | .many types => types.any fun type =>
      match type with
      | .null => true
      | _ => false

/-- `type_admits_null`. -/
def typeAdmitsNull (object : SchemaObject Number (Schema Number)) : Bool :=
  object.ty.any TypeSet.namesNull

/-- Whether a schema holds a keyword that is not looked into. -/
def isUnread (object : SchemaObject Number (Schema Number)) : Bool :=
  object.reference.isSome || object.constValue.isSome || object.enumeration.isSome ||
    object.allOf.isSome || object.not.isSome

section Held

variable (object : SchemaObject Number (Schema Number))

theorem held_allOf : ("allOf".toList, .listed object.allOf) ∈ object.held := by
  simp [Applicators.held, Applicators.inOrder]

theorem held_anyOf : ("anyOf".toList, .listed object.anyOf) ∈ object.held := by
  simp [Applicators.held, Applicators.inOrder]

theorem held_oneOf : ("oneOf".toList, .listed object.oneOf) ∈ object.held := by
  simp [Applicators.held, Applicators.inOrder]

theorem held_not : ("not".toList, .single object.not) ∈ object.held := by
  simp [Applicators.held, Applicators.inOrder]

theorem held_ifSchema : ("if".toList, .single object.ifSchema) ∈ object.held := by
  simp [Applicators.held, Applicators.inOrder]

theorem held_thenSchema : ("then".toList, .single object.thenSchema) ∈ object.held := by
  simp [Applicators.held, Applicators.inOrder]

theorem held_elseSchema : ("else".toList, .single object.elseSchema) ∈ object.held := by
  simp [Applicators.held, Applicators.inOrder]

end Held

theorem sizeOf_lt_of_held {object : SchemaObject Number (Schema Number)}
    {entry : Text × Held (Schema Number)} (held : entry ∈ object.held) {schema : Schema Number}
    (member : schema ∈ entry.2.schemas) : sizeOf schema < sizeOf (Schema.object object) :=
  SchemaObject.sizeOf_lt (List.mem_flatMap.mpr ⟨entry, held, member⟩)

/-- `null`. -/
def Value.isNull : Value Number → Bool
  | .null => true
  | _ => false

variable (references dynamics : Text → Bool)

/-- Whether `null` is valid against a schema, given whether it is against what a
`$ref` and a `$dynamicRef` name. -/
def acceptsNull : Schema Number → Bool
  | .bool admits => admits
  | .object object =>
      object.reference.all references && object.dynamicRef.all dynamics &&
        object.ty.all TypeSet.namesNull && object.constValue.all Value.isNull &&
        object.enumeration.all (fun values => values.any Value.isNull) &&
        ((object.allOf.getD []).attach.all fun member => acceptsNull member.1) &&
        (object.anyOf.isNone || (object.anyOf.getD []).attach.any fun member => acceptsNull member.1) &&
        (object.oneOf.isNone ||
          (object.oneOf.getD []).attach.countP (fun member => acceptsNull member.1) == 1) &&
        (object.not.toList.attach.all fun refused => !acceptsNull refused.1) &&
        object.ifSchema.toList.attach.all fun condition =>
          if acceptsNull condition.1 then
            object.thenSchema.toList.attach.all fun arm => acceptsNull arm.1
          else
            object.elseSchema.toList.attach.all fun arm => acceptsNull arm.1
termination_by schema => sizeOf schema
decreasing_by
  · exact sizeOf_lt_of_held (held_allOf object) member.2
  · exact sizeOf_lt_of_held (held_anyOf object) member.2
  · exact sizeOf_lt_of_held (held_oneOf object) member.2
  · exact sizeOf_lt_of_held (held_not object) refused.2
  · exact sizeOf_lt_of_held (held_ifSchema object) condition.2
  · exact sizeOf_lt_of_held (held_thenSchema object) arm.2
  · exact sizeOf_lt_of_held (held_elseSchema object) arm.2

/-! ## What is visible, and what refuses it -/

/-- A schema through which `null` is visible: along members of `anyOf` and `oneOf`
that hold no keyword that is not looked into, to `true` or a `type` naming `null`. -/
inductive Offered : Schema Number → Prop
  | any : Offered (.bool true)
  | typed {object} (read : isUnread object = false) (names : typeAdmitsNull object = true) :
      Offered (.object object)
  | member {object schema} (read : isUnread object = false)
      (isMember : schema ∈ object.anyOf.getD [] ++ object.oneOf.getD []) (offered : Offered schema) :
      Offered (.object object)

/-- A keyword `admits_null` reads past, or does not conjoin, refuses `null`. -/
inductive Refused (references dynamics : Text → Bool) :
    SchemaObject Number (Schema Number) → Prop
  | dynamicRef {object reference} (refers : object.dynamicRef = some reference)
      (fails : dynamics reference = false) : Refused references dynamics object
  | type {object types} (isType : object.ty = some types) (unnamed : types.namesNull = false) :
      Refused references dynamics object
  | anyOf {object members} (isAnyOf : object.anyOf = some members)
      (none : ∀ member ∈ members, acceptsNull references dynamics member = false) :
      Refused references dynamics object
  | oneOf {object members} (isOneOf : object.oneOf = some members)
      (notOne : members.countP (acceptsNull references dynamics) ≠ 1) :
      Refused references dynamics object
  | thenArm {object condition arm} (isIf : object.ifSchema = some condition)
      (isThen : object.thenSchema = some arm)
      (holds : acceptsNull references dynamics condition = true)
      (fails : acceptsNull references dynamics arm = false) : Refused references dynamics object
  | elseArm {object condition arm} (isIf : object.ifSchema = some condition)
      (isElse : object.elseSchema = some arm)
      (holds : acceptsNull references dynamics condition = false)
      (fails : acceptsNull references dynamics arm = false) : Refused references dynamics object

theorem all_attach_toList {S : Type} (held : Option S) (holds : S → Bool) :
    (held.toList.attach.all fun schema => holds schema.1) = held.all holds := by
  rw [List.all_subtype fun schema _ => rfl, List.unattach_attach]
  cases held with
  | none => rfl
  | some schema => exact Bool.and_true _

variable {references dynamics} {object : SchemaObject Number (Schema Number)}

theorem Offered.isUnread (offered : Offered (.object object)) : isUnread object = false := by
  cases offered with
  | typed read _ => exact read
  | member read _ _ => exact read

/-- A schema of no keyword. -/
def SchemaObject.empty (Number S : Type) : SchemaObject Number S where
  defs := []
  allOf := none
  anyOf := none
  oneOf := none
  not := none
  ifSchema := none
  thenSchema := none
  elseSchema := none
  dependentSchemas := []
  prefixItems := none
  items := none
  contains := none
  properties := []
  patternProperties := []
  additionalProperties := none
  propertyNames := none
  unevaluatedItems := none
  unevaluatedProperties := none
  contentSchema := none
  schemaDialect := none
  id := none
  reference := none
  anchor := none
  dynamicRef := none
  dynamicAnchor := none
  comment := none
  ty := none
  constValue := none
  enumeration := none
  multipleOf := none
  maximum := none
  exclusiveMaximum := none
  minimum := none
  exclusiveMinimum := none
  maxLength := none
  minLength := none
  pattern := none
  maxItems := none
  minItems := none
  uniqueItems := none
  maxContains := none
  minContains := none
  maxProperties := none
  minProperties := none
  required := none
  dependentRequired := []
  format := none
  contentEncoding := none
  contentMediaType := none
  title := none
  description := none
  default := none
  deprecated := none
  readOnly := none
  writeOnly := none
  examples := none
  discriminator := none
  xml := none
  externalDocs := none
  singleExample := none
  unknownKeywords := []

end Kynos.OpenApi
