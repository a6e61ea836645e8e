import Kynos.Text.Str

/-!
# Schema objects

JSON values, and the schemas of a description: a boolean, or an object of the
keywords of JSON Schema and of the OpenAPI base vocabulary, the unknown ones as
they were written. A schema holds others by name, by position or alone.
-/

namespace Kynos.OpenApi

variable {Number : Type}

/-- `serde_json::Value`. An object's members stand in the order they are written. -/
inductive Value (Number : Type)
  | null
  | bool (value : Bool)
  | number (value : Number)
  | string (value : Text)
  | array (items : List (Value Number))
  | object (members : List (Text × Value Number))

/-- `Map`: `indexmap::IndexMap<String, V>`. -/
abbrev Map (V : Type) := List (Text × V)

/-- `XmlNodeType`. -/
inductive XmlNodeType
  | element
  | attribute
  | text
  | cdata
  | none

/-- `XmlNode`. -/
inductive XmlNode
  | flags (isAttribute wrapped : Option Bool)
  | type (nodeType : XmlNodeType)

/-- `Xml`. -/
structure Xml (Number : Type) where
  name : Option Text
  namespaceUri : Option Text
  elementPrefix : Option Text
  node : XmlNode
  extensions : Map (Value Number)

/-- `Discriminator`. -/
structure Discriminator (Number : Type) where
  propertyName : Text
  mapping : Map Text
  defaultMapping : Option Text
  extensions : Map (Value Number)

/-- `ExternalDocumentation`. -/
structure ExternalDocumentation (Number : Type) where
  description : Option Text
  url : Text
  extensions : Map (Value Number)

/-- `SchemaType`. -/
inductive SchemaType
  | null
  | boolean
  | object
  | array
  | number
  | string
  | integer

/-- `TypeSet`. -/
inductive TypeSet
  | one (type : SchemaType)
  | many (types : List SchemaType)

/-- An `f64`: a number of JSON where it is finite. -/
abbrev Float64 (Number : Type) := Option Number

/-- The keywords of a `SchemaObject` that hold schemas. -/
structure Applicators (Schema : Type) where
  defs : List (Text × Schema)
  allOf : Option (List Schema)
  anyOf : Option (List Schema)
  oneOf : Option (List Schema)
  not : Option Schema
  ifSchema : Option Schema
  thenSchema : Option Schema
  elseSchema : Option Schema
  dependentSchemas : List (Text × Schema)
  prefixItems : Option (List Schema)
  items : Option Schema
  contains : Option Schema
  properties : List (Text × Schema)
  patternProperties : List (Text × Schema)
  additionalProperties : Option Schema
  propertyNames : Option Schema
  unevaluatedItems : Option Schema
  unevaluatedProperties : Option Schema
  contentSchema : Option Schema

/-- `SchemaObject`, over what stands for a schema. -/
structure SchemaObject (Number Schema : Type) extends Applicators Schema where
  schemaDialect : Option Text
  id : Option Text
  reference : Option Text
  anchor : Option Text
  dynamicRef : Option Text
  dynamicAnchor : Option Text
  comment : Option Text
  ty : Option TypeSet
  constValue : Option (Value Number)
  enumeration : Option (List (Value Number))
  multipleOf : Option (Float64 Number)
  maximum : Option (Float64 Number)
  exclusiveMaximum : Option (Float64 Number)
  minimum : Option (Float64 Number)
  exclusiveMinimum : Option (Float64 Number)
  maxLength : Option Nat
  minLength : Option Nat
  pattern : Option Text
  maxItems : Option Nat
  minItems : Option Nat
  uniqueItems : Option Bool
  maxContains : Option Nat
  minContains : Option Nat
  maxProperties : Option Nat
  minProperties : Option Nat
  required : Option (List Text)
  dependentRequired : Map (List Text)
  format : Option Text
  contentEncoding : Option Text
  contentMediaType : Option Text
  title : Option Text
  description : Option Text
  default : Option (Value Number)
  deprecated : Option Bool
  readOnly : Option Bool
  writeOnly : Option Bool
  examples : Option (List (Value Number))
  discriminator : Option (Discriminator Number)
  xml : Option (Xml Number)
  externalDocs : Option (ExternalDocumentation Number)
  singleExample : Option (Value Number)
  unknownKeywords : Map (Value Number)

/-- `Schema`. -/
inductive Schema (Number : Type)
  | bool (admits : Bool)
  | object (object : SchemaObject Number (Schema Number))

/-- `Schema::as_object`. -/
def Schema.asObject : Schema Number → Option (SchemaObject Number (Schema Number))
  | .object keywords => some keywords
  | .bool _ => none

/-! ## Subschemas -/

/-- `Held`: how a keyword holds its subschemas. -/
inductive Held (Schema : Type)
  | keyed (schemas : List (Text × Schema))
  | listed (schemas : Option (List Schema))
  | single (schema : Option Schema)

variable {S : Type}

/-- The schemas a keyword holds, in order. -/
def Held.schemas : Held S → List S
  | .keyed schemas => schemas.map Prod.snd
  | .listed schemas => schemas.getD []
  | .single schema => schema.toList

namespace Applicators

/-- The keywords but the last, in the order they are declared. -/
def inOrder (object : Applicators S) : List (Text × Held S) :=
  [("$defs".toList, .keyed object.defs),
    ("allOf".toList, .listed object.allOf),
    ("anyOf".toList, .listed object.anyOf),
    ("oneOf".toList, .listed object.oneOf),
    ("not".toList, .single object.not),
    ("if".toList, .single object.ifSchema),
    ("then".toList, .single object.thenSchema),
    ("else".toList, .single object.elseSchema),
    ("dependentSchemas".toList, .keyed object.dependentSchemas),
    ("prefixItems".toList, .listed object.prefixItems),
    ("items".toList, .single object.items),
    ("contains".toList, .single object.contains),
    ("properties".toList, .keyed object.properties),
    ("patternProperties".toList, .keyed object.patternProperties),
    ("additionalProperties".toList, .single object.additionalProperties),
    ("propertyNames".toList, .single object.propertyNames),
    ("unevaluatedItems".toList, .single object.unevaluatedItems),
    ("unevaluatedProperties".toList, .single object.unevaluatedProperties)]

/-- The keywords `for_each_subschema` goes through. -/
def held (object : Applicators S) : List (Text × Held S) :=
  object.inOrder ++ [("contentSchema".toList, .single object.contentSchema)]

/-- What `for_each_subschema` visits. -/
def subschemas (object : Applicators S) : List S :=
  object.held.flatMap fun entry => entry.2.schemas

end Applicators

theorem Held.sizeOf_lt [SizeOf S] {held : Held S} {schema : S} (member : schema ∈ held.schemas) :
    sizeOf schema < sizeOf held := by
  cases held with
  | keyed schemas =>
      obtain ⟨entry, inSchemas, rfl⟩ := List.mem_map.mp member
      have below := List.sizeOf_lt_of_mem inSchemas
      cases entry
      simp only [Held.keyed.sizeOf_spec, Prod.mk.sizeOf_spec] at below ⊢
      omega
  | listed schemas =>
      cases schemas with
      | none => cases member
      | some schemas =>
          have below := List.sizeOf_lt_of_mem (show schema ∈ schemas from member)
          simp only [Held.listed.sizeOf_spec, Option.some.sizeOf_spec]
          omega
  | single held =>
      cases held with
      | none => cases member
      | some other =>
          obtain rfl := List.mem_singleton.mp member
          simp only [Held.single.sizeOf_spec, Option.some.sizeOf_spec]
          omega

theorem Applicators.sizeOf_held_le [SizeOf S] {object : Applicators S} {entry : Text × Held S}
    (member : entry ∈ object.held) : sizeOf entry.2 ≤ sizeOf object := by
  cases object
  simp only [held, inOrder, List.cons_append, List.nil_append, List.mem_cons, List.not_mem_nil,
    or_false] at member
  simp only [Applicators.mk.sizeOf_spec]
  rcases member with rfl | rfl | rfl | rfl | rfl | rfl | rfl | rfl | rfl | rfl | rfl | rfl | rfl |
    rfl | rfl | rfl | rfl | rfl | rfl <;>
    simp only [Held.keyed.sizeOf_spec, Held.listed.sizeOf_spec, Held.single.sizeOf_spec] <;> omega

/-- What a schema holds is smaller. -/
theorem SchemaObject.sizeOf_lt {object : SchemaObject Number (Schema Number)}
    {schema : Schema Number} (member : schema ∈ object.subschemas) :
    sizeOf schema < sizeOf (Schema.object object) := by
  obtain ⟨entry, inHeld, inEntry⟩ := List.mem_flatMap.mp member
  have inside := Held.sizeOf_lt inEntry
  have within := Applicators.sizeOf_held_le inHeld
  have whole : sizeOf object.toApplicators < sizeOf object := by
    cases object
    simp only [SchemaObject.mk.sizeOf_spec]
    omega
  rw [Schema.object.sizeOf_spec]
  omega

/-- A property of every schema, from one of what each holds. -/
theorem Schema.induction {motive : Schema Number → Prop} (bool : ∀ admits, motive (.bool admits))
    (object : ∀ object : SchemaObject Number (Schema Number),
      (∀ schema ∈ object.subschemas, motive schema) → motive (.object object)) :
    ∀ schema, motive schema
  | .bool admits => bool admits
  | .object held => object held fun schema _ => Schema.induction bool object schema
termination_by schema => sizeOf schema
decreasing_by exact SchemaObject.sizeOf_lt (by assumption)

end Kynos.OpenApi
