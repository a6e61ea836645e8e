import Kynos.Collection.Assoc
import Kynos.OpenApi.SchemaObject
import Kynos.Text.Pointer

/-!
# What keeps a schema from OpenAPI 3.1

A `nodeType` under `xml` and a `defaultMapping` under `discriminator` are new in
3.2. They are looked for in a schema as it is written in JSON, wherever such
members stand but in instance data, unless a look at the schema itself rules
them out.
-/

namespace Kynos.OpenApi.Downgrade

open Kynos.Collection

variable {Number : Type}

/-! ## How a schema is written -/

/-- The order a `serde_json::Map` keeps its members in: the one they were put in, or that of
their keys, by how it is built. -/
structure Arrangement (Number : Type) where
  arrange : Map (Value Number) → Map (Value Number)
  perm : ∀ members, (arrange members).Perm members
  lookup : ∀ members key, (arrange members).lookup key = members.lookup key

section Written

variable (arrangement : Arrangement Number) (count : Nat → Number)

/-- An object of the fields that are not left out, and the members flattened in after them. -/
def written (fields : List (Text × Option (Value Number))) (flattened : Map (Value Number)) : Value Number :=
  .object (arrangement.arrange (extend []
    (fields.filterMap (fun (key, value) => value.map (key, ·)) ++ flattened)))

/-- A list of texts. -/
def texts (items : List Text) : Value Number :=
  .array (items.map .string)

/-- A map to values, left out where it is empty. -/
def unlessEmpty {V : Type} (write : V → Value Number) (entries : Map V) : Option (Value Number) :=
  if entries.isEmpty then none else some (.object (arrangement.arrange (entries.map fun (key, value) => (key, write value))))

/-- An `f64`, `null` where it is no number of JSON. -/
def float (number : Float64 Number) : Value Number :=
  (number.map .number).getD .null

def XmlNodeType.text : XmlNodeType → Text
  | .element => "element".toList
  | .attribute => "attribute".toList
  | .text => "text".toList
  | .cdata => "cdata".toList
  | .none => "none".toList

/-- `RawXml::from`, and how it is written. -/
def xmlValue (xml : Xml Number) : Value Number :=
  let (nodeType, isAttribute, wrapped) := match xml.node with
    | .flags isAttribute wrapped => (none, isAttribute, wrapped)
    | .type nodeType => (some nodeType, none, none)
  written arrangement
    [("nodeType".toList, nodeType.map fun nodeType => .string (XmlNodeType.text nodeType)),
      ("name".toList, xml.name.map .string),
      ("namespace".toList, xml.namespaceUri.map .string),
      ("prefix".toList, xml.elementPrefix.map .string),
      ("attribute".toList, isAttribute.map .bool),
      ("wrapped".toList, wrapped.map .bool)] xml.extensions

/-- How a discriminator is written. -/
def discriminatorValue (discriminator : Discriminator Number) : Value Number :=
  written arrangement
    [("propertyName".toList, some (.string discriminator.propertyName)),
      ("mapping".toList, unlessEmpty arrangement .string discriminator.mapping),
      ("defaultMapping".toList, discriminator.defaultMapping.map .string)] discriminator.extensions

/-- How external documentation is written. -/
def docsValue (docs : ExternalDocumentation Number) : Value Number :=
  written arrangement
    [("description".toList, docs.description.map .string), ("url".toList, some (.string docs.url))]
    docs.extensions

def SchemaType.text : SchemaType → Text
  | .null => "null".toList
  | .boolean => "boolean".toList
  | .object => "object".toList
  | .array => "array".toList
  | .number => "number".toList
  | .string => "string".toList
  | .integer => "integer".toList

def typeValue : TypeSet → Value Number
  | .one type => .string (SchemaType.text type)
  | .many types => texts (types.map SchemaType.text)

variable (object : SchemaObject Number (Schema Number))

/-- The keywords before those that hold schemas. -/
def core : List (Text × Option (Value Number)) :=
  [("$schema".toList, object.schemaDialect.map .string),
    ("$id".toList, object.id.map .string),
    ("$ref".toList, object.reference.map .string),
    ("$anchor".toList, object.anchor.map .string),
    ("$dynamicRef".toList, object.dynamicRef.map .string),
    ("$dynamicAnchor".toList, object.dynamicAnchor.map .string),
    ("$comment".toList, object.comment.map .string)]

/-- The keywords from `type` to `contentMediaType`. -/
def validation : List (Text × Option (Value Number)) :=
  [("type".toList, object.ty.map typeValue),
    ("const".toList, object.constValue),
    ("enum".toList, object.enumeration.map .array),
    ("multipleOf".toList, object.multipleOf.map float),
    ("maximum".toList, object.maximum.map float),
    ("exclusiveMaximum".toList, object.exclusiveMaximum.map float),
    ("minimum".toList, object.minimum.map float),
    ("exclusiveMinimum".toList, object.exclusiveMinimum.map float),
    ("maxLength".toList, object.maxLength.map fun most => .number (count most)),
    ("minLength".toList, object.minLength.map fun least => .number (count least)),
    ("pattern".toList, object.pattern.map .string),
    ("maxItems".toList, object.maxItems.map fun most => .number (count most)),
    ("minItems".toList, object.minItems.map fun least => .number (count least)),
    ("uniqueItems".toList, object.uniqueItems.map .bool),
    ("maxContains".toList, object.maxContains.map fun most => .number (count most)),
    ("minContains".toList, object.minContains.map fun least => .number (count least)),
    ("maxProperties".toList, object.maxProperties.map fun most => .number (count most)),
    ("minProperties".toList, object.minProperties.map fun least => .number (count least)),
    ("required".toList, object.required.map texts),
    ("dependentRequired".toList, unlessEmpty arrangement texts object.dependentRequired),
    ("format".toList, object.format.map .string),
    ("contentEncoding".toList, object.contentEncoding.map .string),
    ("contentMediaType".toList, object.contentMediaType.map .string)]

/-- The keywords from `title` on. -/
def metadata : List (Text × Option (Value Number)) :=
  [("title".toList, object.title.map .string),
    ("description".toList, object.description.map .string),
    ("default".toList, object.default),
    ("deprecated".toList, object.deprecated.map .bool),
    ("readOnly".toList, object.readOnly.map .bool),
    ("writeOnly".toList, object.writeOnly.map .bool),
    ("examples".toList, object.examples.map .array),
    ("discriminator".toList, object.discriminator.map (discriminatorValue arrangement)),
    ("xml".toList, object.xml.map (xmlValue arrangement)),
    ("externalDocs".toList, object.externalDocs.map (docsValue arrangement)),
    ("example".toList, object.singleExample)]

/-- How what a keyword holds is written, from how each schema is. -/
def heldValue {S : Type} : (held : Held S) → (∀ schema ∈ held.schemas, Value Number) → Option (Value Number)
  | .keyed schemas, write =>
      if schemas.isEmpty then
        none
      else
        some (.object (arrangement.arrange (schemas.attach.map fun entry =>
          (entry.1.1, write entry.1.2 (List.mem_map_of_mem entry.2)))))
  | .listed none, _ => none
  | .listed (some schemas), write => some (.array (schemas.attach.map fun schema => write schema.1 schema.2))
  | .single none, _ => none
  | .single (some schema), write => some (write schema (List.mem_singleton_self schema))

/-- `serde_json::to_value` of a schema. -/
def toValue : Schema Number → Value Number
  | .bool admits => .bool admits
  | .object object =>
      let applied := object.held.attach.map fun entry =>
        (entry.1.1, heldValue arrangement entry.1.2 fun schema _ => toValue schema)
      written arrangement (core object ++ applied.take object.inOrder.length ++
        validation arrangement count object ++ applied.drop object.inOrder.length ++
        metadata arrangement object) object.unknownKeywords
termination_by schema => sizeOf schema
decreasing_by exact SchemaObject.sizeOf_lt (List.mem_flatMap.mpr ⟨entry.1, entry.2, by assumption⟩)

end Written

/-! ## The walk -/

/-- `Members`. -/
inductive Members
  | keywords
  | names
  deriving DecidableEq

/-- `HOLDERS`. -/
def holders : List (Text × Text) :=
  [("xml".toList, "nodeType".toList), ("discriminator".toList, "defaultMapping".toList)]

/-- `INSTANCE_KEYWORDS`. -/
def instanceKeywords : List Text :=
  ["default".toList, "const".toList, "enum".toList, "examples".toList, "example".toList]

/-- `NAME_MAPS`. -/
def nameMaps : List Text :=
  ["$defs".toList, "dependentSchemas".toList, "properties".toList, "patternProperties".toList]

/-- `contains_key`. -/
def containsKey {V : Type} (entries : Map V) (key : Text) : Bool :=
  entries.any fun entry => entry.1 == key

/-- Whether a value is an object with a member. -/
def carries (field : Text) : Value Number → Bool
  | .object members => containsKey members field
  | _ => false

/-- What is reported of an object's own members. -/
def carried (location : Text) (fields : Map (Value Number)) : List Text :=
  holders.flatMap fun (holder, field) =>
    if (fields.lookup holder).any (carries field) then [location ++ '/' :: holder ++ '/' :: field] else []

mutual

/-- `collect_schema_value_blockers`. -/
def collectSchemaValueBlockers (location : Text) (members : Members) : Value Number → List Text
  | .object fields => carried location fields ++ collectMembers location members fields
  | .array items => collectItems location 0 items
  | _ => []

/-- The loop over the members of an object. -/
def collectMembers (location : Text) (members : Members) : List (Text × Value Number) → List Text
  | [] => []
  | (key, nested) :: rest =>
      let keyword := members = .keywords
      (if keyword ∧ key ∈ instanceKeywords then
        []
      else
        collectSchemaValueBlockers (location ++ '/' :: Text.Pointer.escape key)
          (if keyword ∧ key ∈ nameMaps then .names else .keywords) nested) ++
      collectMembers location members rest

/-- The loop over the items of an array, from an index on. -/
def collectItems (location : Text) (index : Nat) : List (Value Number) → List Text
  | [] => []
  | item :: rest =>
      collectSchemaValueBlockers (location ++ '/' :: Text.decimal index) .keywords item ++
        collectItems location (index + 1) rest

end

/-! ## The pre-check -/

mutual

/-- `members_may_hold`. -/
def membersMayHold : List (Text × Value Number) → Bool
  | [] => false
  | (key, value) :: rest =>
      ((holders.any fun (holder, field) => key == holder && carries field value) || valueMayHold value) ||
        membersMayHold rest

/-- `value_may_hold`. -/
def valueMayHold : Value Number → Bool
  | .object fields => membersMayHold fields
  | .array items => itemsMayHold items
  | _ => false

/-- Whether one of some values may hold. -/
def itemsMayHold : List (Value Number) → Bool
  | [] => false
  | item :: rest => valueMayHold item || itemsMayHold rest

end

/-- The `xml` of `may_hold_blocker`. -/
def xmlMayHold (xml : Xml Number) : Bool :=
  (match xml.node with | .type _ => true | .flags _ _ => false) ||
    containsKey xml.extensions "nodeType".toList || membersMayHold xml.extensions

/-- The `discriminator` of `may_hold_blocker`. -/
def discriminatorMayHold (discriminator : Discriminator Number) : Bool :=
  discriminator.defaultMapping.isSome || containsKey discriminator.extensions "defaultMapping".toList ||
    membersMayHold discriminator.extensions

/-- Whether an entry is named for a holder, and what it names has the field. -/
def namedMayHold (schemas : Map (Schema Number)) : Bool :=
  holders.any fun (holder, field) =>
    ((schemas.lookup holder).bind Schema.asObject).any fun held => containsKey held.unknownKeywords field

/-- `may_hold_blocker`. -/
def mayHoldBlocker : Schema Number → Bool
  | .bool _ => false
  | .object object =>
      object.xml.any xmlMayHold || object.discriminator.any discriminatorMayHold ||
        (object.externalDocs.any fun docs => membersMayHold docs.extensions) ||
        ([object.defs, object.dependentSchemas, object.properties, object.patternProperties].any namedMayHold) ||
        membersMayHold object.unknownKeywords ||
        object.subschemas.attach.any fun schema => mayHoldBlocker schema.1
termination_by schema => sizeOf schema
decreasing_by exact SchemaObject.sizeOf_lt schema.2

/-- `collect_schema_blockers`, at a location. -/
def collectSchemaBlockers (arrangement : Arrangement Number) (count : Nat → Number) (location : Text)
    (schema : Schema Number) : List Text :=
  if mayHoldBlocker schema then
    collectSchemaValueBlockers location .keywords (toValue arrangement count schema)
  else
    []

/-! ## Values that hold nothing -/

section Values

variable {fields : Map (Value Number)} {location : Text} {members : Members}

/-- A member that may hold nothing. -/
theorem membersMayHold_eq_false_iff : membersMayHold fields = false ↔
    ∀ entry ∈ fields, (∀ holder ∈ holders, entry.1 = holder.1 → carries holder.2 entry.2 = false) ∧
      valueMayHold entry.2 = false := by
  induction fields with
  | nil => simp [membersMayHold]
  | cons entry rest ih =>
      rw [membersMayHold, List.forall_mem_cons, Bool.or_eq_false_iff, Bool.or_eq_false_iff, ih,
        List.any_eq_false]
      simp only [Bool.and_eq_true, beq_iff_eq, not_and, Bool.not_eq_true]

theorem itemsMayHold_eq_false_iff {items : List (Value Number)} :
    itemsMayHold items = false ↔ ∀ item ∈ items, valueMayHold item = false := by
  induction items with
  | nil => simp [itemsMayHold]
  | cons item rest ih => rw [itemsMayHold, List.forall_mem_cons, Bool.or_eq_false_iff, ih]

theorem containsKey_eq_true_iff {V : Type} {entries : Map V} {key : Text} :
    containsKey entries key = true ↔ ∃ value, (key, value) ∈ entries := by
  rw [containsKey, List.any_eq_true]
  constructor
  · rintro ⟨⟨other, value⟩, member, same⟩
    rw [beq_iff_eq] at same
    exact ⟨value, same ▸ member⟩
  · rintro ⟨value, member⟩
    exact ⟨(key, value), member, beq_self_eq_true key⟩

theorem mem_of_lookup_eq_some {V : Type} {entries : Map V} {key : Text} {value : V}
    (found : entries.lookup key = some value) : (key, value) ∈ entries := by
  obtain ⟨before, after, rfl, -⟩ := List.lookup_eq_some_iff.mp found
  exact List.mem_append_right _ List.mem_cons_self

/-- No holder among some members has its field. -/
def Uncarried (fields : Map (Value Number)) : Prop :=
  ∀ holder ∈ holders, ∀ value, fields.lookup holder.1 = some value → carries holder.2 value = false

theorem carried_eq_nil (uncarried : Uncarried fields) : carried location fields = [] := by
  refine List.flatMap_eq_nil_iff.mpr fun holder member => if_neg fun isCarried => ?_
  obtain ⟨value, found, carries⟩ := (Option.any_eq_true _ _).mp isCarried
  rw [uncarried holder member value found] at carries
  cases carries

/-- A member nothing is reported below. -/
def Silent (members : Members) (entry : Text × Value Number) : Prop :=
  (members = .keywords ∧ entry.1 ∈ instanceKeywords) ∨
    ∀ location, collectSchemaValueBlockers location
      (if members = .keywords ∧ entry.1 ∈ nameMaps then .names else .keywords) entry.2 = []

theorem collectMembers_eq_nil (silent : ∀ entry ∈ fields, Silent members entry) :
    collectMembers location members fields = [] := by
  induction fields with
  | nil => rw [collectMembers]
  | cons entry rest ih =>
      obtain ⟨first, others⟩ := List.forall_mem_cons.mp silent
      rw [collectMembers, ih others, List.append_nil]
      rcases first with skipped | nothing
      · exact if_pos skipped
      · split
        · rfl
        · exact nothing _

theorem collect_object (uncarried : Uncarried fields) (silent : ∀ entry ∈ fields, Silent members entry) :
    collectSchemaValueBlockers location members (.object fields) = [] := by
  rw [collectSchemaValueBlockers, carried_eq_nil uncarried, collectMembers_eq_nil silent, List.append_nil]

theorem collectItems_eq_nil {items : List (Value Number)} (index : Nat)
    (nothing : ∀ item ∈ items, ∀ location, collectSchemaValueBlockers location .keywords item = []) :
    collectItems location index items = [] := by
  induction items generalizing index with
  | nil => rw [collectItems]
  | cons item rest ih =>
      obtain ⟨first, others⟩ := List.forall_mem_cons.mp nothing
      rw [collectItems, first, ih (index + 1) others, List.append_nil]

theorem sizeOf_member {entry : Text × Value Number} (member : entry ∈ fields) :
    sizeOf entry.2 < sizeOf (Value.object fields) := by
  have below := List.sizeOf_lt_of_mem member
  obtain ⟨key, nested⟩ := entry
  simp only [Prod.mk.sizeOf_spec, Value.object.sizeOf_spec] at below ⊢
  omega

theorem sizeOf_item {items : List (Value Number)} {item : Value Number} (member : item ∈ items) :
    sizeOf item < sizeOf (Value.array items) := by
  have below := List.sizeOf_lt_of_mem member
  rw [Value.array.sizeOf_spec]
  omega

/-- A property of every value, from one of what each holds. -/
theorem valueInduction {motive : Value Number → Prop} (null : motive .null) (bool : ∀ value, motive (.bool value))
    (number : ∀ value, motive (.number value)) (string : ∀ value, motive (.string value))
    (array : ∀ items, (∀ item ∈ items, motive item) → motive (.array items))
    (object : ∀ fields, (∀ entry ∈ fields, motive entry.2) → motive (.object fields)) :
    ∀ value, motive value
  | .null => null
  | .bool value => bool value
  | .number value => number value
  | .string value => string value
  | .array items => array items fun item _ => valueInduction null bool number string array object item
  | .object fields => object fields fun entry _ => valueInduction null bool number string array object entry.2
termination_by value => sizeOf value
decreasing_by
  · exact sizeOf_item (by assumption)
  · exact sizeOf_member (by assumption)

/-- Nothing is reported of a value that may hold nothing. -/
theorem collect_eq_nil_of_valueMayHold (value : Value Number) (ruled : valueMayHold value = false)
    (location : Text) (members : Members) : collectSchemaValueBlockers location members value = [] := by
  induction value using valueInduction generalizing location members with
  | object fields ih =>
      rw [valueMayHold, membersMayHold_eq_false_iff] at ruled
      refine collect_object (fun holder isHolder value found => ?_) fun entry member => .inr fun location => ?_
      · exact (ruled _ (mem_of_lookup_eq_some found)).1 holder isHolder rfl
      · exact ih entry member (ruled entry member).2 location _
  | array items ih =>
      rw [valueMayHold, itemsMayHold_eq_false_iff] at ruled
      rw [collectSchemaValueBlockers]
      exact collectItems_eq_nil 0 fun item member location => ih item member (ruled item member) location .keywords
  | _ => rfl

end Values

/-! ## What is written of a schema -/

/-- A keyword nothing is reported of. -/
def Harmless (entry : Text × Value Number) : Prop :=
  (∀ holder ∈ holders, entry.1 = holder.1 → carries holder.2 entry.2 = false) ∧ Silent .keywords entry

section Schemas

variable {arrangement : Arrangement Number} {count : Nat → Number}
  {fields : List (Text × Option (Value Number))} {flattened : Map (Value Number)}

/-- What an object is written with is a field, or flattened in. -/
theorem mem_written {entry : Text × Value Number}
    (member : entry ∈ arrangement.arrange (extend []
      (fields.filterMap (fun (key, value) => value.map (key, ·)) ++ flattened))) :
    (entry.1, some entry.2) ∈ fields ∨ entry ∈ flattened := by
  have given := mem_of_mem_extend_nil ((arrangement.perm _).mem_iff.mp member)
  rcases List.mem_append.mp given with inFields | inFlattened
  · obtain ⟨⟨key, value⟩, isField, isEntry⟩ := List.mem_filterMap.mp inFields
    obtain ⟨written, rfl, rfl⟩ := Option.map_eq_some_iff.mp isEntry
    exact .inl isField
  · exact .inr inFlattened

/-- Nothing is reported of an object whose keywords are harmless. -/
theorem collect_written (harmless : ∀ field ∈ fields, ∀ value, field.2 = some value → Harmless (field.1, value))
    (ruled : membersMayHold flattened = false) (location : Text) :
    collectSchemaValueBlockers location .keywords (written arrangement fields flattened) = [] := by
  have each {entry : Text × Value Number}
      (member : entry ∈ arrangement.arrange (extend []
        (fields.filterMap (fun (key, value) => value.map (key, ·)) ++ flattened))) : Harmless entry := by
    rcases mem_written member with isField | inFlattened
    · exact harmless _ isField _ rfl
    · obtain ⟨uncarried, nothing⟩ := membersMayHold_eq_false_iff.mp ruled entry inFlattened
      exact ⟨uncarried, .inr fun location => collect_eq_nil_of_valueMayHold _ nothing location _⟩
  refine collect_object (fun holder isHolder value found => ?_) fun entry member => (each member).2
  exact (each (mem_of_lookup_eq_some found)).1 holder isHolder rfl

/-- A keyword that is no holder, and whose value may hold nothing. -/
theorem harmless_of_plain {entry : Text × Value Number} (unheld : holders.all (·.1 != entry.1) = true)
    (plain : valueMayHold entry.2 = false) : Harmless entry := by
  refine ⟨fun holder isHolder same => ?_, .inr fun location => collect_eq_nil_of_valueMayHold _ plain location _⟩
  have different := List.all_eq_true.mp unheld holder isHolder
  rw [same, bne_self_eq_false] at different
  cases different

/-- A keyword of instance data. -/
theorem harmless_of_instance {entry : Text × Value Number} (unheld : holders.all (·.1 != entry.1) = true)
    (isInstance : instanceKeywords.contains entry.1 = true) : Harmless entry := by
  refine ⟨fun holder isHolder same => ?_, .inl ⟨rfl, List.contains_iff_mem.mp isInstance⟩⟩
  have different := List.all_eq_true.mp unheld holder isHolder
  rw [same, bne_self_eq_false] at different
  cases different

theorem valueMayHold_string (text : Text) : valueMayHold (.string text : Value Number) = false := rfl

theorem valueMayHold_texts (items : List Text) : valueMayHold (texts items : Value Number) = false := by
  rw [texts, valueMayHold, itemsMayHold_eq_false_iff, List.forall_mem_map]
  exact fun text _ => valueMayHold_string text

theorem valueMayHold_float (number : Float64 Number) : valueMayHold (float number) = false := by
  cases number <;> rfl

theorem valueMayHold_typeValue (type : TypeSet) : valueMayHold (typeValue type : Value Number) = false := by
  cases type with
  | one type => rfl
  | many types => exact valueMayHold_texts _

/-- Entries that are no objects may hold nothing. -/
theorem valueMayHold_unlessEmpty {V : Type} {write : V → Value Number} {entries : Map V} {value : Value Number}
    (plain : ∀ entry, valueMayHold (write entry) = false) (flat : ∀ entry field, carries field (write entry) = false)
    (isValue : unlessEmpty arrangement write entries = some value) : valueMayHold value = false := by
  rw [unlessEmpty, Option.ite_none_left_eq_some, Option.some.injEq] at isValue
  obtain ⟨-, rfl⟩ := isValue
  rw [valueMayHold, membersMayHold_eq_false_iff]
  intro entry member
  obtain ⟨⟨key, held⟩, -, rfl⟩ := List.mem_map.mp ((arrangement.perm _).mem_iff.mp member)
  exact ⟨fun holder _ _ => flat held holder.2, plain held⟩

theorem valueMayHold_map {α : Type} {write : α → Value Number} {read : Option α} {value : Value Number}
    (plain : ∀ item, valueMayHold (write item) = false) (isValue : read.map write = some value) :
    valueMayHold value = false := by
  obtain ⟨item, -, rfl⟩ := Option.map_eq_some_iff.mp isValue
  exact plain item

/-- An object has a member it is written with, or that is flattened in. -/
theorem carries_written {field : Text} (isCarried : carries field (written arrangement fields flattened) = true) :
    (∃ value, (field, some value) ∈ fields) ∨ containsKey flattened field = true := by
  obtain ⟨value, member⟩ := containsKey_eq_true_iff.mp isCarried
  rcases mem_written member with isField | inFlattened
  · exact .inl ⟨value, isField⟩
  · exact .inr (containsKey_eq_true_iff.mpr ⟨value, inFlattened⟩)

theorem harmless_core (object : SchemaObject Number (Schema Number)) :
    ∀ field ∈ core object, ∀ value, field.2 = some value → Harmless (field.1, value) := by
  intro field member value isValue
  simp only [core, List.mem_cons, List.not_mem_nil, or_false] at member
  rcases member with rfl | rfl | rfl | rfl | rfl | rfl | rfl <;>
    exact harmless_of_plain rfl (valueMayHold_map valueMayHold_string isValue)

theorem harmless_validation (object : SchemaObject Number (Schema Number)) :
    ∀ field ∈ validation arrangement count object, ∀ value, field.2 = some value →
      Harmless (field.1, value) := by
  intro field member value isValue
  simp only [validation, List.mem_cons, List.not_mem_nil, or_false] at member
  rcases member with rfl | rfl | rfl | rfl | rfl | rfl | rfl | rfl | rfl | rfl | rfl | rfl | rfl | rfl | rfl |
    rfl | rfl | rfl | rfl | rfl | rfl | rfl | rfl <;>
  first
  | exact harmless_of_instance rfl rfl
  | exact harmless_of_plain rfl (valueMayHold_map valueMayHold_typeValue isValue)
  | exact harmless_of_plain rfl (valueMayHold_map valueMayHold_float isValue)
  | exact harmless_of_plain rfl (valueMayHold_map (fun _ => rfl) isValue)
  | exact harmless_of_plain rfl (valueMayHold_map valueMayHold_texts isValue)
  | exact harmless_of_plain rfl (valueMayHold_unlessEmpty valueMayHold_texts (fun _ _ => rfl) isValue)

/-- A keyword whose value is an object of fields that may hold nothing. -/
theorem harmless_written {key : Text} (plain : ∀ field ∈ fields, holders.all (·.1 != field.1) = true ∧
      ∀ value, field.2 = some value → valueMayHold value = false)
    (ruled : membersMayHold flattened = false) (single : nameMaps.contains key = false)
    (uncarried : ∀ holder ∈ holders, key = holder.1 →
      ¬ ((∃ value, (holder.2, some value) ∈ fields) ∨ containsKey flattened holder.2 = true)) :
    Harmless (key, written arrangement fields flattened) := by
  refine ⟨fun holder isHolder same => Bool.eq_false_iff.mpr fun isCarried =>
    uncarried holder isHolder same (carries_written isCarried), .inr fun location => ?_⟩
  have notNames : ¬ (Members.keywords = .keywords ∧ key ∈ nameMaps) := fun names => by
    rw [List.contains_iff_mem.mpr names.2] at single
    cases single
  rw [if_neg notNames]
  refine collect_written (fun field member value isValue => ?_) ruled location
  exact harmless_of_plain (plain field member).1 ((plain field member).2 value isValue)

theorem harmless_xml {xml : Xml Number} (ruled : xmlMayHold xml = false) :
    Harmless ("xml".toList, xmlValue arrangement xml) := by
  rw [xmlMayHold, Bool.or_eq_false_iff, Bool.or_eq_false_iff] at ruled
  obtain ⟨⟨flags, unkeyed⟩, extensions⟩ := ruled
  obtain ⟨name, namespaceUri, elementPrefix, node, flattened⟩ := xml
  cases node with
  | type nodeType => cases flags
  | flags isAttribute wrapped =>
      refine harmless_written (fun field member => ?_) extensions rfl fun holder isHolder same => ?_
      · simp only [List.mem_cons, List.not_mem_nil, or_false] at member
        rcases member with rfl | rfl | rfl | rfl | rfl | rfl
        case inl => exact ⟨rfl, fun value isValue => by cases isValue⟩
        all_goals exact ⟨rfl, fun value isValue => valueMayHold_map (fun _ => rfl) isValue⟩
      · simp only [holders, List.mem_cons, List.not_mem_nil, or_false] at isHolder
        rcases isHolder with rfl | rfl
        · rintro (⟨value, isField⟩ | keyed)
          · simp at isField
          · rw [unkeyed] at keyed
            cases keyed
        · exact absurd same (by decide)

theorem harmless_discriminator {discriminator : Discriminator Number}
    (ruled : discriminatorMayHold discriminator = false) :
    Harmless ("discriminator".toList, discriminatorValue arrangement discriminator) := by
  rw [discriminatorMayHold, Bool.or_eq_false_iff, Bool.or_eq_false_iff, Option.isSome_eq_false_iff,
    Option.isNone_iff_eq_none] at ruled
  obtain ⟨⟨unmapped, unkeyed⟩, extensions⟩ := ruled
  refine harmless_written (fun field member => ?_) extensions rfl fun holder isHolder same => ?_
  · simp only [List.mem_cons, List.not_mem_nil, or_false] at member
    rcases member with rfl | rfl | rfl
    · refine ⟨rfl, fun value isValue => ?_⟩
      rw [← Option.some.inj isValue]
      rfl
    · exact ⟨rfl, fun value isValue => valueMayHold_unlessEmpty (fun _ => rfl) (fun _ _ => rfl) isValue⟩
    · exact ⟨rfl, fun value isValue => valueMayHold_map (fun _ => rfl) isValue⟩
  · simp only [holders, List.mem_cons, List.not_mem_nil, or_false] at isHolder
    rcases isHolder with rfl | rfl
    · exact absurd same (by decide)
    · rintro (⟨value, isField⟩ | keyed)
      · simp [unmapped] at isField
      · rw [unkeyed] at keyed
        cases keyed

theorem harmless_docs {docs : ExternalDocumentation Number} (ruled : membersMayHold docs.extensions = false) :
    Harmless ("externalDocs".toList, docsValue arrangement docs) := by
  refine harmless_written (fun field member => ?_) ruled rfl fun holder isHolder same => ?_
  · simp only [List.mem_cons, List.not_mem_nil, or_false] at member
    rcases member with rfl | rfl
    · exact ⟨rfl, fun value isValue => valueMayHold_map (fun _ => rfl) isValue⟩
    · refine ⟨rfl, fun value isValue => ?_⟩
      rw [← Option.some.inj isValue]
      rfl
  · simp only [holders, List.mem_cons, List.not_mem_nil, or_false] at isHolder
    rcases isHolder with rfl | rfl <;> exact absurd same (by decide)

theorem harmless_metadata {object : SchemaObject Number (Schema Number)}
    (xml : object.xml.any xmlMayHold = false) (discriminator : object.discriminator.any discriminatorMayHold = false)
    (docs : (object.externalDocs.any fun docs => membersMayHold docs.extensions) = false) :
    ∀ field ∈ metadata arrangement object, ∀ value, field.2 = some value → Harmless (field.1, value) := by
  intro field member value isValue
  simp only [metadata, List.mem_cons, List.not_mem_nil, or_false] at member
  rcases member with rfl | rfl | rfl | rfl | rfl | rfl | rfl | rfl | rfl | rfl | rfl
  case inr.inr.inr.inr.inr.inr.inr.inl =>
    obtain ⟨held, isHeld, rfl⟩ := Option.map_eq_some_iff.mp isValue
    rw [isHeld, Option.any_some] at discriminator
    exact harmless_discriminator discriminator
  case inr.inr.inr.inr.inr.inr.inr.inr.inl =>
    obtain ⟨held, isHeld, rfl⟩ := Option.map_eq_some_iff.mp isValue
    rw [isHeld, Option.any_some] at xml
    exact harmless_xml xml
  case inr.inr.inr.inr.inr.inr.inr.inr.inr.inl =>
    obtain ⟨held, isHeld, rfl⟩ := Option.map_eq_some_iff.mp isValue
    rw [isHeld, Option.any_some] at docs
    exact harmless_docs docs
  all_goals
    first
    | exact harmless_of_instance rfl rfl
    | exact harmless_of_plain rfl (valueMayHold_map (fun _ => rfl) isValue)

/-! ## What schemas are written of schemas -/

section Held

variable {object : SchemaObject Number (Schema Number)} {keyword : Text} {schemas : Map (Schema Number)}

/-- The keywords that hold schemas by name. -/
theorem mem_nameMaps_of_keyed (member : (keyword, Held.keyed schemas) ∈ object.held) :
    keyword ∈ nameMaps ∧
      schemas ∈ [object.defs, object.dependentSchemas, object.properties, object.patternProperties] := by
  simp only [Applicators.held, Applicators.inOrder, List.cons_append, List.nil_append, List.mem_cons,
    List.not_mem_nil, or_false, Prod.mk.injEq, Held.keyed.injEq, reduceCtorEq, and_false, false_or] at member
  rcases member with ⟨rfl, rfl⟩ | ⟨rfl, rfl⟩ | ⟨rfl, rfl⟩ | ⟨rfl, rfl⟩ <;> simp [nameMaps]

theorem notMem_nameMaps_of_single {schema : Option (Schema Number)}
    (member : (keyword, Held.single schema) ∈ object.held) : keyword ∉ nameMaps := by
  simp only [Applicators.held, Applicators.inOrder, List.cons_append, List.nil_append, List.mem_cons,
    List.not_mem_nil, or_false, Prod.mk.injEq, Held.single.injEq, reduceCtorEq, and_false, false_or] at member
  rcases member with ⟨rfl, rfl⟩ | ⟨rfl, rfl⟩ | ⟨rfl, rfl⟩ | ⟨rfl, rfl⟩ | ⟨rfl, rfl⟩ | ⟨rfl, rfl⟩ | ⟨rfl, rfl⟩ |
    ⟨rfl, rfl⟩ | ⟨rfl, rfl⟩ | ⟨rfl, rfl⟩ | ⟨rfl, rfl⟩ <;> decide

theorem unheld_of_mem_held {entry : Text × Held (Schema Number)} (member : entry ∈ object.held) :
    holders.all (·.1 != entry.1) = true := by
  have each : object.held.all (fun entry => holders.all (·.1 != entry.1)) = true := rfl
  exact List.all_eq_true.mp each entry member

end Held

/-- What the keywords of a schema object are written with. -/
theorem mem_fields {object : SchemaObject Number (Schema Number)} {applied : List (Text × Option (Value Number))}
    {length : Nat} {field : Text × Option (Value Number)}
    (member : field ∈ core object ++ applied.take length ++ validation arrangement count object ++
      applied.drop length ++ metadata arrangement object) :
    field ∈ core object ∨ field ∈ applied ∨ field ∈ validation arrangement count object ∨
      field ∈ metadata arrangement object := by
  simp only [List.mem_append, or_assoc] at member
  rcases member with inCore | inTake | inValidation | inDrop | inMetadata
  · exact .inl inCore
  · exact .inr (.inl (List.mem_of_mem_take inTake))
  · exact .inr (.inr (.inl inValidation))
  · exact .inr (.inl (List.mem_of_mem_drop inDrop))
  · exact .inr (.inr (.inr inMetadata))

/-- A schema is written with the field of a holder only where it is an unknown keyword. -/
theorem containsKey_of_carries {holder : Text × Text} (isHolder : holder ∈ holders) {schema : Schema Number}
    (isCarried : carries holder.2 (toValue arrangement count schema) = true) :
    (schema.asObject.any fun held => containsKey held.unknownKeywords holder.2) = true := by
  cases schema with
  | bool admits =>
      rw [toValue] at isCarried
      cases isCarried
  | object object =>
      rw [toValue] at isCarried
      rcases carries_written isCarried with ⟨value, isField⟩ | keyed
      · have unnamed {fields : List (Text × Option (Value Number))}
            (names : fields.all (fun field => holders.all (·.2 != field.1)) = true)
            (member : (holder.2, some value) ∈ fields) : False := by
          have different := List.all_eq_true.mp (List.all_eq_true.mp names _ member) holder isHolder
          rw [bne_self_eq_false] at different
          cases different
        rcases mem_fields isField with inCore | inApplied | inValidation | inMetadata
        · exact (unnamed rfl inCore).elim
        · obtain ⟨⟨entry, inHeld⟩, -, isEntry⟩ := List.mem_map.mp inApplied
          have names : object.held.all (fun entry => holders.all (·.2 != entry.1)) = true := rfl
          have different := List.all_eq_true.mp (List.all_eq_true.mp names _ inHeld) holder isHolder
          rw [← (Prod.mk.inj isEntry).1, bne_self_eq_false] at different
          cases different
        · exact (unnamed rfl inValidation).elim
        · exact (unnamed rfl inMetadata).elim
      · exact keyed

/-- Nothing is reported of a keyword, where nothing is of the schemas it holds. -/
theorem harmless_held {object : SchemaObject Number (Schema Number)} {entry : Text × Held (Schema Number)}
    (member : entry ∈ object.held)
    (named : [object.defs, object.dependentSchemas, object.properties, object.patternProperties].any namedMayHold =
      false)
    (nothing : ∀ schema ∈ entry.2.schemas, ∀ location,
      collectSchemaValueBlockers location .keywords (toValue arrangement count schema) = [])
    {value : Value Number}
    (isValue : heldValue arrangement entry.2 (fun schema _ => toValue arrangement count schema) = some value) :
    Harmless (entry.1, value) := by
  obtain ⟨keyword, held⟩ := entry
  refine ⟨fun holder isHolder same => ?_, .inr fun location => ?_⟩
  · have different := List.all_eq_true.mp (unheld_of_mem_held member) holder isHolder
    rw [← same, bne_self_eq_false] at different
    cases different
  cases held with
  | keyed schemas =>
      obtain ⟨isNameMap, isNamed⟩ := mem_nameMaps_of_keyed member
      rw [heldValue, Option.ite_none_left_eq_some, Option.some.injEq] at isValue
      obtain ⟨-, rfl⟩ := isValue
      have entries : (schemas.attach.map fun entry => (entry.1.1, toValue arrangement count entry.1.2)) =
          schemas.map fun entry => (entry.1, toValue arrangement count entry.2) :=
        List.attach_map_val (f := fun entry : Text × Schema Number => (entry.1, toValue arrangement count entry.2))
      rw [if_pos ⟨rfl, isNameMap⟩, entries]
      refine collect_object (fun holder isHolder value found => ?_) fun entry inObject => .inr fun location => ?_
      · rw [arrangement.lookup, lookup_map] at found
        obtain ⟨schema, isSchema, rfl⟩ := Option.map_eq_some_iff.mp found
        refine Bool.eq_false_iff.mpr fun isCarried => ?_
        refine List.any_eq_false.mp (eq_false_of_ne_true (List.any_eq_false.mp named schemas isNamed)) holder isHolder ?_
        dsimp only
        rw [isSchema, Option.bind_some]
        exact containsKey_of_carries isHolder isCarried
      · obtain ⟨⟨key, schema⟩, inSchemas, rfl⟩ := List.mem_map.mp ((arrangement.perm _).mem_iff.mp inObject)
        rw [if_neg fun names => Members.noConfusion names.1]
        exact nothing schema (List.mem_map_of_mem inSchemas) location
  | listed schemas =>
      cases schemas with
      | none => cases isValue
      | some schemas =>
          cases isValue
          rw [collectSchemaValueBlockers]
          refine collectItems_eq_nil 0 fun item isItem location => ?_
          obtain ⟨⟨schema, inSchemas⟩, -, rfl⟩ := List.mem_map.mp isItem
          exact nothing schema inSchemas location
  | single schema =>
      cases schema with
      | none => cases isValue
      | some schema =>
          cases isValue
          rw [if_neg fun names => notMem_nameMaps_of_single member names.2]
          exact nothing schema (List.mem_singleton_self schema) location

/-- Nothing is reported of a schema the pre-check rules out. -/
theorem collect_toValue_eq_nil (schema : Schema Number) (ruled : mayHoldBlocker schema = false) (location : Text) :
    collectSchemaValueBlockers location .keywords (toValue arrangement count schema) = [] := by
  induction schema using Schema.induction generalizing location with
  | bool admits =>
      rw [toValue]
      rfl
  | object object ih =>
      rw [mayHoldBlocker] at ruled
      simp only [Bool.or_eq_false_iff] at ruled
      obtain ⟨⟨⟨⟨⟨xml, discriminator⟩, docs⟩, named⟩, unknown⟩, below⟩ := ruled
      rw [toValue]
      refine collect_written (fun field isField value isValue => ?_) unknown location
      rcases mem_fields isField with inCore | inApplied | inValidation | inMetadata
      · exact harmless_core object field inCore value isValue
      · obtain ⟨⟨entry, inHeld⟩, -, rfl⟩ := List.mem_map.mp inApplied
        refine harmless_held inHeld named (fun schema inEntry location => ?_) isValue
        have isBelow : schema ∈ object.subschemas := List.mem_flatMap.mpr ⟨entry, inHeld, inEntry⟩
        refine ih schema isBelow (Bool.eq_false_iff.mpr fun holds => ?_) location
        exact List.any_eq_false.mp below ⟨schema, isBelow⟩ (List.mem_attach _ _) holds
      · exact harmless_validation object field inValidation value isValue
      · exact harmless_metadata xml discriminator docs field inMetadata value isValue

end Schemas

/-- The pre-check hides nothing: it rules out only schemas the walk reports nothing of, so
what is reported is what the walk reports. -/
theorem collectSchemaBlockers_eq (arrangement : Arrangement Number) (count : Nat → Number) (location : Text)
    (schema : Schema Number) :
    (mayHoldBlocker schema = false →
      collectSchemaValueBlockers location .keywords (toValue arrangement count schema) = []) ∧
    collectSchemaBlockers arrangement count location schema =
      collectSchemaValueBlockers location .keywords (toValue arrangement count schema) := by
  refine ⟨fun ruled => collect_toValue_eq_nil schema ruled location, ?_⟩
  rw [collectSchemaBlockers]
  cases holds : mayHoldBlocker schema with
  | true => exact if_pos rfl
  | false => exact (collect_toValue_eq_nil schema holds location).symm

end Kynos.OpenApi.Downgrade
