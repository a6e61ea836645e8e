import Kynos.Collection.Assoc
import Kynos.OpenApi.ComponentName

/-!
# Schema registration

A named type is described once and referred to by its name; an anonymous one is
described in place. A name is reserved while the type under it is described, and
a body that meets a reserved name waits to be compared with the one described.
-/

namespace Kynos.Schema

open Kynos.Collection Kynos.OpenApi

/-! ## Schemas -/

/-- A schema: what a `$ref` and a description beside it hold, its other keywords,
and the schemas below it. -/
inductive OpenApiSchema (Keywords : Type*)
  | bool (admits : Bool)
  | object (reference description : Option Text) (keywords : Keywords)
      (subschemas : List (OpenApiSchema Keywords))

variable {Kind Keywords : Type*}

/-- Where components stand: what a reference to one starts with. -/
def componentsPath : Text := "#/components/schemas/".toList

namespace OpenApiSchema

mutual

def decEq [DecidableEq Keywords] :
    (first second : OpenApiSchema Keywords) → Decidable (first = second)
  | .bool first, .bool second => decidable_of_iff (first = second) (by rw [bool.injEq])
  | .object first held keywords subschemas, .object second kept others below =>
      match decEqAll subschemas below with
      | isTrue same =>
          decidable_of_iff (first = second ∧ held = kept ∧ keywords = others)
            (by rw [object.injEq, eq_true same, and_true])
      | isFalse different => isFalse fun same => different (by cases same; rfl)
  | .bool _, .object _ _ _ _ => isFalse nofun
  | .object _ _ _ _, .bool _ => isFalse nofun

def decEqAll [DecidableEq Keywords] :
    (first second : List (OpenApiSchema Keywords)) → Decidable (first = second)
  | [], [] => isTrue rfl
  | first :: rest, second :: others =>
      match decEq first second, decEqAll rest others with
      | isTrue same, isTrue alike => isTrue (by rw [same, alike])
      | isFalse different, _ => isFalse fun same => different (List.cons.inj same).1
      | _, isFalse different => isFalse fun same => different (List.cons.inj same).2
  | [], _ :: _ => isFalse nofun
  | _ :: _, [] => isFalse nofun

end

instance [DecidableEq Keywords] : DecidableEq (OpenApiSchema Keywords) :=
  decEq

/-- `Schema::component`: a reference and no other keyword. -/
def component [Inhabited Keywords] (name : Text) : OpenApiSchema Keywords :=
  .object (some (componentsPath ++ name)) none default []

/-- The component a reference names. -/
def named (reference : Text) : Option Text :=
  if componentsPath.isPrefixOf reference then
    some (reference.drop componentsPath.length)
  else
    none

mutual

/-- The components a schema refers to, at any depth. -/
def components : OpenApiSchema Keywords → List Text
  | .bool _ => []
  | .object reference _ _ subschemas =>
      (reference.bind named).toList ++ componentsOfAll subschemas

/-- The components schemas refer to. -/
def componentsOfAll : List (OpenApiSchema Keywords) → List Text
  | [] => []
  | schema :: rest => components schema ++ componentsOfAll rest

end

/-- A schema with a description in place of its own. -/
def describedAs (description : Option Text) : OpenApiSchema Keywords → OpenApiSchema Keywords
  | .bool admits => .bool admits
  | .object reference held keywords subschemas =>
      .object reference (description.or held) keywords subschemas

end OpenApiSchema

/-! ## Types -/

/-- What a type says of itself: its component name, the types its `schema`
resolves in order, and the body it builds of what they resolve to. A body refers
to no component of its own accord. -/
structure Description (Kind Keywords : Type*) where
  name : Option ComponentName
  references : List Kind
  body : List (OpenApiSchema Keywords) → OpenApiSchema Keywords
  given : ∀ schemas, ∀ component ∈ (body schemas).components,
    ∃ schema ∈ schemas, component ∈ schema.components

/-- A family of types: what `std::any::type_name` answers for each, and what each
says of itself. -/
structure Family (Kind Keywords : Type*) where
  typeName : Kind → Text
  described : Kind → Description Kind Keywords

/-! ## The registry -/

/-- `Reservation`: a component name held by a descent that has not finished. -/
structure Reservation (Keywords : Type*) where
  name : Text
  origin : Text
  rivals : List (OpenApiSchema Keywords)

/-- `Renamed`: a name given to one instantiation. -/
structure Renamed where
  name : ComponentName
  description : Option Text

/-- `Registry`, outermost reservations and inlinings first. -/
structure Registry (Keywords : Type*) where
  schemas : List (Text × OpenApiSchema Keywords)
  origins : List (Text × Text)
  reserved : List (Reservation Keywords)
  inlining : List (Text × ℕ)
  renamed : List (Text × Renamed)
  conflicts : List Text

/-- The name a type is published under, if it has one, with the description that
replaces its own. -/
def Family.published (family : Family Kind Keywords) (renamed : List (Text × Renamed))
    (kind : Kind) : Option (ComponentName × Option Text) :=
  (family.described kind).name.map fun name =>
    match renamed.lookup name.text with
    | some renamed => (renamed.name, renamed.description)
    | none => (name, none)

/-- A body filed with the outermost reservation of a name. -/
def file (key : Text) (schema : OpenApiSchema Keywords) :
    List (Reservation Keywords) → Option (List (Reservation Keywords))
  | [] => none
  | reservation :: rest =>
      if reservation.name = key then
        some ({ reservation with rivals := reservation.rivals ++ [schema] } :: rest)
      else
        (file key schema rest).map (reservation :: ·)

namespace Registry

/-- `Registry::new`, with the names given to instantiations. -/
def new (renamed : List (Text × Renamed)) : Registry Keywords :=
  ⟨[], [], [], [], renamed, []⟩

variable [DecidableEq Keywords]

/-- `Registry::register`; an error is the contested name. -/
def register (registry : Registry Keywords) (name : ComponentName)
    (schema : OpenApiSchema Keywords) : Except Text (Registry Keywords) :=
  match registry.schemas.lookup name.text with
  | some registered => if registered ≠ schema then .error name.text else .ok registry
  | none => .ok { registry with schemas := put name.text schema registry.schemas }

/-- A rival compared with what is registered, and a conflict recorded. -/
def compare (name : ComponentName) (registry : Registry Keywords)
    (rival : OpenApiSchema Keywords) : Registry Keywords :=
  match registry.register name rival with
  | .ok registered => registered
  | .error conflict => { registry with conflicts := registry.conflicts ++ [conflict] }

/-- A body registered by the type it describes: the first to claim a name keeps
it. -/
def claim (registry : Registry Keywords) (name : ComponentName) (origin : Text)
    (schema : OpenApiSchema Keywords) : Registry Keywords :=
  match registry.register name schema with
  | .ok registered =>
      match registered.origins.lookup name.text with
      | some _ => registered
      | none => { registered with origins := put name.text origin registered.origins }
  | .error conflict => { registry with conflicts := registry.conflicts ++ [conflict] }

/-- What `Registry::resolve` does with a body once described: files it with
another reservation of its name, or registers it and compares its rivals. An
assertion that fails is nothing. -/
def conclude (registry : Registry Keywords) (name : ComponentName) (origin : Text)
    (schema : OpenApiSchema Keywords) : Option (Registry Keywords) :=
  match registry.reserved.getLast? with
  | none => none
  | some reservation =>
      match file name.text schema registry.reserved.dropLast with
      | some filed =>
          if reservation.rivals.isEmpty then
            some { registry with reserved := filed }
          else
            none
      | none =>
          let popped := { registry with reserved := registry.reserved.dropLast }
          some (reservation.rivals.foldl (compare name) (popped.claim name origin schema))

end Registry

/-! ## Resolving -/

/-- Types resolved one after the other. -/
def each (resolveOne : Kind → Registry Keywords → Option (OpenApiSchema Keywords × Registry Keywords)) :
    List Kind → Registry Keywords → Option (List (OpenApiSchema Keywords) × Registry Keywords)
  | [], registry => some ([], registry)
  | kind :: rest, registry => do
      let (schema, registry) ← resolveOne kind registry
      let (schemas, registry) ← each resolveOne rest registry
      some (schema :: schemas, registry)

variable [DecidableEq Keywords] [Inhabited Keywords]

/-- `Registry::resolve`, descending at most so many levels. A descent cut short
is nothing, and so is one that panics: where an anonymous type reaches itself
under as many reservations as it began with. -/
def resolve (family : Family Kind Keywords) :
    ℕ → Kind → Registry Keywords → Option (OpenApiSchema Keywords × Registry Keywords)
  | 0, _, _ => none
  | fuel + 1, kind, registry =>
      let origin := family.typeName kind
      match family.published registry.renamed kind with
      | some (name, description) =>
          let reference := OpenApiSchema.component name.text
          if registry.reserved.any fun held => held.name == name.text && held.origin == origin then
            some (reference, registry)
          else if registry.origins.lookup name.text = some origin then
            some (reference, registry)
          else do
            let reservation : Reservation Keywords := ⟨name.text, origin, []⟩
            let (schemas, registry) ← each (resolve family fuel) (family.described kind).references
              { registry with reserved := registry.reserved ++ [reservation] }
            let schema := ((family.described kind).body schemas).describedAs description
            let registry ← registry.conclude name origin schema
            some (reference, registry)
      | none =>
          let entry := (origin, registry.reserved.length)
          if entry ∈ registry.inlining then
            none
          else do
            let (schemas, registry) ← each (resolve family fuel) (family.described kind).references
              { registry with inlining := registry.inlining ++ [entry] }
            some ((family.described kind).body schemas,
              { registry with inlining := registry.inlining.dropLast })

end Kynos.Schema
