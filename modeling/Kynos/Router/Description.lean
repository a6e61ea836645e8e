import Kynos.OpenApi.PathNesting
import Kynos.Router.Fallback
import Kynos.Router.Method
import Kynos.Run.Traced

/-!
# Describing and building a router

A router is described first: its operations become a document, the match table
is tried, and the rules of the specification are run over the document. Building
describes, refuses on any error, and then fills the match table that serves. What
the rest of describing makes of the router is a parameter.
-/

namespace Kynos.Description

open Kynos.OpenApi Kynos.Router Kynos.Run

/-! ## Violations -/

inductive Severity where
  | error
  | warning
  deriving DecidableEq, Repr

/-- What is wrong with a document: the errors that matter to the match table, and
all others. -/
inductive SpecError (Other : Type) where
  | invalidPathTemplate (template : Text) (reason : InvalidPathTemplate)
  | duplicatePathTemplate (template existing : Text)
  | uncheckedSchema
  | other (error : Other)
  deriving DecidableEq, Repr

/-- What is wrong with a router. -/
inductive RouterError (Other : Type) where
  | spec (error : SpecError Other)
  | duplicateOperation (method : Method) (path : Text)
  | routeConflict (pattern existing : Text)
  | invalidRoutePattern (pattern : Text)
  | other (error : Other)
  deriving DecidableEq, Repr

structure Violation (Error : Type) where
  location : Text
  severity : Severity
  error : Error
  deriving DecidableEq, Repr

/-- One error-level violation. -/
def errorAt {Error : Type} (location : Text) (error : Error) : Violation Error :=
  ⟨location, .error, error⟩

/-- A violation found in the document, as one of the router. -/
def lift {Other : Type} (violation : Violation (SpecError Other)) : Violation (RouterError Other) :=
  ⟨violation.location, violation.severity, .spec violation.error⟩

/-- Where a `paths` key sits in the document. -/
def pathLocation (key : Text) : Text :=
  "#/paths/".toList ++ key.flatMap fun character =>
    if character = '~' then "~0".toList else if character = '/' then "~1".toList else [character]

/-- Why a router is not described, or not built. -/
inductive Error (Other Failure : Type) where
  | invalid (violations : List (Violation (RouterError Other)))
  | other (failure : Failure)

/-! ## The match table -/

/-- Why the match table refuses a pattern. -/
inductive InsertError where
  | conflict (existing : Text)
  | other

/-- The match table: what a pattern makes of it, and whether it is refused, told
by the patterns before. -/
structure Matcher (Table : Type) where
  empty : Table
  insert : Table → Text → Table × Option InsertError

variable {Table Operation Rest Other Failure Json : Type}

/-- What the match table refusing a pattern means. -/
def matchTableRefusal (pattern : Text) : InsertError → RouterError Other
  | .conflict existing => .routeConflict pattern existing
  | .other => .invalidRoutePattern pattern

/-- A dry run of the match table. -/
structure TrialTable (Table : Type) where
  table : Table
  held : List Text
  shapes : List (Option Text)

namespace TrialTable

variable (matcher : Matcher Table) (trial : TrialTable Table)

/-- Tries a pattern; one already held is not tried again. -/
def insert (pattern : Text) : TrialTable Table × Option (RouterError Other) :=
  if pattern ∈ trial.held then
    (trial, none)
  else
    let inserted := matcher.insert trial.table pattern
    ({ trial with table := inserted.1, held := pattern :: trial.held },
      inserted.2.map (matchTableRefusal pattern))

/-- Tries a described key, skipping a shape already held. -/
def insertTemplate (template : PathTemplate) : TrialTable Table × Option (RouterError Other) :=
  if template.raw ∈ trial.held then
    (trial, none)
  else if template.normalized ∈ trial.shapes then
    (trial, none)
  else
    { trial with shapes := template.normalized :: trial.shapes }.insert matcher template.raw

end TrialTable

/-! ## Routers and documents -/

/-- A mounted operation: its template is one the parser gave, and
`isDescription` says that it serves the document. -/
structure Mounted (Operation : Type) where
  method : Method
  path : PathTemplate
  accepted : Accepted path
  operation : Operation
  isDescription : Bool

/-- A route no template expresses. -/
structure UncheckedRoute where
  pattern : Text
  methods : List Method

structure Router (Operation Other : Type) where
  mounted : List (Mounted Operation)
  unchecked : List UncheckedRoute
  violations : List (Violation (RouterError Other))
  denyUncheckedSchemas : Bool
  trailingSlashes : TrailingSlashPolicy

/-- The operations of a path, by method. -/
abbrev PathItem (Operation : Type) := Method → Option Operation

/-- A document: its paths in the order they were described, and the rest. -/
structure Document (Operation Rest : Type) where
  paths : List (Text × PathItem Operation)
  rest : Rest

/-- What the rest of describing makes of a router. -/
structure Surroundings (Operation Rest Other Failure Json : Type) where
  unhonourable : Option Failure
  schemes : List (Violation (RouterError Other))
  links : Option Failure
  shortCircuits : List (RouterError Other)
  conflicts : Option Failure
  rest : Rest
  lowestExpressing : Document Operation Rest → Except (Error Other Failure) Rest
  annotate : Rest → Rest
  rulesBefore : Document Operation Rest → List (Violation (SpecError Other))
  rulesOfItem : Document Operation Rest → Text → List (Violation (SpecError Other))
  rulesAfter : Document Operation Rest → List (Violation (SpecError Other))
  toJson : Document Operation Rest → Except Failure Json
  serializes : ∀ document, ∃ json, toJson document = .ok json

/-! ## The rule over templates -/

/-- A walk over the items of `paths`: the key each normalized template was first
seen under, and what was found. -/
structure Items (Other : Type) where
  normalizedPaths : List (Option Text × Text)
  violations : List (Violation (SpecError Other))

/-- One item: its template, and the rules below it where the template parses. -/
def Items.pathItem (rules : Text → List (Violation (SpecError Other))) (items : Items Other)
    (raw : Text) : Items Other :=
  match PathTemplate.parse raw with
  | .error reason =>
      { items with
        violations := items.violations ++ [errorAt (pathLocation raw) (.invalidPathTemplate raw reason)] }
  | .ok template =>
      let existing := (items.normalizedPaths.lookup template.normalized).getD raw
      { normalizedPaths :=
          match items.normalizedPaths.lookup template.normalized with
          | some _ => items.normalizedPaths
          | none => items.normalizedPaths ++ [(template.normalized, raw)]
        violations := items.violations ++
          (if existing ≠ raw then [errorAt (pathLocation raw) (.duplicatePathTemplate raw existing)] else []) ++
          rules raw }

/-- `check_paths`. -/
def checkPaths (rules : Text → List (Violation (SpecError Other))) (keys : List Text) :
    List (Violation (SpecError Other)) :=
  (keys.foldl (Items.pathItem rules) ⟨[], []⟩).violations

/-! ## Describing -/

/-- The paths described so far, and what is wrong with them. -/
structure Paths (Operation Other : Type) where
  items : List (Text × PathItem Operation)
  violations : List (Violation (RouterError Other))

/-- A path's item changed where it is, or added at the end. -/
def putItem (key : Text) (item : PathItem Operation) :
    List (Text × PathItem Operation) → List (Text × PathItem Operation)
  | [] => [(key, item)]
  | (other, known) :: rest =>
      if other = key then (key, item) :: rest else (other, known) :: putItem key item rest

/-- Where an operation sits in the document. -/
def operationLocation (key : Text) (method : Method) : Text :=
  pathLocation key ++ '/' :: Text.toAsciiLowercase method.asWireStr

/-- One operation described; an operation it replaces is a violation. -/
def Paths.describe (paths : Paths Operation Other) (mounted : Mounted Operation) :
    Paths Operation Other :=
  let key := mounted.path.raw
  let item := (paths.items.lookup key).getD fun _ => none
  { items := putItem key (Function.update item mounted.method (some mounted.operation)) paths.items
    violations := paths.violations ++
      if (item mounted.method).isSome then
        [errorAt (operationLocation key mounted.method) (.duplicateOperation mounted.method key)]
      else
        [] }

/-- A violation recorded unless it is. -/
def pushNew [DecidableEq Other] (violations : List (Violation (RouterError Other)))
    (violation : Violation (RouterError Other)) : List (Violation (RouterError Other)) :=
  if violation ∈ violations then violations else violations ++ [violation]

namespace Router

variable (matcher : Matcher Table) (router : Router Operation Other)

/-- The table tried with every template and then every unchecked pattern, and
every refusal. -/
def tryPatterns : TrialTable Table × List (Violation (RouterError Other)) :=
  let described := dryRun (fun trial (mounted : Mounted Operation) =>
    (trial.insertTemplate matcher mounted.path).map id
      (Option.map (errorAt (pathLocation mounted.path.raw)))) (⟨matcher.empty, [], []⟩, [])
    router.mounted
  dryRun (fun trial route =>
    (trial.insert matcher route.pattern).map id (Option.map (errorAt "#".toList))) described
    router.unchecked

/-- `refuse_repeated_unchecked`: every method and pattern of an unchecked route
that was declared before. -/
def repeatedUnchecked : List (Violation (RouterError Other)) :=
  let declared := router.mounted.map fun mounted => (mounted.path.raw, mounted.method)
  let pairs := router.unchecked.flatMap fun route => route.methods.map (route.pattern, ·)
  (pairs.foldl (fun state pair =>
    if pair ∈ state.1 then
      let location := if pair ∈ declared then operationLocation pair.1 pair.2 else "#".toList
      (state.1, state.2 ++ [errorAt location (.duplicateOperation pair.2 pair.1)])
    else
      (pair :: state.1, state.2)) (declared, [])).2

/-- `try_match_table`. -/
def tryMatchTable : List (Violation (RouterError Other)) :=
  (router.tryPatterns matcher).2 ++ router.repeatedUnchecked

end Router

/-- A described router: its document, and everything wrong with it. -/
structure Described (Operation Rest Other : Type) where
  document : Document Operation Rest
  violations : List (Violation (RouterError Other))

/-- The document, unless some violation is an error. -/
def Described.intoDocument (described : Described Operation Rest Other) :
    Except (Error Other Failure) (Document Operation Rest) :=
  let errors := described.violations.filter (·.severity = .error)
  if errors.isEmpty then .ok described.document else .error (.invalid errors)

/-- A failure where there is one. -/
def refuse (failure : Option Failure) : Except (Error Other Failure) Unit :=
  match failure with
  | some failure => .error (.other failure)
  | none => .ok ()

/-- Warnings of unchecked schemas made errors, where they are denied. -/
def denied [DecidableEq Other] (deny : Bool) (violation : Violation (RouterError Other)) :
    Violation (RouterError Other) :=
  if deny ∧ violation.error = .spec .uncheckedSchema then
    { violation with severity := .error }
  else
    violation

namespace Router

variable [DecidableEq Other] (matcher : Matcher Table)
  (around : Surroundings Operation Rest Other Failure Json) (router : Router Operation Other)

/-- `describe`. -/
def describe : Except (Error Other Failure) (Described Operation Rest Other) := do
  refuse around.unhonourable
  let paths := router.mounted.foldl Paths.describe ⟨[], router.violations ++ around.schemes⟩
  refuse around.links
  let violations := paths.violations ++ router.tryMatchTable matcher
  let violations := around.shortCircuits.foldl (fun violations error =>
    pushNew violations (errorAt "#".toList error)) violations
  refuse around.conflicts
  let rest ← around.lowestExpressing ⟨paths.items, around.rest⟩
  let document : Document Operation Rest := ⟨paths.items, around.annotate rest⟩
  let found := around.rulesBefore document ++
    checkPaths (around.rulesOfItem document) (document.paths.map Prod.fst) ++
    around.rulesAfter document
  return ⟨document, (violations ++ found.map lift).map (denied router.denyUncheckedSchemas)⟩

/-- `Router::validate`. -/
def validate : Except (Error Other Failure) (List (Violation (RouterError Other))) := do
  let described ← router.describe matcher around
  return described.violations

end Router

/-! ## Building -/

/-- The operations of a path, ready to serve. -/
structure PathEntry where
  template : Text
  operations : List Method

/-- The match table as it is filled, and the entry of each key. -/
structure Filling (Table : Type) where
  table : Table
  paths : List PathEntry
  indexOf : List (Text × Nat)

namespace Filling

variable (matcher : Matcher Table) (filling : Filling Table)

/-- The entry serving a key, added to the match table where it is new. -/
def pathEntry (key : Text) : Except (Error Other Failure) (Nat × Filling Table) :=
  match filling.indexOf.lookup key with
  | some index => .ok (index, filling)
  | none =>
      let index := filling.paths.length
      match matcher.insert filling.table key with
      | (_, some refusal) => .error (.invalid [errorAt "#".toList (matchTableRefusal key refusal)])
      | (table, none) =>
          .ok (index, ⟨table, filling.paths ++ [⟨key, []⟩], (key, index) :: filling.indexOf⟩)

/-- Operations served from the entry of a key. -/
def install (key : Text) (methods : List Method) : Except (Error Other Failure) (Filling Table) := do
  let (index, filling) ← filling.pathEntry matcher key
  return { filling with
    paths := filling.paths.modify index fun entry =>
      { entry with operations := entry.operations ++ methods } }

/-- The other spelling of every path but a catch-all. -/
def flippedSpellings : List Text :=
  (filling.paths.filter fun entry => ¬ ['\x7b', '*'] <:+: entry.template).filterMap fun entry =>
    flipTrailingSlash entry.template

/-- `register_flipped_spellings`: the table holding every other spelling it does
not refuse, and the spellings it refuses. -/
def registerFlippedSpellings : Table × List (Text × InsertError) :=
  dryRun (fun table spelling => (matcher.insert table spelling).map id (Option.map (spelling, ·)))
    (filling.table, []) filling.flippedSpellings

end Filling

/-- A router ready to serve: its match table and the entries it leads to, the
document and what every mounted description answers. -/
structure Service (Table Operation Rest Json : Type) where
  document : Document Operation Rest
  published : Option Json
  paths : List PathEntry
  table : Table

namespace Router

variable [DecidableEq Other] (matcher : Matcher Table)
  (around : Surroundings Operation Rest Other Failure Json) (router : Router Operation Other)

/-- `docs::render::render`: the document serialized, where some reference is
mounted. -/
def render (document : Document Operation Rest) : Except (Error Other Failure) (Option Json) :=
  if router.mounted.any Mounted.isDescription then
    match around.toJson document with
    | .ok json => .ok (some json)
    | .error failure => .error (.other failure)
  else
    .ok none

/-- The match table filled with every operation and every unchecked route. -/
def fill : Except (Error Other Failure) (Filling Table) := do
  let filling ← router.mounted.foldlM (fun filling mounted =>
    filling.install matcher mounted.path.raw [mounted.method]) ⟨matcher.empty, [], []⟩
  router.unchecked.foldlM (fun filling route =>
    filling.install matcher route.pattern route.methods) filling

/-- The table a build serves from; what it refuses of the other spellings was
declared. -/
def served (filling : Filling Table) : Table :=
  match router.trailingSlashes with
  | .lenient => (filling.registerFlippedSpellings matcher).1
  | .strict | .redirect => filling.table

/-- `Router::build`. -/
def build : Except (Error Other Failure) (Service Table Operation Rest Json) := do
  let described ← router.describe matcher around
  let document ← described.intoDocument
  let published ← router.render around document
  let filling ← router.fill matcher
  return ⟨document, published, filling.paths, router.served matcher filling⟩

end Router

end Kynos.Description
