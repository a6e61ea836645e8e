import Kynos.Assets.Walk
import Kynos.Router.Assembly
import Kynos.Router.Description
import Kynos.Router.Matching

/-!
# Mounting a set of assets

Every file of a set becomes an operation at its own path, and every index one at
its directory's too. A router that mounts the set and nothing else describes the
operations, and is built unless something is wrong with the description.
-/

namespace Kynos.Assets

open Kynos.Http Kynos.OpenApi Kynos.Word

/-! ## Sets -/

/-- What the macro emits for a file. -/
def Embedded.asset (file : Embedded) : Router.Assets.Asset where
  path := file.path
  bytes := file.contents.bytes
  bounded := file.contents.bounded
  etag := file.etag
  encodings := file.encodings.map fun encoded =>
    { coding := encoded.coding, bytes := encoded.contents.bytes, etag := encoded.etag }

/-- A set of files, ready to mount. -/
structure AssetSet where
  assets : List Router.Assets.Asset
  cacheControl : Option HeaderValue
  index : Option Text
  operationIdPrefix : Text

/-- `operation_id`: an identifier for one served path, under a leading word. -/
def operationId (leading path : Text) : Text :=
  let trimmed := trimBy (· == '/') path
  if trimmed.isEmpty then
    leading ++ "_index".toList
  else
    leading ++ '_' :: trimmed.map fun character =>
      if isAsciiAlphanumeric character then character else '_'

theorem accepted_of_parse {raw : Text} {template : PathTemplate}
    (parsed : PathTemplate.parse raw = .ok template) : template.raw = raw ∧ Accepted template := by
  obtain ⟨_, _, _, _, rfl⟩ := parse_eq_ok_iff.mp parsed
  exact ⟨rfl, parsed⟩

/-- One file, served at one path, with what describes it. -/
structure AssetOperation where
  endpoint : Router.Assets.AssetEndpoint
  template : PathTemplate
  accepted : Accepted template
  operationId : Text

/-- `AssetEndpoint::new`; `none` where it panics. -/
def AssetOperation.new (asset : Router.Assets.Asset) (path : Text) (cacheControl : Option HeaderValue)
    (leading : Text) : Option AssetOperation :=
  match parsed : PathTemplate.parse ('/' :: path.dropWhile (· == '/')) with
  | .error _ => none
  | .ok template =>
      some
        { endpoint := ⟨asset, cacheControl⟩
          template
          accepted := (accepted_of_parse parsed).2
          operationId := Assets.operationId leading path }

namespace AssetSet

variable (set : AssetSet)

/-- The files, and the directory each index is also served at. -/
def indexed : List (Router.Assets.Asset × Text) :=
  set.assets.filterMap fun asset =>
    set.index.bind fun index =>
      (Uri.stripEnd index asset.path).bind fun directory =>
        if directory.isEmpty || directory.getLast? = some '/' then some (asset, directory) else none

/-- Every file with each path it is served at. -/
def served : List (Router.Assets.Asset × Text) :=
  (set.assets.map fun asset => (asset, asset.path)) ++ set.indexed

/-- `into_endpoints`; `none` where it panics. -/
def intoEndpoints : Option (List AssetOperation) :=
  set.served.mapM fun (asset, path) =>
    AssetOperation.new asset path set.cacheControl set.operationIdPrefix

end AssetSet

/-! ## Mounting -/

/-- What can be wrong with the description of a set, besides its templates. -/
inductive AssetRule where
  | opaqueRoute (pattern : Text)
  | duplicateOperationId (operationId first : Text)
  | undeclaredPathVariable (name : Text)
  deriving DecidableEq, Repr

open Description

/-- A violation of assembling, as one of describing. -/
def described (violation : Assembly.Violation) : Violation (RouterError AssetRule) :=
  errorAt
    (match violation.location with
    | .paths => "#/paths".toList
    | .path key => pathLocation key)
    (.spec
      (match violation.error with
      | .invalidPathTemplate template reason => .invalidPathTemplate template reason
      | .opaqueRoute pattern => .other (.opaqueRoute pattern)))

theorem accepted_of_prefixed {template under : PathTemplate} (accepted : Accepted template)
    {outer : Text} (taken : Assembly.prefixed template outer = .ok under) : Accepted under := by
  unfold Assembly.prefixed at taken
  split at taken
  · cases taken
  · next path nested =>
      split at taken
      · cases taken
      · obtain rfl := Except.ok.inj taken
        unfold PathTemplate.withPrefix at nested
        simp only at nested
        split at nested
        · obtain rfl := Except.ok.inj nested
          exact accepted
        · exact (accepted_of_parse nested).2

/-- One operation absorbed by a router, under no leading path. -/
def absorb (router : Description.Router AssetOperation AssetRule) (operation : AssetOperation) :
    Description.Router AssetOperation AssetRule :=
  match taken : Assembly.prefixed operation.template [] with
  | .error violation => { router with violations := router.violations ++ [described violation] }
  | .ok path =>
      { router with
        mounted := router.mounted ++
          [{ method := .get
             path
             accepted := accepted_of_prefixed operation.accepted taken
             operation
             isDescription := false }] }

/-- `Router::new`. -/
def newRouter : Description.Router AssetOperation AssetRule where
  mounted := []
  unchecked := []
  violations := []
  denyUncheckedSchemas := false
  trailingSlashes := .strict

/-- A router mounting a set alone; `none` where mounting panics. -/
def AssetSet.mount (set : AssetSet) : Option (Description.Router AssetOperation AssetRule) :=
  set.intoEndpoints.map fun operations => operations.foldl absorb newRouter

/-! ## Building -/

/-- What the rules over operations find at a path: an identifier that an earlier
operation has, and variables no parameter declares, since a file declares none.
The other rules look at what is the same for all files. -/
def rulesOfItem (document : Document AssetOperation Unit) (raw : Text) :
    List (Violation (SpecError AssetRule)) :=
  match (document.paths.lookup raw).bind (· .get), PathTemplate.parse raw with
  | some operation, .ok template =>
      let earlier := document.paths.takeWhile fun entry => entry.1 != raw
      let first := earlier.find? fun entry =>
        (entry.2 .get).any fun other => other.operationId == operation.operationId
      (first.map fun entry => errorAt (operationLocation raw .get)
        (.other (.duplicateOperationId operation.operationId (operationLocation entry.1 .get)))).toList ++
        template.variableNames.map fun name =>
          errorAt (operationLocation raw .get) (.other (.undeclaredPathVariable name))
  | _, _ => []

/-- A router without security schemes, links, interceptors, components, tags or
servers. -/
def surroundings : Surroundings AssetOperation Unit AssetRule Empty Unit where
  unhonourable := none
  schemes := []
  links := none
  shortCircuits := []
  conflicts := none
  rest := ()
  lowestExpressing _ := .ok ()
  annotate rest := rest
  rulesBefore _ := []
  rulesOfItem := rulesOfItem
  rulesAfter _ := []
  toJson _ := .ok ()
  serializes _ := ⟨(), rfl⟩

/-- The match table, holding each template under itself. -/
def matchTable : Matcher (Router.MatchTable Text) where
  empty := Router.MatchTable.empty
  insert table pattern :=
    match table.insert pattern pattern with
    | some inserted => (inserted, none)
    | none =>
        let conflicting := (Router.Pattern.read pattern).bind fun read =>
          table.held.find? fun entry => entry.1.shape == read.shape
        (table, some (conflicting.elim .other fun entry => .conflict entry.2))

/-- The operation that answers a `GET` of a path. -/
def answering {Rank : Type} [LinearOrder Rank] (ranking : Router.Ranking Rank)
    (router : Description.Router AssetOperation AssetRule)
    (service : Service (Router.MatchTable Text) AssetOperation Unit Unit) (path : Text) :
    Option AssetOperation :=
  (service.table.matched ranking path).bind fun (template, _) =>
    (router.mounted.find? fun mounted => mounted.path.raw == template && mounted.method == .get).map
      Mounted.operation

/-- Mounted alone, a set is built, and a `GET` of a path is answered from a file
exactly where the path is its own or, for an index, its directory's. -/
def AssetSet.ServesOwnPaths {Rank : Type} [LinearOrder Rank] (ranking : Router.Ranking Rank)
    (set : AssetSet) : Prop :=
  ∃ router service, set.mount = some router ∧ router.build matchTable surroundings = .ok service ∧
    ∀ path asset, (answering ranking router service path).map (·.endpoint.asset) = some asset ↔
      ∃ own, (asset, own) ∈ set.served ∧ path = '/' :: own

end Kynos.Assets
