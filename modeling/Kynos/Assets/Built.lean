import Kynos.Assets.Mounted

/-!
# Sets served at their own paths

A set is built and served at its own paths exactly where no path holds a brace and
no two of the paths served have one identifier.
-/

namespace Kynos.Assets

open Kynos.OpenApi Kynos.Word Kynos.Description Kynos.Run

variable {router : Description.Router AssetOperation AssetRule}

/-! ## The match table -/

/-- A table that holds paths as themselves. -/
def Holds (table : Router.MatchTable Text) (texts : List Text) : Prop :=
  table.held = texts.map fun text => (Router.Pattern.literal text, text)

theorem Holds.insert {table : Router.MatchTable Text} {texts : List Text} (holds : Holds table texts)
    {text : Text} (braceless : '\x7b' ∉ text) (fresh : text ∉ texts) :
    ∃ inserted, matchTable.insert table text = (inserted, none) ∧ Holds inserted (texts ++ [text]) := by
  have isRead := Router.Pattern.read_of_braceless braceless
  have isNew : (Router.Pattern.literal text).shape ∉ table.held.map fun entry => entry.1.shape := by
    rw [holds, List.map_map]
    intro member
    obtain ⟨other, inTexts, same⟩ := List.mem_map.mp member
    rw [Function.comp_apply, Router.Pattern.shape_literal, Router.Pattern.shape_literal] at same
    exact fresh (Router.Pattern.literal_injective same ▸ inTexts)
  cases inserted : table.insert text text with
  | none =>
      rw [Router.MatchTable.insert, isRead, Option.bind_some, dif_pos isNew] at inserted
      cases inserted
  | some added =>
      refine ⟨added, by simp only [matchTable, inserted], ?_⟩
      obtain ⟨pattern, patternRead, -, isHeld⟩ := Router.MatchTable.insert_eq_some_iff.mp inserted
      rw [isRead, Option.some.injEq] at patternRead
      rw [Holds, isHeld, holds, ← patternRead, List.map_append, List.map_singleton]

/-- A path is matched by itself alone. -/
theorem Holds.matched {Rank : Type} [LinearOrder Rank] {ranking : Router.Ranking Rank}
    {table : Router.MatchTable Text} {texts : List Text} (holds : Holds table texts) (path : Text) :
    table.matched ranking path = if path ∈ texts then some (path, []) else none := by
  have matches_iff : ∀ text, (Router.Pattern.literal text).Matches (path.splitOn '/') ↔ path = text := by
    intro text
    rw [Router.Pattern.Matches, Router.Pattern.capture_literal, Option.isSome_ite]
  split
  · next member =>
      refine Router.MatchTable.matched_eq_some_iff.mpr ⟨Router.Pattern.literal path, ?_, ?_, ?_⟩
      · rw [holds]
        exact List.mem_map_of_mem (f := fun text => (Router.Pattern.literal text, text)) member
      · rw [Router.Pattern.capture_literal, if_pos rfl]
      · rw [holds]
        rintro entry inTable isMatch
        obtain ⟨text, -, rfl⟩ := List.mem_map.mp inTable
        rw [(matches_iff text).mp isMatch]
  · next absent =>
      rw [Router.MatchTable.matched_eq_none_iff, holds]
      rintro entry inTable isMatch
      obtain ⟨text, inTexts, rfl⟩ := List.mem_map.mp inTable
      exact absent ((matches_iff text).mp isMatch ▸ inTexts)

/-- The trial of operations tried so far. -/
def Tried (trial : TrialTable (Router.MatchTable Text)) (texts : List Text) : Prop :=
  Holds trial.table texts ∧ (∀ text, text ∈ trial.held ↔ text ∈ texts) ∧
    ∀ text, some text ∈ trial.shapes ↔ text ∈ texts

theorem Tried.insertTemplate {trial : TrialTable (Router.MatchTable Text)} {texts : List Text}
    (tried : Tried trial texts) {template : PathTemplate} (braceless : '\x7b' ∉ template.raw)
    (fresh : template.raw ∉ texts) :
    (@TrialTable.insertTemplate _ AssetRule matchTable trial template).2 = none ∧
      Tried (@TrialTable.insertTemplate _ AssetRule matchTable trial template).1
        (texts ++ [template.raw]) := by
  obtain ⟨holds, held, shapes⟩ := tried
  have isNew := mt (held template.raw).mp fresh
  have newShape : template.normalized ∉ trial.shapes := by
    rw [normalized_of_braceless braceless, shapes]
    exact fresh
  obtain ⟨inserted, inserts, holds⟩ := holds.insert braceless fresh
  simp only [TrialTable.insertTemplate, TrialTable.insert, if_neg isNew, if_neg newShape, inserts,
    Option.map_none, true_and]
  refine ⟨holds, fun text => ?_, fun text => ?_⟩
  · simp only [List.mem_cons, held, List.mem_append, List.not_mem_nil, or_false]
    exact or_comm
  · simp only [List.mem_cons, shapes, List.mem_append, normalized_of_braceless braceless,
      Option.some.injEq, List.not_mem_nil, or_false]
    exact or_comm

/-- Operations at paths of their own without braces are tried without a
refusal. -/
theorem tryMatchTable_routerOf {operations : List AssetOperation}
    (nodup : (operations.map rawOf).Nodup)
    (braceless : ∀ operation ∈ operations, '\x7b' ∉ rawOf operation) :
    (routerOf operations).tryMatchTable matchTable = [] := by
  suffices ∀ (later earlier : List AssetOperation) (trial : TrialTable (Router.MatchTable Text)),
      operations = earlier ++ later → Tried trial (earlier.map rawOf) →
      (dryRun (fun trial (mounted : Mounted AssetOperation) =>
        (@TrialTable.insertTemplate _ AssetRule matchTable trial mounted.path).map id
          (Option.map (errorAt (pathLocation mounted.path.raw)))) (trial, [])
        (later.map mountedOf)).2 = [] from
    congrArg (· ++ []) (this operations [] ⟨matchTable.empty, [], []⟩ rfl
      ⟨rfl, fun text => by simp, fun text => by simp⟩)
  intro later
  induction later with
  | nil => exact fun earlier trial _ _ => rfl
  | cons operation later ih =>
      intro earlier trial isWhole tried
      have member : operation ∈ operations := by
        rw [isWhole]
        exact List.mem_append_right _ List.mem_cons_self
      have fresh := fresh_of_nodup (isWhole ▸ nodup)
      obtain ⟨silent, next⟩ := tried.insertTemplate (braceless operation member) fresh
      rw [List.map_cons, dryRun_cons]
      have quiet : ((@TrialTable.insertTemplate _ AssetRule matchTable trial
          (mountedOf operation).path).map id
            (Option.map (errorAt (pathLocation (mountedOf operation).path.raw)))).2 = none :=
        congrArg (Option.map _) silent
      rw [quiet]
      refine ih (earlier ++ [operation]) _ (by rw [isWhole, List.append_cons]) ?_
      rw [List.map_append, List.map_singleton]
      exact next

/-- The table filled with operations so far. -/
def Filled (filling : Filling (Router.MatchTable Text)) (texts : List Text) : Prop :=
  Holds filling.table texts ∧ ∀ text, text ∉ texts → filling.indexOf.lookup text = none

theorem Filled.install {filling : Filling (Router.MatchTable Text)} {texts : List Text}
    (filled : Filled filling texts) {text : Text} (methods : List Router.Method)
    (braceless : '\x7b' ∉ text) (fresh : text ∉ texts) :
    ∃ next, (filling.install matchTable text methods : Except (Error AssetRule Empty) _) = .ok next ∧
      Filled next (texts ++ [text]) := by
  obtain ⟨holds, absent⟩ := filled
  obtain ⟨inserted, inserts, holds⟩ := holds.insert braceless fresh
  have entered : (filling.pathEntry matchTable text : Except (Error AssetRule Empty) _) =
      .ok (filling.paths.length,
        ⟨inserted, filling.paths ++ [⟨text, []⟩], (text, filling.paths.length) :: filling.indexOf⟩) := by
    simp only [Filling.pathEntry, absent text fresh, inserts]
  obtain ⟨next, installed, table, indexOf⟩ := Filling.install_of_pathEntry entered methods
  refine ⟨next, installed, ?_, fun other notMember => ?_⟩
  · rw [table]
    exact holds
  · rw [List.mem_append, List.mem_singleton, not_or] at notMember
    rw [indexOf, List.lookup_cons, beq_eq_false_iff_ne.mpr notMember.2]
    exact absent other notMember.1

theorem exists_fill_routerOf {operations : List AssetOperation} (nodup : (operations.map rawOf).Nodup)
    (braceless : ∀ operation ∈ operations, '\x7b' ∉ rawOf operation) :
    ∃ filling, ((routerOf operations).fill matchTable : Except (Error AssetRule Empty) _) =
      .ok filling ∧ Holds filling.table (operations.map rawOf) := by
  suffices ∀ (later earlier : List AssetOperation) (filling : Filling (Router.MatchTable Text)),
      operations = earlier ++ later → Filled filling (earlier.map rawOf) →
      ∃ final, (later.map mountedOf).foldlM (fun filling mounted =>
        (filling.install matchTable mounted.path.raw [mounted.method] :
          Except (Error AssetRule Empty) _)) filling = .ok final ∧
        Filled final (operations.map rawOf) by
    obtain ⟨final, fills, filled⟩ := this operations [] ⟨matchTable.empty, [], []⟩ rfl
      ⟨rfl, fun _ _ => rfl⟩
    refine ⟨final, ?_, filled.1⟩
    rw [Description.Router.fill]
    exact bind_eq_ok_iff.mpr ⟨final, fills, rfl⟩
  intro later
  induction later with
  | nil =>
      intro earlier filling isWhole filled
      rw [isWhole, List.append_nil]
      exact ⟨filling, rfl, filled⟩
  | cons operation later ih =>
      intro earlier filling isWhole filled
      have member : operation ∈ operations := by
        rw [isWhole]
        exact List.mem_append_right _ List.mem_cons_self
      have fresh := fresh_of_nodup (isWhole ▸ nodup)
      obtain ⟨next, installed, filled⟩ := filled.install [.get] (braceless operation member) fresh
      obtain ⟨final, fills, filled⟩ := ih (earlier ++ [operation]) next
        (by rw [isWhole, List.append_cons]) (by rwa [List.map_append, List.map_singleton])
      refine ⟨final, ?_, filled⟩
      rw [List.map_cons, List.foldlM_cons]
      exact bind_eq_ok_iff.mpr ⟨next, installed, fills⟩

/-! ## Building -/

/-- A router that is built was described without a violation. -/
theorem clean_of_build {service : Service (Router.MatchTable Text) AssetOperation Unit Unit}
    (builds : router.build matchTable surroundings = .ok service) :
    Clean (router.mounted.foldl Paths.describe ⟨[], router.violations⟩).violations ∧
      Clean (checkPaths
        (rulesOfItem ⟨(router.mounted.foldl Paths.describe ⟨[], router.violations⟩).items, ()⟩)
        ((router.mounted.foldl Paths.describe ⟨[], router.violations⟩).items.map Prod.fst)) := by
  simp only [Description.Router.build, Description.Router.describe, Bind.bind, bind_eq_ok_iff] at builds
  obtain ⟨_, ⟨_, -, _, -, _, -, rest, -, ⟨⟩⟩, document, isDocument, -⟩ := builds
  have found := Clean.of_denied (Described.intoDocument_eq_ok_iff.mp isDocument).2
  have schemes : router.violations ++ surroundings.schemes = router.violations := List.append_nil _
  simp only [schemes] at found
  constructor
  · refine found.mono fun violation member => List.mem_append_left _ ?_
    exact List.mem_append_left _ member
  · intro violation member
    refine found (lift violation) (List.mem_append_right _ (List.mem_map_of_mem ?_))
    exact List.mem_append_left _ (List.mem_append_right _ member)

/-- Operations at paths of their own without braces, with identifiers of their
own, are built, and the table holds the paths as themselves. -/
theorem exists_build_routerOf {operations : List AssetOperation} (nodup : (operations.map rawOf).Nodup)
    (braceless : ∀ operation ∈ operations, '\x7b' ∉ rawOf operation)
    (identified : (operations.map AssetOperation.operationId).Nodup) :
    ∃ service, (routerOf operations).build matchTable surroundings = .ok service ∧
      Holds service.table (operations.map rawOf) := by
  have paths : (routerOf operations).mounted.foldl Paths.describe
      ⟨[], (routerOf operations).violations ++ surroundings.schemes⟩ =
        (⟨operations.map entryOf, []⟩ : Paths AssetOperation AssetRule) :=
    @foldl_describe _ [] operations rfl nodup
  have silent : ∀ operation ∈ operations,
      rulesOfItem ⟨operations.map entryOf, ()⟩ (rawOf operation) = [] := by
    intro operation member
    obtain ⟨before, after, rfl⟩ := List.append_of_mem member
    have plain := operation.accepted.braceless_iff.mp (braceless operation member)
    have unique : (before.find? fun other => other.operationId == operation.operationId) = none := by
      rw [List.find?_eq_none]
      intro other inBefore same
      rw [List.map_append, List.map_cons] at identified
      exact (List.nodup_append.mp identified).2.2 _ (List.mem_map_of_mem inBefore) _
        List.mem_cons_self (beq_iff_eq.mp same)
    rw [rulesOfItem_eq (fresh_of_nodup nodup), unique, plain]
    rfl
  obtain ⟨filling, fills, holds⟩ := exists_fill_routerOf nodup braceless
  refine ⟨⟨⟨operations.map entryOf, ()⟩, none, filling.paths, filling.table⟩, ?_, holds⟩
  have describes : (routerOf operations).describe matchTable surroundings =
      .ok ⟨⟨operations.map entryOf, ()⟩, []⟩ := by
    simp only [Description.Router.describe, Bind.bind, bind_eq_ok_iff]
    refine ⟨(), rfl, (), rfl, (), rfl, (), rfl, ?_⟩
    rw [paths, tryMatchTable_routerOf nodup braceless]
    simp only [fst_entries]
    rw [show surroundings.rulesOfItem = rulesOfItem from rfl]
    rw [checkPaths_eq_nil nodup braceless silent]
    rfl
  have undescribed : (routerOf operations).mounted.any Mounted.isDescription = false := by
    rw [List.any_eq_false]
    rintro mounted member
    obtain ⟨operation, -, rfl⟩ := List.mem_map.mp member
    exact Bool.false_ne_true
  simp only [Description.Router.build, Bind.bind, bind_eq_ok_iff]
  refine ⟨_, describes, _, rfl, none, ?_, filling, fills, rfl⟩
  rw [Description.Router.render, undescribed]
  rfl

/-- A path is answered by the operation at it. -/
theorem answering_eq_some_iff {Rank : Type} [LinearOrder Rank] {ranking : Router.Ranking Rank}
    {operations : List AssetOperation}
    {service : Service (Router.MatchTable Text) AssetOperation Unit Unit}
    (nodup : (operations.map rawOf).Nodup) (holds : Holds service.table (operations.map rawOf))
    {path : Text} {operation : AssetOperation} :
    answering ranking (routerOf operations) service path = some operation ↔
      operation ∈ operations ∧ path = rawOf operation := by
  have found : ∀ text, ((routerOf operations).mounted.find? fun mounted =>
      mounted.path.raw == text && mounted.method == .get).map Mounted.operation =
        operations.find? fun operation => rawOf operation == text := by
    intro text
    rw [show (routerOf operations).mounted = operations.map mountedOf from rfl, List.find?_map,
      Option.map_map]
    have same : ((fun mounted => mounted.path.raw == text && mounted.method == .get) ∘ mountedOf) =
        fun operation => rawOf operation == text := by
      funext operation
      exact Bool.and_true _
    rw [same]
    exact Option.map_id_apply ..
  simp only [answering, holds.matched]
  constructor
  · intro answers
    split at answers
    · next member =>
        rw [Option.bind_some, found] at answers
        exact ⟨List.mem_of_find?_eq_some answers, (by simpa using List.find?_some answers : rawOf operation = path).symm⟩
    · cases answers
  · rintro ⟨member, rfl⟩
    rw [if_pos (List.mem_map_of_mem member), Option.bind_some, found]
    obtain ⟨other, isFound⟩ := Option.isSome_iff_exists.mp
      (List.find?_isSome.mpr ⟨operation, member, beq_self_eq_true (rawOf operation)⟩ :
        (operations.find? fun other => rawOf other == rawOf operation).isSome)
    have same : rawOf other = rawOf operation := by simpa using List.find?_some isFound
    rw [isFound, List.inj_on_of_nodup_map nodup (List.mem_of_find?_eq_some isFound) member same]

/-! ## Directories of empty files -/

/-- A file that holds nothing. -/
def emptyFile (name : Text) : Entry :=
  .file name ⟨[], length_nil_le⟩

/-- A name of path characters is expressed by a template. -/
theorem servable_of_isPathCharacter {name : Text}
    (allowed : ∀ character ∈ name, isPathCharacter character = true) : Servable name := by
  suffices ∃ pieces, spelled pieces = name ∧ names pieces = [] ∧ pieces ∈ withinSegment ∧
      pieces ∈ afterSlash by
    obtain ⟨pieces, spells, nameless, -, following⟩ := this
    exact servable_iff.mpr ⟨pieces, following, spells, by rw [nameless]; exact List.nodup_nil⟩
  induction name with
  | nil => exact ⟨[], rfl, rfl, nil_mem_withinSegment, nil_mem_afterSlash⟩
  | cons character name ih =>
      obtain ⟨first, others⟩ := List.forall_mem_cons.mp allowed
      obtain ⟨pieces, rfl, nameless, within, -⟩ := ih others
      refine ⟨.literal character first :: pieces, rfl, nameless, ?_, ?_⟩
      · exact cons_mem_withinSegment_iff.mpr (.inr ⟨rfl, within⟩)
      · exact cons_mem_afterSlash_iff.mpr ⟨rfl, within⟩

/-- A file is collected under a visible name of path characters. -/
theorem exists_collectEntry (dir : Text) (files : List Found) {name : Text}
    (allowed : ∀ character ∈ name, isPathCharacter character = true)
    (visible : name.head? ≠ some '.') (room : files.length < limits.files) :
    ∃ file, file.path = name ∧
      collectEntry ⟨dir, []⟩ limits [] 0 files (emptyFile name) = .ok (files ++ [file]) := by
  obtain ⟨template, parsed⟩ := servable_of_isPathCharacter allowed
  have same : ([] ++ name).map (fun character => if character = '\\' then '/' else character) = name := by
    rw [List.nil_append]
    calc
      name.map (fun character => if character = '\\' then '/' else character)
          = name.map id := List.map_congr_left fun character member =>
            if_neg (ne_of_isPathCharacter (allowed character member) (by decide))
      _ = name := List.map_id name
  refine ⟨⟨name, ⟨[], length_nil_le⟩, '"' :: hexadecimal 16 (fnv1a []).toNat ++ ['"']⟩, rfl, ?_⟩
  rw [emptyFile, collectEntry, if_neg visible]
  simp only [same, excluded, List.any_nil, Bool.false_eq_true, if_false, keep, parsed]
  exact if_neg (by rw [List.length_append, List.length_singleton]; omega)

/-- The walk of a directory with one file. -/
theorem exists_walk_one : ∃ walked, walk ⟨"site".toList, []⟩ [emptyFile "a".toList] = .ok walked ∧
    walked.files.map Embedded.path = ["a".toList] := by
  obtain ⟨file, isPath, collected⟩ := exists_collectEntry "site".toList []
    (List.all_eq_true.mp (show "a".toList.all isPathCharacter = true by decide)) (by decide)
    (by decide)
  have collects : collect ⟨"site".toList, []⟩ limits [] 0 [] [emptyFile "a".toList] = .ok [file] := by
    rw [collect, collected, List.nil_append]
    rfl
  obtain ⟨walked, walks, perm⟩ := exists_walk collects (by simp) (by
    rintro other member
    rw [List.mem_singleton.mp member, isPath]
    decide)
  rw [List.map_singleton, isPath, List.perm_singleton] at perm
  exact ⟨walked, walks, perm⟩

/-- The walk of a directory with two files. -/
theorem exists_walk_two : ∃ walked,
    walk ⟨"site".toList, []⟩ [emptyFile "a-b".toList, emptyFile "a_b".toList] = .ok walked ∧
      (walked.files.map Embedded.path).Perm ["a-b".toList, "a_b".toList] := by
  obtain ⟨first, firstPath, firstCollected⟩ := exists_collectEntry "site".toList []
    (List.all_eq_true.mp (show "a-b".toList.all isPathCharacter = true by decide)) (by decide)
    (by decide)
  obtain ⟨second, secondPath, secondCollected⟩ := exists_collectEntry "site".toList [first]
    (List.all_eq_true.mp (show "a_b".toList.all isPathCharacter = true by decide)) (by decide)
    (show 1 < limits.files by decide)
  have collects : collect ⟨"site".toList, []⟩ limits [] 0 []
      [emptyFile "a-b".toList, emptyFile "a_b".toList] = .ok [first, second] := by
    rw [collect, firstCollected, List.nil_append]
    simp only
    rw [collect, secondCollected]
    rfl
  obtain ⟨walked, walks, perm⟩ := exists_walk collects (by simp) (by
    rintro other member
    simp only [List.mem_cons, List.not_mem_nil, or_false] at member
    rcases member with rfl | rfl
    · rw [firstPath]
      decide
    · rw [secondPath]
      decide)
  rw [List.map_cons, List.map_singleton, firstPath, secondPath] at perm
  exact ⟨walked, walks, perm⟩


/-! ## Sets served at their own paths -/

/-- What an identifier tells of a path: its ASCII letters and digits between outer
slashes, and that there are others. -/
def wordOf (path : Text) : Text :=
  let trimmed := trimBy (· == '/') path
  if trimmed.isEmpty then
    "index".toList
  else
    trimmed.map fun character => if isAsciiAlphanumeric character then character else '_'

theorem operationId_eq (leading path : Text) :
    operationId leading path = leading ++ '_' :: wordOf path := by
  unfold operationId wordOf
  simp only
  split <;> rfl

namespace AssetSet

variable {Rank : Type} [LinearOrder Rank] {ranking : Router.Ranking Rank} {set : AssetSet}

/-- A set served at its own paths has no brace in them and an identifier for
each. -/
theorem distinct_of_servesOwnPaths (servable : ∀ asset ∈ set.assets, Servable asset.path)
    (serves : set.ServesOwnPaths ranking) :
    (∀ asset ∈ set.assets, '\x7b' ∉ asset.path) ∧
      (set.served.map fun entry => wordOf entry.2).Nodup := by
  obtain ⟨router, service, mounts, builds, -⟩ := serves
  obtain ⟨operations, gives, rfl⟩ := Option.map_eq_some_iff.mp mounts
  obtain ⟨described, walked⟩ := clean_of_build builds
  have violations := described.mono (subset_violations_foldl_describe _)
  have isRouter : operations.foldl absorb newRouter = routerOf operations :=
    foldl_absorb_of_clean violations
  rw [isRouter] at described walked
  have nodup : (operations.map rawOf).Nodup :=
    @nodup_of_clean_describe _ [] operations rfl List.nodup_nil described
  have paths : (routerOf operations).mounted.foldl Paths.describe ⟨[], (routerOf operations).violations⟩ =
      (⟨operations.map entryOf, []⟩ : Paths AssetOperation AssetRule) :=
    @foldl_describe _ [] operations rfl nodup
  rw [paths] at walked
  simp only [fst_entries] at walked
  obtain ⟨identified, nameless⟩ := distinct_of_clean_checkPaths nodup walked
  have keys := key_of_intoEndpoints gives
  constructor
  · intro asset member brace
    have inServed : (asset, asset.path) ∈ set.served :=
      List.mem_append_left _ (List.mem_map_of_mem (f := fun asset => (asset, asset.path)) member)
    have isKey := List.mem_map_of_mem (f := fun entry =>
      (entry.1, '/' :: entry.2.dropWhile (· == '/'), operationId set.operationIdPrefix entry.2)) inServed
    rw [← keys] at isKey
    obtain ⟨operation, inOperations, same⟩ := List.mem_map.mp isKey
    have raw : operation.template.raw = '/' :: asset.path := by
      rw [← (servable asset member).dropWhile_slash]
      exact congrArg (fun key => key.2.1) same
    have plain := operation.accepted.braceless_iff.mpr (nameless operation inOperations)
    rw [raw] at plain
    exact plain (List.mem_cons_of_mem _ brace)
  · have ids : operations.map AssetOperation.operationId =
        set.served.map fun entry => operationId set.operationIdPrefix entry.2 := by
      have each := congrArg (List.map fun key => key.2.2) keys
      rwa [List.map_map, List.map_map] at each
    rw [ids] at identified
    refine List.Nodup.of_map (fun word => set.operationIdPrefix ++ '_' :: word) ?_
    rw [List.map_map]
    simpa only [Function.comp_def, ← operationId_eq] using identified

/-- A set without braces in its paths and with an identifier for each is served at
its own paths. -/
theorem servesOwnPaths_of_distinct (servable : ∀ asset ∈ set.assets, Servable asset.path)
    (braceless : ∀ asset ∈ set.assets, '\x7b' ∉ asset.path)
    (identified : (set.served.map fun entry => wordOf entry.2).Nodup) :
    set.ServesOwnPaths ranking := by
  have each := servable_of_mem_served servable braceless
  obtain ⟨operations, gives⟩ := exists_intoEndpoints fun entry member => (each entry member).1
  have keys : operations.map AssetOperation.key = set.served.map fun entry =>
      (entry.1, '/' :: entry.2, operationId set.operationIdPrefix entry.2) := by
    rw [key_of_intoEndpoints gives]
    refine List.map_congr_left fun entry member => ?_
    simp only [(each entry member).1.dropWhile_slash]
  have raws : operations.map rawOf = set.served.map fun entry => '/' :: entry.2 := by
    have each := congrArg (List.map fun key => key.2.1) keys
    rwa [List.map_map, List.map_map] at each
  have ids : operations.map AssetOperation.operationId =
      set.served.map fun entry => operationId set.operationIdPrefix entry.2 := by
    have each := congrArg (List.map fun key => key.2.2) keys
    rwa [List.map_map, List.map_map] at each
  have assets : operations.map (fun operation => (operation.endpoint.asset, rawOf operation)) =
      set.served.map fun entry => (entry.1, '/' :: entry.2) := by
    have each := congrArg (List.map fun key => (key.1, key.2.1)) keys
    rwa [List.map_map, List.map_map] at each
  have plain : ∀ operation ∈ operations, '\x7b' ∉ rawOf operation := by
    intro operation member
    have inRaws := List.mem_map_of_mem (f := rawOf) member
    rw [raws] at inRaws
    obtain ⟨entry, inServed, same⟩ := List.mem_map.mp inRaws
    rw [← same, List.mem_cons, not_or]
    exact ⟨by decide, (each entry inServed).2⟩
  have nodup : (operations.map rawOf).Nodup := by
    rw [raws]
    have own : (set.served.map Prod.snd).Nodup :=
      List.Nodup.of_map wordOf (by rwa [List.map_map])
    have slashed := own.map (f := fun path => '/' :: path) fun _ _ same => (List.cons.inj same).2
    rwa [List.map_map] at slashed
  have unique : (operations.map AssetOperation.operationId).Nodup := by
    rw [ids]
    have prefixed := identified.map (f := fun word => set.operationIdPrefix ++ '_' :: word)
      fun _ _ same => (List.cons.inj (List.append_cancel_left same)).2
    rw [List.map_map] at prefixed
    simpa only [Function.comp_def, ← operationId_eq] using prefixed
  obtain ⟨service, builds, holds⟩ := exists_build_routerOf nodup plain unique
  refine ⟨routerOf operations, service, ?_, builds, fun path asset => ?_⟩
  · rw [mount, gives, Option.map_some, foldl_absorb_of_routable fun operation member =>
      Router.unroutable_of_braceless operation.accepted (plain operation member)]
    rfl
  · rw [Option.map_eq_some_iff]
    simp only [answering_eq_some_iff nodup holds]
    constructor
    · rintro ⟨operation, ⟨member, rfl⟩, rfl⟩
      have inAssets := List.mem_map_of_mem
        (f := fun operation => (operation.endpoint.asset, rawOf operation)) member
      rw [assets] at inAssets
      obtain ⟨entry, inServed, same⟩ := List.mem_map.mp inAssets
      obtain ⟨isAsset, isRaw⟩ := Prod.mk.inj same
      exact ⟨entry.2, isAsset ▸ inServed, isRaw.symm⟩
    · rintro ⟨own, inServed, rfl⟩
      have inAssets := List.mem_map_of_mem
        (f := fun entry : Router.Assets.Asset × Text => (entry.1, '/' :: entry.2)) inServed
      rw [← assets] at inAssets
      obtain ⟨operation, member, same⟩ := List.mem_map.mp inAssets
      obtain ⟨isAsset, isRaw⟩ := Prod.mk.inj same
      exact ⟨operation, ⟨member, isRaw.symm⟩, isAsset⟩

end AssetSet

/-- The set a walk embeds, as an application configures it. -/
def Walked.assets (walked : Walked) (cacheControl : Option Http.HeaderValue) (index : Option Text)
    (operationIdPrefix : Text) : AssetSet where
  assets := walked.files.map Embedded.asset
  cacheControl := cacheControl
  index := index
  operationIdPrefix := operationIdPrefix

/-- A set the walk accepts is served at its own paths exactly where no path holds
a brace and no two of the paths served, read as words, are one. -/
theorem servesOwnPaths_iff {Rank : Type} [LinearOrder Rank] (ranking : Router.Ranking Rank)
    (args : AssetArgs) (entries : List Entry) (walked : Walked)
    (walks : walk args entries = .ok walked) (cacheControl : Option Http.HeaderValue)
    (index : Option Text) (operationIdPrefix : Text) :
    (walked.assets cacheControl index operationIdPrefix).ServesOwnPaths ranking ↔
      (∀ file ∈ walked.files, '\x7b' ∉ file.path) ∧
        ((walked.assets cacheControl index operationIdPrefix).served.map fun entry =>
          wordOf entry.2).Nodup := by
  have servable : ∀ asset ∈ (walked.assets cacheControl index operationIdPrefix).assets,
      Servable asset.path :=
    List.forall_mem_map.mpr (servable_of_walk walks)
  constructor
  · intro serves
    obtain ⟨braceless, identified⟩ := AssetSet.distinct_of_servesOwnPaths servable serves
    exact ⟨fun file member => braceless file.asset (List.mem_map_of_mem member), identified⟩
  · rintro ⟨braceless, identified⟩
    exact AssetSet.servesOwnPaths_of_distinct servable (List.forall_mem_map.mpr braceless) identified

theorem servesOwnPaths_iff_one : ∃ walked,
    walk ⟨"site".toList, []⟩ [emptyFile "a".toList] = .ok walked ∧
      (walked.assets none (some "index.html".toList) "asset".toList).ServesOwnPaths
        Router.alphabetical := by
  obtain ⟨walked, walks, paths⟩ := exists_walk_one
  refine ⟨walked, walks, (servesOwnPaths_iff Router.alphabetical _ _ walked walks none
    (some "index.html".toList) "asset".toList).mpr ⟨?_, ?_⟩⟩
  · intro file member
    have isPath := List.mem_map_of_mem (f := Embedded.path) member
    rw [paths, List.mem_singleton] at isPath
    rw [isPath]
    decide
  · obtain ⟨file, isFiles, isPath⟩ := List.map_eq_singleton_iff.mp paths
    have served : (walked.assets none (some "index.html".toList) "asset".toList).served =
        [(file.asset, "a".toList)] := by
      have isAsset : file.asset.path = "a".toList := isPath
      have unindexed : ∀ directory, Uri.stripEnd "index.html".toList "a".toList ≠ some directory :=
        fun directory found => Option.some_ne_none directory (found.symm.trans (by decide))
      simpa [AssetSet.served, AssetSet.indexed, Walked.assets, isFiles, isAsset] using
        fun directory found => absurd found (unindexed directory)
    rw [served]
    exact List.nodup_singleton _

/-- Two files whose names differ in a hyphen and an underscore are both walked,
and a router that mounts them is not built. -/
theorem not_servesOwnPaths_two : ¬ ∀ walked,
    walk ⟨"site".toList, []⟩ [emptyFile "a-b".toList, emptyFile "a_b".toList] = .ok walked →
      (walked.assets none (some "index.html".toList) "asset".toList).ServesOwnPaths
        Router.alphabetical := by
  intro stated
  obtain ⟨walked, walks, perm⟩ := exists_walk_two
  have servable : ∀ asset ∈ (walked.assets none (some "index.html".toList) "asset".toList).assets,
      Servable asset.path :=
    List.forall_mem_map.mpr (servable_of_walk walks)
  obtain ⟨-, identified⟩ := AssetSet.distinct_of_servesOwnPaths servable (stated walked walks)
  rw [AssetSet.served, List.map_append] at identified
  have words := (List.nodup_append.mp identified).1
  have isWords : ((walked.assets none (some "index.html".toList) "asset".toList).assets.map
      fun asset => (asset, asset.path)).map (fun entry => wordOf entry.2) =
        (walked.files.map Embedded.path).map wordOf := by
    simp [Walked.assets, Function.comp_def, Embedded.asset]
  rw [isWords, (perm.map wordOf).nodup_iff] at words
  exact absurd words (by decide)

end Kynos.Assets
