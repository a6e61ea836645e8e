import Kynos.Router.Description

/-!
# Validation predicts the build

A router is built just where describing it gives no error. The match table is
tried without the shapes it has held, each of which the rule over templates
reports; so a trial without a refusal, over a document without an error, keeps in
step with the table a build fills.
-/

namespace Kynos.Description

open Kynos.OpenApi Kynos.Router Kynos.Run Kynos.Word

variable {Table Operation Rest Other Failure Json : Type}

/-- No violation is an error. -/
def Clean {Error : Type} (violations : List (Violation Error)) : Prop :=
  ∀ violation ∈ violations, violation.severity ≠ .error

theorem Clean.mono {Error : Type} {violations more : List (Violation Error)} (clean : Clean more)
    (subset : violations ⊆ more) : Clean violations :=
  fun violation member => clean violation (subset member)

theorem Clean.eq_nil {Error : Type} {violations : List (Violation Error)} (clean : Clean violations)
    (errors : ∀ violation ∈ violations, violation.severity = .error) : violations = [] :=
  List.eq_nil_iff_forall_not_mem.mpr fun violation member =>
    clean violation member (errors violation member)

/-! ## The rule over templates -/

section Templates

variable {rules : Text → List (Violation (SpecError Other))} {items : Items Other}

/-- Every template walked is the first of its shape. -/
def Items.Distinct (items : Items Other) (walked : List Text) : Prop :=
  ∀ raw ∈ walked, ∀ template, PathTemplate.parse raw = .ok template →
    items.normalizedPaths.lookup template.normalized = some raw

theorem Items.violations_pathItem (rules : Text → List (Violation (SpecError Other)))
    (items : Items Other) (raw : Text) :
    items.violations ⊆ (items.pathItem rules raw).violations := by
  unfold Items.pathItem
  split
  · exact List.subset_append_left _ _
  · exact List.Subset.trans (List.subset_append_left _ _) (List.subset_append_left _ _)

theorem Items.violations_foldl (rules : Text → List (Violation (SpecError Other)))
    (items : Items Other) (keys : List Text) :
    items.violations ⊆ (keys.foldl (Items.pathItem rules) items).violations := by
  induction keys generalizing items with
  | nil => exact List.Subset.refl _
  | cons raw keys ih => exact List.Subset.trans (items.violations_pathItem rules raw) (ih _)

/-- An item that gives no error is the first of its shape. -/
theorem Items.exists_of_clean_pathItem {raw : Text}
    (clean : Clean (items.pathItem rules raw).violations) :
    ∃ template, PathTemplate.parse raw = .ok template ∧
      (items.pathItem rules raw).normalizedPaths.lookup template.normalized = some raw ∧
      ∀ shape key, items.normalizedPaths.lookup shape = some key →
        (items.pathItem rules raw).normalizedPaths.lookup shape = some key := by
  cases parsed : PathTemplate.parse raw with
  | error reason =>
      simp only [Items.pathItem, parsed] at clean
      exact absurd rfl (clean _ (List.mem_append_right _ List.mem_cons_self))
  | ok template =>
      refine ⟨template, rfl, ?_⟩
      simp only [Items.pathItem, parsed] at clean ⊢
      cases seen : items.normalizedPaths.lookup template.normalized with
      | some existing =>
          rw [seen] at clean
          have same : existing = raw := by
            by_contra differs
            refine clean (errorAt (pathLocation raw) (.duplicatePathTemplate raw existing)) ?_ rfl
            simp [differs]
          exact ⟨by rw [seen, same], fun _ _ found => found⟩
      | none =>
          constructor
          · rw [List.lookup_append, seen]
            simp
          · intro shape key found
            rw [List.lookup_append, found]
            rfl

theorem Items.Distinct.pathItem {walked : List Text} (distinct : items.Distinct walked) {raw : Text}
    (clean : Clean (items.pathItem rules raw).violations) :
    (items.pathItem rules raw).Distinct (raw :: walked) := by
  obtain ⟨template, parsed, first, kept⟩ := Items.exists_of_clean_pathItem clean
  intro other member otherTemplate otherParsed
  rcases List.mem_cons.mp member with rfl | inWalked
  · rw [parsed] at otherParsed
    cases otherParsed
    exact first
  · exact kept _ _ (distinct other inWalked otherTemplate otherParsed)

theorem Items.Distinct.foldl {walked keys : List Text} (distinct : items.Distinct walked)
    (clean : Clean (keys.foldl (Items.pathItem rules) items).violations) :
    ∀ raw ∈ keys, ∀ template, PathTemplate.parse raw = .ok template →
      (keys.foldl (Items.pathItem rules) items).normalizedPaths.lookup template.normalized =
        some raw := by
  suffices (keys.foldl (Items.pathItem rules) items).Distinct (keys.reverse ++ walked) from
    fun raw member => this raw (List.mem_append_left _ (List.mem_reverse.mpr member))
  induction keys generalizing items walked with
  | nil => exact distinct
  | cons raw keys ih =>
      rw [List.reverse_cons, List.append_assoc]
      exact ih (distinct.pathItem
        (clean.mono (Items.violations_foldl rules (items.pathItem rules raw) keys))) clean

/-- Without an error, keys of one shape are one key. -/
theorem eq_of_clean_checkPaths {keys : List Text} (clean : Clean (checkPaths rules keys))
    {first second : PathTemplate} (accepted : Accepted first) (otherAccepted : Accepted second)
    (member : first.raw ∈ keys) (otherMember : second.raw ∈ keys)
    (same : first.normalized = second.normalized) : first.raw = second.raw := by
  have distinct : Items.Distinct (⟨[], []⟩ : Items Other) [] := by
    intro raw member
    cases member
  have found := distinct.foldl clean first.raw member first accepted
  rw [same, distinct.foldl clean second.raw otherMember second otherAccepted] at found
  exact (Option.some.inj found).symm

end Templates

/-! ## Describing keeps every path -/

theorem mem_putItem {key : Text} {item : PathItem Operation}
    {items : List (Text × PathItem Operation)} {wanted : Text} :
    wanted ∈ (putItem key item items).map Prod.fst ↔ wanted = key ∨ wanted ∈ items.map Prod.fst := by
  induction items with
  | nil => simp [putItem]
  | cons entry items ih =>
      obtain ⟨other, known⟩ := entry
      rw [putItem]
      split
      · next same =>
          subst same
          simp
      · simp only [List.map_cons, List.mem_cons, ih]
        exact or_left_comm

/-- Every mounted template is a key of the document. -/
theorem mem_of_mounted {mounted : List (Mounted Operation)} {paths : Paths Operation Other}
    {operation : Mounted Operation} (member : operation ∈ mounted) :
    operation.path.raw ∈ (mounted.foldl Paths.describe paths).items.map Prod.fst := by
  have kept : ∀ (mounted : List (Mounted Operation)) (paths : Paths Operation Other) (key : Text),
      key ∈ paths.items.map Prod.fst →
        key ∈ (mounted.foldl Paths.describe paths).items.map Prod.fst := by
    intro mounted
    induction mounted with
    | nil => exact fun _ _ known => known
    | cons next mounted ih => exact fun paths key known => ih _ _ (mem_putItem.mpr (.inr known))
  induction mounted generalizing paths with
  | nil => cases member
  | cons next mounted ih =>
      rcases List.mem_cons.mp member with rfl | inRest
      · exact kept mounted _ _ (mem_putItem.mpr (.inl rfl))
      · exact ih inRest

/-! ## The trial keeps in step -/

section InStep

variable (matcher : Matcher Table)

/-- The table tried is the one filled, and the patterns held are the keys that
have an entry. -/
def InStep (trial : TrialTable Table) (filling : Filling Table) : Prop :=
  trial.table = filling.table ∧ ∀ key, key ∈ trial.held ↔ (filling.indexOf.lookup key).isSome

variable {matcher} {trial : TrialTable Table} {filling : Filling Table}

theorem Filling.install_of_pathEntry {pattern : Text} {index : Nat} {entered : Filling Table}
    (found : (filling.pathEntry matcher pattern : Except (Error Other Failure) _) =
      .ok (index, entered)) (methods : List Method) :
    ∃ next, (filling.install matcher pattern methods : Except (Error Other Failure) _) = .ok next ∧
      next.table = entered.table ∧ next.indexOf = entered.indexOf := by
  rw [Filling.install, found]
  exact ⟨_, rfl, rfl, rfl⟩

/-- A pattern tried without a refusal is installed. -/
theorem InStep.install (same : InStep trial filling) {pattern : Text} (methods : List Method)
    (taken : (@TrialTable.insert Table Other matcher trial pattern).2 = none) :
    ∃ next, (filling.install matcher pattern methods : Except (Error Other Failure) _) = .ok next ∧
      InStep (@TrialTable.insert Table Other matcher trial pattern).1 next := by
  obtain ⟨tables, keys⟩ := same
  by_cases held : pattern ∈ trial.held
  · obtain ⟨index, found⟩ := Option.isSome_iff_exists.mp ((keys pattern).mp held)
    obtain ⟨next, installed, table, indexOf⟩ := Filling.install_of_pathEntry
      (show (filling.pathEntry matcher pattern : Except (Error Other Failure) _) =
        .ok (index, filling) by rw [Filling.pathEntry, found]) methods
    refine ⟨next, installed, ?_⟩
    rw [TrialTable.insert, if_pos held, InStep, table, indexOf]
    exact ⟨tables, keys⟩
  · have absent : filling.indexOf.lookup pattern = none :=
      Option.not_isSome_iff_eq_none.mp (mt (keys pattern).mpr held)
    rw [TrialTable.insert, if_neg held] at taken ⊢
    rw [tables] at taken ⊢
    have inserted : matcher.insert filling.table pattern =
        ((matcher.insert filling.table pattern).1, none) :=
      Prod.ext rfl (Option.map_eq_none_iff.mp taken)
    obtain ⟨next, installed, table, indexOf⟩ := Filling.install_of_pathEntry
      (show (filling.pathEntry matcher pattern : Except (Error Other Failure) _) =
        .ok (filling.paths.length, ⟨(matcher.insert filling.table pattern).1,
          filling.paths ++ [⟨pattern, []⟩], (pattern, filling.paths.length) :: filling.indexOf⟩) by
        rw [Filling.pathEntry, absent]
        simp only
        rw [inserted]) methods
    refine ⟨next, installed, table.symm, fun key => ?_⟩
    rw [indexOf, List.lookup_cons]
    simp only [List.mem_cons, keys key]
    by_cases isPattern : key = pattern
    · simp [isPattern]
    · simp [isPattern, beq_eq_false_iff_ne.mpr isPattern]

theorem TrialTable.shapes_insert (pattern : Text) :
    (@TrialTable.insert Table Other matcher trial pattern).1.shapes = trial.shapes := by
  unfold TrialTable.insert
  split <;> rfl

theorem TrialTable.mem_held_insert (pattern : Text) {key : Text} :
    key ∈ (@TrialTable.insert Table Other matcher trial pattern).1.held ↔
      key = pattern ∨ key ∈ trial.held := by
  unfold TrialTable.insert
  split
  · next held => exact ⟨.inr, fun known => known.elim (fun same => same ▸ held) id⟩
  · exact List.mem_cons

/-- Every shape held is that of a template held. -/
def Shaped (mounted : List (Mounted Operation)) (trial : TrialTable Table) : Prop :=
  ∀ shape ∈ trial.shapes, ∃ operation ∈ mounted,
    operation.path.raw ∈ trial.held ∧ operation.path.normalized = shape

/-- A template tried without a refusal is installed, where templates of one shape
are one. -/
theorem InStep.install_template {mounted : List (Mounted Operation)}
    (distinct : ∀ first ∈ mounted, ∀ second ∈ mounted,
      first.path.normalized = second.path.normalized → first.path.raw = second.path.raw)
    (same : InStep trial filling) (shaped : Shaped mounted trial) {operation : Mounted Operation}
    (member : operation ∈ mounted) (methods : List Method)
    (taken : (@TrialTable.insertTemplate Table Other matcher trial operation.path).2 = none) :
    ∃ next, (filling.install matcher operation.path.raw methods :
        Except (Error Other Failure) _) = .ok next ∧
      InStep (@TrialTable.insertTemplate Table Other matcher trial operation.path).1 next ∧
      Shaped mounted (@TrialTable.insertTemplate Table Other matcher trial operation.path).1 := by
  by_cases held : operation.path.raw ∈ trial.held
  · have tried : (@TrialTable.insert Table Other matcher trial operation.path.raw) = (trial, none) := by
      rw [TrialTable.insert, if_pos held]
    obtain ⟨next, installed, kept⟩ := same.install methods
      (show (@TrialTable.insert Table Other matcher trial operation.path.raw).2 = none by rw [tried])
    rw [tried] at kept
    rw [TrialTable.insertTemplate, if_pos held]
    exact ⟨next, installed, kept, shaped⟩
  · have unshaped : operation.path.normalized ∉ trial.shapes := by
      intro known
      obtain ⟨earlier, earlierMember, earlierHeld, sameShape⟩ := shaped _ known
      exact held (distinct earlier earlierMember operation member sameShape ▸ earlierHeld)
    rw [TrialTable.insertTemplate, if_neg held, if_neg unshaped] at taken ⊢
    have same' : InStep { trial with shapes := operation.path.normalized :: trial.shapes } filling :=
      same
    obtain ⟨next, installed, kept⟩ := same'.install methods taken
    refine ⟨next, installed, kept, fun shape known => ?_⟩
    rw [TrialTable.shapes_insert] at known
    simp only [TrialTable.mem_held_insert]
    rcases List.mem_cons.mp known with rfl | earlier
    · exact ⟨operation, member, .inl rfl, rfl⟩
    · obtain ⟨found, foundMember, foundHeld, foundShape⟩ := shaped shape earlier
      exact ⟨found, foundMember, .inr foundHeld, foundShape⟩

/-- A trial without a refusal is followed by filling the table. -/
theorem exists_fill {router : Router Operation Other}
    (distinct : ∀ first ∈ router.mounted, ∀ second ∈ router.mounted,
      first.path.normalized = second.path.normalized → first.path.raw = second.path.raw)
    (silent : (router.tryPatterns matcher).2 = []) :
    ∃ filling, (router.fill matcher : Except (Error Other Failure) _) = .ok filling := by
  unfold Router.tryPatterns at silent
  have initial : InStep (⟨matcher.empty, [], []⟩ : TrialTable Table) ⟨matcher.empty, [], []⟩ ∧
      Shaped router.mounted (⟨matcher.empty, [], []⟩ : TrialTable Table) :=
    ⟨⟨rfl, fun key => by simp⟩, fun shape member => by cases member⟩
  obtain ⟨described, mounting, same, -⟩ := exists_of_dryRun
    (fun filling (mounted : Mounted Operation) =>
      (filling.install matcher mounted.path.raw [mounted.method] : Except (Error Other Failure) _))
    (fun trial filling => InStep trial filling ∧ Shaped router.mounted trial)
    (reports_eq_nil_of_dryRun silent) initial fun operation member trial filling same taken =>
      same.1.install_template distinct same.2 member _ (Option.map_eq_none_iff.mp taken)
  obtain ⟨filled, installing, -⟩ := exists_of_dryRun
    (fun filling (route : UncheckedRoute) =>
      (filling.install matcher route.pattern route.methods : Except (Error Other Failure) _))
    InStep silent same fun route _ trial filling same taken =>
      same.install _ (Option.map_eq_none_iff.mp taken)
  refine ⟨filled, ?_⟩
  rw [Router.fill, mounting]
  exact installing

end InStep

/-! ## What a description without an error says -/

section Describing

variable [DecidableEq Other] {matcher : Matcher Table}
  {around : Surroundings Operation Rest Other Failure Json} {router : Router Operation Other}

theorem subset_pushNew (violations : List (Violation (RouterError Other)))
    (violation : Violation (RouterError Other)) : violations ⊆ pushNew violations violation := by
  unfold pushNew
  split
  · exact List.Subset.refl _
  · exact List.subset_append_left _ _

theorem subset_foldl_pushNew (errors : List (RouterError Other))
    (violations : List (Violation (RouterError Other))) :
    violations ⊆ errors.foldl (fun violations error =>
      pushNew violations (errorAt "#".toList error)) violations := by
  induction errors generalizing violations with
  | nil => exact List.Subset.refl _
  | cons error errors ih => exact List.Subset.trans (subset_pushNew violations _) (ih _)

/-- Denying unchecked schemas takes no error back. -/
theorem Clean.of_denied {deny : Bool} {violations : List (Violation (RouterError Other))}
    (clean : Clean (violations.map (denied deny))) : Clean violations := by
  intro violation member isError
  apply clean _ (List.mem_map_of_mem member)
  unfold denied
  split
  · rfl
  · exact isError

omit [DecidableEq Other] in
theorem severity_of_tryPatterns {violation : Violation (RouterError Other)}
    (member : violation ∈ (router.tryPatterns matcher).2) : violation.severity = .error := by
  rcases exists_of_mem_dryRun member with described | ⟨route, -, trial, refused⟩
  · rcases exists_of_mem_dryRun described with none | ⟨mounted, -, trial, refused⟩
    · cases none
    · obtain ⟨_, _, rfl⟩ := Option.map_eq_some_iff.mp refused
      rfl
  · obtain ⟨_, _, rfl⟩ := Option.map_eq_some_iff.mp refused
    rfl

theorem clean_of_describe {described : Described Operation Rest Other}
    (describes : router.describe matcher around = .ok described)
    (clean : Clean described.violations) :
    (router.tryPatterns matcher).2 = [] ∧
      Clean (checkPaths (around.rulesOfItem described.document)
        (described.document.paths.map Prod.fst)) ∧
      described.document.paths =
        (router.mounted.foldl Paths.describe ⟨[], router.violations ++ around.schemes⟩).items := by
  simp only [Router.describe, Bind.bind, bind_eq_ok_iff] at describes
  obtain ⟨_, _, _, _, _, _, rest, _, returned⟩ := describes
  cases returned
  have found := Clean.of_denied clean
  refine ⟨Clean.eq_nil ?_ fun _ => severity_of_tryPatterns, fun violation member isError => ?_, rfl⟩
  · refine found.mono fun violation member => List.mem_append_left _ ?_
    exact subset_foldl_pushNew _ _ (List.mem_append_right _ (List.mem_append_left _ member))
  · refine found (lift violation) (List.mem_append_right _ (List.mem_map_of_mem ?_)) isError
    exact List.mem_append_left _ (List.mem_append_right _ member)

omit [DecidableEq Other] in
theorem Described.intoDocument_eq_ok_iff {described : Described Operation Rest Other}
    {document : Document Operation Rest} :
    (described.intoDocument : Except (Error Other Failure) _) = .ok document ↔
      described.document = document ∧ Clean described.violations := by
  simp only [Described.intoDocument, Clean]
  split
  · next none =>
      rw [List.isEmpty_iff, List.filter_eq_nil_iff] at none
      simp only [decide_eq_true_eq] at none
      simp only [Except.ok.injEq]
      exact ⟨fun same => ⟨same, none⟩, And.left⟩
  · next some =>
      rw [List.isEmpty_iff, List.filter_eq_nil_iff] at some
      simp only [decide_eq_true_eq] at some
      simp only [reduceCtorEq, false_iff, not_and]
      exact fun _ => some

variable (around router) in
omit [DecidableEq Other] in
theorem exists_render (document : Document Operation Rest) :
    ∃ published, router.render around document = .ok published := by
  obtain ⟨json, serialized⟩ := around.serializes document
  unfold Router.render
  split
  · rw [serialized]
    exact ⟨_, rfl⟩
  · exact ⟨_, rfl⟩

/-- Described without an error, a router fills its match table. -/
theorem exists_fill_of_describe {described : Described Operation Rest Other}
    (describes : router.describe matcher around = .ok described)
    (clean : Clean described.violations) :
    ∃ filling, (router.fill matcher : Except (Error Other Failure) _) = .ok filling := by
  obtain ⟨silent, templates, paths⟩ := clean_of_describe describes clean
  refine exists_fill (fun first firstMember second secondMember same => ?_) silent
  rw [paths] at templates
  exact eq_of_clean_checkPaths templates first.accepted second.accepted
    (mem_of_mounted firstMember) (mem_of_mounted secondMember) same

end Describing

/-! ## The prediction -/

/-- A build succeeds. -/
def Builds [DecidableEq Other] (matcher : Matcher Table)
    (around : Surroundings Operation Rest Other Failure Json) (router : Router Operation Other) :
    Prop :=
  ∃ service, router.build matcher around = .ok service

/-- Validation returns without an error. -/
def Validates [DecidableEq Other] (matcher : Matcher Table)
    (around : Surroundings Operation Rest Other Failure Json) (router : Router Operation Other) :
    Prop :=
  ∃ violations, router.validate matcher around = .ok violations ∧ Clean violations

/-- A router is built just where validation returns without an error; then the
match table takes every template and every unchecked pattern. -/
theorem validation_predicts [DecidableEq Other] (matcher : Matcher Table)
    (around : Surroundings Operation Rest Other Failure Json) (router : Router Operation Other) :
    (Builds matcher around router ↔ Validates matcher around router) ∧
      (Validates matcher around router →
        ∃ filling, (router.fill matcher : Except (Error Other Failure) _) = .ok filling) := by
  have filled : ∀ described, router.describe matcher around = .ok described →
      Clean described.violations →
      ∃ filling, (router.fill matcher : Except (Error Other Failure) _) = .ok filling :=
    fun _ => exists_fill_of_describe
  simp only [Builds, Validates, Router.build, Router.validate, Bind.bind, bind_eq_ok_iff]
  refine ⟨⟨?_, ?_⟩, ?_⟩
  · rintro ⟨_, described, describes, document, isDocument, _⟩
    exact ⟨_, ⟨described, describes, rfl⟩, (Described.intoDocument_eq_ok_iff.mp isDocument).2⟩
  · rintro ⟨_, ⟨described, describes, ⟨⟩⟩, clean⟩
    obtain ⟨filling, fills⟩ := filled described describes clean
    obtain ⟨published, renders⟩ := exists_render around router described.document
    exact ⟨_, described, describes, _, Described.intoDocument_eq_ok_iff.mpr ⟨rfl, clean⟩, published,
      renders, filling, fills, rfl⟩
  · rintro ⟨_, ⟨described, describes, ⟨⟩⟩, clean⟩
    exact filled described describes clean

/-- A table of exact patterns. -/
def exactly : Matcher (List Text) where
  empty := []
  insert table pattern :=
    if table.contains pattern then (table, some (.conflict pattern)) else (pattern :: table, none)

/-- Surroundings that add nothing. -/
def alone : Surroundings Unit Unit Unit Unit Unit where
  unhonourable := none
  schemes := []
  links := none
  shortCircuits := []
  conflicts := none
  rest := ()
  lowestExpressing _ := .ok ()
  annotate rest := rest
  rulesBefore _ := []
  rulesOfItem _ _ := []
  rulesAfter _ := []
  toJson _ := .ok ()
  serializes _ := ⟨(), rfl⟩

theorem accepted_spelling : Accepted ⟨"/a".toList, []⟩ := by
  simp [Accepted, PathTemplate.parse, hasQueryOrFragment, hasQueryOrFragmentFrom, parseFrom,
    splitOnce, checkLiteral, checkSegments, checkSegmentsFrom,
    (by decide : isPathCharacter 'a' = true)]

theorem accepted_otherSpelling : Accepted ⟨"/a/".toList, []⟩ := by
  simp [Accepted, PathTemplate.parse, hasQueryOrFragment, hasQueryOrFragmentFrom, parseFrom,
    splitOnce, checkLiteral, checkSegments, checkSegmentsFrom,
    (by decide : isPathCharacter 'a' = true)]

/-- A lenient router that declares both spellings of a path. -/
def bothSpellings : Router Unit Unit where
  mounted := [⟨.get, ⟨"/a".toList, []⟩, accepted_spelling, (), false⟩,
    ⟨.get, ⟨"/a/".toList, []⟩, accepted_otherSpelling, (), false⟩]
  unchecked := []
  violations := []
  denyUncheckedSchemas := false
  trailingSlashes := .lenient

theorem validates_bothSpellings : Validates exactly alone bothSpellings := by
  have shapes : PathTemplate.normalized ⟨"/a".toList, []⟩ = some "/a".toList ∧
      PathTemplate.normalized ⟨"/a/".toList, []⟩ = some "/a/".toList := by
    constructor <;> simp [PathTemplate.normalized, PathTemplate.normalizedFrom, splitOnce]
  have walked : (checkPaths (fun _ => []) ["/a".toList, "/a/".toList] :
      List (Violation (SpecError Unit))) = [] := by
    have first := accepted_spelling
    have second := accepted_otherSpelling
    unfold Accepted at first second
    simp only [checkPaths, List.foldl_cons, List.foldl_nil, Items.pathItem, first, second, shapes]
    decide
  have tried : bothSpellings.tryMatchTable exactly = [] := by
    simp only [Router.tryMatchTable, Router.tryPatterns, bothSpellings, dryRun, List.foldl_cons,
      List.foldl_nil, TrialTable.insertTemplate, shapes]
    decide
  refine ⟨[], ?_, fun violation member => by cases member⟩
  simp only [Router.validate, Router.describe, Bind.bind, bind_eq_ok_iff]
  refine ⟨_, ⟨(), rfl, (), rfl, (), rfl, (), rfl, rfl⟩, ?_⟩
  rw [tried]
  exact congrArg (fun found => Except.ok (List.map _ (List.map lift ([] ++ found ++ [])))) walked

/-- A build registers the other spelling of a path that was declared, and is
refused. -/
theorem flipped_spelling_refused :
    ¬ ∀ router : Router Unit Unit,
      (Builds exactly alone router ↔ Validates exactly alone router) ∧
        (Validates exactly alone router →
          ∃ filling, (router.fill exactly : Except (Error Unit Unit) _) = .ok filling ∧
            (router.trailingSlashes = .lenient →
              (filling.registerFlippedSpellings exactly).2 = [])) := by
  intro stated
  obtain ⟨filling, fills, registered⟩ := (stated bothSpellings).2 validates_bothSpellings
  cases fills
  exact absurd (registered rfl) (by decide)

end Kynos.Description
