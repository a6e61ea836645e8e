import Kynos.Http.Date
import Kynos.OpenApi.Document
import Kynos.OpenApi.Violation
import Kynos.Text.Percent

/-!
# The targets of links

A link names an operation by its `operationId` or by a reference to it. A
validator gathers the operations of a document and what is given by reference,
beyond which it does not look, and compares references with the pointers to
these, as texts.
-/

namespace Kynos.OpenApi

open Kynos.Http

/-! ## The source -/

/-- `RefOr::as_item`. -/
def RefOr.asItem {T : Type} : RefOr T → Option T
  | .item inline => some inline
  | .ref _ => none

/-- `Responses::entries`. -/
def entries (responses : LinkingResponses) : List (Text × LinkingResponse) :=
  ((responses.defaultResponse.bind RefOr.asItem).map ("default".toList, ·)).toList ++
    responses.responses.entries.filterMap fun (key, response) => response.asItem.map (key, ·)

/-- `Targets`. -/
structure Targets where
  ids : List Text
  operations : List (Text × Operation)
  references : List Text
  elsewhere : Bool

namespace Targets

/-- `Targets::default`. -/
def empty : Targets where
  ids := []
  operations := []
  references := []
  elsewhere := false

/-- `reference`. -/
def reference (targets : Targets) (place : At) (uri : Text) : Targets :=
  { targets with
    elsewhere := targets.elsewhere || uri.head? != some '#'
    references := targets.references ++ [place.pointer] }

/-- `operation_walked`. -/
def operationWalked (targets : Targets) (place : At) (operation : Operation) : Targets :=
  { targets with
    ids := targets.ids ++ operation.operationId.toList
    operations := targets.operations ++ [(place.pointer, operation)] }

/-- `path_item`. -/
def pathItem (targets : Targets) (place : At) (item : PathItem) : Targets :=
  match item.reference with
  | some uri => targets.reference place uri
  | none => targets

/-- What the walk tells of, one after another. -/
def visit (targets : Targets) : Visited → Targets
  | .pathItem place item => targets.pathItem place item
  | .operationWalked place operation => targets.operationWalked place operation
  | .reference place uri => targets.reference place uri

/-- `Targets::of`. -/
def ofDocument (document : Document) : Targets :=
  (walk document).foldl visit empty

end Targets

/-- The loop of `percent_decode`. -/
def decodeOctets : Octets → Option Octets
  | [] => some []
  | octet :: rest =>
      if octet = 37 then
        match rest with
        | high :: low :: tail =>
            (Text.Percent.escaped high low).bind fun decoded => (decodeOctets tail).map (decoded :: ·)
        | _ => none
      else
        (decodeOctets rest).map (octet :: ·)

/-- `percent_decode`. -/
def percentDecode (fragment : Text) : Option Text :=
  (decodeOctets fragment.toOctets).bind Octets.fromUtf8

/-- `Targets::resolves`. -/
def Targets.resolves (targets : Targets) (operationRef : Text) : Bool :=
  match ((Date.stripPrefix ['#'] operationRef).bind percentDecode).map ('#' :: ·) with
  | none => false
  | some pointer =>
      (targets.operations.any fun operation => operation.1 == pointer) ||
        targets.references.any fun place =>
          (Date.stripPrefix place pointer).any fun rest => rest.head? == some '/'

/-- `check_link_target`. -/
def checkLinkTarget (location : Text) (link : Link) (targets : Targets) : List Violation :=
  match link.target with
  | .id id =>
      if !targets.elsewhere && !targets.ids.contains id then
        [.ofError location (.unknownLinkOperationId id)]
      else
        []
  | .uri uri =>
      if uri.head? == some '#' && !targets.resolves uri then
        [.ofError location (.unresolvedLinkOperationRef uri)]
      else
        []

/-- The links at a location: the closure of `check_link_targets`. -/
def checkLinks (targets : Targets) (location : Text) (links : Map (RefOr Link)) : List Violation :=
  links.flatMap fun (name, link) =>
    (link.asItem.map fun link =>
      checkLinkTarget (location ++ "/links/".toList ++ Text.Pointer.escape name) link targets).getD []

/-- `check_link_targets`. -/
def checkLinkTargets (document : Document) : List Violation :=
  let targets := Targets.ofDocument document
  (targets.operations.flatMap fun (location, operation) =>
    (entries operation.responses).flatMap fun (key, response) =>
      checkLinks targets (location ++ "/responses/".toList ++ Text.Pointer.escape key) response.rest) ++
  (document.components.responses.flatMap fun (name, response) =>
    (response.asItem.map fun response =>
      checkLinks targets (At.pointer ["components".toList, "responses".toList, name]) response.rest).getD []) ++
  checkLinks targets "#/components".toList document.components.links

/-! ## What links name -/

/-- A path item, or a callback, given by reference. -/
def Referenced (document : Document) (place : At) (uri : Text) : Prop :=
  (∃ item, Stands document place (.pathItem item) ∧ item.reference = some uri) ∨
    Stands document place (.callback (.ref uri)) ∨ Stands document place (.entry (.ref uri))

/-- The octets that octets of a fragment stand for: an escape for the one its digits are the
value of, any other for itself. -/
inductive Spells : Octets → Octets → Prop where
  | nil : Spells [] []
  | literal {octet : UInt8} {rest decoded : Octets} (plain : octet ≠ 37) (spells : Spells rest decoded) :
      Spells (octet :: rest) (octet :: decoded)
  | escape {high low octet : UInt8} {rest decoded : Octets}
      (digits : Text.Percent.escaped high low = some octet) (spells : Spells rest decoded) :
      Spells (37 :: high :: low :: rest) (octet :: decoded)

/-- A text that goes on, after a slash, from the pointer to what is given by reference. -/
def Beyond (document : Document) (pointer : Text) : Prop :=
  ∃ place uri rest, Referenced document place uri ∧ pointer = Text.Pointer.render place ++ '/' :: rest

/-- A fragment that names an operation, or what may be one. -/
def Resolves (document : Document) (fragment : Text) : Prop :=
  ∃ pointer, Spells fragment.toOctets pointer.toOctets ∧
    ((∃ place operation, Text.Pointer.read pointer = some place ∧
        Stands document place (.operation operation)) ∨
      Beyond document pointer)

/-- What is reported of a link's target. -/
def Broken (document : Document) : LinkTarget → SpecError → Prop
  | .id id, error => error = .unknownLinkOperationId id ∧
      (¬ ∃ place operation, Stands document place (.operation operation) ∧ operation.operationId = some id) ∧
        ¬ ∃ place uri, Referenced document place uri ∧ uri.head? ≠ some '#'
  | .uri uri, error => error = .unresolvedLinkOperationRef uri ∧
      ∃ fragment, uri = '#' :: fragment ∧ ¬ Resolves document fragment

/-- The links given inline, and where: under a response of an operation, under a response
component, and as a component. -/
inductive Linked (document : Document) : At → Link → Prop where
  | default {place : At} {operation : Operation} {response : LinkingResponse} {name : Text} {link : Link}
      (stands : Stands document place (.operation operation))
      (inline : operation.responses.defaultResponse = some (.item response))
      (member : (name, .item link) ∈ response.rest) :
      Linked document (place ++ ["responses".toList, "default".toList, "links".toList, name]) link
  | keyed {place : At} {operation : Operation} {key : Text} {response : LinkingResponse} {name : Text}
      {link : Link} (stands : Stands document place (.operation operation))
      (inline : (key, .item response) ∈ operation.responses.responses.entries)
      (member : (name, .item link) ∈ response.rest) :
      Linked document (place ++ ["responses".toList, key, "links".toList, name]) link
  | response {key : Text} {response : LinkingResponse} {name : Text} {link : Link}
      (inline : (key, .item response) ∈ document.components.responses)
      (member : (name, .item link) ∈ response.rest) :
      Linked document ["components".toList, "responses".toList, key, "links".toList, name] link
  | component {name : Text} {link : Link} (member : (name, .item link) ∈ document.components.links) :
      Linked document ["components".toList, "links".toList, name] link

/-! ## Fragments -/

theorem decodeOctets_cons_of_ne {octet : UInt8} (plain : octet ≠ 37) (rest : Octets) :
    decodeOctets (octet :: rest) = (decodeOctets rest).map (octet :: ·) := by
  rw [decodeOctets.eq_def]
  exact if_neg plain

theorem decodeOctets_eq_some_iff {octets decoded : Octets} :
    decodeOctets octets = some decoded ↔ Spells octets decoded := by
  constructor
  · intro decodes
    fun_induction decodeOctets octets generalizing decoded with
    | case1 =>
        rw [← Option.some.inj decodes]
        exact .nil
    | case2 high low tail ih =>
        obtain ⟨value, digits, rest⟩ := Option.bind_eq_some_iff.mp decodes
        obtain ⟨others, isTail, rfl⟩ := Option.map_eq_some_iff.mp rest
        exact .escape digits (ih isTail)
    | case3 => cases decodes
    | case4 octet rest plain ih =>
        obtain ⟨others, isRest, rfl⟩ := Option.map_eq_some_iff.mp decodes
        exact .literal plain (ih isRest)
  · intro spells
    induction spells with
    | nil => rw [decodeOctets]
    | literal plain _ ih => rw [decodeOctets_cons_of_ne plain, ih, Option.map_some]
    | escape digits _ ih => rw [decodeOctets, if_pos rfl, digits, Option.bind_some, ih, Option.map_some]

/-- A fragment is decoded to the text whose octets it spells. -/
theorem percentDecode_eq_some_iff {fragment text : Text} :
    percentDecode fragment = some text ↔ Spells fragment.toOctets text.toOctets := by
  rw [percentDecode, Option.bind_eq_some_iff]
  simp only [decodeOctets_eq_some_iff, Text.fromUtf8_eq_some_iff]
  exact exists_eq_right

/-! ## What is gathered -/

namespace Visited

/-- The identifier a walk comes to. -/
def ids : Visited → List Text
  | .operationWalked _ operation => operation.operationId.toList
  | _ => []

/-- The operation a walk comes to, with its pointer. -/
def operations : Visited → List (Text × Operation)
  | .operationWalked place operation => [(place.pointer, operation)]
  | _ => []

/-- What a walk comes to that is given by reference. -/
def references : Visited → List (At × Text)
  | .pathItem place item => (item.reference.map (place, ·)).toList
  | .operationWalked _ _ => []
  | .reference place uri => [(place, uri)]

end Visited

namespace Targets

theorem foldl_visit (visited : List Visited) (targets : Targets) :
    visited.foldl visit targets =
      { ids := targets.ids ++ visited.flatMap Visited.ids
        operations := targets.operations ++ visited.flatMap Visited.operations
        references := targets.references ++
          (visited.flatMap Visited.references).map fun reference => reference.1.pointer
        elsewhere := targets.elsewhere ||
          (visited.flatMap Visited.references).any fun reference => reference.2.head? != some '#' } := by
  induction visited generalizing targets with
  | nil => simp
  | cons first rest ih =>
      rw [List.foldl_cons, ih]
      cases first with
      | pathItem place item =>
          cases isReference : item.reference <;>
            simp [visit, pathItem, reference, isReference, Visited.ids, Visited.operations,
              Visited.references, Bool.or_assoc]
      | operationWalked place operation =>
          simp [visit, operationWalked, Visited.ids, Visited.operations, Visited.references]
      | reference place uri =>
          simp [visit, reference, Visited.ids, Visited.operations, Visited.references, Bool.or_assoc]

end Targets

section Gathered

variable {document : Document}

theorem mem_ids {id : Text} : id ∈ (Targets.ofDocument document).ids ↔
    ∃ place operation, Stands document place (.operation operation) ∧ operation.operationId = some id := by
  rw [Targets.ofDocument, Targets.foldl_visit]
  simp only [Targets.empty, List.nil_append, List.mem_flatMap, mem_walk_iff]
  constructor
  · rintro ⟨visited, stands, member⟩
    cases visited with
    | operationWalked place operation => exact ⟨place, operation, stands, Option.mem_toList.mp member⟩
    | _ => cases member
  · rintro ⟨place, operation, stands, isId⟩
    exact ⟨.operationWalked place operation, stands, Option.mem_toList.mpr isId⟩

theorem mem_operations {pointer : Text} {operation : Operation} :
    (pointer, operation) ∈ (Targets.ofDocument document).operations ↔
      ∃ place : At, pointer = place.pointer ∧ Stands document place (.operation operation) := by
  rw [Targets.ofDocument, Targets.foldl_visit]
  simp only [Targets.empty, List.nil_append, List.mem_flatMap, mem_walk_iff]
  constructor
  · rintro ⟨visited, stands, member⟩
    cases visited with
    | operationWalked place operation =>
        cases List.mem_singleton.mp member
        exact ⟨place, rfl, stands⟩
    | _ => cases member
  · rintro ⟨place, rfl, stands⟩
    exact ⟨.operationWalked place operation, stands, List.mem_singleton_self _⟩

theorem mem_references {place : At} {uri : Text} :
    (place, uri) ∈ (walk document).flatMap Visited.references ↔ Referenced document place uri := by
  simp only [List.mem_flatMap, mem_walk_iff]
  constructor
  · rintro ⟨visited, stands, member⟩
    cases visited with
    | pathItem standing item =>
        obtain ⟨reference, isReference, same⟩ := Option.map_eq_some_iff.mp (Option.mem_toList.mp member)
        cases same
        exact .inl ⟨item, stands, isReference⟩
    | operationWalked => cases member
    | reference standing location =>
        cases List.mem_singleton.mp member
        exact .inr stands
  · rintro (⟨item, stands, isReference⟩ | stands)
    · refine ⟨.pathItem place item, stands, Option.mem_toList.mpr ?_⟩
      rw [isReference, Option.map_some]
    · exact ⟨.reference place uri, stands, List.mem_singleton_self _⟩

theorem pointer_mem_references {pointer : Text} : pointer ∈ (Targets.ofDocument document).references ↔
    ∃ place : At, pointer = place.pointer ∧ ∃ uri, Referenced document place uri := by
  rw [Targets.ofDocument, Targets.foldl_visit]
  simp only [Targets.empty, List.nil_append, List.mem_map, Prod.exists, mem_references]
  constructor
  · rintro ⟨place, uri, referenced, rfl⟩
    exact ⟨place, rfl, uri, referenced⟩
  · rintro ⟨place, rfl, uri, referenced⟩
    exact ⟨place, uri, referenced, rfl⟩

theorem elsewhere_iff : (Targets.ofDocument document).elsewhere = true ↔
    ∃ place uri, Referenced document place uri ∧ uri.head? ≠ some '#' := by
  rw [Targets.ofDocument, Targets.foldl_visit]
  simp only [Targets.empty, Bool.false_or, List.any_eq_true, Prod.exists, mem_references, bne_iff_ne]

end Gathered

/-! ## What is reported -/

section Reported

variable {document : Document}

theorem pointer_eq_iff {place : At} {pointer : Text} :
    place.pointer = '#' :: pointer ↔ Text.Pointer.read pointer = some place := by
  rw [Text.Pointer.read_eq_some_iff, At.pointer, List.cons_inj_right]
  exact eq_comm

/-- The text goes on, after a slash, from a pointer. -/
theorem stripPrefix_pointer_iff {place : At} {pointer : Text} :
    ((Date.stripPrefix place.pointer ('#' :: pointer)).any fun rest => rest.head? == some '/') = true ↔
      ∃ rest, pointer = Text.Pointer.render place ++ '/' :: rest := by
  rw [Option.any_eq_true]
  simp only [Date.stripPrefix_eq_some_iff, At.pointer, List.cons_append, List.cons_inj_right, beq_iff_eq]
  constructor
  · rintro ⟨rest, rfl, slash⟩
    obtain ⟨others, rfl⟩ := List.head?_eq_some_iff.mp slash
    exact ⟨others, rfl⟩
  · rintro ⟨rest, rfl⟩
    exact ⟨'/' :: rest, rfl, rfl⟩

/-- A reference resolves as its fragment does. -/
theorem resolves_iff {fragment : Text} :
    (Targets.ofDocument document).resolves ('#' :: fragment) = true ↔ Resolves document fragment := by
  have stripped : Date.stripPrefix ['#'] ('#' :: fragment) = some fragment :=
    Date.stripPrefix_eq_some_iff.mpr rfl
  rw [Targets.resolves, stripped, Option.bind_some]
  cases decodes : percentDecode fragment with
  | none =>
      refine iff_of_false (by simp) ?_
      rintro ⟨pointer, spells, -⟩
      rw [percentDecode_eq_some_iff.mpr spells] at decodes
      cases decodes
  | some pointer =>
      have only {other : Text} : Spells fragment.toOctets other.toOctets ↔ other = pointer := by
        rw [← percentDecode_eq_some_iff, decodes, Option.some.injEq]
        exact eq_comm
      simp only [Option.map_some, Bool.or_eq_true, List.any_eq_true, Prod.exists, beq_iff_eq,
        Resolves, only, exists_eq_left, mem_operations, pointer_mem_references]
      refine or_congr ⟨?_, ?_⟩ ⟨?_, ?_⟩
      · rintro ⟨_, operation, ⟨place, rfl, stands⟩, same⟩
        exact ⟨place, operation, pointer_eq_iff.mp same, stands⟩
      · rintro ⟨place, operation, reads, stands⟩
        exact ⟨_, operation, ⟨place, rfl, stands⟩, pointer_eq_iff.mpr reads⟩
      · rintro ⟨_, ⟨place, rfl, uri, referenced⟩, goesOn⟩
        obtain ⟨rest, same⟩ := stripPrefix_pointer_iff.mp goesOn
        exact ⟨place, uri, rest, referenced, same⟩
      · rintro ⟨place, uri, rest, referenced, same⟩
        exact ⟨_, ⟨place, rfl, uri, referenced⟩, stripPrefix_pointer_iff.mpr ⟨rest, same⟩⟩

theorem mem_checkLinkTarget {location : Text} {link : Link} {violation : Violation} :
    violation ∈ checkLinkTarget location link (Targets.ofDocument document) ↔
      ∃ error, Broken document link.target error ∧ violation = .ofError location error := by
  obtain ⟨target⟩ := link
  cases target with
  | id id =>
      simp only [checkLinkTarget, List.mem_ite_nil_right, List.mem_singleton, Bool.and_eq_true,
        Bool.not_eq_true', ← Bool.not_eq_true, elsewhere_iff, List.contains_iff_mem, mem_ids, Broken,
        and_assoc, exists_eq_left]
      exact and_left_comm
  | uri uri =>
      have unresolved : uri.head? = some '#' ∧ (Targets.ofDocument document).resolves uri = false ↔
          ∃ fragment, uri = '#' :: fragment ∧ ¬ Resolves document fragment := by
        rw [List.head?_eq_some_iff]
        constructor
        · rintro ⟨⟨fragment, rfl⟩, fails⟩
          exact ⟨fragment, rfl, resolves_iff.not.mp (Bool.eq_false_iff.mp fails)⟩
        · rintro ⟨fragment, rfl, fails⟩
          exact ⟨⟨fragment, rfl⟩, Bool.eq_false_iff.mpr (resolves_iff.not.mpr fails)⟩
      simp only [checkLinkTarget, List.mem_ite_nil_right, List.mem_singleton, Bool.and_eq_true,
        Bool.not_eq_true', beq_iff_eq, Broken, and_assoc, exists_eq_left, ← unresolved]

theorem pointer_append (place : At) (field key : Text) :
    At.pointer (place ++ [field, key]) =
      place.pointer ++ ('/' :: Text.Pointer.escape field ++ '/' :: Text.Pointer.escape key) := by
  rw [At.pointer, Text.Pointer.render_append, At.pointer]
  simp [Text.Pointer.render]

theorem mem_checkLinks {place : At} {links : Map (RefOr Link)} {violation : Violation} :
    violation ∈ checkLinks (Targets.ofDocument document) place.pointer links ↔
      ∃ name link, (name, .item link) ∈ links ∧ ∃ error, Broken document link.target error ∧
        violation = .ofError (At.pointer (place ++ ["links".toList, name])) error := by
  have location (name : Text) : place.pointer ++ "/links/".toList ++ Text.Pointer.escape name =
      At.pointer (place ++ ["links".toList, name]) := by
    rw [pointer_append, List.append_assoc]
    rfl
  simp only [checkLinks, List.mem_flatMap, Prod.exists, location]
  refine exists_congr fun name => ⟨?_, ?_⟩
  · rintro ⟨given, member, reported⟩
    cases given with
    | ref uri => cases reported
    | item link => exact ⟨link, member, mem_checkLinkTarget.mp reported⟩
  · rintro ⟨link, member, reported⟩
    exact ⟨.item link, member, mem_checkLinkTarget.mpr reported⟩

theorem mem_entries {responses : LinkingResponses} {key : Text} {response : LinkingResponse} :
    (key, response) ∈ entries responses ↔
      (key = "default".toList ∧ responses.defaultResponse = some (.item response)) ∨
        (key, .item response) ∈ responses.responses.entries := by
  have given (entry : RefOr LinkingResponse) : entry.asItem = some response ↔ entry = .item response := by
    cases entry <;> simp [RefOr.asItem]
  rw [entries, List.mem_append, Option.mem_toList, List.mem_filterMap]
  refine or_congr ?_ ?_
  · cases responses.defaultResponse with
    | none => simp
    | some entry =>
        simp only [Option.bind_some, Option.map_eq_some_iff, Prod.mk.injEq, Option.some.injEq]
        constructor
        · rintro ⟨found, isItem, rfl, rfl⟩
          exact ⟨rfl, (given entry).mp isItem⟩
        · rintro ⟨rfl, rfl⟩
          exact ⟨response, rfl, rfl, rfl⟩
  · simp only [Prod.exists, Option.map_eq_some_iff, Prod.mk.injEq]
    constructor
    · rintro ⟨name, entry, member, found, isItem, rfl, rfl⟩
      rwa [← (given entry).mp isItem]
    · intro member
      exact ⟨key, .item response, member, response, rfl, rfl, rfl⟩

end Reported

/-- A link is reported where it is given inline, exactly if what it names is no operation of
the document and is not left open by a reference. -/
theorem mem_checkLinkTargets_iff (document : Document) (violation : Violation) :
    violation ∈ checkLinkTargets document ↔
      ∃ place link error, Linked document place link ∧ Broken document link.target error ∧
        violation = .ofError place.pointer error := by
  have responseLocation (place : At) (key : Text) :
      place.pointer ++ "/responses/".toList ++ Text.Pointer.escape key =
        At.pointer (place ++ ["responses".toList, key]) := by
    rw [pointer_append, List.append_assoc]
    rfl
  have componentLocation : "#/components".toList = At.pointer ["components".toList] := rfl
  rw [checkLinkTargets, componentLocation, List.mem_append, List.mem_append]
  simp only [List.mem_flatMap, Prod.exists]
  constructor
  · rintro ((⟨_, operation, atPlace, key, response, given, reported⟩ | ⟨key, entry, member, reported⟩) | reported)
    · obtain ⟨place, rfl, stands⟩ := mem_operations.mp atPlace
      rw [responseLocation, mem_checkLinks] at reported
      obtain ⟨name, link, inLinks, error, broken, isViolation⟩ := reported
      rw [List.append_assoc] at isViolation
      rcases mem_entries.mp given with ⟨rfl, inline⟩ | inline
      · exact ⟨_, link, error, .default stands inline inLinks, broken, isViolation⟩
      · exact ⟨_, link, error, .keyed stands inline inLinks, broken, isViolation⟩
    · cases entry with
      | ref uri => cases reported
      | item response =>
          obtain ⟨name, link, inLinks, error, broken, isViolation⟩ := mem_checkLinks.mp reported
          exact ⟨_, link, error, .response member inLinks, broken, isViolation⟩
    · obtain ⟨name, link, inLinks, error, broken, isViolation⟩ := mem_checkLinks.mp reported
      exact ⟨_, link, error, .component inLinks, broken, isViolation⟩
  · rintro ⟨_, link, error, linked, broken, rfl⟩
    cases linked with
    | @default place operation response name _ stands inline member =>
        refine .inl (.inl ⟨_, operation, mem_operations.mpr ⟨place, rfl, stands⟩, "default".toList, response,
          mem_entries.mpr (.inl ⟨rfl, inline⟩), ?_⟩)
        rw [responseLocation, mem_checkLinks]
        exact ⟨name, link, member, error, broken, by rw [List.append_assoc]; rfl⟩
    | @keyed place operation key response name _ stands inline member =>
        refine .inl (.inl ⟨_, operation, mem_operations.mpr ⟨place, rfl, stands⟩, key, response,
          mem_entries.mpr (.inr inline), ?_⟩)
        rw [responseLocation, mem_checkLinks]
        exact ⟨name, link, member, error, broken, by rw [List.append_assoc]; rfl⟩
    | @response key response name _ inline member =>
        exact .inl (.inr ⟨key, .item response, inline, mem_checkLinks.mpr ⟨name, link, member, error, broken, rfl⟩⟩)
    | @component name _ member =>
        exact .inr (mem_checkLinks.mpr ⟨name, link, member, error, broken, rfl⟩)

/-! ## A text that is no pointer -/

/-- A fragment that is, when decoded, the pointer of an operation, or a pointer below what is
given by reference. -/
def ResolvesByPointer (document : Document) (fragment : Text) : Prop :=
  ∃ pointer place, Spells fragment.toOctets (Text.toOctets pointer) ∧
    Text.Pointer.read pointer = some place ∧
      ((∃ operation, Stands document place (.operation operation)) ∨
        ∃ above uri below, Referenced document above uri ∧ below ≠ [] ∧ place = above ++ below)

/-- A link to `#/paths/~1a/~2`. -/
def strayLink : Link where
  target := .uri "#/paths/~1a/~2".toList

/-- A component with that link, beside a path given by reference. -/
def strayDocument : Document where
  paths :=
    [("/a".toList, .mk (some "#/components/pathItems/a".toList) none none none none none none none none none [])]
  webhooks := []
  components :=
    { responses := []
      links := [("next".toList, .item strayLink)]
      callbacks := []
      pathItems := [("a".toList, .mk none none none none none none none none none none [])] }

/-- What is no pointer is not reported, where it begins as one to what is given by reference. -/
theorem not_resolvesByPointer_stray :
    ¬ ∀ document place link fragment, Linked document place link → link.target = .uri ('#' :: fragment) →
      (Violation.ofError place.pointer (.unresolvedLinkOperationRef ('#' :: fragment)) ∈
          checkLinkTargets document ↔ ¬ ResolvesByPointer document fragment) := by
  intro exactly
  have linked : Linked strayDocument ["components".toList, "links".toList, "next".toList] strayLink :=
    .component List.mem_cons_self
  have decodes : percentDecode "/paths/~1a/~2".toList = some "/paths/~1a/~2".toList := by
    have plain : decodeOctets (Text.toOctets "/paths/~1a/~2".toList) =
        some (Text.toOctets "/paths/~1a/~2".toList) := by decide +kernel
    rw [percentDecode, plain, Option.bind_some, Text.fromUtf8_toOctets]
  have referenced : Referenced strayDocument ["paths".toList, "/a".toList] "#/components/pathItems/a".toList :=
    .inl ⟨_, .path List.mem_cons_self, rfl⟩
  have resolves : Resolves strayDocument "/paths/~1a/~2".toList :=
    ⟨_, percentDecode_eq_some_iff.mp decodes, .inr ⟨_, _, "~2".toList, referenced, by decide⟩⟩
  have unread : Text.Pointer.read "/paths/~1a/~2".toList = none := by decide +kernel
  have unresolved : ¬ ResolvesByPointer strayDocument "/paths/~1a/~2".toList := by
    rintro ⟨pointer, place, spells, reads, -⟩
    cases decodes.symm.trans (percentDecode_eq_some_iff.mpr spells)
    rw [unread] at reads
    cases reads
  have reported := (exactly strayDocument _ strayLink "/paths/~1a/~2".toList linked rfl).mpr unresolved
  obtain ⟨_, ⟨target⟩, error, -, broken, same⟩ := (mem_checkLinkTargets_iff _ _).mp reported
  cases target with
  | id id =>
      rw [broken.1] at same
      cases (Violation.mk.inj same).2.2
  | uri uri =>
      obtain ⟨isError, fragment, rfl, unresolved⟩ := broken
      rw [isError] at same
      cases (Violation.mk.inj same).2.2
      exact unresolved resolves

end Kynos.OpenApi
