import Kynos.Collection.Assoc
import Kynos.OpenApi.Requires

/-!
# The headers of united responses

Sets of responses are merged one after another. The headers of a status that both
sides declare are united: a name is described as it is first, ignoring case, and
required only where every side requires it. Beside its headers a response is what
it may be, and so is what two problem responses that meet are united to.
-/

namespace Kynos.OpenApi

open Kynos.Collection

variable {Description Rest Extensions : Type}

/-! ## The source -/

/-- `Header`. -/
structure Header (Description : Type) where
  required : Option Bool
  description : Description

/-- The `headers` of a response. -/
abbrev Headers (Description : Type) :=
  IndexMap Text (RefOr (Header Description))

/-- `Response`. -/
structure Response (Description Rest : Type) where
  headers : Headers Description
  rest : Rest

/-- `Responses`. -/
structure Responses (Description Rest Extensions : Type) where
  defaultResponse : Option (RefOr (Response Description Rest))
  responses : IndexMap Text (RefOr (Response Description Rest))
  extensions : Extensions

namespace Responses

/-- Whether headers name one, ignoring case. -/
def names (name : Text) (headers : Headers Description) : Bool :=
  headers.entries.any fun entry => Text.eqIgnoreAsciiCase entry.1 name

/-- Whether a header says it is required. -/
def isRequired : RefOr (Header Description) → Bool
  | .item header => header.required == some true
  | .ref _ => false

/-- Whether headers require one, ignoring case. -/
def requiresHeader (name : Text) (headers : Headers Description) : Bool :=
  headers.entries.any fun entry => Text.eqIgnoreAsciiCase entry.1 name && isRequired entry.2

/-- A header that is required only where every group requires it. -/
def requiredOf (groups : List (Headers Description)) (name : Text) :
    RefOr (Header Description) → RefOr (Header Description)
  | .item header =>
      .item (if groups.all (requiresHeader name) then header else { header with required := none })
  | .ref location => .ref location

/-- The headers one group is the first to name. -/
def declareGroup (groups earlier : List (Headers Description)) (headers group : Headers Description) :
    Headers Description :=
  group.entries.foldl (fun headers entry =>
    if earlier.any (names entry.1) then
      headers
    else
      headers.insert entry.1 (requiredOf groups entry.1 entry.2)) headers

/-- The rest of `declare_per_failure`, after some groups. -/
def declareFrom (groups : List (Headers Description)) :
    List (Headers Description) → Headers Description → List (Headers Description) → Headers Description
  | _, headers, [] => headers
  | earlier, headers, group :: rest =>
      declareFrom groups (earlier ++ [group]) (declareGroup groups earlier headers group) rest

/-- `declare_per_failure`. -/
def declarePerFailure (response : Response Description Rest) (groups : List (Headers Description)) :
    Response Description Rest :=
  { response with headers := declareFrom groups [] response.headers groups }

/-- No responses. -/
def empty (extensions : Extensions) : Responses Description Rest Extensions where
  defaultResponse := none
  responses := .empty
  extensions := extensions

variable (unioned : Response Description Rest → Response Description Rest →
  Option (Response Description Rest))

/-- What one incoming response replaces. -/
def replacement (declared : Option (RefOr (Response Description Rest)))
    (incoming : RefOr (Response Description Rest)) : Option (RefOr (Response Description Rest)) :=
  match declared, incoming with
  | none, incoming => some incoming
  | some (.item declared), .item incoming => (unioned declared incoming).map .item
  | some _, _ => none

/-- `Responses::union_from`. -/
def mergeFrom (self other : Responses Description Rest Extensions) :
    Responses Description Rest Extensions where
  defaultResponse := self.defaultResponse.or other.defaultResponse
  responses := other.responses.entries.foldl (fun responses entry =>
    match replacement unioned (responses.get? entry.1) entry.2 with
    | some response => responses.insert entry.1 response
    | none => responses) self.responses
  extensions := self.extensions

/-- Each status both sides declare, with the headers this side declares on it. -/
def sharedHeaders (self held : Responses Description Rest Extensions) :
    List (Text × Headers Description) :=
  held.responses.entries.filterMap fun entry =>
    match self.responses.get? entry.1 with
    | some (.item response) => some (entry.1, response.headers)
    | _ => none

/-- `headers::union_from`. -/
def unionFrom (self held : Responses Description Rest Extensions) :
    Responses Description Rest Extensions :=
  let merged := mergeFrom unioned self held
  { merged with
    responses := (sharedHeaders self held).foldl (fun responses entry =>
      match responses.get? entry.1, held.responses.get? entry.1 with
      | some (.item response), some (.item incoming) =>
          responses.insert entry.1 (.item (declarePerFailure { response with headers := .empty }
            [entry.2, incoming.headers]))
      | _, _ => responses) merged.responses }

/-! ## One status -/

section Groups

variable {groups earlier : List (Headers Description)} {headers group : Headers Description}
  {name other : Text}

theorem names_eq_true_iff : names name headers = true ↔
    ∃ key header, (key, header) ∈ headers.entries ∧ Text.eqIgnoreAsciiCase key name = true := by
  rw [names, List.any_eq_true]
  exact Prod.exists

theorem requiresHeader_eq_true_iff : requiresHeader name headers = true ↔
    ∃ key header, (key, header) ∈ headers.entries ∧ Text.eqIgnoreAsciiCase key name = true ∧
      isRequired header = true := by
  rw [requiresHeader, List.any_eq_true, Prod.exists]
  simp only [Bool.and_eq_true]

theorem names_congr (same : Text.eqIgnoreAsciiCase name other = true)
    (headers : Headers Description) : names name headers = names other headers := by
  simp only [names, Text.eqIgnoreAsciiCase, beq_iff_eq] at same ⊢
  rw [same]

theorem requiresHeader_congr (same : Text.eqIgnoreAsciiCase name other = true)
    (headers : Headers Description) : requiresHeader name headers = requiresHeader other headers := by
  simp only [requiresHeader, Text.eqIgnoreAsciiCase, beq_iff_eq] at same ⊢
  rw [same]

theorem isRequired_requiredOf (header : RefOr (Header Description)) :
    isRequired (requiredOf groups name header) =
      (groups.all (requiresHeader name) && isRequired header) := by
  cases header with
  | ref location => exact (Bool.and_false _).symm
  | item header =>
      rw [requiredOf]
      cases groups.all (requiresHeader name) <;> rfl

/-- The entries a group adds: those no earlier group names. -/
def addedBy (groups earlier : List (Headers Description)) (group : Headers Description) :
    List (Text × RefOr (Header Description)) :=
  (group.entries.filter fun entry => !earlier.any (names entry.1)).map fun entry =>
    (entry.1, requiredOf groups entry.1 entry.2)

/-- The entries all groups add, after some. -/
def addedFrom (groups : List (Headers Description)) :
    List (Headers Description) → List (Headers Description) → List (Text × RefOr (Header Description))
  | _, [] => []
  | earlier, group :: rest => addedBy groups earlier group ++ addedFrom groups (earlier ++ [group]) rest

theorem declareGroup_eq : declareGroup groups earlier headers group =
    (addedBy groups earlier group).foldl (fun headers entry => headers.insert entry.1 entry.2)
      headers := by
  rw [declareGroup, addedBy, List.foldl_map, List.foldl_filter]
  congr 1
  funext headers entry
  cases earlier.any (names entry.1) <;> rfl

theorem declareFrom_eq (rest : List (Headers Description)) : declareFrom groups earlier headers rest =
    (addedFrom groups earlier rest).foldl (fun headers entry => headers.insert entry.1 entry.2)
      headers := by
  induction rest generalizing earlier headers with
  | nil => rfl
  | cons group rest ih => rw [declareFrom, ih, declareGroup_eq, addedFrom, List.foldl_append]

theorem mem_addedBy_iff {key : Text} {header : RefOr (Header Description)} :
    (key, header) ∈ addedBy groups earlier group ↔ ∃ declared, (key, declared) ∈ group.entries ∧
      header = requiredOf groups key declared ∧ ∀ other ∈ earlier, names key other = false := by
  simp only [addedBy, List.mem_map, List.mem_filter, Bool.not_eq_true', List.any_eq_false,
    Bool.not_eq_true]
  constructor
  · rintro ⟨⟨_, declared⟩, ⟨member, first⟩, ⟨⟩⟩
    exact ⟨declared, member, rfl, first⟩
  · rintro ⟨declared, member, rfl, first⟩
    exact ⟨(key, declared), ⟨member, first⟩, rfl⟩

theorem mem_addedFrom_iff {rest : List (Headers Description)} {key : Text}
    {header : RefOr (Header Description)} : (key, header) ∈ addedFrom groups earlier rest ↔
      ∃ before group after declared, rest = before ++ group :: after ∧
        (key, declared) ∈ group.entries ∧ header = requiredOf groups key declared ∧
          ∀ other ∈ earlier ++ before, names key other = false := by
  induction rest generalizing earlier with
  | nil => simp [addedFrom]
  | cons first rest ih =>
      rw [addedFrom, List.mem_append, mem_addedBy_iff, ih]
      constructor
      · rintro (⟨declared, member, isHeader, new⟩ |
          ⟨before, group, after, declared, rfl, member, isHeader, new⟩)
        · exact ⟨[], first, rest, declared, rfl, member, isHeader, by rwa [List.append_nil]⟩
        · refine ⟨first :: before, group, after, declared, rfl, member, isHeader, ?_⟩
          rwa [List.append_assoc] at new
      · rintro ⟨before, group, after, declared, split, member, isHeader, new⟩
        cases before with
        | nil =>
            cases split
            rw [List.append_nil] at new
            exact .inl ⟨declared, member, isHeader, new⟩
        | cons _ before =>
            cases split
            refine .inr ⟨before, group, after, declared, rfl, member, isHeader, ?_⟩
            rwa [List.append_assoc]

theorem nodup_addedFrom (rest : List (Headers Description)) :
    ((addedFrom groups earlier rest).map Prod.fst).Nodup := by
  induction rest generalizing earlier with
  | nil => exact List.nodup_nil
  | cons group rest ih =>
      rw [addedFrom, List.map_append]
      refine List.nodup_append.mpr ⟨?_, ih, ?_⟩
      · rw [addedBy, List.map_map]
        exact (List.filter_sublist.map Prod.fst).nodup group.distinct
      · rintro key isBy _ isFrom rfl
        obtain ⟨⟨_, header⟩, memberBy, rfl⟩ := List.mem_map.mp isBy
        obtain ⟨⟨key, later⟩, memberFrom, rfl⟩ := List.mem_map.mp isFrom
        obtain ⟨declared, member, -, -⟩ := mem_addedBy_iff.mp memberBy
        obtain ⟨before, other, after, _, -, -, -, new⟩ := mem_addedFrom_iff.mp memberFrom
        have named : names key group = true :=
          names_eq_true_iff.mpr ⟨key, declared, member, beq_self_eq_true _⟩
        have unnamed := new group (by simp)
        rw [named] at unnamed
        cases unnamed

/-- What groups declare together. -/
theorem mem_declared_iff {key : Text} {header : RefOr (Header Description)} :
    (key, header) ∈ (declareFrom groups [] .empty groups).entries ↔
      ∃ before group after declared, groups = before ++ group :: after ∧
        (key, declared) ∈ group.entries ∧ header = requiredOf groups key declared ∧
          ∀ other ∈ before, names key other = false := by
  rw [declareFrom_eq, IndexMap.mem_entries_foldl_insert_iff (nodup_addedFrom groups),
    mem_addedFrom_iff]
  rfl

/-- A name is declared where some group names it. -/
theorem names_declared : names name (declareFrom groups [] .empty groups) = true ↔
    ∃ group ∈ groups, names name group = true := by
  rw [names_eq_true_iff]
  constructor
  · rintro ⟨key, header, member, same⟩
    obtain ⟨before, group, after, declared, isGroups, inGroup, -, -⟩ := mem_declared_iff.mp member
    refine ⟨group, ?_, names_eq_true_iff.mpr ⟨key, declared, inGroup, same⟩⟩
    rw [isGroups]
    exact List.mem_append_right _ List.mem_cons_self
  · intro named
    -- the first group that names it declares it
    obtain ⟨group, isFirst⟩ := Option.isSome_iff_exists.mp
      (List.find?_isSome.mpr named)
    obtain ⟨isNamed, before, after, isGroups, new⟩ := List.find?_eq_some_iff_append.mp isFirst
    obtain ⟨key, declared, member, same⟩ := names_eq_true_iff.mp isNamed
    refine ⟨key, _, mem_declared_iff.mpr ⟨before, group, after, declared, isGroups, member, rfl, ?_⟩,
      same⟩
    intro other isBefore
    rw [names_congr same]
    simpa using new other isBefore

/-- And required where every group requires it. -/
theorem requiresHeader_declared (nonempty : groups ≠ []) :
    requiresHeader name (declareFrom groups [] .empty groups) = true ↔
      ∀ group ∈ groups, requiresHeader name group = true := by
  rw [requiresHeader_eq_true_iff]
  constructor
  · rintro ⟨key, header, member, same, required⟩
    obtain ⟨_, _, _, declared, -, -, rfl, -⟩ := mem_declared_iff.mp member
    rw [isRequired_requiredOf, Bool.and_eq_true, List.all_eq_true] at required
    intro group isGroup
    rw [← requiresHeader_congr same]
    exact required.1 group isGroup
  · intro required
    obtain ⟨first, rest, rfl⟩ := List.exists_cons_of_ne_nil nonempty
    obtain ⟨key, declared, member, same, isRequired⟩ :=
      requiresHeader_eq_true_iff.mp (required first List.mem_cons_self)
    refine ⟨key, _, mem_declared_iff.mpr ⟨[], first, rest, declared, rfl, member, rfl, nofun⟩, same, ?_⟩
    rw [isRequired_requiredOf, isRequired, Bool.and_true, List.all_eq_true]
    intro group isGroup
    rw [requiresHeader_congr same]
    exact required group isGroup

end Groups

/-! ## Sets of responses -/

/-- A set whose responses are given inline. -/
def IsInline (set : Responses Description Rest Extensions) : Prop :=
  ∀ key response, set.responses.get? key = some response → ∃ item, response = .item item

/-- The headers a set declares on a status. -/
def headersAt (set : Responses Description Rest Extensions) (key : Text) :
    Option (Headers Description) :=
  (set.responses.get? key).bind fun response =>
    match response with
    | .item response => some response.headers
    | .ref _ => none

/-- The headers of a status after one side and the other. -/
def united : Option (Headers Description) → Option (Headers Description) →
    Option (Headers Description)
  | none, incoming => incoming
  | some declared, none => some declared
  | some declared, some incoming =>
      some (declareFrom [declared, incoming] [] .empty [declared, incoming])

section Union

variable {unioned} {self held : Responses Description Rest Extensions} {key : Text}

theorem get?_mergeFrom : (mergeFrom unioned self held).responses.get? key =
    (held.responses.get? key).elim (self.responses.get? key) fun incoming =>
      (replacement unioned (self.responses.get? key) incoming).or (self.responses.get? key) := by
  refine IndexMap.get?_foldl (fun _ declared incoming =>
    (replacement unioned declared incoming).or declared) ?_ held.responses self.responses key
  intro map entry key
  cases replacement unioned (map.get? entry.1) entry.2 with
  | none =>
      by_cases same : key = entry.1
      · simp [same]
      · simp [same]
  | some response => exact IndexMap.get?_insert ..

/-- The statuses both sides declare, as a map. -/
def shared (self held : Responses Description Rest Extensions) : IndexMap Text (Headers Description) where
  entries := sharedHeaders self held
  distinct := by
    have kept : ((sharedHeaders self held).map Prod.fst).Sublist
        (held.responses.entries.map Prod.fst) := by
      rw [sharedHeaders]
      induction held.responses.entries with
      | nil => exact .refl []
      | cons entry rest ih =>
          rw [List.filterMap_cons]
          split
          · exact ih.trans (List.sublist_cons_self ..)
          · rename_i isShared
            split at isShared
            · cases isShared
              exact ih.cons_cons entry.1
            · cases isShared
    exact kept.nodup held.responses.distinct

/-- What the last loop makes of a status. -/
def redeclared (held : Responses Description Rest Extensions) (key : Text)
    (current : Option (RefOr (Response Description Rest))) (declared : Headers Description) :
    Option (RefOr (Response Description Rest)) :=
  match current, held.responses.get? key with
  | some (.item response), some (.item incoming) =>
      some (.item (declarePerFailure { response with headers := .empty } [declared, incoming.headers]))
  | current, _ => current

theorem get?_unionFrom : (unionFrom unioned self held).responses.get? key =
    ((shared self held).get? key).elim ((mergeFrom unioned self held).responses.get? key)
      (redeclared held key ((mergeFrom unioned self held).responses.get? key)) := by
  refine IndexMap.get?_foldl (redeclared held) ?_ (shared self held)
    (mergeFrom unioned self held).responses key
  intro map entry key
  by_cases same : key = entry.1
  · rw [if_pos same, same]
    cases isCurrent : map.get? entry.1 with
    | none => simp [redeclared, isCurrent]
    | some current =>
        cases isIncoming : held.responses.get? entry.1 with
        | none => cases current <;> simp [redeclared, isCurrent, isIncoming]
        | some incoming =>
            cases current <;> cases incoming <;>
              simp [redeclared, isCurrent, isIncoming, IndexMap.get?_insert]
  · rw [if_neg same]
    split
    · rw [IndexMap.get?_insert, if_neg same]
    · rfl

theorem get?_shared_eq_some_iff {declared : Headers Description} :
    (shared self held).get? key = some declared ↔
      (∃ response, self.responses.get? key = some (.item response) ∧ declared = response.headers) ∧
        held.responses.get? key ≠ none := by
  rw [IndexMap.get?_eq_some_iff]
  change (key, declared) ∈ sharedHeaders self held ↔ _
  rw [sharedHeaders, List.mem_filterMap]
  constructor
  · rintro ⟨⟨other, incoming⟩, member, isShared⟩
    split at isShared
    · rename_i response isResponse
      cases isShared
      refine ⟨⟨response, isResponse, rfl⟩, ?_⟩
      rw [IndexMap.get?_eq_some_iff.mpr member]
      exact nofun
    · cases isShared
  · rintro ⟨⟨response, isResponse, rfl⟩, isHeld⟩
    obtain ⟨incoming, isIncoming⟩ := Option.ne_none_iff_exists'.mp isHeld
    refine ⟨(key, incoming), IndexMap.get?_eq_some_iff.mp isIncoming, ?_⟩
    simp only [isResponse]

theorem get?_unionFrom_of_held_none (isHeld : held.responses.get? key = none) :
    (unionFrom unioned self held).responses.get? key = self.responses.get? key := by
  have unshared : (shared self held).get? key = none := by
    refine Option.eq_none_iff_forall_ne_some.mpr fun declared isShared => ?_
    exact (get?_shared_eq_some_iff.mp isShared).2 isHeld
  rw [get?_unionFrom, unshared, Option.elim_none, get?_mergeFrom, isHeld, Option.elim_none]

theorem get?_unionFrom_of_none (isSelf : self.responses.get? key = none) :
    (unionFrom unioned self held).responses.get? key = held.responses.get? key := by
  have unshared : (shared self held).get? key = none := by
    refine Option.eq_none_iff_forall_ne_some.mpr fun declared isShared => ?_
    obtain ⟨⟨response, isResponse, -⟩, -⟩ := get?_shared_eq_some_iff.mp isShared
    rw [isSelf] at isResponse
    cases isResponse
  rw [get?_unionFrom, unshared, Option.elim_none, get?_mergeFrom, isSelf]
  cases held.responses.get? key <;> rfl

variable (unioned) in
/-- A status both sides declare declares the headers of both, whatever else it becomes. -/
theorem get?_unionFrom_of_both {declared incoming : Response Description Rest}
    (isSelf : self.responses.get? key = some (.item declared))
    (isHeld : held.responses.get? key = some (.item incoming)) :
    ∃ response, (unionFrom unioned self held).responses.get? key = some (.item response) ∧
      response.headers = declareFrom [declared.headers, incoming.headers] [] .empty
        [declared.headers, incoming.headers] := by
  have isShared : (shared self held).get? key = some declared.headers := by
    refine get?_shared_eq_some_iff.mpr ⟨⟨declared, isSelf, rfl⟩, ?_⟩
    rw [isHeld]
    exact nofun
  obtain ⟨merged, isMerged⟩ : ∃ merged,
      (mergeFrom unioned self held).responses.get? key = some (.item merged) := by
    rw [get?_mergeFrom, isHeld, Option.elim_some, isSelf, replacement]
    cases unioned declared incoming with
    | none => exact ⟨declared, rfl⟩
    | some response => exact ⟨response, rfl⟩
  have isRedeclared : redeclared held key (some (.item merged)) declared.headers =
      some (.item (declarePerFailure { merged with headers := .empty }
        [declared.headers, incoming.headers])) := by
    simp only [redeclared, isHeld]
  rw [get?_unionFrom, isShared, Option.elim_some, isMerged, isRedeclared]
  exact ⟨_, rfl, rfl⟩

theorem headersAt_of_item {response : Response Description Rest}
    (isItem : self.responses.get? key = some (.item response)) :
    self.headersAt key = some response.headers := by
  rw [headersAt, isItem]
  rfl

theorem headersAt_of_none (isNone : self.responses.get? key = none) : self.headersAt key = none := by
  rw [headersAt, isNone]
  rfl

variable (unioned) in
/-- What a union is on each status of sets given inline. -/
theorem unionFrom_inline (inline : self.IsInline) (incoming : held.IsInline) :
    (unionFrom unioned self held).IsInline ∧ ∀ key,
      (unionFrom unioned self held).headersAt key = united (self.headersAt key) (held.headersAt key) := by
  constructor
  · intro key response isResponse
    cases isSelf : self.responses.get? key with
    | none =>
        rw [get?_unionFrom_of_none isSelf] at isResponse
        exact incoming key response isResponse
    | some declared =>
        cases isHeld : held.responses.get? key with
        | none =>
            rw [get?_unionFrom_of_held_none isHeld] at isResponse
            exact inline key response isResponse
        | some other =>
            obtain ⟨declared, rfl⟩ := inline key declared isSelf
            obtain ⟨other, rfl⟩ := incoming key other isHeld
            obtain ⟨item, isItem, -⟩ := get?_unionFrom_of_both unioned isSelf isHeld
            rw [isItem] at isResponse
            exact ⟨item, (Option.some.inj isResponse).symm⟩
  · intro key
    cases isSelf : self.responses.get? key with
    | none =>
        rw [headersAt_of_none isSelf, headersAt, get?_unionFrom_of_none isSelf]
        rfl
    | some declared =>
        obtain ⟨declared, rfl⟩ := inline key declared isSelf
        rw [headersAt_of_item isSelf]
        cases isHeld : held.responses.get? key with
        | none =>
            rw [headersAt_of_none isHeld, united]
            exact headersAt_of_item ((get?_unionFrom_of_held_none isHeld).trans isSelf)
        | some other =>
            obtain ⟨other, rfl⟩ := incoming key other isHeld
            obtain ⟨item, isItem, isHeaders⟩ :=
              get?_unionFrom_of_both unioned isSelf isHeld
            rw [headersAt_of_item isHeld, united, headersAt_of_item isItem, isHeaders]

end Union

/-! ## Any number of sets -/

/-- A set declares a header on a status, ignoring case. -/
def Declares (set : Responses Description Rest Extensions) (key name : Text) : Prop :=
  ∃ headers, set.headersAt key = some headers ∧ names name headers = true

/-- A set requires a header on a status, ignoring case. -/
def Requires (set : Responses Description Rest Extensions) (key name : Text) : Prop :=
  ∃ headers, set.headersAt key = some headers ∧ requiresHeader name headers = true

/-- A set declares a status. -/
def DeclaresStatus (set : Responses Description Rest Extensions) (key : Text) : Prop :=
  ∃ headers, set.headersAt key = some headers

section United

variable {declared incoming : Option (Headers Description)} {name : Text}

theorem exists_united_iff : (∃ headers, united declared incoming = some headers) ↔
    (∃ headers, declared = some headers) ∨ ∃ headers, incoming = some headers := by
  cases declared <;> cases incoming <;> simp [united]

theorem names_united_iff : (∃ headers, united declared incoming = some headers ∧
      names name headers = true) ↔
    (∃ headers, declared = some headers ∧ names name headers = true) ∨
      ∃ headers, incoming = some headers ∧ names name headers = true := by
  cases declared with
  | none => simp [united]
  | some declared =>
      cases incoming with
      | none => simp [united]
      | some incoming => simp [united, names_declared]

theorem requires_united_iff : (∃ headers, united declared incoming = some headers ∧
      requiresHeader name headers = true) ↔
    (∃ headers, united declared incoming = some headers) ∧
      (∀ headers, declared = some headers → requiresHeader name headers = true) ∧
        ∀ headers, incoming = some headers → requiresHeader name headers = true := by
  cases declared with
  | none => cases incoming <;> simp [united]
  | some declared =>
      cases incoming with
      | none => simp [united]
      | some incoming =>
          have required : requiresHeader name (declareFrom [declared, incoming] [] .empty [declared, incoming]) = true ↔
              ∀ group ∈ [declared, incoming], requiresHeader name group = true :=
            requiresHeader_declared (List.cons_ne_nil declared [incoming])
          simp [united, required]

end United

/-- What a set that united others declares on a status and requires there. -/
structure Unites (contributors : List (Responses Description Rest Extensions))
    (set : Responses Description Rest Extensions) (key : Text) : Prop where
  status : set.DeclaresStatus key ↔ ∃ contributor ∈ contributors, contributor.DeclaresStatus key
  declares : ∀ name, set.Declares key name ↔ ∃ contributor ∈ contributors, contributor.Declares key name
  requires : ∀ name, set.Requires key name ↔ set.DeclaresStatus key ∧
    ∀ contributor ∈ contributors, contributor.DeclaresStatus key → contributor.Requires key name

section Unites

variable {contributors : List (Responses Description Rest Extensions)}
  {set contributor : Responses Description Rest Extensions} {key : Text}

theorem unites_empty (extensions : Extensions) (key : Text) :
    Unites ([] : List (Responses Description Rest Extensions)) (empty extensions) key where
  status := by simp [DeclaresStatus, headersAt, empty, IndexMap.get?_empty]
  declares name := by simp [Declares, headersAt, empty, IndexMap.get?_empty]
  requires name := by simp [Requires, DeclaresStatus, headersAt, empty, IndexMap.get?_empty]

variable {unioned}

/-- One more contributor. -/
theorem Unites.concat (unites : Unites contributors set key) (inline : set.IsInline)
    (incoming : contributor.IsInline) :
    Unites (contributors ++ [contributor]) (unionFrom unioned set contributor) key := by
  have isUnited := (unionFrom_inline unioned inline incoming).2 key
  have declaresIff (name : Text) : (unionFrom unioned set contributor).Declares key name ↔
      set.Declares key name ∨ contributor.Declares key name := by
    rw [Declares, isUnited]
    exact names_united_iff
  have statusIff : (unionFrom unioned set contributor).DeclaresStatus key ↔
      set.DeclaresStatus key ∨ contributor.DeclaresStatus key := by
    rw [DeclaresStatus, isUnited]
    exact exists_united_iff
  have allOf (responses : Responses Description Rest Extensions) (name : Text) :
      (∀ headers, responses.headersAt key = some headers → requiresHeader name headers = true) ↔
        (responses.DeclaresStatus key → responses.Requires key name) := by
    constructor
    · rintro all ⟨headers, isHeaders⟩
      exact ⟨headers, isHeaders, all headers isHeaders⟩
    · intro required headers isHeaders
      obtain ⟨others, isOthers, requires⟩ := required ⟨headers, isHeaders⟩
      rw [isHeaders] at isOthers
      cases isOthers
      exact requires
  refine ⟨?_, fun name => ?_, fun name => ?_⟩
  · rw [statusIff, unites.status]
    simp [or_and_right, exists_or]
  · rw [declaresIff, unites.declares]
    simp [or_and_right, exists_or]
  · have required : (unionFrom unioned set contributor).Requires key name ↔
        (unionFrom unioned set contributor).DeclaresStatus key ∧
          (set.DeclaresStatus key → set.Requires key name) ∧
            (contributor.DeclaresStatus key → contributor.Requires key name) := by
      rw [← allOf, ← allOf, Requires, DeclaresStatus, isUnited]
      exact requires_united_iff
    rw [required]
    refine and_congr_right fun _ => ?_
    rw [List.forall_mem_append, List.forall_mem_singleton]
    refine and_congr_left fun _ => ?_
    rw [unites.requires]
    constructor
    · intro required other isOther declared
      exact (required (unites.status.mpr ⟨other, isOther, declared⟩)).2 other isOther declared
    · exact fun required declared => ⟨declared, required⟩

variable (unioned) in
/-- Sets united one after another. -/
theorem unites_foldl (extensions : Extensions) (inline : ∀ contributor ∈ contributors, contributor.IsInline)
    (key : Text) : (contributors.foldl (unionFrom unioned) (empty extensions)).IsInline ∧
      Unites contributors (contributors.foldl (unionFrom unioned) (empty extensions)) key := by
  induction contributors using List.reverseRecOn with
  | nil => exact ⟨nofun, unites_empty extensions key⟩
  | append_singleton contributors contributor ih =>
      rw [List.forall_mem_append, List.forall_mem_singleton] at inline
      obtain ⟨isInline, unites⟩ := ih inline.1
      rw [List.foldl_append, List.foldl_cons, List.foldl_nil]
      exact ⟨(unionFrom_inline unioned isInline inline.2).1, unites.concat isInline inline.2⟩

end Unites

/-- Each status of united sets declares the headers some contributor declares on it, and
requires those every contributor that declares the status does, in whichever order
the contributors come. -/
theorem unionFrom_exact {contributors : List (Responses Description Rest Extensions)}
    (inline : ∀ contributor ∈ contributors, contributor.IsInline) (extensions : Extensions)
    (key name : Text) :
    ((contributors.foldl (unionFrom unioned) (empty extensions)).Declares key name ↔
        ∃ contributor ∈ contributors, contributor.Declares key name) ∧
      ((contributors.foldl (unionFrom unioned) (empty extensions)).Requires key name ↔
        (∃ contributor ∈ contributors, contributor.DeclaresStatus key) ∧
          ∀ contributor ∈ contributors, contributor.DeclaresStatus key → contributor.Requires key name) ∧
      ∀ reordered, contributors.Perm reordered →
        ((reordered.foldl (unionFrom unioned) (empty extensions)).Declares key name ↔
          (contributors.foldl (unionFrom unioned) (empty extensions)).Declares key name) ∧
        ((reordered.foldl (unionFrom unioned) (empty extensions)).Requires key name ↔
          (contributors.foldl (unionFrom unioned) (empty extensions)).Requires key name) := by
  have unites := (unites_foldl unioned extensions inline key).2
  refine ⟨unites.declares name, by rw [unites.requires, unites.status], fun reordered perm => ?_⟩
  have inlineToo : ∀ contributor ∈ reordered, contributor.IsInline :=
    fun contributor member => inline contributor (perm.mem_iff.mpr member)
  have unitesToo := (unites_foldl unioned extensions inlineToo key).2
  constructor
  · simp only [unitesToo.declares, unites.declares, perm.mem_iff]
  · simp only [unitesToo.requires, unitesToo.status, unites.requires, unites.status, perm.mem_iff]

/-- One response that declares one header. -/
def sending (status name : Text) (required : Option Bool) : Responses Unit Unit Unit where
  defaultResponse := none
  responses := IndexMap.empty.insert status
    (.item ⟨IndexMap.empty.insert name (.item ⟨required, ()⟩), ()⟩)
  extensions := ()

theorem isInline_sending (status name : Text) (required : Option Bool) :
    (sending status name required).IsInline := by
  intro key response isResponse
  change (IndexMap.empty.insert status _).get? key = _ at isResponse
  rw [IndexMap.get?_insert] at isResponse
  split at isResponse
  · exact ⟨_, (Option.some.inj isResponse).symm⟩
  · cases isResponse

/-- A header of two spellings, required once. -/
theorem unionFrom_two : ¬ ([sending ['4'] ['A'] (some true), sending ['4'] ['a'] none].foldl
    (unionFrom fun _ _ => none) (empty ())).Requires ['4'] ['a'] := by
  have inline : ∀ contributor ∈ [sending ['4'] ['A'] (some true), sending ['4'] ['a'] none],
      contributor.IsInline := by
    simp only [List.forall_mem_cons, isInline_sending, true_and]
    exact nofun
  rw [(unionFrom_exact (fun _ _ => none) inline () ['4'] ['a']).2.1]
  rintro ⟨-, required⟩
  obtain ⟨headers, isHeaders, requires⟩ :=
    required (sending ['4'] ['a'] none) (List.mem_cons_of_mem _ List.mem_cons_self) ⟨_, rfl⟩
  cases isHeaders
  cases requires

end Responses

end Kynos.OpenApi
