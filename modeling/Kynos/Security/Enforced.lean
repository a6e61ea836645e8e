import Kynos.Security.Requirement

/-!
# A guard enforces what it declares

An alternative of an operation's `security` is met where every scheme it names
is presented, authenticates and is authorized for the scope names listed for it.
A guard admits where some alternative is met, unless it demands together two
schemes of one component name whose default scopes differ: the list of the
second then replaces that of the first.
-/

namespace Kynos.Security

open Kynos.Collection Kynos.Run

/-! ## What is enforced -/

/-- Lists of the same names. -/
def SameNames (left right : List Text) : Prop :=
  ∀ name, name ∈ left ↔ name ∈ right

section Statement

variable {Request Presented Credential Grant Description : Type} [Scope Grant]

/-- A scheme is presented, authenticates, and is authorized for the scopes it is
handed. -/
def Satisfied (handed : SecurityScheme Grant Description → Option (List Grant)) (request : Request)
    (member : Member Request Presented Credential Grant Description) : Prop :=
  ∃ presented credential, member.present request = .ok (some presented) ∧
    member.authenticate presented = .ok credential ∧
    ∀ scopes, handed member.toSecurityScheme = some scopes → member.authorize credential scopes = .ok ()

/-- The names of the scopes a scheme is handed. -/
def handedNames (handed : SecurityScheme Grant Description → Option (List Grant))
    (scheme : SecurityScheme Grant Description) : List Text :=
  ((handed scheme).getD []).map Scope.name

/-- An alternative names the schemes of a group, and each is satisfied for
exactly the scope names listed for it. -/
structure Met (handed : SecurityScheme Grant Description → Option (List Grant)) (request : Request)
    (group : List (Member Request Presented Credential Grant Description))
    (alternative : SecurityRequirement) : Prop where
  named : ∀ name, (alternative.lookup name).isSome ↔
    ∃ member ∈ group, componentName member.toSecurityScheme = name
  held : ∀ member ∈ group, Satisfied handed request member ∧
    ∃ listed, alternative.lookup (componentName member.toSecurityScheme) = some listed ∧
      SameNames listed (handedNames handed member.toSecurityScheme)

/-- The groups of schemes that each satisfy a requirement. -/
def Requirement.groups {α : Type} : Requirement α → List (List α)
  | .one scheme => [[scheme]]
  | .anyOf schemes => schemes.items.map fun scheme => [scheme]
  | .allOf schemes => [schemes.items]

/-- The schemes a requirement demands together. -/
def Requirement.jointly {α : Type} : Requirement α → List α
  | .allOf schemes => schemes.items
  | _ => []

/-- The groups of schemes that each satisfy a requirement that may demand
scopes. -/
def Scopable.groups {α : Type} : Scopable α → List (List α)
  | .one scheme => [[scheme]]
  | .anyOf schemes => schemes.items.map fun scheme => [scheme]

namespace Guard

/-- The groups of schemes that each satisfy a guard. -/
def groups {α : Type} : Guard α Grant → List (List α)
  | .auth requirement => requirement.groups
  | .maybeAuth requirement => requirement.groups
  | .scopedBy requirement _ => requirement.groups

/-- What a guard hands the authorizer of a scheme. -/
def handed {α : Type} : Guard α Grant → SecurityScheme Grant Description → Option (List Grant)
  | .auth _, scheme => owedDefaults scheme
  | .maybeAuth _, scheme => owedDefaults scheme
  | .scopedBy _ required, scheme => some (demanded scheme required)

/-- The schemes a guard demands together. -/
def jointly {α : Type} : Guard α Grant → List α
  | .auth requirement => requirement.jointly
  | .maybeAuth requirement => requirement.jointly
  | .scopedBy _ _ => []

end Guard

/-- The same shape over other schemes. -/
def Schemes.map {α β : Type} (f : α → β) (schemes : Schemes α) : Schemes β where
  items := schemes.items.map f
  arity := by simpa using schemes.arity

/-- The same shape over other schemes. -/
def Requirement.map {α β : Type} (f : α → β) : Requirement α → Requirement β
  | .one scheme => .one (f scheme)
  | .anyOf schemes => .anyOf (schemes.map f)
  | .allOf schemes => .allOf (schemes.map f)

/-- The same shape over other schemes. -/
def Scopable.map {α β : Type} (f : α → β) : Scopable α → Scopable β
  | .one scheme => .one (f scheme)
  | .anyOf schemes => .anyOf (schemes.map f)

/-- The same guard over other schemes. -/
def Guard.map {α β : Type} (f : α → β) : Guard α Grant → Guard β Grant
  | .auth requirement => .auth (requirement.map f)
  | .maybeAuth requirement => .maybeAuth (requirement.map f)
  | .scopedBy requirement required => .scopedBy (requirement.map f) required

/-- A guard enforces on a request the security it declares. -/
structure Enforced (guard : Guard (Member Request Presented Credential Grant Description) Grant)
    (request : Request) : Prop where
  admits : (∃ admission, (guard.guard request).answer = .ok (some admission)) ↔
    ∃ alternative ∈ (guard.map Member.toSecurityScheme).describe.security,
      ∃ group ∈ guard.groups, Met guard.handed request group alternative
  anonymous : (guard.guard request).answer = .ok none ↔
    (∃ requirement, guard = .maybeAuth requirement) ∧
      ∀ member ∈ guard.schemes, member.present request = .ok none
  ordered : guard.jointly ≠ [] → ∃ authentications authorizations,
    (guard.guard request).calls = authentications ++ authorizations ∧
      (∀ call ∈ authentications, ∃ name, call = .authenticate name) ∧
      (∀ call ∈ authorizations, ∃ name, call = .authorize name) ∧
      (authorizations ≠ [] → ∀ member ∈ guard.jointly, ∃ presented credential,
        member.present request = .ok (some presented) ∧
          member.authenticate presented = .ok credential)

/-- A guard over schemes enforces what it declares, whatever their carriers read
and their authenticators answer. -/
def Enforces (guard : Guard (SecurityScheme Grant Description) Grant) : Prop :=
  ∀ (Request Presented Credential : Type)
    (members : Guard (Member Request Presented Credential Grant Description) Grant)
    (request : Request), members.map Member.toSecurityScheme = guard → Enforced members request

/-- Schemes demanded together under one component name have default scopes of
the same names. -/
def Distinguished (guard : Guard (SecurityScheme Grant Description) Grant) : Prop :=
  ∀ first ∈ guard.jointly, ∀ second ∈ guard.jointly,
    componentName first = componentName second → SameNames (defaults first) (defaults second)

end Statement

/-! ## Names -/

section Names

variable {Grant Description : Type} [Scope Grant]

theorem defaults_eq_handedNames (scheme : SecurityScheme Grant Description) :
    defaults scheme = handedNames owedDefaults scheme := by
  rw [defaults, handedNames, owedDefaults]
  split
  · rename_i isEmpty
    rw [List.isEmpty_iff.mp isEmpty]
    rfl
  · rfl

theorem mem_foldl_names {names known : List Text} {wanted : Text} :
    wanted ∈ names.foldl (fun names name => if names.contains name then names else names ++ [name]) known ↔
      wanted ∈ known ∨ wanted ∈ names := by
  induction names generalizing known with
  | nil => simp
  | cons name rest ih =>
      rw [List.foldl_cons, ih, List.mem_cons]
      split
      · rename_i isKnown
        rw [List.contains_iff_mem] at isKnown
        refine ⟨Or.imp_right .inr, ?_⟩
        rintro (before | rfl | later)
        · exact .inl before
        · exact .inl isKnown
        · exact .inr later
      · simp [or_assoc]

theorem sameNames_demandedNames (required : List Grant) (scheme : SecurityScheme Grant Description) :
    SameNames (demandedNames scheme required)
      (handedNames (fun scheme => some (demanded scheme required)) scheme) := fun name => by
  rw [demandedNames, mem_foldl_names, handedNames]
  simp

end Names

/-! ## One scheme -/

section One

variable {Request Presented Credential Grant Description : Type}
  {member : Member Request Presented Credential Grant Description} {request : Request}
  {handed : SecurityScheme Grant Description → Option (List Grant)}

theorem mapError_eq_ok_iff {Failure Other Value : Type} {change : Failure → Other}
    {answer : Except Failure Value} {value : Value} :
    answer.mapError change = .ok value ↔ answer = .ok value := by
  cases answer <;> simp [Except.mapError]

theorem answer_authenticate {presented : Presented} {credential : Credential} :
    (authenticate member presented).answer = .ok credential ↔
      member.authenticate presented = .ok credential :=
  mapError_eq_ok_iff

theorem answer_authorize {credential held : Credential} {scopes : Option (List Grant)} :
    (authorize member credential scopes).answer = .ok held ↔
      held = credential ∧ ∀ given, scopes = some given → member.authorize credential given = .ok () := by
  cases scopes with
  | none => simp [authorize, eq_comm]
  | some given =>
      have decided : ∀ {failure : AuthRejection → AuthRejection} {answer : Except AuthRejection Unit},
          (answer.mapError failure).map (fun _ => credential) = .ok held ↔
            held = credential ∧ answer = .ok () := by
        intro failure answer
        cases answer <;> simp [Except.mapError, Except.map, eq_comm]
      simp only [authorize, Traced.answer_call, decided, Option.some.injEq, forall_eq']

theorem answer_verify {presented : Presented} {held : Credential} {scopes : Option (List Grant)} :
    (verify member presented scopes).answer = .ok held ↔
      member.authenticate presented = .ok held ∧
        ∀ given, scopes = some given → member.authorize held given = .ok () := by
  simp only [verify, Traced.answer_bind_eq_ok_iff, answer_authenticate, answer_authorize]
  constructor
  · rintro ⟨credential, isCredential, rfl, authorized⟩
    exact ⟨isCredential, authorized⟩
  · rintro ⟨isCredential, authorized⟩
    exact ⟨held, isCredential, rfl, authorized⟩

/-- A scheme yields a credential exactly where it is satisfied. -/
theorem satisfied_iff : Satisfied handed request member ↔
    ∃ credential, (presentAndVerify request handed member).answer = .ok (some credential) := by
  cases presents : member.present request with
  | error rejection => simp [Satisfied, presentAndVerify, presents]
  | ok presented =>
      cases presented with
      | none => simp [Satisfied, presentAndVerify, presents]
      | some presented =>
          simp only [Satisfied, presentAndVerify, presents, Traced.answer_bind_eq_ok_iff,
            answer_verify, Traced.answer_settle, Except.ok.injEq, Option.some.injEq]
          constructor
          · rintro ⟨_, credential, rfl, authenticates, authorized⟩
            exact ⟨credential, credential, ⟨authenticates, authorized⟩, rfl⟩
          · rintro ⟨_, credential, ⟨authenticates, authorized⟩, rfl⟩
            exact ⟨presented, credential, rfl, authenticates, authorized⟩

variable (handed) in
/-- A scheme is absent exactly where it is not presented. -/
theorem absent_iff :
    (presentAndVerify request handed member).answer = .ok none ↔ member.present request = .ok none := by
  cases presents : member.present request with
  | error rejection => simp [presentAndVerify, presents]
  | ok presented =>
      cases presented with
      | none => simp [presentAndVerify, presents]
      | some presented =>
          simp [presentAndVerify, presents, Traced.answer_bind_eq_ok_iff]

end One

/-! ## Several schemes -/

section Several

variable {Request Presented Credential Grant Description : Type}
  {members : List (Member Request Presented Credential Grant Description)} {request : Request}
  {handed : SecurityScheme Grant Description → Option (List Grant)}

/-- Any of several is satisfied exactly where one of them is. -/
theorem checkAny_some_iff {index : Nat} {refused : Option AuthRejection} :
    (∃ admission, (checkAny request handed index refused members).answer = .ok (some admission)) ↔
      ∃ member ∈ members, Satisfied handed request member := by
  induction members generalizing index refused with
  | nil => cases refused <;> simp [checkAny]
  | cons member rest ih =>
      rw [List.exists_mem_cons_iff, satisfied_iff]
      cases checked : (presentAndVerify request handed member).answer with
      | error rejection => simp [checkAny, checked, ih]
      | ok credential =>
          cases credential with
          | none => simp [checkAny, checked, ih]
          | some credential => simp [checkAny, checked]

/-- Any of several is absent exactly where all of them are. -/
theorem checkAny_none_iff {index : Nat} {refused : Option AuthRejection} :
    (checkAny request handed index refused members).answer = .ok none ↔
      refused = none ∧ ∀ member ∈ members, member.present request = .ok none := by
  induction members generalizing index refused with
  | nil => cases refused <;> simp [checkAny]
  | cons member rest ih =>
      rw [List.forall_mem_cons, ← absent_iff handed]
      cases checked : (presentAndVerify request handed member).answer with
      | error rejection => simp [checkAny, checked, ih]
      | ok credential =>
          cases credential with
          | none => simp [checkAny, checked, ih]
          | some credential => simp [checkAny, checked]

/-- Three rounds over some items, each read beside the items of the round before,
succeed together where they succeed for each item. -/
theorem rounds_iff {Item First Second Third : Type} {first : Item → First → Prop}
    {second : Item × First → Second → Prop} {third : Item × Second → Third → Prop}
    {items : List Item} :
    (∃ firsts seconds thirds, List.Forall₂ first items firsts ∧
        List.Forall₂ second (items.zip firsts) seconds ∧
        List.Forall₂ third (items.zip seconds) thirds) ↔
      ∀ item ∈ items, ∃ a b c, first item a ∧ second (item, a) b ∧ third (item, b) c := by
  induction items with
  | nil => simp
  | cons item rest ih =>
      rw [List.forall_mem_cons, ← ih]
      constructor
      · rintro ⟨_, _, _, firsts, seconds, thirds⟩
        cases firsts with
        | cons isFirst firsts =>
            cases seconds with
            | cons isSecond seconds =>
                cases thirds with
                | cons isThird thirds =>
                    exact ⟨⟨_, _, _, isFirst, isSecond, isThird⟩, _, _, _, firsts, seconds, thirds⟩
      · rintro ⟨⟨a, b, c, isFirst, isSecond, isThird⟩, firsts, seconds, thirds, areFirst, areSecond, areThird⟩
        exact ⟨a :: firsts, b :: seconds, c :: thirds, .cons isFirst areFirst, .cons isSecond areSecond,
          .cons isThird areThird⟩

theorem exists_of_rounds {Item First Second : Type} {first : Item → First → Prop}
    {second : Item × First → Second → Prop} {items : List Item} {firsts : List First}
    {seconds : List Second} (areFirst : List.Forall₂ first items firsts)
    (areSecond : List.Forall₂ second (items.zip firsts) seconds) :
    ∀ item ∈ items, ∃ a b, first item a ∧ second (item, a) b := by
  induction areFirst generalizing seconds with
  | nil => simp
  | cons isFirst _ ih =>
      cases areSecond with
      | cons isSecond areSecond =>
          exact List.forall_mem_cons.mpr ⟨⟨_, _, isFirst, isSecond⟩, ih areSecond⟩

theorem mapM_id_eq_some_iff {Value : Type} {options : List (Option Value)} {values : List Value} :
    options.mapM id = some values ↔ options = values.map some := by
  induction options generalizing values with
  | nil => cases values <;> simp
  | cons option rest ih =>
      rw [List.mapM_cons]
      cases option with
      | none => cases values <;> simp
      | some value =>
          simp only [id, Option.bind_eq_bind, Option.bind_some, Option.bind_eq_some_iff, ih,
            Option.pure_def, Option.some.injEq]
          cases values with
          | nil => simp
          | cons other values =>
              simp only [List.cons.injEq, List.map_cons, Option.some.injEq]
              constructor
              · rintro ⟨_, isRest, rfl, rfl⟩
                exact ⟨rfl, isRest⟩
              · rintro ⟨rfl, isRest⟩
                exact ⟨values, isRest, rfl, rfl⟩

theorem forall₂_present_iff {presented : List Presented} :
    List.Forall₂ (fun member value => (Traced.settle (member.present request) : Checked _).answer = .ok value)
        members (presented.map some) ↔
      List.Forall₂ (fun member value => member.present request = .ok (some value)) members presented := by
  rw [List.forall₂_map_right_iff]
  rfl

/-- All of several are satisfied exactly where each of them is. -/
theorem checkAll_some_iff (nonempty : members ≠ []) :
    (∃ admission, (checkAll request members).answer = .ok (some admission)) ↔
      ∀ member ∈ members, Satisfied owedDefaults request member := by
  have rounds : (∀ member ∈ members, Satisfied owedDefaults request member) ↔
      ∃ presented credentials held,
        List.Forall₂ (fun member value => member.present request = .ok (some value)) members presented ∧
        List.Forall₂ (fun pair value => (authenticate pair.1 pair.2).answer = .ok value)
          (members.zip presented) credentials ∧
        List.Forall₂ (fun pair value => (authorize pair.1 pair.2
          (owedDefaults pair.1.toSecurityScheme)).answer = .ok value) (members.zip credentials) held := by
    rw [rounds_iff]
    refine forall₂_congr fun member _ => ?_
    simp only [Satisfied, answer_authenticate, answer_authorize]
    constructor
    · rintro ⟨presented, credential, presents, authenticates, authorized⟩
      exact ⟨presented, credential, credential, presents, authenticates, rfl, authorized⟩
    · rintro ⟨presented, credential, held, presents, authenticates, -, authorized⟩
      exact ⟨presented, credential, presents, authenticates, authorized⟩
  rw [rounds]
  simp only [checkAll, Traced.answer_bind_eq_ok_iff, Traced.answer_each_eq_ok_iff]
  constructor
  · rintro ⟨admission, options, areOptions, isSettled⟩
    split at isSettled
    · simp at isSettled
    · split at isSettled
      · simp at isSettled
      · rename_i presented allPresented
        rw [mapM_id_eq_some_iff] at allPresented
        subst allPresented
        simp only [Traced.answer_bind_eq_ok_iff, Traced.answer_each_eq_ok_iff] at isSettled
        obtain ⟨credentials, authenticated, held, authorized, -⟩ := isSettled
        exact ⟨presented, credentials, held, forall₂_present_iff.mp areOptions, authenticated, authorized⟩
  · rintro ⟨presented, credentials, held, presents, authenticated, authorized⟩
    refine ⟨.every held, presented.map some, forall₂_present_iff.mpr presents, ?_⟩
    have someone : ¬ (presented.map some).all Option.isNone = true := by
      obtain ⟨member, rest, rfl⟩ := List.exists_cons_of_ne_nil nonempty
      cases presents
      simp
    rw [if_neg someone, mapM_id_eq_some_iff.mpr rfl]
    simp only [Traced.answer_bind_eq_ok_iff, Traced.answer_each_eq_ok_iff]
    exact ⟨credentials, authenticated, held, authorized, rfl⟩

/-- All of several are absent exactly where each of them is. -/
theorem checkAll_none_iff :
    (checkAll request members).answer = .ok none ↔
      ∀ member ∈ members, member.present request = .ok none := by
  have absent : (∀ member ∈ members, member.present request = .ok none) ↔
      List.Forall₂ (fun member value => (Traced.settle (member.present request) : Checked _).answer = .ok value)
        members (List.replicate members.length none) := by
    induction members with
    | nil => simp
    | cons member rest ih => simp [List.replicate_succ, ih]
  rw [absent]
  simp only [checkAll, Traced.answer_bind_eq_ok_iff, Traced.answer_each_eq_ok_iff]
  constructor
  · rintro ⟨options, areOptions, isSettled⟩
    split at isSettled
    · rename_i allAbsent
      rw [List.all_eq_true] at allAbsent
      have isReplicate : options = List.replicate members.length none := by
        rw [List.eq_replicate_iff]
        exact ⟨areOptions.length_eq.symm, fun option member => Option.isNone_iff_eq_none.mp (allAbsent option member)⟩
      exact isReplicate ▸ areOptions
    · split at isSettled
      · simp at isSettled
      · simp [Traced.answer_bind_eq_ok_iff] at isSettled
  · intro areAbsent
    refine ⟨_, areAbsent, ?_⟩
    rw [if_pos (by simp)]
    rfl

/-- Every authentication comes before every authorization, and none of these is
made unless all of those succeeded. -/
theorem calls_checkAll : ∃ authentications authorizations,
    (checkAll request members).calls = authentications ++ authorizations ∧
      (∀ call ∈ authentications, ∃ name, call = .authenticate name) ∧
      (∀ call ∈ authorizations, ∃ name, call = .authorize name) ∧
      (authorizations ≠ [] → ∀ member ∈ members, ∃ presented credential,
        member.present request = .ok (some presented) ∧
          member.authenticate presented = .ok credential) := by
  have silent : (Traced.each (fun member => (.settle (member.present request) : Checked _))
      members).calls = [] := List.eq_nil_iff_forall_not_mem.mpr fun call member => by
    obtain ⟨_, -, made⟩ := Traced.exists_of_mem_calls_each member
    cases made
  have idle : ∃ authentications authorizations : List Call,
      ([] : List Call) = authentications ++ authorizations ∧
        (∀ call ∈ authentications, ∃ name, call = .authenticate name) ∧
        (∀ call ∈ authorizations, ∃ name, call = .authorize name) ∧
        (authorizations ≠ [] → ∀ member ∈ members, ∃ presented credential,
          member.present request = .ok (some presented) ∧
            member.authenticate presented = .ok credential) :=
    ⟨[], [], rfl, by simp, by simp, by simp⟩
  cases read : (Traced.each (fun member => (.settle (member.present request) : Checked _))
      members).answer with
  | error rejection =>
      rw [checkAll, Traced.bind_of_error read, silent]
      exact idle
  | ok options =>
      rw [checkAll, Traced.bind_of_ok read, silent, List.nil_append]
      split
      · exact idle
      · split
        · exact idle
        · rename_i presented allPresented
          rw [mapM_id_eq_some_iff] at allPresented
          subst allPresented
          rw [Traced.answer_each_eq_ok_iff, forall₂_present_iff] at read
          have authenticates : ∀ call ∈ (Traced.each (fun pair => authenticate pair.1 pair.2)
              (members.zip presented)).calls, ∃ name, call = .authenticate name := by
            intro call member
            obtain ⟨pair, -, made⟩ := Traced.exists_of_mem_calls_each member
            exact ⟨_, List.mem_singleton.mp made⟩
          cases authenticated : (Traced.each (fun pair => authenticate pair.1 pair.2)
              (members.zip presented)).answer with
          | error rejection =>
              rw [Traced.bind_of_error authenticated]
              exact ⟨_, [], (List.append_nil _).symm, authenticates, by simp, by simp⟩
          | ok credentials =>
              rw [Traced.bind_of_ok authenticated]
              refine ⟨_, _, rfl, authenticates, fun call member => ?_, fun _ => ?_⟩
              · rcases Traced.mem_calls_bind member with authorizes | ⟨_, -, settled⟩
                · obtain ⟨pair, -, made⟩ := Traced.exists_of_mem_calls_each authorizes
                  cases scopes : owedDefaults pair.1.toSecurityScheme with
                  | none =>
                      rw [scopes] at made
                      cases made
                  | some given =>
                      rw [scopes] at made
                      exact ⟨_, List.mem_singleton.mp made⟩
                · cases settled
              · rw [Traced.answer_each_eq_ok_iff] at authenticated
                intro member inMembers
                obtain ⟨value, credential, presents, isCredential⟩ :=
                  exists_of_rounds read authenticated member inMembers
                exact ⟨value, credential, presents, answer_authenticate.mp isCredential⟩

end Several

/-! ## The alternatives -/

section Alternatives

variable {Request Presented Credential Grant Description : Type}
  {members : List (Member Request Presented Credential Grant Description)} {request : Request}
  {handed : SecurityScheme Grant Description → Option (List Grant)}
  {scopes : SecurityScheme Grant Description → List Text}

theorem mem_foldl_alternative {schemes : List (SecurityScheme Grant Description)}
    {known : List SecurityRequirement} {requirement : SecurityRequirement} :
    requirement ∈ schemes.foldl (fun alternatives scheme =>
        alternative alternatives (require scopes scheme)) known ↔
      requirement ∈ known ∨ ∃ scheme ∈ schemes, requirement = require scopes scheme := by
  induction schemes generalizing known with
  | nil => simp
  | cons scheme rest ih =>
      have added : requirement ∈ alternative known (require scopes scheme) ↔
          requirement ∈ known ∨ requirement = require scopes scheme := by
        rw [alternative]
        split
        · rename_i isKnown
          exact ⟨.inl, fun either => either.elim id fun same => same ▸ isKnown⟩
        · rw [List.mem_append, List.mem_singleton]
      rw [List.foldl_cons, ih, added, List.exists_mem_cons_iff, or_assoc]

/-- The alternatives of any of several are the requirements of each. -/
theorem mem_anyAlternatives {schemes : List (SecurityScheme Grant Description)}
    {requirement : SecurityRequirement} : requirement ∈ anyAlternatives scopes schemes ↔
      ∃ scheme ∈ schemes, requirement = require scopes scheme := by
  rw [anyAlternatives, mem_foldl_alternative]
  simp

theorem lookup_require (scheme : SecurityScheme Grant Description) (name : Text) :
    (require scopes scheme).lookup name = if name = componentName scheme then some (scopes scheme) else none := by
  rw [require, lookup_cons]
  rfl

variable [Scope Grant]

/-- One scheme meets its own requirement where it is satisfied and handed the
scopes declared. -/
theorem met_require (same : ∀ scheme, SameNames (scopes scheme) (handedNames handed scheme))
    {member : Member Request Presented Credential Grant Description}
    (satisfied : Satisfied handed request member) :
    Met handed request [member] (require scopes member.toSecurityScheme) where
  named name := by
    rw [lookup_require]
    split <;> simp_all [eq_comm]
  held := List.forall_mem_singleton.mpr
    ⟨satisfied, scopes member.toSecurityScheme, by rw [lookup_require, if_pos rfl], same _⟩

/-- An alternative of any of several is met exactly where one of them is
satisfied. -/
theorem exists_met_any_iff (same : ∀ scheme, SameNames (scopes scheme) (handedNames handed scheme)) :
    (∃ alternative ∈ anyAlternatives scopes (members.map Member.toSecurityScheme),
      ∃ group ∈ members.map fun member => [member], Met handed request group alternative) ↔
      ∃ member ∈ members, Satisfied handed request member := by
  constructor
  · rintro ⟨alternative, -, group, isGroup, met⟩
    obtain ⟨member, inMembers, rfl⟩ := List.mem_map.mp isGroup
    exact ⟨member, inMembers, (met.held member (List.mem_singleton_self _)).1⟩
  · rintro ⟨member, inMembers, satisfied⟩
    refine ⟨require scopes member.toSecurityScheme, mem_anyAlternatives.mpr
      ⟨_, List.mem_map_of_mem inMembers, rfl⟩, [member], List.mem_map.mpr ⟨member, inMembers, rfl⟩, ?_⟩
    exact met_require same satisfied

theorem together_eq (schemes : List (SecurityScheme Grant Description)) :
    together schemes = schemes.foldl (fun entries scheme =>
      put (componentName scheme) (defaults scheme) entries) [] :=
  rfl

/-- The list under the name of a scheme demanded together is that of the last
scheme of the name. -/
theorem lookup_together (schemes : List (SecurityScheme Grant Description)) (name : Text) :
    (together schemes).lookup name =
      (schemes.reverse.find? fun scheme => componentName scheme = name).map defaults := by
  rw [together_eq, lookup_foldl_put]

theorem isSome_lookup_together {schemes : List (SecurityScheme Grant Description)} {name : Text} :
    ((together schemes).lookup name).isSome ↔ ∃ scheme ∈ schemes, componentName scheme = name := by
  simp [lookup_together]

/-- Some scheme of a name has the list under it. -/
theorem exists_lookup_together {schemes : List (SecurityScheme Grant Description)}
    {scheme : SecurityScheme Grant Description} (member : scheme ∈ schemes) :
    ∃ last ∈ schemes, componentName last = componentName scheme ∧
      (together schemes).lookup (componentName scheme) = some (defaults last) := by
  have isSome := isSome_lookup_together.mpr ⟨scheme, member, rfl⟩
  rw [lookup_together, Option.isSome_map] at isSome
  obtain ⟨last, found⟩ := Option.isSome_iff_exists.mp isSome
  refine ⟨last, List.mem_reverse.mp (List.mem_of_find?_eq_some found),
    by simpa using List.find?_some found, ?_⟩
  rw [lookup_together, found, Option.map_some]

/-- The schemes demanded together meet the one alternative exactly where all are
satisfied and every list is that of each scheme it is for. -/
theorem met_together_iff : Met owedDefaults request members (together (members.map Member.toSecurityScheme)) ↔
    (∀ member ∈ members, Satisfied owedDefaults request member) ∧
      ∀ first ∈ members.map Member.toSecurityScheme, ∀ second ∈ members.map Member.toSecurityScheme,
        componentName first = componentName second → SameNames (defaults first) (defaults second) := by
  constructor
  · intro met
    refine ⟨fun member inMembers => (met.held member inMembers).1, ?_⟩
    have listed : ∀ scheme ∈ members.map Member.toSecurityScheme, ∃ listed,
        (together (members.map Member.toSecurityScheme)).lookup (componentName scheme) = some listed ∧
          SameNames listed (defaults scheme) := by
      intro scheme inSchemes
      obtain ⟨member, inMembers, rfl⟩ := List.mem_map.mp inSchemes
      rw [defaults_eq_handedNames]
      exact (met.held member inMembers).2
    intro first isFirst second isSecond sameName name
    obtain ⟨firstListed, underFirst, isFirstList⟩ := listed first isFirst
    obtain ⟨secondListed, underSecond, isSecondList⟩ := listed second isSecond
    rw [sameName, underSecond, Option.some.injEq] at underFirst
    subst underFirst
    exact (isFirstList name).symm.trans (isSecondList name)
  · rintro ⟨satisfied, distinguished⟩
    refine ⟨fun name => ?_, fun member inMembers => ⟨satisfied member inMembers, ?_⟩⟩
    · rw [isSome_lookup_together]
      simp
    · have inSchemes : member.toSecurityScheme ∈ members.map Member.toSecurityScheme :=
        List.mem_map_of_mem inMembers
      obtain ⟨last, isLast, sameName, isListed⟩ := exists_lookup_together inSchemes
      refine ⟨defaults last, isListed, ?_⟩
      rw [← defaults_eq_handedNames]
      exact distinguished last isLast _ inSchemes sameName

/-- A group that names a scheme does not meet the anonymous alternative. -/
theorem not_met_anonymous (nonempty : members ≠ []) : ¬ Met handed request members [] := by
  obtain ⟨member, rest, rfl⟩ := List.exists_cons_of_ne_nil nonempty
  intro met
  have isSome := (met.named (componentName member.toSecurityScheme)).mpr ⟨member, List.mem_cons_self, rfl⟩
  cases isSome

end Alternatives

/-! ## Requirements -/

section Requirements

variable {Request Presented Credential Grant Description : Type} {request : Request}
  {handed : SecurityScheme Grant Description → Option (List Grant)}

theorem Schemes.ne_nil {α : Type} (schemes : Schemes α) : schemes.items ≠ [] := by
  intro isNil
  have atLeast := schemes.arity.1
  rw [isNil] at atLeast
  simp at atLeast

theorem checkOne_some_iff {member : Member Request Presented Credential Grant Description} :
    (∃ admission, (checkOne request handed member).answer = .ok (some admission)) ↔
      Satisfied handed request member := by
  rw [satisfied_iff, checkOne, Traced.mapAnswer]
  cases (presentAndVerify request handed member).answer with
  | error rejection => simp [Except.map]
  | ok credential => cases credential <;> simp [Except.map]

theorem checkOne_none_iff {member : Member Request Presented Credential Grant Description} :
    (checkOne request handed member).answer = .ok none ↔ member.present request = .ok none := by
  rw [← absent_iff handed, checkOne, Traced.mapAnswer]
  cases (presentAndVerify request handed member).answer with
  | error rejection => simp [Except.map]
  | ok credential => cases credential <;> simp [Except.map]

theorem Requirement.check_none_iff
    {requirement : Requirement (Member Request Presented Credential Grant Description)} :
    (requirement.check request).answer = .ok none ↔
      ∀ member ∈ requirement.schemes, member.present request = .ok none := by
  cases requirement with
  | one member => simpa [check, schemes] using checkOne_none_iff
  | anyOf members => exact checkAny_none_iff.trans (and_iff_right rfl)
  | allOf members => exact checkAll_none_iff

/-- A requirement is satisfied exactly where one of its groups is. -/
theorem Requirement.check_some_iff
    {requirement : Requirement (Member Request Presented Credential Grant Description)} :
    (∃ admission, (requirement.check request).answer = .ok (some admission)) ↔
      ∃ group ∈ requirement.groups, ∀ member ∈ group, Satisfied owedDefaults request member := by
  cases requirement with
  | one member => simpa [check, groups] using checkOne_some_iff
  | anyOf members => simpa [check, groups] using checkAny_some_iff
  | allOf members => simpa [check, groups] using checkAll_some_iff members.ne_nil

variable [Scope Grant]

/-- An alternative a requirement declares is met exactly where a group of it is
satisfied, and the schemes it demands together are distinguished. -/
theorem Requirement.exists_met_iff
    {requirement : Requirement (Member Request Presented Credential Grant Description)} :
    (∃ alternative ∈ (requirement.map Member.toSecurityScheme).declare,
      ∃ group ∈ requirement.groups, Met owedDefaults request group alternative) ↔
      (∃ group ∈ requirement.groups, ∀ member ∈ group, Satisfied owedDefaults request member) ∧
        ∀ first ∈ (requirement.map Member.toSecurityScheme).jointly,
          ∀ second ∈ (requirement.map Member.toSecurityScheme).jointly,
            componentName first = componentName second →
              SameNames (defaults first) (defaults second) := by
  have same : ∀ scheme : SecurityScheme Grant Description,
      SameNames (defaults scheme) (handedNames owedDefaults scheme) := fun scheme name => by
    rw [defaults_eq_handedNames]
  cases requirement with
  | one member =>
      have single : (∃ alternative ∈ [require defaults member.toSecurityScheme],
          ∃ group ∈ [[member]], Met owedDefaults request group alternative) ↔
            Satisfied owedDefaults request member := by
        simp only [List.mem_singleton, exists_eq_left]
        exact ⟨fun met => (met.held member (List.mem_singleton_self _)).1, met_require same⟩
      simpa [declare, groups, map, jointly] using single
  | anyOf members =>
      have several : _ ↔ ∃ member ∈ members.items, Satisfied owedDefaults request member :=
        exists_met_any_iff same
      simpa [declare, groups, map, jointly, Schemes.map] using several
  | allOf members =>
      simpa [declare, groups, map, jointly, Schemes.map] using met_together_iff

theorem Scopable.check_none_iff {required : List Grant}
    {requirement : Scopable (Member Request Presented Credential Grant Description)} :
    (requirement.checkScoped request required).answer = .ok none ↔
      ∀ member ∈ requirement.schemes, member.present request = .ok none := by
  cases requirement with
  | one member => simpa [checkScoped, schemes] using checkOne_none_iff
  | anyOf members => exact checkAny_none_iff.trans (and_iff_right rfl)

/-- A requirement that demands scopes is satisfied exactly where an alternative
it declares is met. -/
theorem Scopable.check_some_iff {required : List Grant}
    {requirement : Scopable (Member Request Presented Credential Grant Description)} :
    (∃ admission, (requirement.checkScoped request required).answer = .ok (some admission)) ↔
      ∃ alternative ∈ (requirement.map Member.toSecurityScheme).declareScoped required,
        ∃ group ∈ requirement.groups,
          Met (fun scheme => some (demanded scheme required)) request group alternative := by
  have same : ∀ scheme : SecurityScheme Grant Description, SameNames (demandedNames scheme required)
      (handedNames (fun scheme => some (demanded scheme required)) scheme) :=
    sameNames_demandedNames required
  cases requirement with
  | one member =>
      have single : (∃ alternative ∈ [require (demandedNames · required) member.toSecurityScheme],
          ∃ group ∈ [[member]], Met (fun scheme => some (demanded scheme required)) request group alternative) ↔
            Satisfied (fun scheme => some (demanded scheme required)) request member := by
        simp only [List.mem_singleton, exists_eq_left]
        exact ⟨fun met => (met.held member (List.mem_singleton_self _)).1, met_require same⟩
      exact checkOne_some_iff.trans single.symm
  | anyOf members =>
      exact checkAny_some_iff.trans (exists_met_any_iff same).symm

end Requirements

/-! ## Guards -/

section Guards

variable {Request Presented Credential Grant Description : Type}

theorem demand_some_iff {answer : Except AuthRejection (Option (Admission Credential))}
    {admission : Admission Credential} :
    demand answer = .ok (some admission) ↔ answer = .ok (some admission) := by
  cases answer with
  | error rejection => simp [demand]
  | ok admitted => cases admitted <;> simp [demand]

theorem demand_ne_none {answer : Except AuthRejection (Option (Admission Credential))} :
    demand answer ≠ .ok none := by
  cases answer with
  | error rejection => simp [demand]
  | ok admitted => cases admitted <;> simp [demand]

theorem Requirement.ne_nil_of_mem_groups {α : Type} {requirement : Requirement α} {group : List α}
    (isGroup : group ∈ requirement.groups) : group ≠ [] := by
  cases requirement with
  | one scheme => simp_all [groups]
  | anyOf schemes =>
      obtain ⟨scheme, -, rfl⟩ := List.mem_map.mp isGroup
      exact List.cons_ne_nil _ _
  | allOf schemes =>
      rw [List.mem_singleton.mp isGroup]
      exact schemes.ne_nil

/-- The order of the calls, for a requirement of schemes demanded together. -/
theorem Requirement.calls_check {request : Request}
    {requirement : Requirement (Member Request Presented Credential Grant Description)}
    (together : requirement.jointly ≠ []) : ∃ authentications authorizations,
    (requirement.check request).calls = authentications ++ authorizations ∧
      (∀ call ∈ authentications, ∃ name, call = .authenticate name) ∧
      (∀ call ∈ authorizations, ∃ name, call = .authorize name) ∧
      (authorizations ≠ [] → ∀ member ∈ requirement.jointly, ∃ presented credential,
        member.present request = .ok (some presented) ∧
          member.authenticate presented = .ok credential) := by
  cases requirement with
  | one member => contradiction
  | anyOf members => contradiction
  | allOf members => exact calls_checkAll

/-- A scheme whose every credential is presented, authentic and authorized. -/
def accepting (scheme : SecurityScheme Grant Description) : Member Unit Unit Unit Grant Description where
  toSecurityScheme := scheme
  present := fun _ => .ok (some ())
  authenticate := .ok
  authorize := fun _ _ => .ok ()

theorem Schemes.map_accepting (schemes : Schemes (SecurityScheme Grant Description)) :
    (schemes.map accepting).map Member.toSecurityScheme = schemes := by
  obtain ⟨items, arity⟩ := schemes
  simp [map, Function.comp_def, accepting]

theorem Requirement.map_accepting (requirement : Requirement (SecurityScheme Grant Description)) :
    (requirement.map accepting).map Member.toSecurityScheme = requirement := by
  cases requirement with
  | one scheme => rfl
  | anyOf schemes => exact congrArg Requirement.anyOf schemes.map_accepting
  | allOf schemes => exact congrArg Requirement.allOf schemes.map_accepting

theorem Scopable.map_accepting (requirement : Scopable (SecurityScheme Grant Description)) :
    (requirement.map accepting).map Member.toSecurityScheme = requirement := by
  cases requirement with
  | one scheme => rfl
  | anyOf schemes => exact congrArg Scopable.anyOf schemes.map_accepting

theorem satisfied_accepting (handed : SecurityScheme Grant Description → Option (List Grant))
    (scheme : SecurityScheme Grant Description) : Satisfied handed () (accepting scheme) :=
  ⟨(), (), rfl, rfl, fun _ _ => rfl⟩

theorem Requirement.exists_group_accepting
    (requirement : Requirement (SecurityScheme Grant Description)) :
    ∃ group ∈ (requirement.map accepting).groups, ∀ member ∈ group, Satisfied owedDefaults () member := by
  cases requirement with
  | one scheme =>
      exact ⟨_, List.mem_singleton_self _, List.forall_mem_singleton.mpr (satisfied_accepting _ _)⟩
  | anyOf schemes =>
      obtain ⟨scheme, rest, isItems⟩ := List.exists_cons_of_ne_nil schemes.ne_nil
      refine ⟨[accepting scheme], ?_, List.forall_mem_singleton.mpr (satisfied_accepting _ _)⟩
      simp [map, groups, Schemes.map, isItems]
  | allOf schemes =>
      refine ⟨_, List.mem_singleton_self _, fun member inItems => ?_⟩
      obtain ⟨scheme, -, rfl⟩ := List.mem_map.mp inItems
      exact satisfied_accepting _ _

variable [Scope Grant]

/-- What a guard over distinguished schemes declares it enforces. -/
theorem Guard.enforced
    {guard : Guard (Member Request Presented Credential Grant Description) Grant}
    (distinguished : Distinguished (guard.map Member.toSecurityScheme)) (request : Request) :
    Enforced guard request := by
  cases guard with
  | auth requirement =>
      refine ⟨?_, ?_, Requirement.calls_check⟩
      · simp only [guard, Traced.mapAnswer, mapError_eq_ok_iff, demand_some_iff]
        rw [Requirement.check_some_iff]
        exact (and_iff_left distinguished).symm.trans Requirement.exists_met_iff.symm
      · simp only [guard, Traced.mapAnswer, mapError_eq_ok_iff]
        exact iff_of_false demand_ne_none (by simp)
  | maybeAuth requirement =>
      refine ⟨?_, ?_, Requirement.calls_check⟩
      · simp only [guard, Traced.mapAnswer, mapError_eq_ok_iff]
        rw [Requirement.check_some_iff]
        refine (and_iff_left distinguished).symm.trans (Requirement.exists_met_iff.symm.trans ?_)
        refine ⟨fun ⟨alternative, isDeclared, met⟩ => ⟨alternative, List.mem_cons_of_mem _ isDeclared, met⟩, ?_⟩
        rintro ⟨alternative, isDeclared, group, isGroup, met⟩
        rcases List.mem_cons.mp isDeclared with rfl | isDeclared
        · exact absurd met (not_met_anonymous (Requirement.ne_nil_of_mem_groups isGroup))
        · exact ⟨alternative, isDeclared, group, isGroup, met⟩
      · simp only [guard, Traced.mapAnswer, mapError_eq_ok_iff]
        exact Requirement.check_none_iff.trans (and_iff_right ⟨requirement, rfl⟩).symm
  | scopedBy requirement required =>
      refine ⟨?_, ?_, fun together => absurd rfl together⟩
      · simp only [guard, Traced.mapAnswer, mapError_eq_ok_iff, demand_some_iff]
        exact Scopable.check_some_iff
      · simp only [guard, Traced.mapAnswer, mapError_eq_ok_iff]
        exact iff_of_false demand_ne_none (by simp)

/-- A guard that enforces what it declares, whatever is answered, has its
schemes distinguished. -/
theorem distinguished_of_enforces {guard : Guard (SecurityScheme Grant Description) Grant}
    (enforces : Enforces guard) : Distinguished guard := by
  cases guard with
  | scopedBy requirement required => exact fun first isFirst => absurd isFirst List.not_mem_nil
  | auth requirement =>
      have enforced := enforces Unit Unit Unit (.auth (requirement.map accepting)) ()
        (congrArg Guard.auth requirement.map_accepting)
      have admitted := enforced.admits.mp (by
        simp only [Guard.guard, Traced.mapAnswer, mapError_eq_ok_iff, demand_some_iff]
        exact Requirement.check_some_iff.mpr requirement.exists_group_accepting)
      have distinguished := (Requirement.exists_met_iff.mp admitted).2
      rwa [requirement.map_accepting] at distinguished
  | maybeAuth requirement =>
      have enforced := enforces Unit Unit Unit (.maybeAuth (requirement.map accepting)) ()
        (congrArg Guard.maybeAuth requirement.map_accepting)
      obtain ⟨alternative, isDeclared, group, isGroup, met⟩ := enforced.admits.mp (by
        simp only [Guard.guard, Traced.mapAnswer, mapError_eq_ok_iff]
        exact Requirement.check_some_iff.mpr requirement.exists_group_accepting)
      rcases List.mem_cons.mp isDeclared with rfl | isDeclared
      · exact absurd met (not_met_anonymous (Requirement.ne_nil_of_mem_groups isGroup))
      · have distinguished :=
          (Requirement.exists_met_iff.mp ⟨alternative, isDeclared, group, isGroup, met⟩).2
        rwa [requirement.map_accepting] at distinguished

/-- A guard enforces what it declares exactly where the schemes it demands
together under one component name have default scopes of the same names. -/
theorem enforces_iff_distinguished (guard : Guard (SecurityScheme Grant Description) Grant) :
    Enforces guard ↔ Distinguished guard := by
  refine ⟨distinguished_of_enforces, ?_⟩
  rintro distinguished Request Presented Credential members request rfl
  exact Guard.enforced distinguished request

/-- Scope names as they are. -/
instance : Scope Text where
  name := id

/-- A scheme `Token`, with default scopes. -/
def token (typeName : Text) (typeNamed : typeName ≠ []) (scopes : List Text) :
    SecurityScheme Text Unit :=
  ⟨"Token".toList, typeName, typeNamed, scopes, (), none, none⟩

/-- `AllOf` two schemes named `Token`, the first with the default scope `read`. -/
def bothTokens : Guard (SecurityScheme Text Unit) Text :=
  .auth (.allOf ⟨[token "First".toList (by decide) ["read".toList],
    token "Second".toList (by decide) []], by decide⟩)

/-- The operation lists no scope for `Token`, and the guard hands one. -/
theorem bothTokens_undeclared :
    bothTokens.describe.security = [[("Token".toList, [])]] ∧ ¬ Enforces bothTokens := by
  refine ⟨by decide, fun enforces => ?_⟩
  have distinguished := distinguished_of_enforces enforces
  have same := distinguished (token "First".toList (by decide) ["read".toList]) List.mem_cons_self
    (token "Second".toList (by decide) []) (List.mem_cons_of_mem _ (List.mem_singleton_self _)) rfl
  exact absurd ((same "read".toList).mp (by decide)) (by decide)

end Guards

end Kynos.Security
