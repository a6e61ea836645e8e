import Kynos.Cache.Intercept
import Kynos.Run.Runs

/-!
# What is served from a store

Requests are handled one after another. Whatever is served is what the chain
answered an earlier request with, that the rules let be stored, that the request
served selects, and that no write to the same target has dropped.
-/

namespace Kynos.Cache

open Kynos.Http Kynos.Numeral
open Kynos.Http.Date (SystemTime)

/-! ## Finding -/

theorem mem_of_findFresh {examined : Nat → SystemTime} {candidates : List StoredResponse}
    {stored : StoredResponse} (found : findFresh examined candidates = some stored) :
    stored ∈ candidates ∧ ∃ reading, stored.isFreshAt (examined reading) = true := by
  induction candidates generalizing examined with
  | nil => contradiction
  | cons candidate rest ih =>
      rw [findFresh] at found
      split at found
      · rename_i fresh
        obtain rfl := Option.some.inj found
        exact ⟨List.mem_cons_self, 0, fresh⟩
      · obtain ⟨member, reading, fresh⟩ := ih found
        exact ⟨List.mem_cons_of_mem _ member, reading + 1, fresh⟩

/-- What a lookup finds. -/
structure Found (candidates : List StoredResponse) (secured : Bool) (exchange : Exchange)
    (stored : StoredResponse) : Prop where
  isCandidate : stored ∈ candidates
  isSelected : stored.selectedBy exchange.request.headers = true
  isShared : secured = true → servableWhenSecured stored.headers = true
  isFresh : ∃ reading, stored.isFreshAt (exchange.clock.examined reading) = true
  reuse : ¬ Member exchange.request.headers Header.cacheControl "no-cache".toList

theorem found_of_lookup {candidates : List StoredResponse} {secured : Bool} {exchange : Exchange}
    {stored : StoredResponse} (found : lookup candidates secured exchange = some stored) :
    Found candidates secured exchange stored := by
  rw [lookup, Option.ite_none_left_eq_some, Requested.forbidsReuse, noCache_of_iff] at found
  obtain ⟨reuse, isFound⟩ := found
  obtain ⟨member, fresh⟩ := mem_of_findFresh isFound
  obtain ⟨selected, shared⟩ := List.mem_filter.mp member
  obtain ⟨isCandidate, isSelected⟩ := List.mem_filter.mp selected
  refine ⟨isCandidate, isSelected, fun isSecured => ?_, fresh, reuse⟩
  simpa [isSecured] using shared

/-! ## Keeping -/

/-- A stored response is what the chain answered a request with. -/
structure Produced (cache : Cache) (exchange : Exchange) (stored : StoredResponse) : Prop where
  isStorable : Storable exchange.request.method exchange.answer.headers exchange.secured
  status : stored.status = exchange.answer.status
  headers : stored.headers = strip exchange.answer.headers
  body : exchange.answer.body.collected = some stored.body
  selects : ∀ request, stored.selectedBy request = true ↔
    ∀ name ∈ vary exchange.answer.headers,
      combinedValue exchange.request.headers name = combinedValue request name
  recordedAt : stored.recordedAt = exchange.clock.recorded
  lifetime : freshness (directives exchange.answer.headers) exchange.answer.headers
    cache.defaultFreshness exchange.clock.received = some stored.freshness

theorem collected_of_bounded {body : Body} {limit : Nat} {bytes : Octets}
    (isRead : bounded body limit = .ok bytes) : body.collected = some bytes := by
  unfold bounded at isRead
  split at isRead
  · contradiction
  · split at isRead
    · contradiction
    · split at isRead
      · rename_i collected
        rw [collected, Except.ok.inj isRead]
      · contradiction

variable {cache : Cache} {exchange : Exchange}

theorem status_kept : (kept cache exchange.secured exchange).1.status = exchange.answer.status := by
  simp only [kept]
  split
  · rfl
  · split
    · rfl
    · split <;> rfl

theorem produced_of_kept {stored : StoredResponse}
    (isKept : (kept cache exchange.secured exchange).2 = some stored) :
    Produced cache exchange stored := by
  simp only [kept] at isKept
  split at isKept
  · contradiction
  · rename_i lifetime varied isStorable
    split at isKept
    · contradiction
    · rename_i bytes isRead
      split at isKept
      · contradiction
      · obtain rfl := Option.some.inj isKept
        obtain ⟨rules, rfl, stated⟩ := storable_of_ok isStorable
        exact ⟨rules, rfl, rfl, collected_of_bounded isRead,
          fun _ => StoredResponse.selectedBy_recordedOf_iff, rfl, stated⟩

/-! ## One request -/

section Step

variable {State : Type} {store : CacheStore State} {template : Text → Text} {state : State}
  {key : PrimaryKey} {stored : StoredResponse}

theorem mem_get_invalidated {other : PrimaryKey} :
    stored ∈ store.get (invalidated store state key) other ↔
      stored ∈ store.get state other ∧ other ≠ { key with method := .get } ∧
        other ≠ { key with method := .head } := by
  rw [invalidated, store.mem_get_invalidate, store.mem_get_invalidate, and_assoc]

/-- What running the chain leaves of what was held, and what it adds. -/
theorem mem_get_run {other : PrimaryKey}
    (member : stored ∈ store.get (run cache store state key exchange.secured exchange).1 other) :
    (other = key ∧ storableMethod exchange.request.method = true ∧ Produced cache exchange stored) ∨
      (stored ∈ store.get state other ∧
        (isSafe exchange.request.method = false → isNonError exchange.answer.status = true →
          other ≠ { key with method := .get } ∧ other ≠ { key with method := .head })) := by
  have swept : stored ∈ store.get
      (if !isSafe exchange.request.method && isNonError exchange.answer.status then
        invalidated store state key else state) other →
      stored ∈ store.get state other ∧
        (isSafe exchange.request.method = false → isNonError exchange.answer.status = true →
          other ≠ { key with method := .get } ∧ other ≠ { key with method := .head }) := by
    intro held
    split at held
    · obtain ⟨held, kept⟩ := mem_get_invalidated.mp held
      exact ⟨held, fun _ _ => kept⟩
    · rename_i spared
      refine ⟨held, fun notSafe nonError => ?_⟩
      simp [notSafe, nonError] at spared
  simp only [run] at member
  split at member
  · rename_i storing
    split at member
    · rename_i isKept
      rcases (store.mem_get_put _ _ _ _ _).mp member with ⟨rfl, rfl⟩ | ⟨held, -⟩
      · exact .inl ⟨rfl, (Bool.and_eq_true_iff.mp storing).1, produced_of_kept isKept⟩
      · exact .inr (swept held)
    · exact .inr (swept member)
  · exact .inr (swept member)

theorem exists_forwarded_run :
    ∃ response, (run cache store state key exchange.secured exchange).2 = .forwarded response ∧
      response.status = exchange.answer.status := by
  simp only [run]
  split
  · split <;> exact ⟨_, rfl, status_kept⟩
  · exact ⟨_, rfl, rfl⟩

end Step

/-! ## A run -/

section Run

variable {State : Type} (cache : Cache) (store : CacheStore State) (template : Text → Text)

/-- The store after requests, handled one after another. -/
def afterAll (exchanges : List Exchange) : State :=
  Run.after (fun state exchange => (intercept cache store template state exchange).1) store.empty
    exchanges

/-- A store holds a response under a key. -/
def Holds (state : State) (item : PrimaryKey × StoredResponse) : Prop :=
  item.2 ∈ store.get state item.1

/-- The chain is run for a request, and what it answers is what is stored. -/
def Adds (state : State) (exchange : Exchange) (item : PrimaryKey × StoredResponse) : Prop :=
  keyOf cache template exchange = some item.1 ∧
    (∃ response, (intercept cache store template state exchange).2 = .forwarded response) ∧
    Produced cache exchange item.2

/-- An operation answers an unsafe request to an authority and a target with a
success or a redirection. -/
def Writes (state : State) (exchange : Exchange) (authority : Option Text) (target : Text) : Prop :=
  (keyOf cache template exchange).isSome ∧ isSafe exchange.request.method = false ∧
    isNonError (intercept cache store template state exchange).2.response.status = true ∧
    ownAuthority exchange.request.headers exchange.request.authority = authority ∧
    exchange.request.target = target

/-- Every key is one this cache files a stored response under. -/
def Filed (state : State) : Prop :=
  ∀ key stored, stored ∈ store.get state key →
    key.nameSpace = cache.nameSpace ∧ (key.method = .get ∨ key.method = .head) ∧
      key.route = template key.target

/-- What becomes of a request: it is passed on, it is answered from the store, or
the chain is run. -/
theorem intercept_cases (state : State) (exchange : Exchange) :
    (keyOf cache template exchange = none ∧
        intercept cache store template state exchange = (state, .forwarded exchange.answer)) ∨
      (∃ key stored, keyOf cache template exchange = some key ∧
        Found (store.get state key) exchange.secured exchange stored ∧
        intercept cache store template state exchange =
          (state, .served stored (replayed cache stored exchange.clock.served))) ∨
      ∃ key, keyOf cache template exchange = some key ∧
        intercept cache store template state exchange =
          run cache store state key exchange.secured exchange := by
  unfold intercept
  cases isKey : keyOf cache template exchange with
  | none => exact .inl ⟨rfl, rfl⟩
  | some key =>
      right
      cases isFound : lookup (store.get state key) exchange.secured exchange with
      | none => exact .inr ⟨key, rfl, by simp only [isFound]⟩
      | some stored =>
          exact .inl ⟨key, stored, rfl, found_of_lookup isFound, by simp only [isFound]⟩

variable {cache store template} {state : State} {exchange : Exchange} {key : PrimaryKey}

/-- The parts of a key. -/
theorem keyOf_eq_some_iff :
    keyOf cache template exchange = some key ↔
      ∃ keyed, exchange.routed.isSome ∧
        Router.Method.fromWireStr exchange.request.method = some keyed ∧
        key = primaryKey cache keyed exchange.request (template exchange.request.target) := by
  unfold keyOf
  split
  · rename_i isRouted isMethod
    simp [isRouted, isMethod, eq_comm]
  · rename_i unkeyed
    simp only [false_iff, reduceCtorEq]
    rintro ⟨keyed, isRouted, isMethod, -⟩
    obtain ⟨routed, isRouted⟩ := Option.isSome_iff_exists.mp isRouted
    exact unkeyed routed keyed isRouted isMethod

/-- A stored response is never a write's. -/
theorem isSafe_of_keyed {keyed : Router.Method}
    (isMethod : Router.Method.fromWireStr exchange.request.method = some keyed)
    (isStored : keyed = .get ∨ keyed = .head) : isSafe exchange.request.method = true := by
  rw [← Router.Method.fromWireStr_eq_some_iff.mp isMethod]
  rcases isStored with rfl | rfl <;> decide

theorem eq_get_or_head_of_storableMethod {keyed : Router.Method}
    (isMethod : Router.Method.fromWireStr exchange.request.method = some keyed)
    (isStorable : storableMethod exchange.request.method = true) : keyed = .get ∨ keyed = .head := by
  rw [← Router.Method.fromWireStr_eq_some_iff.mp isMethod] at isStorable
  cases keyed <;> first | exact .inl rfl | exact .inr rfl | exact absurd isStorable (by decide)

theorem filed_step (filed : Filed cache store template state) :
    Filed cache store template (intercept cache store template state exchange).1 := by
  rcases intercept_cases cache store template state exchange with
    ⟨-, isPassed⟩ | ⟨key, stored, -, -, isServed⟩ | ⟨key, isKey, isRun⟩
  · rw [isPassed]
    exact filed
  · rw [isServed]
    exact filed
  · rw [isRun]
    intro other stored member
    rcases mem_get_run member with ⟨rfl, isStorable, -⟩ | ⟨held, -⟩
    · obtain ⟨keyed, -, isMethod, rfl⟩ := keyOf_eq_some_iff.mp isKey
      exact ⟨rfl, eq_get_or_head_of_storableMethod isMethod isStorable, rfl⟩
    · exact filed other stored held

/-- What a request adds to a store, and what it leaves there. -/
theorem accounted_step (filed : Filed cache store template state)
    {item : PrimaryKey × StoredResponse}
    (held : Holds store (intercept cache store template state exchange).1 item) :
    Adds cache store template state exchange item ∨
      (Holds store state item ∧
        ¬ Writes cache store template state exchange item.1.authority item.1.target) := by
  obtain ⟨other, stored⟩ := item
  rcases intercept_cases cache store template state exchange with
    ⟨unkeyed, isPassed⟩ | ⟨key, hit, isKey, found, isServed⟩ | ⟨key, isKey, isRun⟩
  · rw [isPassed] at held
    refine .inr ⟨held, fun ⟨keyed, _⟩ => ?_⟩
    rw [unkeyed] at keyed
    contradiction
  · rw [isServed] at held
    refine .inr ⟨held, fun ⟨_, notSafe, _⟩ => ?_⟩
    obtain ⟨keyed, -, isMethod, rfl⟩ := keyOf_eq_some_iff.mp isKey
    have safe := isSafe_of_keyed isMethod (filed _ _ found.isCandidate).2.1
    exact absurd (notSafe.symm.trans safe) Bool.false_ne_true
  · rw [isRun] at held
    rcases mem_get_run held with ⟨rfl, -, produced⟩ | ⟨kept, spared⟩
    · obtain ⟨response, isForwarded, -⟩ := @exists_forwarded_run cache exchange _ store state other
      exact .inl ⟨isKey, ⟨response, isRun ▸ isForwarded⟩, produced⟩
    · refine .inr ⟨kept, fun ⟨_, notSafe, nonError, sameAuthority, sameTarget⟩ => ?_⟩
      obtain ⟨answered, isForwarded, status⟩ := @exists_forwarded_run cache exchange _ store state key
      rw [isRun, isForwarded, Outcome.response, status] at nonError
      obtain ⟨notGet, notHead⟩ := spared notSafe nonError
      obtain ⟨keyed, -, -, rfl⟩ := keyOf_eq_some_iff.mp isKey
      obtain ⟨sameSpace, isStored, sameRoute⟩ := filed other stored kept
      -- a key of this cache is told by its method, authority and target
      have same : other = { primaryKey cache keyed exchange.request
          (template exchange.request.target) with method := other.method } := by
        rw [primaryKey, PrimaryKey.mk.injEq]
        exact ⟨sameSpace, rfl, sameAuthority.symm, by rw [sameRoute, sameTarget], sameTarget.symm⟩
      rcases isStored with isGet | isHead
      · exact notGet (isGet ▸ same)
      · exact notHead (isHead ▸ same)

variable (cache store template)

theorem accounts :
    Run.Accounts (fun state exchange => (intercept cache store template state exchange).1)
      store.empty (Filed cache store template) (Holds store) (Adds cache store template)
      fun state exchange item =>
        Writes cache store template state exchange item.1.authority item.1.target where
  initially := fun key stored member => by simp [store.get_empty] at member
  kept := fun _ _ filed => filed_step filed
  empty := fun item held => by simp [Holds, store.get_empty] at held
  accounted := fun _ _ _ filed held => accounted_step filed held

/-- A response that is served to a request is what the chain answered another
with, and one the request may be given. -/
structure Allowed (origin last : Exchange) (response : Response Body) : Prop where
  /-- The two are filed under one key: the same namespace, method, authority, route
  and target. -/
  sameKey : ∃ key, keyOf cache template origin = some key ∧ keyOf cache template last = some key
  status : response.status = origin.answer.status
  body : ∃ bytes, origin.answer.body.collected = some bytes ∧ response.body = Body.fromBytes bytes
  fields : ∀ name, name ∉ hopByHop → name ≠ Header.etag →
    response.headers.getAll name = origin.answer.headers.getAll name
  sameValues : ∀ name, Member origin.answer.headers Header.vary name → name ≠ [] →
    combinedValue origin.request.headers name = combinedValue last.request.headers name
  /-- Its age, as it was examined, was below its freshness. -/
  fresh : ∃ lifetime reading,
    freshness (directives origin.answer.headers) origin.answer.headers cache.defaultFreshness
        origin.clock.received = some lifetime ∧
      durationSince (last.clock.examined reading) origin.clock.recorded < lifetime
  reuse : ¬ Member last.request.headers Header.cacheControl "no-cache".toList
  noCookie : origin.answer.headers.containsKey Header.setCookie = false
  noStore : ¬ Says origin.answer.headers "no-store".toList
  notPrivate : ¬ Says origin.answer.headers "private".toList
  noCache : ¬ Says origin.answer.headers "no-cache".toList
  isShared : last.secured = true →
    Member origin.answer.headers Header.cacheControl "public".toList ∨
      ∃ given, Member origin.answer.headers Header.cacheControl ("s-maxage=".toList ++ given)

variable {cache template}

theorem getAll_replayed {stored : StoredResponse} {now : SystemTime} {name : Text}
    (notAge : name ≠ Header.age) (notEtag : name ≠ Header.etag) :
    (replayed cache stored now).headers.getAll name = stored.headers.getAll name := by
  have writes : ∀ fields other value, name ≠ other →
      (written fields other value).getAll name = fields.getAll name := by
    intro fields other value different
    cases value with
    | none => rfl
    | some value => rw [written, HeaderMap.getAll_insert, if_neg different.symm]
  rw [replayed, added, writes _ _ _ notEtag, writes _ _ _ notAge]

theorem allowed_of_found {origin last : Exchange} {stored : StoredResponse} {key : PrimaryKey}
    {candidates : List StoredResponse} (isOrigin : keyOf cache template origin = some key)
    (isLast : keyOf cache template last = some key) (produced : Produced cache origin stored)
    (found : Found candidates last.secured last stored) :
    Allowed cache template origin last (replayed cache stored last.clock.served) where
  sameKey := ⟨key, isOrigin, isLast⟩
  status := produced.status
  body := ⟨stored.body, produced.body, rfl⟩
  fields := fun name kept notEtag => by
    have notAge : name ≠ Header.age := by
      rintro rfl
      exact kept (by decide)
    rw [getAll_replayed notAge notEtag, produced.headers, getAll_strip kept]
  sameValues := fun name listed written =>
    (produced.selects _).mp found.isSelected name (mem_vary.mpr ⟨listed, written⟩)
  fresh := by
    obtain ⟨reading, isFresh⟩ := found.isFresh
    rw [StoredResponse.isFreshAt, decide_eq_true_eq, StoredResponse.ageAt, produced.recordedAt] at isFresh
    exact ⟨stored.freshness, reading, produced.lifetime, isFresh⟩
  reuse := found.reuse
  noCookie := produced.isStorable.noCookie
  noStore := produced.isStorable.noStore
  notPrivate := produced.isStorable.notPrivate
  noCache := produced.isStorable.noCache
  isShared := fun secured => by
    have shares := found.isShared secured
    rw [servableWhenSecured, produced.headers, directives_strip] at shares
    exact shared_directives_iff.mp shares

/-- Whatever is served from the store is what the chain answered an earlier
request of the run with, is one the request served may be given, and no unsafe
request to its authority and target has been answered with a success or a
redirection since. -/
theorem served_of_run (cache : Cache) (store : CacheStore State) (template : Text → Text)
    (earlier : List Exchange) (last : Exchange) (stored : StoredResponse)
    (response : Response Body)
    (hit : (intercept cache store template (afterAll cache store template earlier) last).2 =
      .served stored response) :
    ∃ before origin since, earlier = before ++ origin :: since ∧
      (∃ answered, (intercept cache store template (afterAll cache store template before)
        origin).2 = .forwarded answered) ∧
      Allowed cache template origin last response ∧
      ∀ between write rest, since = between ++ write :: rest →
        ¬ Writes cache store template
          (afterAll cache store template (before ++ origin :: between)) write
          (ownAuthority last.request.headers last.request.authority) last.request.target := by
  rcases intercept_cases cache store template (afterAll cache store template earlier) last with
    ⟨-, isPassed⟩ | ⟨key, found, isKey, isFound, isServed⟩ | ⟨key, -, isRun⟩
  · rw [isPassed] at hit
    contradiction
  · rw [isServed] at hit
    obtain ⟨rfl, rfl⟩ := Outcome.served.inj hit
    obtain ⟨before, origin, since, rfl, ⟨isOrigin, isForwarded, produced⟩, unwritten⟩ :=
      (accounts cache store template).exists_origin
        (show Holds store (afterAll cache store template earlier) (key, found) from isFound.isCandidate)
    refine ⟨before, origin, since, rfl, isForwarded,
      allowed_of_found isOrigin isKey produced isFound, fun between write rest split => ?_⟩
    obtain ⟨keyed, -, -, rfl⟩ := keyOf_eq_some_iff.mp isKey
    exact unwritten between write rest split
  · obtain ⟨answered, isForwarded, -⟩ := @exists_forwarded_run cache last _ store
      (afterAll cache store template earlier) key
    rw [isRun, isForwarded] at hit
    contradiction

end Run

/-! ## Repeated requests -/

/-- A cache that stores small bodies and derives nothing. -/
def plainCache : Cache :=
  ⟨[], 1024, none, false⟩

/-- An instant, at which everything happens. -/
def atOnce : Clock :=
  ⟨fun _ => 0, 0, 0, 0⟩

/-- A `GET` of an operation, answered with a `Cache-Control`. -/
def fetch (secured : Bool) (control : HeaderValue) : Exchange where
  request := ⟨Method.get, none, "/".toList, HeaderMap.empty⟩
  routed := some ⟨some secured⟩
  answer := ⟨200, HeaderMap.empty.append Header.cacheControl control, Body.fromBytes [104, 105]⟩
  clock := atOnce

/-- `max-age=60`. -/
def maxAge : HeaderValue :=
  ⟨Text.toOctets "max-age=60".toList, by decide⟩

/-- A repeated request is answered with what the first was. -/
theorem served_of_run_fetch :
    ∃ stored response,
      (intercept plainCache memory id (afterAll plainCache memory id [fetch false maxAge])
        (fetch false maxAge)).2 = .served stored response ∧
      ∃ before origin since, [fetch false maxAge] = before ++ origin :: since ∧
        Allowed plainCache id origin (fetch false maxAge) response := by
  obtain ⟨stored, response, hit⟩ : ∃ stored response,
      (intercept plainCache memory id (afterAll plainCache memory id [fetch false maxAge])
        (fetch false maxAge)).2 = .served stored response := ⟨_, _, rfl⟩
  obtain ⟨before, origin, since, split, -, allowed, -⟩ :=
    served_of_run plainCache memory id [fetch false maxAge] (fetch false maxAge) stored response hit
  exact ⟨stored, response, hit, before, origin, since, split, allowed⟩

/-! ## What is read otherwise -/

/-- `max-age=60, no-store, x="é"`, the last letter an octet past ASCII. -/
def hiddenNoStore : HeaderValue :=
  ⟨Text.toOctets "max-age=60, no-store, x=\"".toList ++ [233, 34], by decide⟩

/-- `max-age=60, x="a, public, b"`. -/
def quotedPublic : HeaderValue :=
  ⟨Text.toOctets "max-age=60, x=\"a, public, b\"".toList, by decide⟩

/-- A `POST` that no operation of the router answers, answered with a 200. -/
def unroutedPost : Exchange where
  request := ⟨"POST".toList, none, "/".toList, HeaderMap.empty⟩
  routed := none
  answer := ⟨200, HeaderMap.empty, Body.fromBytes []⟩
  clock := atOnce

/-- A cache with a lifetime for a response that stated none. -/
def defaultingCache : Cache :=
  { plainCache with defaultFreshness := some (fromSecs 60) }

/-- A response is served from the store although an octet past ASCII stands on the
line of its `no-store`; for a secured operation although its `public` stands
inside a quoted string; and after a write that no operation of the router
answered. -/
theorem not_served_as_written :
    ((∃ stored response,
        (intercept defaultingCache memory id
          (afterAll defaultingCache memory id [fetch false hiddenNoStore])
          (fetch false hiddenNoStore)).2 = .served stored response) ∧
      ∃ piece ∈ hiddenNoStore.octets.splitOn 44,
        Octets.trimAscii piece = Text.toOctets "no-store".toList) ∧
    ((∃ stored response,
        (intercept plainCache memory id (afterAll plainCache memory id [fetch true quotedPublic])
          (fetch true quotedPublic)).2 = .served stored response) ∧
      Forwarded.commas.rsplit quotedPublic.octets =
        [Text.toOctets " x=\"a, public, b\"".toList, Text.toOctets "max-age=60".toList]) ∧
    (∃ stored response,
        (intercept plainCache memory id
          (afterAll plainCache memory id [fetch false maxAge, unroutedPost])
          (fetch false maxAge)).2 = .served stored response) ∧
      isSafe unroutedPost.request.method = false ∧ unroutedPost.answer.status = 200 ∧
      ownAuthority unroutedPost.request.headers unroutedPost.request.authority =
        ownAuthority (fetch false maxAge).request.headers (fetch false maxAge).request.authority ∧
      unroutedPost.request.target = (fetch false maxAge).request.target := by
  exact ⟨⟨⟨_, _, rfl⟩, _, List.mem_cons_of_mem _ List.mem_cons_self, by decide⟩,
    ⟨⟨_, _, rfl⟩, by decide⟩, ⟨_, _, rfl⟩, by decide, rfl, rfl, rfl⟩

end Kynos.Cache
