import Kynos.Router.Policies

/-!
# Where the policies agree

One request, served under each policy from the same templates. A strict, a
lenient and a redirecting router agree on it unless another spelling of a
template stands before the templates its path matches, its path ends in two
slashes, or the redirect it gets cannot be written.
-/

namespace Kynos.Router

open Kynos.Word Kynos.Http Kynos.Cors Kynos.OpenApi

variable {Mount Rank : Type} [DecidableEq Mount] [LinearOrder Rank] {count : Nat} {Stream : Type}

/-! ## Redirects -/

section Redirects

variable {router : Router Mount count} {cors : Mount → Option CorsConfig} {request : Request}

theorem status_notAPreflight (preflight : Preflight) :
    (preflight.notAPreflight : Response (Content Stream)).status ≠ 308 := by
  unfold Preflight.notAPreflight
  split
  · rw [status_optionsAnswer]
    decide
  · rw [status_methodRefusal]
    split <;> decide

/-- A request to a path of the service is not redirected. -/
theorem status_of_matched {index : Fin count} (matched : router.matcher request.path = some index)
    {response : Response (Content Stream)}
    (served : (router.build cors).serve request = .answered response) : response.status ≠ 308 := by
  rw [serve_build] at served
  split at served
  next preflight _ =>
      obtain rfl := Outcome.answered.inj served
      unfold Preflight.answer
      split
      · rw [Preflight.status_answerTo]
        decide
      · exact status_notAPreflight preflight
  next =>
      have serves : Serves router cors request Stream := serves router cors request
      cases serves with
      | answers _ _ _ kind isServed happens =>
          rw [served] at happens
          rcases isServed with rfl | rfl
          · obtain ⟨_, _, _, -, impossible, -⟩ := happens
            cases impossible
          · obtain ⟨_, _, _, -, isResponse, status, -⟩ := happens
            rw [Outcome.answered.inj isResponse, status]
            decide
      | refuses _ _ _ _ refused =>
          rw [Outcome.answered.inj (served.symm.trans refused), status_methodRefusal, Option.isSome_some,
            if_pos rfl]
          decide
      | unknown _ happens =>
          obtain ⟨_, isResponse, status⟩ := happens
          rw [Outcome.answered.inj (served.symm.trans isResponse), status]
          decide
      | unmatched _ happens =>
          obtain ⟨_, unmatched, -⟩ := happens
          rw [matched] at unmatched
          cases unmatched

/-- A request to no path of the service, of a method it implements. -/
theorem serve_of_unmatched (unmatched : router.matcher request.path = none)
    (known : router.table.implements (Method.fromWireStr request.method) = true) :
    ((router.build cors).serve request : Outcome count Stream) =
      .answered (router.table.unmatched request) := by
  have noPreflight : preflightFor router cors request = none := by
    rw [preflightFor, unmatched, Option.bind_none]
  have routed : router.table.route request = .error .path := by
    have sameMatcher : router.table.matcher = router.matcher := rfl
    rw [Dispatch.route, sameMatcher]
    simp only [unmatched, known, if_true]
  simp only [serve_build, noPreflight, serve_table, routed, Dispatch.answer]

theorem octets_of_fromStr {text : Text} {value : HeaderValue}
    (written : HeaderValue.fromStr text = some value) : value.octets = text.toOctets := by
  rw [HeaderValue.fromStr, HeaderValue.fromBytes, Option.dite_none_right_eq_some] at written
  obtain ⟨valid, isValue⟩ := written
  rw [← Option.some.inj isValue]

theorem location_redirect (path : Text) (query : Option Text) :
    (redirect path query : Response (Content Stream)).headers.get Header.location =
      HeaderValue.fromStr (withQuery path query) := by
  unfold redirect withQuery
  cases query <;>
    · simp only
      split
      next location written => rw [written, HeaderMap.get_insert, if_pos rfl]
      next unwritten =>
          rw [unwritten]
          rfl

end Redirects

/-! ## Agreement -/

variable (templates : Templates count) (ranking : Ranking Rank) (router : Router Mount count)
  (cors : Mount → Option CorsConfig) (request : Request)

/-- Whether some operation of the service answers the method of a request. -/
def Implemented : Prop :=
  router.table.implements (Method.fromWireStr request.method) = true

/-- The other spelling of a path, where it is one a strict table serves. -/
def flipped (path : Text) : Option Text :=
  (flipTrailingSlash path).filter fun target => (templates.reach ranking .strict target).isSome

/-- What the policies promise each other about a request. -/
structure Agrees (Stream : Type) : Prop where
  declared : ∀ reached, templates.reach ranking .strict request.path = some reached →
    templates.reach ranking .lenient request.path = some reached ∧
      templates.reach ranking .redirect request.path = some reached
  undeclared : templates.reach ranking .strict request.path = none →
    templates.reach ranking .lenient request.path =
      (flipTrailingSlash request.path).bind (templates.reach ranking .strict)
  redirected : templates.reach ranking .strict request.path = none → Implemented router request →
    ∃ response : Response (Content Stream),
      ((templates.serving ranking router .redirect).build cors).serve request = .answered response ∧
      match flipped templates ranking request.path with
      | some target => response.status = 308 ∧
          (response.headers.get Header.location).map HeaderValue.octets =
            some (withQuery target request.query).toOctets
      | none => response.status ≠ 308
  settled : ∀ target, flipped templates ranking request.path = some target →
    ∀ followed : Request, followed.path = target → ∀ response : Response (Content Stream),
      ((templates.serving ranking router .redirect).build cors).serve followed = .answered response →
        response.status ≠ 308

/-- No other spelling stands before the templates the path matches, the path is
not one in two slashes that would be served with one, and the redirect it gets
can be written. -/
structure Undisturbed : Prop where
  outranks : templates.Outranks ranking request.path
  regular : ¬ Regular request.path → flipped templates ranking request.path = none
  written : templates.reach ranking .strict request.path = none → Implemented router request →
    ∀ target, flipped templates ranking request.path = some target →
      (HeaderValue.fromStr (withQuery target request.query)).isSome

section Agreement

variable {templates ranking router cors request}

theorem reach_eq_none_iff {policy : TrailingSlashPolicy} {path : Text} :
    templates.reach ranking policy path = none ↔
      (templates.table policy).matched ranking path = none :=
  Option.map_eq_none_iff

theorem exists_of_flipped {path target : Text}
    (isFlipped : flipped templates ranking path = some target) :
    flipTrailingSlash path = some target ∧
      ∃ reached, templates.reach ranking .strict target = some reached := by
  rw [flipped, Option.filter_eq_some_iff] at isFlipped
  exact ⟨isFlipped.1, Option.isSome_iff_exists.mp isFlipped.2⟩

/-- What a redirecting router answers where no template matches. -/
theorem serve_redirect (unmatched : templates.reach ranking .strict request.path = none)
    (known : Implemented router request) :
    (((templates.serving ranking router .redirect).build cors).serve request : Outcome count Stream) =
      .answered (match flipped templates ranking request.path with
        | some target => redirect target request.query
        | none => fallback 404 router.notFound) := by
  have noMatch : (templates.serving ranking router .redirect).matcher request.path = none := by
    change (templates.reach ranking .strict request.path).map Prod.fst = none
    rw [unmatched, Option.map_none]
  rw [serve_of_unmatched noMatch known]
  have same : (templates.serving ranking router .redirect).table.flipped request.path =
      flipped templates ranking request.path := by
    rw [Dispatch.flipped, flipped]
    congr 1
    funext target
    exact Option.isSome_map
  rw [Dispatch.unmatched, same]
  rfl

theorem Agrees.outranks (agrees : Agrees templates ranking router cors request Stream) :
    templates.Outranks ranking request.path := by
  cases matched : templates.declared.matched ranking request.path with
  | none => exact Templates.outranks_of_unmatched matched
  | some reached =>
      obtain ⟨index, captured⟩ := reached
      have isStrict : templates.reach ranking .strict request.path = _ :=
        Option.map_eq_some_iff.mpr ⟨_, matched, rfl⟩
      obtain ⟨⟨other, others⟩, found, same⟩ :=
        Option.map_eq_some_iff.mp (agrees.declared _ isStrict).1
      obtain rfl := (Prod.mk.inj same).1
      have served := Templates.matched_lenient_of_matched_iff matched
      exact served.1.mp (served.2 others found)

theorem Agrees.regular (agrees : Agrees templates ranking router cors request Stream)
    (irregular : ¬ Regular request.path) : flipped templates ranking request.path = none := by
  obtain ⟨strict, lenient⟩ := Templates.matched_of_irregular templates ranking irregular
  have same := agrees.undeclared (reach_eq_none_iff.mpr strict)
  rw [reach_eq_none_iff.mpr lenient] at same
  refine Option.eq_none_iff_forall_ne_some.mpr fun target isFlipped => ?_
  obtain ⟨flips, reached, isReached⟩ := exists_of_flipped isFlipped
  rw [flips, Option.bind_some, isReached] at same
  cases same

theorem Agrees.written (agrees : Agrees templates ranking router cors request Stream)
    (unmatched : templates.reach ranking .strict request.path = none)
    (known : Implemented router request) {target : Text}
    (isFlipped : flipped templates ranking request.path = some target) :
    (HeaderValue.fromStr (withQuery target request.query)).isSome := by
  obtain ⟨response, served, promised⟩ := agrees.redirected unmatched known
  rw [serve_redirect unmatched known] at served
  simp only [isFlipped] at promised served
  rw [← Outcome.answered.inj served, location_redirect] at promised
  obtain ⟨location, isLocation, -⟩ := Option.map_eq_some_iff.mp promised.2
  rw [isLocation, Option.isSome_some]

omit [DecidableEq Mount] in
theorem Undisturbed.undeclared (undisturbed : Undisturbed templates ranking router request)
    (unmatched : templates.reach ranking .strict request.path = none) :
    templates.reach ranking .lenient request.path =
      (flipTrailingSlash request.path).bind (templates.reach ranking .strict) := by
  by_cases regular : Regular request.path
  · have served := Templates.matched_lenient_of_unmatched regular (reach_eq_none_iff.mp unmatched)
    rw [Templates.reach, Templates.table, served, Option.map_bind]
    rfl
  · obtain ⟨-, lenient⟩ := Templates.matched_of_irregular templates ranking regular
    rw [reach_eq_none_iff.mpr lenient]
    refine (Option.bind_eq_none_iff.mpr fun target flips => ?_).symm
    have notFlipped := undisturbed.regular regular
    rw [flipped, flips, Option.filter_some, ite_eq_right_iff] at notFlipped
    exact Option.not_isSome_iff_eq_none.mp fun reached => Option.some_ne_none _ (notFlipped reached)

theorem Undisturbed.redirected (undisturbed : Undisturbed templates ranking router request)
    (unmatched : templates.reach ranking .strict request.path = none)
    (known : Implemented router request) :
    ∃ response : Response (Content Stream),
      ((templates.serving ranking router .redirect).build cors).serve request = .answered response ∧
      match flipped templates ranking request.path with
      | some target => response.status = 308 ∧
          (response.headers.get Header.location).map HeaderValue.octets =
            some (withQuery target request.query).toOctets
      | none => response.status ≠ 308 := by
  refine ⟨_, serve_redirect unmatched known, ?_⟩
  cases isFlipped : flipped templates ranking request.path with
  | none =>
      simp only [status_fallback]
      decide
  | some target =>
      obtain ⟨location, isLocation⟩ :=
        Option.isSome_iff_exists.mp (undisturbed.written unmatched known target isFlipped)
      refine ⟨status_redirect _ _, ?_⟩
      rw [location_redirect, isLocation, Option.map_some, octets_of_fromStr isLocation]

end Agreement

/-- The policies agree on a request exactly where it is undisturbed. -/
theorem policies_agree_iff :
    Agrees templates ranking router cors request Stream ↔
      Undisturbed templates ranking router request := by
  constructor
  · intro agrees
    exact
      { outranks := agrees.outranks
        regular := agrees.regular
        written := fun unmatched known target isFlipped => agrees.written unmatched known isFlipped }
  · intro undisturbed
    refine ⟨?_, undisturbed.undeclared, undisturbed.redirected, ?_⟩
    · rintro ⟨index, captured⟩ reached
      refine ⟨?_, reached⟩
      obtain ⟨⟨_, values⟩, matched, same⟩ := Option.map_eq_some_iff.mp reached
      have served := (Templates.matched_lenient_of_matched_iff matched).1.mpr undisturbed.outranks
      exact Option.map_eq_some_iff.mpr ⟨_, served, same⟩
    · rintro target isFlipped followed rfl response served
      obtain ⟨-, ⟨index, captured⟩, isReached⟩ := exists_of_flipped isFlipped
      have matched : (templates.serving ranking router .redirect).matcher followed.path = some index :=
        Option.map_eq_some_iff.mpr ⟨_, isReached, rfl⟩
      exact status_of_matched matched served

/-! ## A spelling nobody declared -/

/-- `/a/{id}` and `/{x}/b/`. -/
def crossing : Fin 2 → OpenApi.PathTemplate :=
  Fin.cons ⟨"/a/\x7bid\x7d".toList, ["id".toList]⟩
    (Fin.cons ⟨"/\x7bx\x7d/b/".toList, ["x".toList]⟩ Fin.elim0)

/-- What the two templates are read as. -/
def crossed : MatchTable (Fin 2) where
  held := [([.static [], .static "a".toList, .parameter [] "id".toList []],
      ⟨0, Nat.two_pos⟩),
    ([.static [], .parameter [] "x".toList [], .static "b".toList, .static []],
      ⟨1, Nat.one_lt_two⟩)]
  distinct := by decide

theorem normalized_crossing : (crossing 0).normalized = some "/a/\x7b\x7d".toList ∧
    (crossing 1).normalized = some "/\x7b\x7d/b/".toList := by
  constructor <;>
    simp [crossing, PathTemplate.normalized, PathTemplate.normalizedFrom, splitOnce]

/-- A router takes the two templates together. -/
def crossingTemplates : Templates 2 where
  template := crossing
  accepted := by
    refine Fin.forall_fin_two.mpr ⟨?_, ?_⟩ <;>
      simp [Accepted, crossing, PathTemplate.parse, hasQueryOrFragment, hasQueryOrFragmentFrom,
        parseFrom, splitOnce, checkLiteral, checkSegments, checkSegmentsFrom, isPathCharacter,
        isAsciiAlphanumeric]
  routable := by
    refine Fin.forall_fin_two.mpr ⟨?_, ?_⟩
    · rw [unroutable, normalized_crossing.1]
      decide
    · rw [unroutable, normalized_crossing.2]
      decide
  declared := crossed
  inserted := rfl

/-- A router with a `GET` on each of two paths. -/
def crossingRouter : Router Unit 2 where
  matcher := fun _ => none
  declared := fun _ => ⟨[(.get, [])], none, by decide⟩
  notFound := .problem
  methodNotAllowed := .problem
  trailingSlashes := .strict

/-- The path `/a/b/` is declared, and yet a lenient router serves another entry. -/
theorem policies_disagree :
    ¬ ∀ request : Request,
      Agrees crossingTemplates alphabetical crossingRouter (fun _ => none) request Empty := by
  intro agree
  have outranks := (agree ⟨"GET".toList, "/a/b/".toList, none, HeaderMap.empty⟩).outranks
  obtain ⟨entry, member, matched, notBefore⟩ := outranks
    [.static [], .static "a".toList, .parameter [] "id".toList [], .static []] 0
    ⟨"/a/\x7bid\x7d/".toList, rfl, rfl⟩ rfl ⟨_, List.mem_cons_of_mem _ List.mem_cons_self, rfl⟩
  refine notBefore ?_
  rcases List.mem_cons.mp member with rfl | second
  · cases matched
  · obtain rfl := List.mem_singleton.mp second
    simp [Pattern.key, Segment.key, List.cons_lt_cons_iff]

end Kynos.Router
