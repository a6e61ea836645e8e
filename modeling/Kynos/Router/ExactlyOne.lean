import Kynos.Router.Outcomes

/-!
# Exactly one thing happens

An operation is dispatched, a plain `OPTIONS` is answered, a method is refused by
its path or by the service, no path is found, or a preflight is answered: never
two of these, and the `Allow` of a refusal is what the others dispatch.
-/

namespace Kynos.Router

open Kynos.Http Kynos.Cors

variable {Mount : Type} {count : Nat} {Stream : Type}

/-- What can happen to a request. -/
inductive Kind where
  | dispatched
  | options
  | notAllowed
  | notImplemented
  | unmatched
  | preflight
  deriving DecidableEq, Repr

/-- The kind of an outcome, told by its status. -/
def Outcome.kind : Outcome count Stream → Kind
  | .dispatched _ _ => .dispatched
  | .answered response =>
      if response.status = 200 then .options
      else if response.status = 405 then .notAllowed
      else if response.status = 501 then .notImplemented
      else if response.status = 204 then .preflight
      else .unmatched

/-- A request carries the fields that make an `OPTIONS` a preflight. -/
def Request.Proposes (request : Request) : Prop :=
  (request.headers.get Header.origin).isSome ∧
    (request.headers.get Header.accessControlRequestMethod).isSome

/-- What an outcome is, to a request at a router. -/
def Happens (router : Router Mount count) (cors : Mount → Option CorsConfig) (request : Request)
    (outcome : Outcome count Stream) : Kind → Prop
  -- an operation of the matched path, of the method or the `GET` for an undeclared `HEAD`
  | .dispatched => ∃ index position operation, router.matcher request.path = some index ∧
      outcome = .dispatched index position ∧
      (router.table.paths index).operations[position]? = some operation ∧
      (operation.method.asWireStr = request.method ∨
        (request.method = Method.head.asWireStr ∧ operation.method = .get ∧
          ¬ (router.table.paths index).Declares .head))
  -- a plain `OPTIONS`, answered from the `Accept-Query` of the path
  | .options => ∃ index response acceptQuery, router.matcher request.path = some index ∧
      outcome = .answered response ∧ response.status = 200 ∧
      request.method = Method.options.asWireStr ∧
      ¬ (router.table.paths index).Declares .options ∧
      (router.table.paths index).acceptQuery = some acceptQuery ∧
      response.headers.get Header.acceptQuery = some acceptQuery
  | .notAllowed => ∃ index response, router.matcher request.path = some index ∧
      outcome = .answered response ∧ response.status = 405
  | .notImplemented => ∃ response, outcome = .answered response ∧ response.status = 501
  | .unmatched => ∃ response, router.matcher request.path = none ∧
      outcome = .answered response ∧ (response.status = 404 ∨ response.status = 308)
  -- a preflight, on a path under some `Cors` that declares no `OPTIONS`
  | .preflight => ∃ index response, router.matcher request.path = some index ∧
      outcome = .answered response ∧ response.status = 204 ∧
      request.method = Method.options.asWireStr ∧ request.Proposes ∧
      ¬ (router.table.paths index).Declares .options ∧
      ∃ operation ∈ (router.table.paths index).operations, (corsOf cors operation).isSome

section Kinds

variable {router : Router Mount count} {cors : Mount → Option CorsConfig} {request : Request}

theorem Happens.kind_eq {outcome : Outcome count Stream} {kind : Kind}
    (happens : Happens router cors request outcome kind) : outcome.kind = kind := by
  cases kind with
  | dispatched =>
      obtain ⟨index, position, operation, -, rfl, -⟩ := happens
      rfl
  | options =>
      obtain ⟨index, response, acceptQuery, -, rfl, status, -⟩ := happens
      rw [Outcome.kind, if_pos status]
  | notAllowed =>
      obtain ⟨index, response, -, rfl, status⟩ := happens
      simp [Outcome.kind, status]
  | notImplemented =>
      obtain ⟨response, rfl, status⟩ := happens
      simp [Outcome.kind, status]
  | unmatched =>
      obtain ⟨response, -, rfl, status | status⟩ := happens <;> simp [Outcome.kind, status]
  | preflight =>
      obtain ⟨index, response, -, rfl, status, -⟩ := happens
      simp [Outcome.kind, status]

theorem status_unmatched :
    (router.table.unmatched request : Response (Content Stream)).status = 404 ∨
      (router.table.unmatched request : Response (Content Stream)).status = 308 := by
  unfold Dispatch.unmatched
  split
  · exact .inr (status_redirect _ _)
  · exact .inl (status_fallback _ _)

end Kinds

section Table

variable (router : Router Mount count) (cors : Mount → Option CorsConfig) (request : Request)

/-- What the table does before preflights are installed. -/
inductive Serves (Stream : Type) : Prop
  | answers (index : Fin count) (matched : router.matcher request.path = some index)
      (answersTo : (router.table.paths index).AnswersTo request.method) (kind : Kind)
      (isServed : kind = .dispatched ∨ kind = .options)
      (happens : Happens router cors request
        (router.table.serve request : Outcome count Stream) kind)
  | refuses (index : Fin count) (matched : router.matcher request.path = some index)
      (silent : ¬ (router.table.paths index).AnswersTo request.method)
      (known : ∃ index, (router.table.paths index).AnswersTo request.method)
      (refused : (router.table.serve request : Outcome count Stream) =
        .answered (methodRefusal (some (router.table.paths index).allow) router.methodNotAllowed))
  | unknown (unknown : ¬ ∃ index, (router.table.paths index).AnswersTo request.method)
      (happens : Happens router cors request
        (router.table.serve request : Outcome count Stream) .notImplemented)
  | unmatched (known : ∃ index, (router.table.paths index).AnswersTo request.method)
      (happens : Happens router cors request
        (router.table.serve request : Outcome count Stream) .unmatched)

theorem serves : Serves router cors request Stream := by
  have served : (router.table.serve request : Outcome count Stream) = _ :=
    serve_table router request
  have routes := routes_route router request
  generalize router.table.route request = routed at routes served
  cases routes with
  | @operation index position method matched isMethod sits =>
      have answers : (router.table.paths index).AnswersTo request.method :=
        ⟨method, isMethod, PathEntry.answers_iff.mpr (.inl (Option.isSome_of_mem sits))⟩
      obtain ⟨operation, found, declared⟩ := PathEntry.exists_of_position sits
      have named := Method.fromWireStr_eq_some_iff.mp isMethod
      refine .answers index matched answers .dispatched (.inl rfl)
        ⟨index, position, operation, matched, served, found, ?_⟩
      rcases declared with rfl | ⟨rfl, isGet, undeclared⟩
      · exact .inl named
      · exact .inr ⟨named.symm, isGet, undeclared⟩
  | @options index matched isMethod answers =>
      obtain ⟨named, undeclared⟩ := PathEntry.answersOptions_iff.mp answers
      obtain ⟨acceptQuery, isNamed⟩ := Option.isSome_iff_exists.mp named
      refine .answers index matched ⟨.options, isMethod, .inr (.inr ⟨rfl, named⟩)⟩ .options (.inr rfl)
        ⟨index, optionsAnswer (router.table.paths index).allow acceptQuery, acceptQuery, matched, ?_,
          status_optionsAnswer _ _, (Method.fromWireStr_eq_some_iff.mp isMethod).symm, undeclared,
          isNamed, acceptQuery_optionsAnswer _ _⟩
      simp only [served, Dispatch.answer, isNamed]
  | @refused index matched silent known => exact .refuses index matched silent known served
  | unknown unknown =>
      refine .unknown unknown ⟨_, served, ?_⟩
      exact status_methodRefusal none _
  | unmatched unmatched known =>
      exact .unmatched known ⟨_, unmatched, served, status_unmatched⟩

theorem kind_refused (allow : HeaderValue) (policy : FallbackPolicy) :
    (.answered (methodRefusal (some allow) policy) : Outcome count Stream).kind = .notAllowed := by
  simp [Outcome.kind, status_methodRefusal]

theorem kind_table_ne_preflight :
    (router.table.serve request : Outcome count Stream).kind ≠ .preflight := by
  cases (serves router (fun _ => none) request : Serves router _ request Stream) with
  | answers index matched answersTo kind isServed happens =>
      rw [happens.kind_eq]
      rcases isServed with rfl | rfl <;> decide
  | refuses index matched silent known refused =>
      rw [refused, kind_refused]
      decide
  | unknown unknown happens =>
      rw [happens.kind_eq]
      decide
  | unmatched known happens =>
      rw [happens.kind_eq]
      decide

theorem exists_happens_table :
    ∃ kind, Happens router cors request (router.table.serve request : Outcome count Stream) kind := by
  cases (serves router cors request : Serves router cors request Stream) with
  | answers index matched answersTo kind isServed happens => exact ⟨kind, happens⟩
  | refuses index matched silent known refused =>
      exact ⟨.notAllowed, index, _, matched, refused, status_methodRefusal _ _⟩
  | unknown unknown happens => exact ⟨_, happens⟩
  | unmatched known happens => exact ⟨_, happens⟩

/-- A request is dispatched or answered when its path answers its method. -/
theorem happens_table_iff :
    (Happens router cors request (router.table.serve request : Outcome count Stream) .dispatched ∨
        Happens router cors request (router.table.serve request : Outcome count Stream) .options) ↔
      ∃ index, router.matcher request.path = some index ∧
        (router.table.paths index).AnswersTo request.method := by
  have served : Happens router cors request
        (router.table.serve request : Outcome count Stream) .dispatched ∨
      Happens router cors request (router.table.serve request : Outcome count Stream) .options →
      (router.table.serve request : Outcome count Stream).kind = .dispatched ∨
        (router.table.serve request : Outcome count Stream).kind = .options :=
    Or.imp Happens.kind_eq Happens.kind_eq
  cases (serves router cors request : Serves router cors request Stream) with
  | answers index matched answersTo kind isServed happens =>
      refine iff_of_true ?_ ⟨index, matched, answersTo⟩
      rcases isServed with rfl | rfl
      · exact .inl happens
      · exact .inr happens
  | refuses index matched silent known refused =>
      refine iff_of_false (mt served ?_) ?_
      · rw [refused, kind_refused]
        decide
      · rintro ⟨other, isOther, answersTo⟩
        obtain rfl := Option.some.inj (matched.symm.trans isOther)
        exact silent answersTo
  | unknown unknown happens =>
      refine iff_of_false (mt served ?_) fun ⟨index, _, answersTo⟩ => unknown ⟨index, answersTo⟩
      rw [happens.kind_eq]
      decide
  | unmatched known happens =>
      refine iff_of_false (mt served ?_) ?_
      · rw [happens.kind_eq]
        decide
      · rintro ⟨index, matched, -⟩
        obtain ⟨response, unmatched, -⟩ := happens
        rw [matched] at unmatched
        contradiction

/-- A 405 is its path's, for a method the path does not answer. -/
theorem exists_of_kind_notAllowed
    (isRefusal : (router.table.serve request : Outcome count Stream).kind = .notAllowed) :
    ∃ index, router.matcher request.path = some index ∧
      ¬ (router.table.paths index).AnswersTo request.method ∧
      (router.table.serve request : Outcome count Stream) =
        .answered (methodRefusal (some (router.table.paths index).allow) router.methodNotAllowed) := by
  cases (serves router (fun _ => none) request : Serves router _ request Stream) with
  | answers index matched answersTo kind isServed happens =>
      rw [happens.kind_eq] at isRefusal
      rcases isServed with rfl | rfl <;> contradiction
  | refuses index matched silent known refused => exact ⟨index, matched, silent, refused⟩
  | unknown unknown happens =>
      rw [happens.kind_eq] at isRefusal
      contradiction
  | unmatched known happens =>
      rw [happens.kind_eq] at isRefusal
      contradiction

/-- A 501 is the service's, for a method none of its paths answers. -/
theorem happens_notImplemented_iff :
    Happens router cors request (router.table.serve request : Outcome count Stream)
        .notImplemented ↔
      ∀ index, ¬ (router.table.paths index).AnswersTo request.method := by
  rw [← not_exists]
  cases (serves router cors request : Serves router cors request Stream) with
  | answers index matched answersTo kind isServed happens =>
      refine iff_of_false (fun other => ?_) (not_not_intro ⟨index, answersTo⟩)
      have same := happens.kind_eq.symm.trans other.kind_eq
      rcases isServed with rfl | rfl <;> contradiction
  | refuses index matched silent known refused =>
      refine iff_of_false (fun other => ?_) (not_not_intro known)
      have same := other.kind_eq
      rw [refused, kind_refused] at same
      contradiction
  | unknown unknown happens => exact iff_of_true happens unknown
  | unmatched known happens =>
      refine iff_of_false (fun other => ?_) (not_not_intro known)
      exact absurd (happens.kind_eq.symm.trans other.kind_eq) (by decide)

/-- The `Allow` of a declared path lists what the path answers. -/
theorem lists_allow_iff (index : Fin count) (name : Text) :
    Lists (router.table.paths index).allow name ↔ (router.table.paths index).AnswersTo name :=
  PathEntry.lists_deriveAllow

end Table

section Build

variable [DecidableEq Mount] {router : Router Mount count} {cors : Mount → Option CorsConfig}
  {request : Request}

/-- What a path with a preflight answers an `OPTIONS` that is none with. -/
theorem serve_table_of_preflightFor {preflight : Preflight}
    (isPreflight : preflightFor router cors request = some preflight) :
    (router.table.serve request : Outcome count Stream) = .answered preflight.notAPreflight := by
  obtain ⟨index, atIndex, atPath⟩ := Option.bind_eq_some_iff.mp isPreflight
  obtain ⟨isOptions, installed⟩ := Option.ite_none_right_eq_some.mp atPath
  have undeclared := not_declares_options installed
  rw [notAPreflight_of_installed installed (options_mem_implemented router)]
  have served : (router.table.serve request : Outcome count Stream) = _ :=
    serve_table router request
  have routes := routes_route router request
  have knows := implements_iff router request
  rw [isOptions, Dispatch.implements, Option.any_some, List.contains_iff_mem] at knows
  generalize router.table.route request = routed at routes served
  cases routes with
  | @operation other position method matched isMethod sits =>
      obtain rfl := Option.some.inj (matched.symm.trans atIndex)
      obtain rfl := Option.some.inj (isMethod.symm.trans isOptions)
      rw [PathEntry.position_options, PathEntry.declared_eq_none_iff.mpr undeclared] at sits
      contradiction
  | @options other matched isMethod answers =>
      obtain rfl := Option.some.inj (matched.symm.trans atIndex)
      obtain ⟨acceptQuery, isNamed⟩ :=
        Option.isSome_iff_exists.mp (PathEntry.answersOptions_iff.mp answers).1
      simp only [served, Dispatch.answer, isNamed]
  | @refused other matched silent known =>
      obtain rfl := Option.some.inj (matched.symm.trans atIndex)
      have unnamed : (router.table.paths other).acceptQuery = none := by
        by_contra named
        exact silent ⟨.options, isOptions, .inr (.inr ⟨rfl, Option.isSome_iff_ne_none.mpr named⟩)⟩
      simp only [served, Dispatch.answer, unnamed, if_pos (knows.mpr known), Option.map_some]
      rfl
  | unknown unknown =>
      have unnamed : (router.table.paths index).acceptQuery = none := by
        by_contra named
        exact unknown ⟨index, .options, isOptions,
          .inr (.inr ⟨rfl, Option.isSome_iff_ne_none.mpr named⟩)⟩
      simp only [served, Dispatch.answer, unnamed, if_neg (mt knows.mp unknown), Option.map_none]
      rfl
  | unmatched unmatched known =>
      rw [atIndex] at unmatched
      contradiction

/-- A request that is no preflight is served as without preflights. -/
theorem serve_build_of_not_proposes (plain : ¬ request.Proposes) :
    ((router.build cors).serve request : Outcome count Stream) = router.table.serve request := by
  rw [serve_build]
  cases isPreflight : preflightFor router cors request with
  | none => rfl
  | some preflight =>
      rw [serve_table_of_preflightFor isPreflight]
      change Outcome.answered (preflight.answer request.headers) = _
      rw [Preflight.answer]
      split
      · rename_i origin method hasOrigin hasMethod
        exact absurd ⟨Option.isSome_of_mem hasOrigin, Option.isSome_of_mem hasMethod⟩ plain
      · rfl

/-- A preflight is answered, and every other request is served as without them. -/
theorem serve_build_cases :
    Happens router cors request ((router.build cors).serve request : Outcome count Stream)
        .preflight ∨
      (router.build cors).serve request = (router.table.serve request : Outcome count Stream) := by
  by_cases proposes : request.Proposes
  · cases isPreflight : preflightFor router cors request with
    | none =>
        right
        rw [serve_build, isPreflight]
    | some preflight =>
        left
        obtain ⟨index, matched, atPath⟩ := Option.bind_eq_some_iff.mp isPreflight
        obtain ⟨isOptions, installed⟩ := Option.ite_none_right_eq_some.mp atPath
        obtain ⟨undeclared, covered⟩ := isSome_preflightOf.mp (Option.isSome_of_mem installed)
        obtain ⟨hasOrigin, hasMethod⟩ := proposes
        obtain ⟨origin, isOrigin⟩ := Option.isSome_iff_exists.mp hasOrigin
        obtain ⟨method, isMethod⟩ := Option.isSome_iff_exists.mp hasMethod
        refine ⟨index, preflight.answerTo origin method request.headers, matched, ?_,
          preflight.status_answerTo origin method _, (Method.fromWireStr_eq_some_iff.mp isOptions).symm,
          ⟨hasOrigin, hasMethod⟩, undeclared, covered⟩
        rw [serve_build, isPreflight]
        simp only [Preflight.answer, isOrigin, isMethod]
  · exact .inr (serve_build_of_not_proposes proposes)

end Build

/-! ## Every request -/

/-- Exactly one thing happens to a request. The `Allow` of a 405 never lists its
own method, and lists the method of any other request to the path, unless that
is answered as a preflight, exactly when that is dispatched or answered. A 501
is answered exactly when no path answers the method and the request is not
answered as a preflight. A request that lacks its origin or the method it
proposes is served as it was before preflights were installed. -/
theorem serve_exactly_one [DecidableEq Mount] (router : Router Mount count)
    (cors : Mount → Option CorsConfig) (request : Request) :
    let serve := fun request => ((router.build cors).serve request : Outcome count Stream)
    let happens := fun request => Happens router cors request (serve request)
    (∃! kind, happens request kind) ∧
      (∀ response, serve request = .answered response → response.status = 405 →
        ∃ allow, response.headers.get Header.allow = some allow ∧
          ¬ Lists allow request.method ∧
          ∀ other : Request, other.path = request.path → ¬ happens other .preflight →
            (Lists allow other.method ↔ happens other .dispatched ∨ happens other .options)) ∧
      (happens request .notImplemented ↔
        ¬ happens request .preflight ∧
          ∀ index, ¬ (router.table.paths index).AnswersTo request.method) ∧
      (request.headers.get Header.origin = none ∨
          request.headers.get Header.accessControlRequestMethod = none →
        serve request = router.table.serve request) := by
  intro serve happens
  have asTable : ∀ other, ¬ happens other .preflight → serve other = router.table.serve other :=
    fun other plain => serve_build_cases.resolve_left plain
  refine ⟨?_, ?_, ?_, ?_⟩
  · have isHappening : ∃ kind, happens request kind := by
      by_cases isPreflight : happens request .preflight
      · exact ⟨_, isPreflight⟩
      · simp only [happens, asTable request isPreflight]
        exact exists_happens_table router cors request
    obtain ⟨kind, isKind⟩ := isHappening
    exact ⟨kind, isKind, fun other isOther => isOther.kind_eq.symm.trans isKind.kind_eq⟩
  · intro response answered status
    have isRefusal : (serve request).kind = .notAllowed := by
      rw [answered, Outcome.kind, if_neg (by rw [status]; decide), if_pos status]
    have plain : ¬ happens request .preflight := fun isPreflight => by
      rw [isPreflight.kind_eq] at isRefusal
      contradiction
    rw [asTable request plain] at isRefusal answered
    obtain ⟨index, matched, silent, refused⟩ := exists_of_kind_notAllowed router request isRefusal
    obtain rfl := Outcome.answered.inj (answered.symm.trans refused)
    refine ⟨_, allow_methodRefusal _ _, mt (lists_allow_iff router index _).mp silent, ?_⟩
    intro other samePath otherPlain
    simp only [happens, asTable other otherPlain]
    rw [lists_allow_iff, happens_table_iff, samePath, matched]
    simp
  · by_cases isPreflight : happens request .preflight
    · refine iff_of_false (fun other => ?_) fun ⟨plain, _⟩ => plain isPreflight
      exact absurd (isPreflight.kind_eq.symm.trans other.kind_eq) (by decide)
    · rw [and_iff_right isPreflight]
      simp only [happens, asTable request isPreflight]
      exact happens_notImplemented_iff router cors request
  · intro lacks
    refine serve_build_of_not_proposes fun ⟨hasOrigin, hasMethod⟩ => ?_
    rcases lacks with lacks | lacks
    · rw [lacks] at hasOrigin
      contradiction
    · rw [lacks] at hasMethod
      contradiction

/-! ## Preflights are a sixth kind -/

/-- A path that declares a `GET` under a `Cors`, and one that declares a
`DELETE`. -/
def twoPaths : Router Unit 2 where
  matcher := fun path =>
    if path = "/a".toList then some 0 else if path = "/b".toList then some 1 else none
  declared := fun index =>
    if index = 0 then ⟨[(.get, [()])], none, by decide⟩ else ⟨[(.delete, [])], none, by decide⟩
  notFound := .empty
  methodNotAllowed := .empty
  trailingSlashes := .strict

/-- A `Cors` that permits any origin. -/
def anyOrigin : CorsConfig where
  origins := []
  predicates := []
  any := ⟨true, false⟩
  credentials := false
  methods := none
  headers := []
  maxAge := none

/-- An origin to send. -/
theorem isOrigin : (Text.toOctets "https://a".toList).all Http.isFieldOctet = true := by
  decide

/-- A request that carries what makes an `OPTIONS` a preflight, from an origin
and proposing a `GET`. -/
def proposing (method : Method) : Request where
  method := method.asWireStr
  path := "/a".toList
  query := none
  headers := (HeaderMap.empty.insert Header.origin ⟨Text.toOctets "https://a".toList, isOrigin⟩).insert
    Header.accessControlRequestMethod ⟨Text.toOctets "GET".toList, by decide⟩

/-- A preflight is none of the five other things; and although it reaches an
operation of its path, the `Allow` of a 405 there does not list `OPTIONS`. -/
theorem not_exactly_one_of_five :
    (¬ ∃ kind, kind ≠ .preflight ∧
        Happens twoPaths (fun _ => some anyOrigin) (proposing .options)
          ((twoPaths.build fun _ => some anyOrigin).serve (proposing .options) :
            Outcome 2 Empty) kind) ∧
      (twoPaths.build fun _ => some anyOrigin).route (proposing .options) = .ok (0, 1) ∧
      ∃ response allow,
        ((twoPaths.build fun _ => some anyOrigin).serve (proposing .delete) : Outcome 2 Empty) =
            .answered response ∧
          response.status = 405 ∧ response.headers.get Header.allow = some allow ∧
          ¬ Lists allow Method.options.asWireStr := by
  refine ⟨?_, rfl, methodRefusal (some (twoPaths.table.paths 0).allow) .empty,
    (twoPaths.table.paths 0).allow, rfl, rfl, allow_methodRefusal _ _, ?_⟩
  · rintro ⟨kind, other, happens⟩
    exact other happens.kind_eq.symm
  · rw [lists_allow_iff]
    rintro ⟨method, isMethod, answers⟩
    obtain rfl : Method.options = method :=
      Option.some.inj ((Method.fromWireStr_asWireStr _).symm.trans isMethod)
    exact absurd (PathEntry.answers_iff.mp answers) (by decide)

end Kynos.Router
