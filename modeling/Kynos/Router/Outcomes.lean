import Kynos.Router.Scopes

/-!
# What becomes of a request

Exactly one thing happens to a request at a built table. What the preflights add
is confined to the requests that are preflights: for every other request the
table serves what it served before they were installed.
-/

namespace Kynos.Router

open Kynos.Http Kynos.Cors

variable {Mount : Type} {count : Nat} {Stream : Type}

/-! ## Installed preflights -/

section Install

variable [DecidableEq Mount] {cors : Mount → Option CorsConfig} {policy : FallbackPolicy}
  {methods : List Method} {entry : PathEntry Mount}

/-- What a path answers an `OPTIONS` that is no preflight with is what the
dispatcher would have answered. -/
theorem notAPreflight_of_installed {preflight : Preflight}
    (installed : preflightOf cors policy methods entry = some preflight)
    (known : entry.acceptQuery.isSome → Method.options ∈ methods) :
    (preflight.notAPreflight : Response (Content Stream)) =
      match entry.acceptQuery with
      | some acceptQuery => optionsAnswer entry.allow acceptQuery
      | none => methodRefusal (if .options ∈ methods then some entry.allow else none) policy := by
  rw [preflightOf, Option.ite_none_left_eq_some] at installed
  obtain ⟨-, isNew⟩ := installed
  obtain rfl := Option.some.inj isNew
  simp only [Preflight.notAPreflight, Preflight.new, List.contains_iff_mem]
  cases named : entry.acceptQuery with
  | none => by_cases member : Method.options ∈ methods <;> simp [member]
  | some acceptQuery => simp [known (by rw [named]; rfl)]

theorem declared_installPreflight (method : Method) :
    (installPreflight cors policy methods entry).declared method =
      (entry.declared method).or
        (if (preflightOf cors policy methods entry).isSome ∧ method = .options then
          some entry.operations.length else none) := by
  unfold installPreflight PathEntry.declared
  cases preflightOf cors policy methods entry with
  | none => simp
  | some preflight =>
      rw [List.findIdx?_append]
      by_cases isOptions : Method.options = method
      · simp [isOptions]
      · simp [isOptions, Ne.symm isOptions]

theorem position_installPreflight (method : Method) :
    (installPreflight cors policy methods entry).position method =
      (entry.position method).or
        (if (preflightOf cors policy methods entry).isSome ∧ method = .options then
          some entry.operations.length else none) := by
  rw [PathEntry.position, PathEntry.position, declared_installPreflight, declared_installPreflight]
  by_cases isHead : method = .head
  · subst method
    simp
  · simp [isHead]

theorem answersOptions_installPreflight :
    (installPreflight cors policy methods entry).answersOptions =
      (entry.answersOptions && (preflightOf cors policy methods entry).isNone) := by
  have sameNames : (installPreflight cors policy methods entry).acceptQuery = entry.acceptQuery := by
    unfold installPreflight
    split <;> rfl
  rw [PathEntry.answersOptions, PathEntry.answersOptions, position_installPreflight, sameNames]
  cases preflightOf cors policy methods entry <;> simp

end Install

/-! ## Tables -/

section Table

variable (router : Router Mount count) (request : Request)

/-- The `Accept-Query` of a path that answers a plain `OPTIONS` makes the service
implement it. -/
theorem options_mem_implemented {index : Fin count}
    (named : (router.table.paths index).acceptQuery.isSome) :
    Method.options ∈ router.table.implemented :=
  mem_implemented.mpr ⟨_, List.mem_ofFn.mpr ⟨index, rfl⟩, .inr (.inr ⟨rfl, named⟩)⟩

theorem implements_iff :
    router.table.implements (Method.fromWireStr request.method) = true ↔
      ∃ index, (router.table.paths index).AnswersTo request.method := by
  rw [Dispatch.implements, Option.any_eq_true]
  simp only [List.contains_iff_mem]
  constructor
  · rintro ⟨method, isMethod, member⟩
    obtain ⟨entry, isEntry, answers⟩ := mem_implemented.mp member
    obtain ⟨index, rfl⟩ := List.mem_ofFn.mp isEntry
    exact ⟨index, method, isMethod, answers⟩
  · rintro ⟨index, method, isMethod, answers⟩
    exact ⟨method, isMethod, mem_implemented.mpr ⟨_, List.mem_ofFn.mpr ⟨index, rfl⟩, answers⟩⟩

/-- Every operation of a declared path ends in its endpoint. -/
theorem terminal_of_declared {index : Fin count} {operation : Served Mount}
    (member : operation ∈ (router.table.paths index).operations) :
    operation.terminal = .endpoint := by
  obtain ⟨declared, -, rfl⟩ := List.mem_map.mp member
  rfl

/-- The ways a request can go: to an operation of its path, to the plain
`OPTIONS` its path answers, to a refusal of its method by its path, to a refusal
of its method by the service, or nowhere. -/
inductive Routes : Except (Unanswered count) (Fin count × Nat) → Prop
  | operation {index : Fin count} {position : Nat} {method : Method}
      (matched : router.matcher request.path = some index)
      (isMethod : Method.fromWireStr request.method = some method)
      (sits : (router.table.paths index).position method = some position) :
      Routes (.ok (index, position))
  | options {index : Fin count} (matched : router.matcher request.path = some index)
      (isMethod : Method.fromWireStr request.method = some .options)
      (answers : (router.table.paths index).answersOptions = true) :
      Routes (.error (.options index))
  | refused {index : Fin count} (matched : router.matcher request.path = some index)
      (silent : ¬ (router.table.paths index).AnswersTo request.method)
      (known : ∃ index, (router.table.paths index).AnswersTo request.method) :
      Routes (.error (.method (some index)))
  | unknown (unknown : ¬ ∃ index, (router.table.paths index).AnswersTo request.method) :
      Routes (.error (.method none))
  | unmatched (unmatched : router.matcher request.path = none)
      (known : ∃ index, (router.table.paths index).AnswersTo request.method) :
      Routes (.error .path)

theorem routes_route : Routes router request (router.table.route request) := by
  have sameMatcher : router.table.matcher = router.matcher := rfl
  have knows := implements_iff router request
  unfold Dispatch.route
  rw [sameMatcher]
  cases matched : router.matcher request.path with
  | none =>
      simp only
      split
      · exact .unmatched matched (knows.mp ‹_›)
      · exact .unknown (mt knows.mpr ‹_›)
  | some index =>
      simp only
      cases sits : (Method.fromWireStr request.method).bind (router.table.paths index).position with
      | some position =>
          obtain ⟨method, isMethod, sits⟩ := Option.bind_eq_some_iff.mp sits
          exact .operation matched isMethod sits
      | none =>
          simp only [Bool.and_eq_true, decide_eq_true_eq]
          by_cases plain : Method.fromWireStr request.method = some .options ∧
              (router.table.paths index).answersOptions = true
          · rw [if_pos plain]
            exact .options matched plain.1 plain.2
          · rw [if_neg plain]
            have silent : ¬ (router.table.paths index).AnswersTo request.method := by
              rintro ⟨method, isMethod, answers⟩
              rw [isMethod, Option.bind_some] at sits
              rw [PathEntry.answers_iff, sits] at answers
              obtain ⟨rfl, answersOptions⟩ := answers.resolve_left (by simp)
              exact plain ⟨isMethod, answersOptions⟩
            split
            · exact .refused matched silent (knows.mp ‹_›)
            · exact .unknown (mt knows.mpr ‹_›)

theorem lt_of_route {index : Fin count} {position : Nat}
    (routed : router.table.route request = .ok (index, position)) :
    position < (router.table.paths index).operations.length := by
  have routes := routes_route router request
  rw [routed] at routes
  cases routes with
  | operation _ _ sits =>
      obtain ⟨operation, found, -⟩ := PathEntry.exists_of_position sits
      exact (List.getElem?_eq_some_iff.mp found).1

theorem serve_table :
    (router.table.serve request : Outcome count Stream) =
      match router.table.route request with
      | .error unanswered => .answered (router.table.answer unanswered request)
      | .ok (index, position) => .dispatched index position := by
  cases routed : router.table.route request with
  | error unanswered => simp only [Dispatch.serve, routed]
  | ok located =>
      obtain ⟨index, position⟩ := located
      simp only [Dispatch.serve, routed]
      cases sits : (router.table.paths index).operations[position]? with
      | none => rfl
      | some operation =>
          rw [Option.map_some, terminal_of_declared router (List.mem_of_getElem? sits)]

end Table

section Build

variable [DecidableEq Mount] (router : Router Mount count) (cors : Mount → Option CorsConfig)
  (request : Request)

/-- The preflight answer the built table holds for a request: an `OPTIONS` to a
path that got one. -/
def preflightFor : Option Preflight :=
  (router.matcher request.path).bind fun index =>
    if Method.fromWireStr request.method = some .options then
      preflightOf cors router.methodNotAllowed router.table.implemented (router.table.paths index)
    else
      none

theorem paths_build (index : Fin count) :
    (router.build cors).paths index =
      installPreflight cors router.methodNotAllowed router.table.implemented
        (router.table.paths index) :=
  rfl

/-- A fallback does not depend on the preflights. -/
theorem answer_build (unanswered : Unanswered count) :
    ((router.build cors).answer unanswered request : Response (Content Stream)) =
      router.table.answer unanswered request := by
  have same : ∀ index, ((router.build cors).paths index).allow = (router.table.paths index).allow ∧
      ((router.build cors).paths index).acceptQuery = (router.table.paths index).acceptQuery := by
    intro index
    rw [paths_build]
    unfold installPreflight
    split <;> exact ⟨rfl, rfl⟩
  cases unanswered with
  | path => rfl
  | method path =>
      simp only [Dispatch.answer, (same _).1]
      rfl
  | options path =>
      simp only [Dispatch.answer, (same path).1, (same path).2]
      rfl

/-- What the dispatcher did before is done still, unless a preflight answers. -/
theorem route_build :
    (router.build cors).route request =
      match preflightFor router cors request, router.matcher request.path with
      | some _, some index => .ok (index, (router.table.paths index).operations.length)
      | _, _ => router.table.route request := by
  have sameMatcher : (router.build cors).matcher = router.matcher := rfl
  have sameTable : router.table.matcher = router.matcher := rfl
  have sameMethods : (router.build cors).implements = router.table.implements := rfl
  unfold Dispatch.route preflightFor
  rw [sameMatcher, sameTable, sameMethods]
  cases matched : router.matcher request.path with
  | none => rfl
  | some index =>
      simp only [Option.bind_some, paths_build]
      cases isMethod : Method.fromWireStr request.method with
      | none => rfl
      | some method =>
          simp only [Option.bind_some, position_installPreflight, answersOptions_installPreflight]
          by_cases isOptions : method = .options
          · subst method
            cases installed : preflightOf cors router.methodNotAllowed router.table.implemented
                (router.table.paths index) with
            | none => simp
            | some preflight =>
                have undeclared : (router.table.paths index).position .options = none := by
                  rw [PathEntry.position_options, PathEntry.declared_eq_none_iff]
                  exact not_declares_options installed
                simp [undeclared]
          · simp [isOptions]

/-- The position a table is entered at is one of a declared operation. -/
theorem getElem?_build {index : Fin count} {position : Nat}
    (inside : position < (router.table.paths index).operations.length) :
    ((router.build cors).paths index).operations[position]? =
      (router.table.paths index).operations[position]? := by
  rw [paths_build]
  unfold installPreflight
  split
  · rfl
  · exact List.getElem?_append_left inside

/-- Installing preflights changes nothing but what a preflight's path answers an
`OPTIONS` with. -/
theorem serve_build :
    ((router.build cors).serve request : Outcome count Stream) =
      match preflightFor router cors request with
      | some preflight => .answered (preflight.answer request.headers)
      | none => router.table.serve request := by
  have routed := route_build router cors request
  cases isPreflight : preflightFor router cors request with
  | none =>
      rw [isPreflight] at routed
      simp only [Dispatch.serve, routed]
      cases reached : router.table.route request with
      | error unanswered => simp only [answer_build]
      | ok located =>
          obtain ⟨index, position⟩ := located
          have inside := lt_of_route router request reached
          simp only [getElem?_build router cors inside, List.getElem?_eq_getElem inside,
            Option.map_some, terminal_of_declared router (List.getElem_mem inside)]
  | some preflight =>
      obtain ⟨index, matched, atPath⟩ := Option.bind_eq_some_iff.mp isPreflight
      rw [Option.ite_none_right_eq_some] at atPath
      have last : ((router.build cors).paths index).operations[
          (router.table.paths index).operations.length]? = some ⟨.options, [], .preflight preflight⟩ := by
        rw [paths_build, installPreflight, atPath.2]
        exact List.getElem?_concat_length
      rw [isPreflight, matched] at routed
      simp only [Dispatch.serve, routed, last, Option.map_some]

end Build

end Kynos.Router
