import Kynos.Cache.Directives

/-!
# Whether what is written is honoured

A response is stored by what the cache reads, and its author meant what the
lines of `Cache-Control` parse to. The two agree unless a quoted string holds
`obs-text`, which hides its line, or holds a directive between commas.
-/

namespace Kynos.Cache.Control

open Kynos.Http Kynos.Numeral
open Kynos.Http.Date (SystemTime)

/-- The directives that forbid a shared cache to store a response. -/
def forbidding : List Text :=
  ["no-store".toList, "private".toList, "no-cache".toList]

/-- The refusals those directives give. -/
def refusals : List Unstorable :=
  [.responseNoStore, .isPrivate, .noCache]

/-- A line has a directive that forbids storing. -/
def Forbid (lines : List Line) : Prop :=
  ∃ name ∈ forbidding, ∃ line ∈ lines, line.Names name

/-- A line has a directive that shares what an authenticated request is answered
with. -/
def Share (lines : List Line) : Prop :=
  ∃ line ∈ lines, line.Names "public".toList ∨ line.Names "s-maxage".toList

/-- Whatever else is sent and asked, the lines of a response decide as they
parse: one that forbids storing is never stored, one that is stored for an
authenticated request shares it, and none is refused for a directive it does
not have. -/
structure Honours (lines : List Line) (values : List HeaderValue) : Prop where
  refused : ∀ method status request response secured defaultFreshness now stored,
    response.getAll Header.cacheControl = values → Forbid lines →
      storable method status request response secured defaultFreshness now ≠ .ok stored
  shares : ∀ method status request response secured defaultFreshness now stored,
    response.getAll Header.cacheControl = values → secured = true ∨ request.authorized = true →
      storable method status request response secured defaultFreshness now = .ok stored →
        Share lines
  named : ∀ method status request response secured defaultFreshness now,
    response.getAll Header.cacheControl = values → ∀ refusal ∈ refusals,
      storable method status request response secured defaultFreshness now = .error refusal →
        Forbid lines

/-- A directive that forbids storing is on a line without `obs-text`, or between
commas of a quoted string there. -/
def Refused (lines : List Line) : Prop :=
  ∃ name ∈ forbidding, ∃ line ∈ lines, line.Legible ∧ (line.Names name ∨ line.Holds (Reads name))

/-- Lines whose quoted strings neither hide a directive nor add one. -/
structure Plain (lines : List Line) : Prop where
  legible : Forbid lines → Refused lines
  forbids : ∀ name ∈ forbidding, ∀ line ∈ lines, line.Legible → line.Holds (Reads name) →
    Forbid lines
  shares : ¬ Forbid lines → ∀ line ∈ lines, line.Legible → line.Holds Shares → Share lines

/-! ## What is read -/

theorem ite_error_eq_error_iff {Refusal Value : Type} {refused : Prop} [Decidable refused]
    {refusal reason : Refusal} {next : Except Refusal Value} :
    (if refused then .error refusal else next) = .error reason ↔
      (refused ∧ refusal = reason) ∨ (¬ refused ∧ next = .error reason) := by
  split <;> simp [*]

theorem refused_iff {lines : List Line} {headers : HeaderMap}
    (written : Written lines (headers.getAll Header.cacheControl)) :
    Refused lines ↔ ∃ name ∈ forbidding, Says headers name := by
  have names : ∀ name ∈ forbidding, name ≠ [] ∧ '=' ∉ name := List.forall_iff_forall_mem.mp (by decide)
  refine exists_congr fun name => and_congr_right fun isForbidding => ?_
  rw [says_iff written (names name isForbidding).1 (names name isForbidding).2]

section Storable

variable {method : Http.Method} {status : Nat} {request : Requested} {response : HeaderMap}
  {secured : Bool} {defaultFreshness : Option Duration} {now : SystemTime}

/-- What is stored says no directive that forbids it. -/
theorem not_says_of_stored {stored : Duration × List Text}
    (isStored : storable method status request response secured defaultFreshness now = .ok stored) :
    ∀ name ∈ forbidding, ¬ Says response name := by
  obtain ⟨known, -, -⟩ := storable_of_ok isStored
  exact List.forall_mem_cons.mpr ⟨known.noStore, List.forall_mem_cons.mpr
    ⟨known.notPrivate, List.forall_mem_singleton.mpr known.noCache⟩⟩

theorem shared_of_stored {stored : Duration × List Text}
    (guarded : secured = true ∨ request.authorized = true)
    (isStored : storable method status request response secured defaultFreshness now = .ok stored) :
    shared (directives response) = true := by
  simp only [storable, ite_error_eq_ok_iff] at isStored
  obtain ⟨-, -, -, -, -, -, -, -, isShared, -⟩ := isStored
  by_contra unshared
  exact isShared (by simpa [unshared] using guarded)

/-- The refusals the rules give for anything but a directive. -/
def otherRefusals : List Unstorable :=
  [.method, .status, .requestNoStore, .varyWildcard, .setCookie, .authorized, .noFreshness]

/-- A refusal for a directive is for one that is said. -/
theorem says_of_refused {refusal : Unstorable} (isRefusal : refusal ∈ refusals)
    (isRefused : storable method status request response secured defaultFreshness now =
      .error refusal) : ∃ name ∈ forbidding, Says response name := by
  by_contra unsaid
  have silent : ∀ name ∈ forbidding, name ≠ [] → saying (directives response) name = false :=
    fun name isForbidding isName => Bool.eq_false_iff.mpr fun isSaid =>
      unsaid ⟨name, isForbidding, (saying_directives_iff isName).mp isSaid⟩
  have isOther : refusal ∈ otherRefusals := by
    simp only [storable, silent "no-store".toList (by decide) (by decide),
      silent "private".toList (by decide) (by decide),
      silent "no-cache".toList (by decide) (by decide), Bool.false_eq_true, if_false,
      ite_error_eq_error_iff] at isRefused
    rcases isRefused with ⟨-, rfl⟩ | ⟨-, ⟨-, rfl⟩ | ⟨-, ⟨-, rfl⟩ | ⟨-, ⟨-, rfl⟩ | ⟨-, ⟨-, rfl⟩ |
      ⟨-, ⟨-, rfl⟩ | ⟨-, stale⟩⟩⟩⟩⟩⟩
    · decide
    · decide
    · decide
    · decide
    · decide
    · decide
    · split at stale
      · contradiction
      · rw [← Except.error.inj stale]
        decide
  have apart : ∀ other ∈ otherRefusals, other ∉ refusals := by decide
  exact apart refusal isOther isRefusal

/-- A response that could be stored is refused for a directive it says. -/
theorem refused_of_forbidding {name : Text} (isForbidding : name ∈ forbidding)
    (isSaid : Says response name) :
    ∃ refusal ∈ refusals, storable Http.Method.get 200 ⟨false, false, false⟩ response secured
      defaultFreshness now = .error refusal := by
  have starts : storableMethod Http.Method.get = true ∧ cacheable.contains 200 = true := by decide
  simp only [storable, starts, Bool.not_true, Bool.false_eq_true, if_false]
  by_cases noStore : saying (directives response) "no-store".toList = true
  · exact ⟨.responseNoStore, by decide, if_pos noStore⟩
  · rw [if_neg noStore]
    by_cases isPrivate : saying (directives response) "private".toList = true
    · exact ⟨.isPrivate, by decide, if_pos isPrivate⟩
    · rw [if_neg isPrivate]
      by_cases noCache : saying (directives response) "no-cache".toList = true
      · exact ⟨.noCache, by decide, if_pos noCache⟩
      · rw [saying_directives_iff (by decide)] at noStore isPrivate noCache
        simp only [forbidding, List.mem_cons, List.not_mem_nil, or_false] at isForbidding
        rcases isForbidding with rfl | rfl | rfl <;> contradiction

/-! ## A response that says nothing else -/

/-- A response whose only field is `Cache-Control`. -/
def onlyControl (values : List HeaderValue) : HeaderMap :=
  ⟨values.map fun value => (Header.cacheControl, value)⟩

theorem getAll_onlyControl (values : List HeaderValue) (name : Text) :
    (onlyControl values).getAll name = if name = Header.cacheControl then values else [] := by
  split
  · rename_i isControl
    simp [onlyControl, HeaderMap.getAll, isControl, List.filter_map, Function.comp_def]
  · rename_i isOther
    simp [onlyControl, HeaderMap.getAll, List.filter_map, Function.comp_def, Ne.symm isOther]

/-- It is stored where no directive forbids it and it is shared where it must be. -/
theorem storable_onlyControl {values : List HeaderValue}
    (unsaid : ∀ name ∈ forbidding, ¬ Says (onlyControl values) name)
    (isShared : secured = true → shared (directives (onlyControl values)) = true) :
    ∃ stored, storable Http.Method.get 200 ⟨false, false, false⟩ (onlyControl values) secured (some 0) now =
      .ok stored := by
  have silent : ∀ name ∈ forbidding, name ≠ [] →
      saying (directives (onlyControl values)) name = false :=
    fun name isForbidding isName => Bool.eq_false_iff.mpr fun isSaid =>
      unsaid name isForbidding ((saying_directives_iff isName).mp isSaid)
  have noVary : vary (onlyControl values) = [] := by
    rw [vary, lineMembers, getAll_onlyControl, if_neg (by decide)]
    rfl
  have noCookie : (onlyControl values).containsKey Header.setCookie = false := by
    rw [HeaderMap.containsKey, HeaderMap.get, getAll_onlyControl, if_neg (by decide)]
    rfl
  have stated : (freshness (directives (onlyControl values)) (onlyControl values) (some 0) now).isSome := by
    simp [freshness]
  obtain ⟨lifetime, isStated⟩ := Option.isSome_iff_exists.mp stated
  refine ⟨(lifetime, []), ?_⟩
  simp only [storable, silent "no-store".toList (by decide) (by decide),
    silent "private".toList (by decide) (by decide),
    silent "no-cache".toList (by decide) (by decide), noVary, noCookie, isStated]
  cases secured with
  | false => rfl
  | true => simp only [isShared rfl]; rfl

end Storable

/-! ## The lines that are honoured -/

/-- Lines are honoured exactly where their quoted strings neither hide a
directive nor add one. -/
theorem honours_iff_plain {lines : List Line} {values : List HeaderValue}
    (written : Written lines values) : Honours lines values ↔ Plain lines := by
  have writtenOnly : Written lines ((onlyControl values).getAll Header.cacheControl) := by
    rwa [getAll_onlyControl, if_pos rfl]
  have isOnly : (onlyControl values).getAll Header.cacheControl = values := by
    rw [getAll_onlyControl, if_pos rfl]
  have idle : ∀ secured, ¬ Refused lines →
      (secured = true → shared (directives (onlyControl values)) = true) →
      ∃ stored, storable Http.Method.get 200 ⟨false, false, false⟩ (onlyControl values) secured
        (some 0) 0 = .ok stored := fun secured notRefused isShared =>
    storable_onlyControl (fun name isForbidding isSaid =>
      notRefused ((refused_iff writtenOnly).mpr ⟨name, isForbidding, isSaid⟩)) isShared
  constructor
  · intro honours
    have forbids : Refused lines → Forbid lines := by
      intro isRefused
      obtain ⟨name, isForbidding, isSaid⟩ := (refused_iff writtenOnly).mp isRefused
      obtain ⟨refusal, isRefusal, refuses⟩ :=
        @refused_of_forbidding (onlyControl values) false (some 0) 0 name isForbidding isSaid
      exact honours.named _ _ _ _ _ _ _ isOnly refusal isRefusal refuses
    refine ⟨fun forbid => ?_, fun name isForbidding line inLines legible holds =>
      forbids ⟨name, isForbidding, line, inLines, legible, .inr holds⟩, fun allowed line inLines legible holds => ?_⟩
    · by_contra notRefused
      obtain ⟨stored, isStored⟩ := idle false notRefused (fun isSecured => by cases isSecured)
      exact honours.refused _ _ _ _ _ _ _ stored isOnly forbid isStored
    · have isShared : shared (directives (onlyControl values)) = true :=
        shared_of_holds writtenOnly inLines legible holds
      obtain ⟨stored, isStored⟩ := idle true (fun isRefused => allowed (forbids isRefused)) fun _ => isShared
      exact honours.shares _ _ _ _ _ _ _ stored isOnly (.inl rfl) isStored
  · intro plain
    refine ⟨?_, ?_, ?_⟩
    · rintro method status request response secured defaultFreshness now stored rfl forbid isStored
      obtain ⟨name, isForbidding, isSaid⟩ := (refused_iff written).mp (plain.legible forbid)
      exact not_says_of_stored isStored name isForbidding isSaid
    · rintro method status request response secured defaultFreshness now stored rfl guarded isStored
      obtain ⟨line, inLines, legible, isPublic | isShared | holds⟩ :=
        exists_of_shared written (shared_of_stored guarded isStored)
      · exact ⟨line, inLines, .inl isPublic⟩
      · exact ⟨line, inLines, .inr isShared⟩
      · refine plain.shares (fun forbid => ?_) line inLines legible holds
        obtain ⟨name, isForbidding, isSaid⟩ := (refused_iff written).mp (plain.legible forbid)
        exact not_says_of_stored isStored name isForbidding isSaid
    · rintro method status request response secured defaultFreshness now rfl refusal isRefusal isRefused
      obtain ⟨name, isForbidding, line, inLines, legible, isNamed | holds⟩ :=
        (refused_iff written).mpr (says_of_refused isRefusal isRefused)
      · exact ⟨name, isForbidding, line, inLines, isNamed⟩
      · exact plain.forbids name isForbidding line inLines legible holds

/-- A directive with no argument and no whitespace around it. -/
def bare (name : Text) (isToken : Http.isToken name = true) : Element :=
  ⟨[], some ⟨name, .absent, isToken⟩, [], Text.isOws_of_mem_nil, Text.isOws_of_mem_nil⟩

/-- `public`. -/
def publicLine : Line :=
  ⟨[bare "public".toList (by decide)], by simp⟩

def publicValue : HeaderValue :=
  ⟨latin1 publicLine.text, by decide⟩

theorem honours_iff_plain_public : Honours [publicLine] [publicValue] ↔ Plain [publicLine] :=
  honours_iff_plain (.cons rfl .nil)

/-- `private, ext="é"`. -/
def privateLine : Line :=
  ⟨[bare "private".toList (by decide),
    ⟨[' '], some ⟨"ext".toList, .quoted [.plain 'é' (by decide)], by decide⟩, [], Text.isOws_of_mem_space, by simp⟩],
    by simp⟩

def privateValue : HeaderValue :=
  ⟨latin1 privateLine.text, by decide⟩

/-- A private response whose line holds `obs-text` is stored. -/
theorem private_stored :
    Written [privateLine] [privateValue] ∧ Forbid [privateLine] ∧
      storable Http.Method.get 200 ⟨false, false, false⟩ (onlyControl [privateValue]) false (some 60) 0 =
        .ok (60, []) ∧
      ¬ ∀ lines values, Written lines values → Honours lines values := by
  have written : Written [privateLine] [privateValue] := .cons rfl .nil
  have forbid : Forbid [privateLine] :=
    ⟨"private".toList, by decide, privateLine, List.mem_singleton_self _,
      bare "private".toList (by decide), List.mem_cons_self, _, rfl, by decide⟩
  have stored : storable Http.Method.get 200 ⟨false, false, false⟩ (onlyControl [privateValue]) false
      (some 60) 0 = .ok (60, []) := by decide
  refine ⟨written, forbid, stored, fun always => ?_⟩
  exact (always _ _ written).refused _ _ _ _ _ _ _ _ rfl forbid stored

end Kynos.Cache.Control
