import Kynos.Http.Date
import Kynos.Http.Forwarded
import Kynos.Numeral.Unsigned
import Mathlib.Algebra.Ring.Nat
import Mathlib.Data.Char
import Mathlib.Data.List.Lex
import Mathlib.Data.List.Sort

/-!
# What a shared cache may store, and for how long

The directives of `Cache-Control` and the names of `Vary`, as the cache reads
them, and the rules a response is stored by.
-/

namespace Kynos.Http.Header

def age : Text := "age".toList
def authorization : Text := "authorization".toList
def date : Text := "date".toList
def expires : Text := "expires".toList
def setCookie : Text := "set-cookie".toList

end Kynos.Http.Header

namespace Kynos.Cache

open Kynos.Http Kynos.Numeral
open Kynos.Http.Date (SystemTime)

/-- Statuses a response may be stored under. -/
def cacheable : List Nat :=
  [200, 203, 204, 300, 301, 308, 404, 405, 410, 414, 501]

/-- Fields a stored response must not keep. -/
def hopByHop : List Text :=
  ["connection".toList, "proxy-connection".toList, "keep-alive".toList, "te".toList,
    "trailer".toList, "transfer-encoding".toList, "upgrade".toList, "age".toList]

/-- Why a response was not stored. -/
inductive Unstorable where
  | method
  | status
  | requestNoStore
  | responseNoStore
  | isPrivate
  | noCache
  | varyWildcard
  | setCookie
  | authorized
  | noFreshness
  deriving DecidableEq, Repr

/-! ## Lists -/

/-- The members of every line of a field that is visible ASCII, lowercased. -/
def lineMembers (headers : HeaderMap) (name : Text) : List Text :=
  ((((headers.getAll name).filterMap HeaderValue.toStr).flatMap fun value => value.splitOn ',').map
    fun member => Text.toAsciiLowercase (Text.trim member)).filter (· ≠ [])

/-- Every `Cache-Control` directive, lowercased. -/
def directives (headers : HeaderMap) : List Text :=
  lineMembers headers Header.cacheControl

/-- A list without the repeats of the name before. -/
def dedup : List Text → List Text
  | [] => []
  | [name] => [name]
  | name :: next :: rest =>
      if name = next then dedup (next :: rest) else name :: dedup (next :: rest)

/-- The field names a response varied on, lowercased and sorted. -/
def vary (headers : HeaderMap) : List Text :=
  dedup ((lineMembers headers Header.vary).insertionSort (· ≤ ·))

/-- The argument a directive gives a name: empty where it has none, and `none`
where the directive is another one. -/
def argument (directive name : Text) : Option Text :=
  (Date.stripPrefix name directive).bind fun rest =>
    if rest = [] then some rest else Date.stripPrefix ['='] rest

/-! ## Requests -/

/-- What the rules read from a request's own fields. -/
structure Requested where
  noCache : Bool
  noStore : Bool
  authorized : Bool
  deriving DecidableEq, Repr

namespace Requested

/-- `Requested::of`. -/
def of (request : HeaderMap) : Requested where
  noCache := (directives request).contains "no-cache".toList
  noStore := (directives request).contains "no-store".toList
  authorized := request.containsKey Header.authorization

/-- Whether the request forbids answering it from the store. -/
def forbidsReuse (requested : Requested) : Bool :=
  requested.noCache

/-- Whether the request forbids storing its response. -/
def forbidsStoring (requested : Requested) : Bool :=
  requested.noStore

end Requested

/-- Whether a response to a method may be stored at all. -/
def storableMethod (method : Http.Method) : Bool :=
  method == Method.get || method == Method.head

/-! ## Lifetimes -/

/-- The lifetime a `delta-seconds` too large to represent is read as. -/
def saturated : Nat := 2 ^ 31

/-- A `delta-seconds` argument, as a token or a quoted string. -/
def deltaSeconds (argument : Text) : Option Nat :=
  let digits := Forwarded.unquoted argument
  if digits ≠ [] ∧ digits.all Text.isAsciiDigit = true then
    let seconds := Nat.ofDigitChars 10 digits 0
    some (if seconds ≤ u64Max then seconds else saturated)
  else
    none

/-- `Duration::from_secs`. -/
def fromSecs (seconds : Nat) : Duration :=
  seconds * 1000000000

/-- The lifetime stated by a directive; an unreadable or repeated one is stale. -/
def statedBy (control : List Text) (name : Text) : Option Duration :=
  match control.filterMap (argument · name) with
  | [] => none
  | [first] => some (fromSecs ((deltaSeconds first).getD 0))
  | _ => some 0

/-- `SystemTime::duration_since`, zero where the other instant is later. -/
def durationSince (later earlier : SystemTime) : Duration :=
  (later - earlier).toNat

/-- The lifetime stated by `Expires` minus `Date`; without a readable `Date`, the
instant it was received stands in. -/
def statedByExpires (response : HeaderMap) (now : SystemTime) : Option Duration :=
  let read := fun value : HeaderValue => value.toStr.bind Date.parse
  match response.getAll Header.expires with
  | [] => none
  | [first] =>
      match read first with
      | none => some 0
      | some expiry =>
          let originNow :=
            match response.getAll Header.date with
            | [value] => (read value).getD now
            | _ => now
          some (durationSince expiry originNow)
  | _ => some 0

/-- How long a response may be reused: `s-maxage`, then `max-age`, then
`Expires`, then the configured default. -/
def freshness (control : List Text) (response : HeaderMap) (default : Option Duration)
    (now : SystemTime) : Option Duration :=
  (((statedBy control "s-maxage".toList).or (statedBy control "max-age".toList)).or
    (statedByExpires response now)).or default

/-! ## The rules -/

/-- Whether the directives let a shared cache reuse the response for any
requester. -/
def shared (control : List Text) : Bool :=
  control.any fun value => value == "public".toList || "s-maxage=".toList.isPrefixOf value

/-- Whether a stored response may be served for an operation that declares a
security requirement. -/
def servableWhenSecured (stored : HeaderMap) : Bool :=
  shared (directives stored)

/-- Whether the directives name one, with an argument or without. -/
def saying (control : List Text) (name : Text) : Bool :=
  control.any fun value => (argument value name).isSome

/-- Whether a response may be stored, for how long, and the names it varied on. -/
def storable (method : Http.Method) (status : Nat) (request : Requested) (response : HeaderMap)
    (secured : Bool) (defaultFreshness : Option Duration) (now : SystemTime) :
    Except Unstorable (Duration × List Text) :=
  let control := directives response
  let varied := vary response
  if !storableMethod method then .error .method
  else if !cacheable.contains status then .error .status
  else if request.noStore then .error .requestNoStore
  else if saying control "no-store".toList then .error .responseNoStore
  else if saying control "private".toList then .error .isPrivate
  else if saying control "no-cache".toList then .error .noCache
  else if varied.contains ['*'] then .error .varyWildcard
  else if response.containsKey Header.setCookie then .error .setCookie
  else if (secured || request.authorized) && !shared control then .error .authorized
  else
    match freshness control response defaultFreshness now with
    | some lifetime => .ok (lifetime, varied)
    | none => .error .noFreshness

/-- A map without the fields a stored response must not keep. -/
def strip (headers : HeaderMap) : HeaderMap :=
  hopByHop.foldl HeaderMap.remove headers

/-! ## What fields list and say -/

/-- A field lists a member: it stands between commas on a line of the field that
is visible ASCII, in any case. -/
def Member (headers : HeaderMap) (field member : Text) : Prop :=
  ∃ line ∈ headers.getAll field, ∃ text, line.toStr = some text ∧
    ∃ piece ∈ text.splitOn ',', Text.toAsciiLowercase (Text.trim piece) = member

/-- The `Cache-Control` of a message says a directive, with an argument or
without. -/
def Says (headers : HeaderMap) (name : Text) : Prop :=
  ∃ member, Member headers Header.cacheControl member ∧
    (member = name ∨ ∃ argument, member = name ++ '=' :: argument)

theorem mem_lineMembers {headers : HeaderMap} {field member : Text} :
    member ∈ lineMembers headers field ↔ Member headers field member ∧ member ≠ [] := by
  simp only [lineMembers, List.mem_filter, List.mem_map, List.mem_flatMap, List.mem_filterMap,
    decide_eq_true_eq, Member]
  refine and_congr_left fun _ => ⟨?_, ?_⟩
  · rintro ⟨piece, ⟨text, ⟨line, isLine, read⟩, inside⟩, rfl⟩
    exact ⟨line, isLine, text, read, piece, inside, rfl⟩
  · rintro ⟨line, isLine, text, read, piece, inside, rfl⟩
    exact ⟨piece, ⟨text, ⟨line, isLine, read⟩, inside⟩, rfl⟩

theorem mem_dedup {names : List Text} {wanted : Text} : wanted ∈ dedup names ↔ wanted ∈ names := by
  induction names with
  | nil => rfl
  | cons name rest ih =>
      cases rest with
      | nil => rfl
      | cons next rest =>
          rw [dedup]
          split
          · rename_i same
            rw [ih, same]
            simp
          · simp only [List.mem_cons, ih]

/-- A response varies on the names its `Vary` lists. -/
theorem mem_vary {headers : HeaderMap} {name : Text} :
    name ∈ vary headers ↔ Member headers Header.vary name ∧ name ≠ [] := by
  rw [vary, mem_dedup, List.mem_insertionSort, mem_lineMembers]

theorem isSome_argument {directive name : Text} :
    (argument directive name).isSome ↔
      directive = name ∨ ∃ given, directive = name ++ '=' :: given := by
  rw [Option.isSome_iff_exists]
  simp only [argument, Option.bind_eq_some_iff, Date.stripPrefix_eq_some_iff]
  constructor
  · rintro ⟨given, rest, rfl, isGiven⟩
    split at isGiven
    · rename_i bare
      exact .inl (by rw [bare, List.append_nil])
    · exact .inr ⟨given, by rw [Date.stripPrefix_eq_some_iff.mp isGiven]; rfl⟩
  · rintro (rfl | ⟨given, rfl⟩)
    · exact ⟨[], [], by simp, if_pos rfl⟩
    · refine ⟨given, '=' :: given, rfl, ?_⟩
      rw [if_neg (List.cons_ne_nil _ _), Date.stripPrefix_eq_some_iff]
      rfl

theorem saying_directives_iff {headers : HeaderMap} {name : Text} (written : name ≠ []) :
    saying (directives headers) name = true ↔ Says headers name := by
  rw [saying, List.any_eq_true]
  refine exists_congr fun member => ?_
  rw [isSome_argument, directives, mem_lineMembers]
  refine and_congr_left fun isName => and_iff_left ?_
  rcases isName with rfl | ⟨argument, rfl⟩
  · exact written
  · simp

theorem shared_directives_iff {headers : HeaderMap} :
    shared (directives headers) = true ↔
      Member headers Header.cacheControl "public".toList ∨
        ∃ given, Member headers Header.cacheControl ("s-maxage=".toList ++ given) := by
  simp only [shared, List.any_eq_true, directives, mem_lineMembers, Bool.or_eq_true, beq_iff_eq,
    List.isPrefixOf_iff_prefix]
  constructor
  · rintro ⟨member, ⟨listed, -⟩, rfl | ⟨given, rfl⟩⟩
    · exact .inl listed
    · exact .inr ⟨given, listed⟩
  · rintro (listed | ⟨given, listed⟩)
    · exact ⟨_, ⟨listed, by decide⟩, .inl rfl⟩
    · exact ⟨_, ⟨listed, by simp⟩, .inr ⟨given, rfl⟩⟩

theorem noCache_of_iff {request : HeaderMap} :
    (Requested.of request).noCache = true ↔
      Member request Header.cacheControl "no-cache".toList := by
  rw [Requested.of, List.contains_iff_mem, directives, mem_lineMembers]
  exact and_iff_left (by decide)

/-! ## What is storable -/

/-- What is known of a response that may be stored. -/
structure Storable (method : Http.Method) (response : HeaderMap) (secured : Bool) : Prop where
  isStorable : storableMethod method = true
  noStore : ¬ Says response "no-store".toList
  notPrivate : ¬ Says response "private".toList
  noCache : ¬ Says response "no-cache".toList
  noCookie : response.containsKey Header.setCookie = false
  isShared : secured = true → shared (directives response) = true

/-- A rule that refuses is passed by what is stored. -/
theorem ite_error_eq_ok_iff {Refusal Value : Type} {refused : Prop} [Decidable refused]
    {refusal : Refusal} {next : Except Refusal Value} {value : Value} :
    (if refused then .error refusal else next) = .ok value ↔ ¬ refused ∧ next = .ok value := by
  split <;> simp [*]

theorem storable_of_ok {method : Http.Method} {status : Nat} {request : Requested}
    {response : HeaderMap} {secured : Bool} {defaultFreshness : Option Duration} {now : SystemTime}
    {lifetime : Duration} {varied : List Text}
    (stored : storable method status request response secured defaultFreshness now =
      .ok (lifetime, varied)) :
    Storable method response secured ∧ varied = vary response ∧
      freshness (directives response) response defaultFreshness now = some lifetime := by
  simp only [storable, ite_error_eq_ok_iff] at stored
  obtain ⟨isStorable, -, -, noStore, notPrivate, noCache, -, noCookie, isShared, stated⟩ := stored
  rw [saying_directives_iff (by decide)] at noStore notPrivate noCache
  refine ⟨⟨by simpa using isStorable, noStore, notPrivate, noCache, by simpa using noCookie,
    fun isSecured => ?_⟩, ?_⟩
  · by_contra unshared
    exact isShared (by simp [isSecured, unshared])
  · split at stated
    · rename_i isStated
      obtain ⟨rfl, rfl⟩ := Prod.ext_iff.mp (Except.ok.inj stated)
      exact ⟨rfl, isStated⟩
    · contradiction

/-! ## What is kept -/

theorem getAll_foldl_remove {names : List Text} {headers : HeaderMap} {name : Text}
    (other : name ∉ names) : (names.foldl HeaderMap.remove headers).getAll name = headers.getAll name := by
  induction names generalizing headers with
  | nil => rfl
  | cons removed rest ih =>
      obtain ⟨different, others⟩ := List.ne_and_not_mem_of_not_mem_cons other
      rw [List.foldl_cons, ih others, HeaderMap.getAll_remove_of_ne different]

/-- Every field a stored response may keep it keeps. -/
theorem getAll_strip {headers : HeaderMap} {name : Text} (other : name ∉ hopByHop) :
    (strip headers).getAll name = headers.getAll name :=
  getAll_foldl_remove other

theorem directives_strip (headers : HeaderMap) : directives (strip headers) = directives headers := by
  rw [directives, lineMembers, getAll_strip (by decide)]
  rfl

end Kynos.Cache
