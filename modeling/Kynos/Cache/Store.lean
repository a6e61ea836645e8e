import Kynos.Cache.Freshness
import Kynos.Router.Method
import Mathlib.Logic.Function.Basic

/-!
# What a cache stores, and where

A stored response, the request it was selected by, and the store it is kept in.
A store holds every variant of a resource; the cache picks among them.
-/

namespace Kynos.Cache

open Kynos.Http Kynos.Numeral
open Kynos.Http.Date (SystemTime)

/-- What identifies a resource, before content negotiation. -/
structure PrimaryKey where
  nameSpace : Text
  method : Router.Method
  authority : Option Text
  route : Text
  target : Text
  deriving DecidableEq, Repr

/-! ## Combined fields -/

/-- The octets of lines combined into one field value. -/
def combined (lines : List HeaderValue) : Octets :=
  [44, 32].intercalate (lines.map HeaderValue.octets)

/-- Whether two sets of one field's lines are the same field. -/
def sameLines (mine theirs : List HeaderValue) : Bool :=
  mine.isEmpty == theirs.isEmpty && combined mine == combined theirs

/-- The value of a field of a message, its lines combined; `none` where it is not
sent. -/
def combinedValue (headers : HeaderMap) (name : Text) : Option Octets :=
  match headers.getAll name with
  | [] => none
  | lines => some (combined lines)

theorem sameLines_getAll_iff {headers others : HeaderMap} {name : Text} :
    sameLines (headers.getAll name) (others.getAll name) = true ↔
      combinedValue headers name = combinedValue others name := by
  simp only [sameLines, combinedValue, Bool.and_eq_true, beq_iff_eq]
  cases headers.getAll name <;> cases others.getAll name <;> simp

/-! ## Stored responses -/

/-- A response held by a store: the names it varied on, the lines the request
sent for each of them, and how long it may be reused. -/
structure StoredResponse where
  status : Nat
  headers : HeaderMap
  body : Octets
  vary : List Text
  selecting : List (List HeaderValue)
  recordedAt : SystemTime
  freshness : Duration
  deriving DecidableEq

namespace StoredResponse

/-- `StoredResponse::recorded_at`. -/
def recordedOf (recordedAt : SystemTime) (status : Nat) (headers : HeaderMap) (body : Octets)
    (vary : List Text) (request : HeaderMap) (freshness : Duration) : StoredResponse where
  status := status
  headers := headers
  body := body
  vary := vary
  selecting := vary.map request.getAll
  recordedAt := recordedAt
  freshness := freshness

variable (stored : StoredResponse)

/-- Its age at an instant: zero where that precedes its recording. -/
def ageAt (now : SystemTime) : Duration :=
  durationSince now stored.recordedAt

/-- Whether it may still be reused at an instant. -/
def isFreshAt (now : SystemTime) : Bool :=
  decide (stored.ageAt now < stored.freshness)

/-- Whether this variant is the one a request selects. -/
def selectedBy (headers : HeaderMap) : Bool :=
  (stored.vary.zip stored.selecting).all fun (name, lines) =>
    sameLines lines (headers.getAll name)

/-- Whether another response is the same variant of a resource. -/
def sameVariant (other : StoredResponse) : Bool :=
  stored.vary == other.vary &&
    (stored.selecting.zip other.selecting).all fun (mine, theirs) => sameLines mine theirs

/-- A variant is selected by the requests that agree with the one it was stored
for on every field it varied on. -/
theorem selectedBy_recordedOf_iff {recordedAt : SystemTime} {status : Nat} {headers : HeaderMap}
    {body : Octets} {vary : List Text} {request other : HeaderMap} {freshness : Duration} :
    (recordedOf recordedAt status headers body vary request freshness).selectedBy other = true ↔
      ∀ name ∈ vary, combinedValue request name = combinedValue other name := by
  have paired : vary.zip (vary.map request.getAll) = vary.map fun name => (name, request.getAll name) := by
    have mapped : (vary.map id).zip (vary.map request.getAll) = _ := List.zip_map'
    simpa using mapped
  rw [selectedBy, recordedOf, paired, List.all_map, List.all_eq_true]
  simp only [Function.comp_apply, sameLines_getAll_iff]

end StoredResponse

/-! ## Stores -/

/-- A store that honours its contract: `get` returns every stored variant of a
key, `put` replaces the variant that is the same and adds to the others, and
`invalidate` drops every variant. -/
structure CacheStore (State : Type) where
  empty : State
  get : State → PrimaryKey → List StoredResponse
  put : State → PrimaryKey → StoredResponse → State
  invalidate : State → PrimaryKey → State
  get_empty : ∀ key, get empty key = []
  mem_get_put : ∀ state key response other stored, stored ∈ get (put state key response) other ↔
    (other = key ∧ stored = response) ∨
      (stored ∈ get state other ∧ ¬ (other = key ∧ stored.sameVariant response = true))
  mem_get_invalidate : ∀ state key other stored, stored ∈ get (invalidate state key) other ↔
    stored ∈ get state other ∧ other ≠ key

/-- A store in memory: the variants of every key, in the order they were put. -/
def memory : CacheStore (PrimaryKey → List StoredResponse) where
  empty := fun _ => []
  get := fun state key => state key
  put := fun state key response =>
    Function.update state key
      ((state key).filter (fun variant => !variant.sameVariant response) ++ [response])
  invalidate := fun state key => Function.update state key []
  get_empty := fun _ => rfl
  mem_get_put := by
    intro state key response other stored
    by_cases same : other = key
    · subst other
      simp [or_comm]
    · simp [same]
  mem_get_invalidate := by
    intro state key other stored
    by_cases same : other = key
    · subst other
      simp
    · simp [same]

end Kynos.Cache
