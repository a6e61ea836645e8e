import Kynos.Http.Field
import Kynos.Run.Runs
import Mathlib

/-!
# Identifiers of requests

Numerals written from the end of a buffer, the counter that numbers requests by
them, and the interceptor that carries one identifier on a request and on its
response. Over every run the counter gives one identifier twice only where it has
come round in between.
-/

namespace Kynos.Http.Header

def xRequestId : Text := "x-request-id".toList

end Kynos.Http.Header

namespace Kynos.RequestId

open Kynos.Http Kynos.Run

/-! ## Numerals -/

/-- The digits of a radix up to sixteen: `0123456789abcdef`. -/
def digits : Octets :=
  [0x30, 0x31, 0x32, 0x33, 0x34, 0x35, 0x36, 0x37, 0x38, 0x39, 0x61, 0x62, 0x63, 0x64, 0x65, 0x66]

/-- The loop of `Digits::value`: `start` octets of the buffer are not written, of
which `blank` may stay so. It is `none` where it would write before the buffer. -/
def fill (radix blank : Nat) : (start number : Nat) → (written : Octets) → Option Octets
  | 0, number, written => if 0 < number then none else some written
  | start + 1, number, written =>
      if blank < start + 1 ∨ 0 < number then
        digits[number % radix]?.bind fun digit => fill radix blank start (number / radix) (digit :: written)
      else
        some written

/-- `Digits::value`, or `none` where it panics. -/
def value (size radix number width : Nat) : Option HeaderValue :=
  (fill radix (size - width) size number []).bind HeaderValue.fromBytes

/-- What a numeral reads as. -/
def reads (radix : Nat) (numeral : Octets) : Nat :=
  numeral.foldl (fun number digit => radix * number + digits.idxOf digit) 0

theorem idxOf_digits : ∀ index : Fin 16, digits[index.val]?.map digits.idxOf = some index.val := by
  decide

theorem valid_digits : digits.all isFieldOctet = true := by
  decide

theorem exists_digit {number : Nat} (small : number < 16) :
    ∃ digit, digits[number]? = some digit ∧ digits.idxOf digit = number :=
  Option.map_eq_some_iff.mp (idxOf_digits ⟨number, small⟩)

variable {radix : Nat}

/-- A number that fits the buffer is written as a numeral that reads as it. -/
theorem exists_fill (base : 0 < radix) (small : radix ≤ 16) (blank start number : Nat) (written : Octets)
    (fits : number < radix ^ start) :
    ∃ numeral, fill radix blank start number written = some (numeral ++ written) ∧
      reads radix numeral = number ∧ start - blank ≤ numeral.length ∧ numeral.length ≤ start ∧
      ∀ digit ∈ numeral, digit ∈ digits := by
  induction start generalizing number written with
  | zero =>
      obtain rfl : number = 0 := Nat.lt_one_iff.mp fits
      exact ⟨[], rfl, rfl, by simp, Nat.le_refl 0, by simp⟩
  | succ start ih =>
      by_cases goes : blank < start + 1 ∨ 0 < number
      · obtain ⟨digit, isDigit, place⟩ := exists_digit (Nat.lt_of_lt_of_le (Nat.mod_lt number base) small)
        have rest : number / radix < radix ^ start := by
          rw [Nat.pow_succ, Nat.mul_comm] at fits
          exact Nat.div_lt_of_lt_mul fits
        obtain ⟨numeral, fills, isNumber, least, most, each⟩ := ih (number / radix) (digit :: written) rest
        refine ⟨numeral ++ [digit], ?_, ?_, ?_, ?_, ?_⟩
        · rw [fill, if_pos goes, isDigit, Option.bind_some, fills, List.append_assoc, List.singleton_append]
        · rw [reads, List.foldl_append, ← reads, isNumber]
          calc
            radix * (number / radix) + digits.idxOf digit = radix * (number / radix) + number % radix := by
              rw [place]
            _ = number := Nat.div_add_mod number radix
        · rw [List.length_append, List.length_singleton]
          omega
        · rw [List.length_append, List.length_singleton]
          omega
        · intro other member
          rcases List.mem_append.mp member with inNumeral | isLast
          · exact each other inNumeral
          · rw [List.mem_singleton.mp isLast]
            exact List.mem_of_getElem? isDigit
      · obtain ⟨unwritten, isZero⟩ := not_or.mp goes
        obtain rfl : number = 0 := Nat.eq_zero_of_not_pos isZero
        refine ⟨[], ?_, rfl, ?_, Nat.zero_le _, by simp⟩
        · rw [fill, if_neg goes, List.nil_append]
        · rw [List.length_nil]
          omega

/-- A number that fits the buffer is a field value that reads as it. -/
theorem exists_value (base : 0 < radix) (small : radix ≤ 16) {size number width : Nat}
    (fits : number < radix ^ size) (wide : width ≤ size) :
    ∃ identifier, value size radix number width = some identifier ∧ reads radix identifier.octets = number ∧
      width ≤ identifier.octets.length ∧ identifier.octets.length ≤ size := by
  obtain ⟨numeral, fills, isNumber, least, most, each⟩ :=
    exists_fill base small (size - width) size number [] fits
  have valid : numeral.all isFieldOctet = true :=
    List.all_eq_true.mpr fun digit member => List.all_eq_true.mp valid_digits digit (each digit member)
  rw [List.append_nil] at fills
  refine ⟨⟨numeral, valid⟩, ?_, isNumber, ?_, most⟩
  · rw [value, fills, Option.bind_some, HeaderValue.fromBytes, dif_pos valid]
  · change width ≤ numeral.length
    omega

/-! ## The counter -/

/-- How many identifiers a `Counter` gives before it comes round. -/
def turn : Nat := 2 ^ 64

/-- The identifier `Counter::next_id` gives at a count. -/
def numbered (count : Nat) : Option HeaderValue :=
  value 20 10 count 1

/-- A count is given as a decimal numeral of at most twenty digits. -/
theorem exists_numbered {count : Nat} (below : count < turn) :
    ∃ identifier, numbered count = some identifier ∧ reads 10 identifier.octets = count ∧
      1 ≤ identifier.octets.length ∧ identifier.octets.length ≤ 20 := by
  apply exists_value
  · exact Nat.succ_pos 9
  · exact Nat.le_of_ble_eq_true rfl
  · exact Nat.lt_trans below (by decide)
  · exact Nat.le_of_ble_eq_true rfl

/-! ## The interceptor -/

variable {Body : Type}

/-- A request, and what the chain makes of the fields it is given. -/
structure Exchange (Body : Type) where
  request : HeaderMap
  chain : HeaderMap → Response Body

/-- The fields the chain was given, and the response that was sent. -/
structure Answered (Body : Type) where
  seen : HeaderMap
  response : Response Body

/-- `RequestId` over a `Counter`: its next count, and what it answered. -/
structure Numbering (Body : Type) where
  next : Nat
  answered : List (Answered Body)

/-- The identifier a request comes with, where the client is trusted. -/
def inbound (trustClient : Bool) (request : HeaderMap) : Option HeaderValue :=
  if trustClient then request.get Header.xRequestId else none

/-- A request and its response under an identifier. -/
def carried (exchange : Exchange Body) (identifier : HeaderValue) : Answered Body :=
  let seen := exchange.request.insert Header.xRequestId identifier
  let response := exchange.chain seen
  ⟨seen, { response with headers := response.headers.insert Header.xRequestId identifier }⟩

/-- `intercept`, or `none` where it panics. -/
def intercept (trustClient : Bool) (numbering : Numbering Body) (exchange : Exchange Body) :
    Option (Numbering Body) :=
  match inbound trustClient exchange.request with
  | some identifier => some { numbering with answered := numbering.answered ++ [carried exchange identifier] }
  | none =>
      (numbered numbering.next).map fun identifier =>
        ⟨(numbering.next + 1) % turn, numbering.answered ++ [carried exchange identifier]⟩

/-- A counter that has given no identifier. -/
def start : Numbering Body :=
  ⟨0, []⟩

/-! ## Runs -/

/-- The requests among these that the counter numbers. -/
def drawn (trustClient : Bool) (exchanges : List (Exchange Body)) : Nat :=
  exchanges.countP fun exchange => (inbound trustClient exchange.request).isNone

/-- The identifier a request is carried under, after others. -/
def identified (trustClient : Bool) (earlier : List (Exchange Body)) (request : HeaderMap) : Option HeaderValue :=
  (inbound trustClient request).or (numbered (drawn trustClient earlier % turn))

/-- Each exchange of a run was answered under its identifier. -/
structure Kept (trustClient : Bool) (exchanges : List (Exchange Body)) (numbering : Numbering Body) : Prop where
  next : numbering.next = drawn trustClient exchanges % turn
  length : numbering.answered.length = exchanges.length
  each : ∀ (index : Nat) (exchange : Exchange Body), exchanges[index]? = some exchange →
    ∃ identifier, identified trustClient (exchanges.take index) exchange.request = some identifier ∧
      numbering.answered[index]? = some (carried exchange identifier)

variable {trustClient : Bool} {exchanges : List (Exchange Body)} {exchange : Exchange Body}
  {numbering : Numbering Body}

theorem drawn_concat : drawn trustClient (exchanges ++ [exchange]) =
    drawn trustClient exchanges + if (inbound trustClient exchange.request).isNone then 1 else 0 := by
  rw [drawn, List.countP_append, List.countP_singleton, ← drawn]

/-- An exchange answered under its identifier is one more. -/
theorem Kept.concat (kept : Kept trustClient exchanges numbering) {identifier : HeaderValue} {next : Nat}
    (isIdentified : identified trustClient exchanges exchange.request = some identifier)
    (counts : next = drawn trustClient (exchanges ++ [exchange]) % turn) :
    Kept trustClient (exchanges ++ [exchange]) ⟨next, numbering.answered ++ [carried exchange identifier]⟩ where
  next := counts
  length := by rw [List.length_append, List.length_append, kept.length, List.length_singleton, List.length_singleton]
  each index other isOther := by
    rcases Nat.lt_or_ge index exchanges.length with before | after
    · rw [List.getElem?_append_left before] at isOther
      rw [List.take_append_of_le_length (Nat.le_of_lt before),
        List.getElem?_append_left (kept.length.symm ▸ before)]
      exact kept.each index other isOther
    · rw [List.getElem?_append_right after, List.getElem?_singleton] at isOther
      split at isOther
      next isLast =>
        cases isOther
        obtain rfl : index = exchanges.length := Nat.le_antisymm (Nat.sub_eq_zero_iff_le.mp isLast) after
        refine ⟨identifier, ?_, ?_⟩
        · rw [List.take_left]
          exact isIdentified
        · rw [← kept.length, List.getElem?_concat_length]
      next => cases isOther

/-- Every run goes on, and each of its exchanges is answered under its identifier. -/
theorem exists_kept (trustClient : Bool) (exchanges : List (Exchange Body)) :
    ∃ numbering, reached (intercept trustClient) start exchanges = some numbering ∧
      Kept trustClient exchanges numbering := by
  induction exchanges using List.reverseRecOn with
  | nil => exact ⟨start, rfl, rfl, rfl, by simp⟩
  | append_singleton exchanges exchange ih =>
      obtain ⟨numbering, run, kept⟩ := ih
      have steps : ∀ next, intercept trustClient numbering exchange = some next →
          reached (intercept trustClient) start (exchanges ++ [exchange]) = some next :=
        fun next stepped => reached_concat_eq_some_iff.mpr ⟨numbering, run, stepped⟩
      cases given : inbound trustClient exchange.request with
      | some identifier =>
          refine ⟨_, steps _ (by rw [intercept, given]), kept.concat ?_ ?_⟩
          · rw [identified, given, Option.some_or]
          · rw [kept.next, drawn_concat, given]
            rfl
      | none =>
          have below : numbering.next < turn := kept.next ▸ Nat.mod_lt _ (Nat.two_pow_pos 64)
          obtain ⟨identifier, isNumbered, -⟩ := exists_numbered below
          refine ⟨_, steps _ (by rw [intercept, given, isNumbered, Option.map_some]), kept.concat ?_ ?_⟩
          · rw [identified, given, Option.none_or, ← kept.next, isNumbered]
          · rw [kept.next, drawn_concat, given, Nat.mod_add_mod]
            rfl

theorem drawn_append (earlier later : List (Exchange Body)) :
    drawn trustClient (earlier ++ later) = drawn trustClient earlier + drawn trustClient later :=
  List.countP_append

theorem getAll_carried (exchange : Exchange Body) (identifier : HeaderValue) :
    (carried exchange identifier).seen.getAll Header.xRequestId = [identifier] ∧
      (carried exchange identifier).response.headers.getAll Header.xRequestId = [identifier] := by
  constructor
  · rw [carried, HeaderMap.getAll_insert, if_pos rfl]
  · rw [carried, HeaderMap.getAll_insert, if_pos rfl]

/-- Counts are given one identifier where the counter has come round in between. -/
theorem numbered_eq_iff {count other : Nat} : numbered (count % turn) = numbered (other % turn) ↔
    count % turn = other % turn := by
  constructor
  · intro same
    obtain ⟨identifier, isNumbered, isCount, -⟩ := exists_numbered (Nat.mod_lt count (Nat.two_pow_pos 64))
    obtain ⟨another, isOther, isOtherCount, -⟩ := exists_numbered (Nat.mod_lt other (Nat.two_pow_pos 64))
    rw [isNumbered, isOther, Option.some.injEq] at same
    rw [← isCount, ← isOtherCount, same]
  · intro same
    rw [same]

/-- Of two requests the counter numbers, the second is given the identifier of the first
where a whole number of turns lies between them. -/
theorem Kept.same_iff (kept : Kept trustClient exchanges numbering) {first second : Nat} (ordered : first < second)
    {one other : Exchange Body} (isOne : exchanges[first]? = some one) (isOther : exchanges[second]? = some other)
    (oneDrawn : inbound trustClient one.request = none) (otherDrawn : inbound trustClient other.request = none) :
    (∃ identifier, numbering.answered[first]? = some (carried one identifier) ∧
        numbering.answered[second]? = some (carried other identifier)) ↔
      turn ∣ drawn trustClient ((exchanges.take second).drop first) := by
  obtain ⟨identifier, isNumbered, answered⟩ := kept.each first one isOne
  obtain ⟨another, isOtherNumbered, otherAnswered⟩ := kept.each second other isOther
  rw [identified, oneDrawn, Option.none_or] at isNumbered
  rw [identified, otherDrawn, Option.none_or] at isOtherNumbered
  have between : drawn trustClient (exchanges.take second) =
      drawn trustClient (exchanges.take first) + drawn trustClient ((exchanges.take second).drop first) := by
    have whole := List.take_append_drop first (exchanges.take second)
    rw [List.take_take, Nat.min_eq_left (Nat.le_of_lt ordered)] at whole
    rw [← drawn_append, whole]
  have turns : drawn trustClient (exchanges.take first) % turn = drawn trustClient (exchanges.take second) % turn ↔
      turn ∣ drawn trustClient ((exchanges.take second).drop first) := by
    rw [between]
    constructor
    · intro same
      exact (Nat.modEq_iff_dvd' (Nat.le_add_right _ _)).mp same |>.trans (by rw [Nat.add_sub_cancel_left])
    · intro divides
      exact ((Nat.modEq_iff_dvd' (Nat.le_add_right _ _)).mpr (by rwa [Nat.add_sub_cancel_left]))
  rw [← turns, ← numbered_eq_iff, isNumbered, isOtherNumbered, Option.some.injEq]
  constructor
  · rintro ⟨shared, isShared, isSharedToo⟩
    rw [answered, Option.some.injEq] at isShared
    rw [otherAnswered, Option.some.injEq] at isSharedToo
    have left := (getAll_carried one identifier).1
    have right := (getAll_carried other another).1
    rw [isShared, (getAll_carried one shared).1] at left
    rw [isSharedToo, (getAll_carried other shared).1] at right
    rw [← List.singleton_inj.mp left, List.singleton_inj.mp right]
  · rintro rfl
    exact ⟨identifier, answered, otherAnswered⟩

/-- Every run of requests is answered, each under one identifier that the chain and the
client are both given: the one it came with, where the client is trusted, or one of the
counter's, which are given twice only where the counter has come round in between. -/
theorem answered_of_run (trustClient : Bool) (exchanges : List (Exchange Body)) :
    ∃ numbering, reached (intercept trustClient) start exchanges = some numbering ∧
      numbering.answered.length = exchanges.length ∧
      (∀ (index : Nat) (exchange : Exchange Body), exchanges[index]? = some exchange →
        ∃ identifier, numbering.answered[index]? = some (carried exchange identifier) ∧
          (carried exchange identifier).seen.getAll Header.xRequestId = [identifier] ∧
          (carried exchange identifier).response.headers.getAll Header.xRequestId = [identifier] ∧
          ∀ given, inbound trustClient exchange.request = some given → identifier = given) ∧
      ∀ (first second : Nat) (one other : Exchange Body), first < second →
        exchanges[first]? = some one → exchanges[second]? = some other →
        inbound trustClient one.request = none → inbound trustClient other.request = none →
        ((∃ identifier, numbering.answered[first]? = some (carried one identifier) ∧
            numbering.answered[second]? = some (carried other identifier)) ↔
          turn ∣ drawn trustClient ((exchanges.take second).drop first)) := by
  obtain ⟨numbering, run, kept⟩ := exists_kept trustClient exchanges
  refine ⟨numbering, run, kept.length, ?_, ?_⟩
  · intro index exchange isExchange
    obtain ⟨identifier, isIdentified, answered⟩ := kept.each index exchange isExchange
    obtain ⟨seen, sent⟩ := getAll_carried exchange identifier
    refine ⟨identifier, answered, seen, sent, ?_⟩
    intro given comes
    rw [identified, comes, Option.some_or, Option.some.injEq] at isIdentified
    exact isIdentified.symm
  · intro first second one other ordered isOne isOther oneDrawn otherDrawn
    exact kept.same_iff ordered isOne isOther oneDrawn otherDrawn

end Kynos.RequestId
