import Kynos.Compression.Lossless
import Kynos.Compression.Settle

/-!
# Compression does not lie about the representation

The encoders are assumed correct: what one produces decodes to what it was given.
What compression sends is then what the chain produced, or the same status with
one coding the request accepts and a body that decodes to the octets of the
chain's, or the refusal.
-/

namespace Kynos.Compression

open Kynos.Http Kynos.Range Kynos.Body Kynos.Run

variable {Error : Type} {writeZero : Error} {encode : Coding → Octets → Option Octets}
  {decode : Coding → Octets → Option Octets} {behaves : Coding → List (Call Error) → Prop}

/-! ## What a reader of the body finds -/

/-- The answer of the inner body a call was told, where it was ready. -/
def Call.found : Call Error → Option (Answer Error)
  | .inner (.ready found) => some (.ready found)
  | _ => none

/-- What reading a sent body to its end may find: its octets, or an error. A body
that is encoded as it arrives reads the inner body from its first answer on, and
its encoder does what encoders of its coding do. -/
inductive Reads (writeZero : Error) (behaves : Coding → List (Call Error) → Prop) :
    Sent Error → Except Error Octets → Prop where
  | produced (body : Produced Error) : Reads writeZero behaves (.produced body) body.collect
  | fromBytes (octets : Octets) : Reads writeZero behaves (.fromBytes octets) (.ok octets)
  | failedAfter (arrived : Octets) (error : Error) :
      Reads writeZero behaves (.failedAfter arrived error) (.error error)
  | streamed {body : Produced Error} {coding : Coding} {latency : LatencyMode}
      {calls : List (Call Error)} {trace : Trace Error} (behaved : behaves coding calls)
      (follows : calls.filterMap Call.found <+: body.answers)
      (run : Trace.run writeZero latency calls = some trace) (ended : .ready none ∈ trace.answers)
      (sound : ∀ answer ∈ trace.answers, answer.error = none) :
      Reads writeZero behaves (.streamed body coding latency) (.ok (dataOf trace.answers))
  | streamedFailed {body : Produced Error} {coding : Coding} {latency : LatencyMode}
      {calls : List (Call Error)} {trace : Trace Error} {error : Error}
      (behaved : behaves coding calls) (follows : calls.filterMap Call.found <+: body.answers)
      (run : Trace.run writeZero latency calls = some trace)
      (failed : .ready (some (.error error)) ∈ trace.answers) :
      Reads writeZero behaves (.streamed body coding latency) (.error error)

/-- What an encoder produces decodes to what it was given. -/
structure Correct (writeZero : Error) (encode : Coding → Octets → Option Octets)
    (decode : Coding → Octets → Option Octets) (behaves : Coding → List (Call Error) → Prop) :
    Prop where
  whole : ∀ coding octets encoded, encode coding octets = some encoded →
    decode coding encoded = some octets
  streamed : ∀ coding calls latency trace, behaves coding calls →
    Trace.run writeZero latency calls = some trace →
    (∃ emitted, .shutdown (.ready (.ok ())) emitted ∈ calls) →
      decode coding (emittedOf calls) = some trace.handed

/-! ## Encoding as frames arrive -/

section Streamed

variable {body : Produced Error} {coding : Coding} {latency : LatencyMode} {octets : Octets}

theorem Trace.Phase.ends_of_answered {calls : List (Call Error)} {trace : Trace Error}
    (phase : trace.Phase writeZero calls) (ended : .ready none ∈ trace.answers)
    (sound : ∀ answer ∈ trace.answers, answer.error = none) :
    trace.body.state = .done ∧ .inner (.ready none) ∈ calls := by
  cases phase with
  | feeding state opened | flushing state opened | finishing state opened | held state opened =>
      cases opened.running _ ended
  | done state _ _ _ ended => exact ⟨state, ended⟩
  | failed state inner yielded =>
      obtain ⟨running, call, called, error, count, all, failure, only, answers⟩ := yielded
      rw [answers] at sound
      cases sound _ (List.mem_append_right _ List.mem_cons_self)

theorem readOf_eq_dataOf (calls : List (Call Error)) :
    readOf calls = dataOf (calls.filterMap Call.found) := by
  induction calls with
  | nil => rfl
  | cons call calls ih =>
      rw [readOf, List.flatMap_cons, ← readOf, ih]
      cases call with
      | inner answer => cases answer <;> rfl
      | write | flush | shutdown | idle => rfl

/-- A reader that found the end of a body followed it to its end. -/
theorem follows_of_ended {found : List (Answer Error)} (follows : found <+: body.answers)
    (ended : .ready none ∈ found) : body.failure = none ∧ found = body.answers := by
  obtain ⟨rest, split⟩ := follows
  obtain ⟨before, after, rfl⟩ := List.append_of_mem ended
  rw [List.append_assoc, List.cons_append] at split
  obtain ⟨-, last, none⟩ := Trace.eq_of_split split.symm (by simp) (by simp)
  refine ⟨?_, ?_⟩
  · cases failure : body.failure with
    | none => rfl
    | some error =>
        rw [failure] at last
        cases last
  · rw [← split, none, (List.append_eq_nil_iff.mp none).1]

/-- A body encoded as it arrives, read to its end, decodes to the octets of the
inner body, which did not fail. -/
theorem decode_streamed (correct : Correct writeZero encode decode behaves)
    (reads : Reads writeZero behaves (.streamed body coding latency) (.ok octets)) :
    ∃ original, body.collect = .ok original ∧ decode coding octets = some original := by
  cases reads with
  | streamed behaved follows run ended sound =>
      have lossless := Trace.Shape.ended (Trace.shape_of_run run) ended sound
      obtain ⟨done, innerEnded⟩ := (Trace.phase_of_run run).ends_of_answered ended sound
      have decoded := correct.streamed _ _ _ _ behaved run (Trace.shutdown_of_done run done)
      obtain ⟨noFailure, whole⟩ := follows_of_ended follows
        (List.mem_filterMap.mpr ⟨_, innerEnded, rfl⟩)
      refine ⟨dataOf body.answers, by rw [Produced.collect, noFailure], ?_⟩
      rw [lossless.1, decoded, lossless.2.1, readOf_eq_dataOf, whole]

end Streamed

/-! ## Fields -/

section Fields

variable {headers : HeaderMap} {name : Text}

/-- Compression touches no field but its own and `Vary`. -/
theorem getAll_write_of_ne (set : ContentEncoding) (notEncoding : name ≠ Header.contentEncoding)
    (notLength : name ≠ Header.contentLength) (notVary : name ≠ Header.vary) :
    (set.write headers).getAll name = headers.getAll name := by
  obtain ⟨coding, length⟩ := set
  rw [ContentEncoding.write, Vary.getAll_varyOn_of_ne notVary]
  cases coding with
  | none => rfl
  | some coding =>
      cases length with
      | none => simp [ContentEncoding.encode, HeaderMap.getAll_insert, Ne.symm notEncoding]
      | some length =>
          simp [ContentEncoding.encode, HeaderMap.getAll_insert, Ne.symm notEncoding,
            Ne.symm notLength]

theorem contentLength_ne_contentEncoding : Header.contentLength ≠ Header.contentEncoding := by
  decide

theorem getAll_contentEncoding_write (coding : Coding) (length : Option Nat) :
    ((ContentEncoding.mk (some coding) length).write headers).getAll Header.contentEncoding =
      [coding.fieldValue] := by
  rw [ContentEncoding.write, Vary.getAll_varyOn_of_ne (by decide)]
  cases length <;>
    simp [ContentEncoding.encode, HeaderMap.getAll_insert, contentLength_ne_contentEncoding]

theorem getAll_contentLength_write (coding : Coding) (length : Option Nat) :
    ((ContentEncoding.mk (some coding) length).write headers).getAll Header.contentLength =
      length.elim (headers.getAll Header.contentLength) fun length => [decimal length] := by
  rw [ContentEncoding.write, Vary.getAll_varyOn_of_ne (by decide)]
  cases length <;>
    simp [ContentEncoding.encode, HeaderMap.getAll_insert, contentLength_ne_contentEncoding.symm]

theorem containsKey_eq_false_iff : headers.containsKey name = false ↔ headers.getAll name = [] := by
  rw [HeaderMap.containsKey, HeaderMap.get]
  cases headers.getAll name <;> simp

end Fields

/-! ## The request -/

/-- A request accepts a coding: it says nothing of codings, or it gives this one
some weight. -/
def Accepts (headers : HeaderMap) (coding : Coding) : Prop :=
  ∀ accept, fieldLines headers Header.acceptEncoding = some accept →
    ∃ weight, 0 < weight ∧ Http.Coding.quality accept coding.token = some weight

theorem better_eq_some {accept first token : Text} {best : Option (Text × Nat)} {weight : Nat}
    (better : Http.Coding.better accept best first = some (token, weight)) :
    best = some (token, weight) ∨
      token = first ∧ 0 < weight ∧ Http.Coding.quality accept first = some weight := by
  rw [Http.Coding.better] at better
  split at better
  next => exact .inl better
  next given quality =>
    split at better
    next => exact .inl better
    next some =>
      split at better
      next =>
        cases better
        exact .inr ⟨rfl, Nat.pos_of_ne_zero some, quality⟩
      next =>
        split at better
        next =>
          cases better
          exact .inr ⟨rfl, Nat.pos_of_ne_zero some, quality⟩
        next => exact .inl better

/-- The token that is preferred is one on offer that is given some weight. -/
theorem weight_of_preferred {accept token : Text} {available : List Text}
    (preferred : Http.Coding.preferred accept available = some token) :
    token ∈ available ∧ ∃ weight, 0 < weight ∧ Http.Coding.quality accept token = some weight := by
  have best : ∀ start : Option (Text × Nat), ∀ token weight,
      available.foldl (Http.Coding.better accept) start = some (token, weight) →
        start = some (token, weight) ∨
          token ∈ available ∧ 0 < weight ∧ Http.Coding.quality accept token = some weight := by
    clear preferred
    induction available with
    | nil => exact fun start token weight found => .inl found
    | cons first rest ih =>
        intro start token weight found
        rcases ih _ token weight found with earlier | ⟨inRest, weighed⟩
        · rcases better_eq_some earlier with start | ⟨rfl, weighed⟩
          · exact .inl start
          · exact .inr ⟨List.mem_cons_self, weighed⟩
        · exact .inr ⟨List.mem_cons_of_mem _ inRest, weighed⟩
  rw [Http.Coding.preferred] at preferred
  split at preferred
  next => cases preferred
  next token' weight found =>
    split at preferred <;> cases preferred
    rcases best none _ _ found with none | ⟨inAvailable, weighed⟩
    · cases none
    · exact ⟨inAvailable, weight, weighed⟩

theorem accepts_of_negotiate {headers : HeaderMap} {coding : Coding}
    (negotiated : negotiate headers = .encode coding) : Accepts headers coding := by
  intro accept sent
  rw [negotiate, sent] at negotiated
  simp only at negotiated
  split at negotiated
  next found preferred =>
    cases negotiated
    obtain ⟨token, preferred, named⟩ := Option.bind_eq_some_iff.mp preferred
    obtain ⟨inAll, weighed⟩ := weight_of_preferred preferred
    obtain ⟨other, -, rfl⟩ := List.mem_map.mp inAll
    rw [Coding.fromToken_token] at named
    cases named
    exact weighed
  next => split at negotiated <;> cases negotiated

theorem accepts_of_unstated {headers : HeaderMap} (negotiated : negotiate headers = .unstated)
    (coding : Coding) : Accepts headers coding := by
  intro accept sent
  rw [negotiate, sent] at negotiated
  simp only at negotiated
  split at negotiated
  next => cases negotiated
  next => split at negotiated <;> cases negotiated

/-! ## What is sent -/

/-- The policy a response states. -/
def Continued.policy (continued : Continued Error) : Encoding :=
  continued.extension.getD .automatic

/-- A response is the chain's own, but for what it varies on. -/
structure Left (writeZero : Error) (behaves : Coding → List (Call Error) → Prop)
    (continued : Continued Error) (sent : Response (Sent Error)) : Prop where
  status : sent.status = continued.status
  headers : sent.headers = varyOn continued.headers [Header.acceptEncoding]
  body : ∀ found, Reads writeZero behaves sent.body found → found = continued.body.collect

/-- A response is the chain's own in one coding. -/
structure Coded (writeZero : Error) (decode : Coding → Octets → Option Octets)
    (behaves : Coding → List (Call Error) → Prop) (request : HeaderMap)
    (continued : Continued Error) (sent : Response (Sent Error)) (coding : Coding) : Prop where
  status : sent.status = continued.status
  contentEncoding : sent.headers.getAll Header.contentEncoding = [coding.fieldValue]
  accepted : Accepts request coding
  contentLength : sent.headers.getAll Header.contentLength = [] ∨ ∃ encoded,
    sent.body = .fromBytes encoded ∧
      sent.headers.getAll Header.contentLength = [decimal encoded.length]
  others : ∀ name, name ≠ Header.contentEncoding → name ≠ Header.contentLength →
    name ≠ Header.vary → sent.headers.getAll name = continued.headers.getAll name
  body : ∀ octets, Reads writeZero behaves sent.body (.ok octets) →
    ∃ original, continued.body.collect = .ok original ∧ decode coding octets = some original
  plain : continued.headers.getAll Header.contentEncoding = []
  acceptRanges : continued.headers.getAll Header.acceptRanges = []
  contentRange : continued.headers.getAll Header.contentRange = []
  whole : continued.status ≠ 206 ∧ continued.status ≠ 416
  untagged : ∀ value text, continued.headers.get Header.etag = some value →
    value.toStr = some text → ETag.isWeak (Text.trim text) = true
  allowed : continued.policy ≠ .disabled

/-- What compression answers a request with says what it is. -/
structure Honest (writeZero : Error) (encode : Coding → Octets → Option Octets)
    (decode : Coding → Octets → Option Octets) (behaves : Coding → List (Call Error) → Prop)
    (request : HeaderMap) (continued : Continued Error)
    (answer : Except NotAcceptable (Response (Sent Error))) : Prop where
  sent : ∀ sent, answer = .ok sent → Left writeZero behaves continued sent ∨
    ∃ coding, Coded writeZero decode behaves request continued sent coding
  required : continued.policy = .required → ∀ sent, answer = .ok sent →
    (∃ coding, Coded writeZero decode behaves request continued sent coding) ∨
    (∃ error, continued.body.collect = .error error ∧ sent.body = .failedAfter [] error) ∨
    ∃ coding octets, continued.body.collect = .ok octets ∧ encode coding octets = none
  failed : ∀ error, continued.body.failure = some error → ∀ sent, answer = .ok sent →
    ∀ octets, ¬ Reads writeZero behaves sent.body (.ok octets)

theorem left_leave (continued : Continued Error) :
    Left writeZero behaves continued (Compression.leave continued) := by
  refine ⟨rfl, rfl, fun found reads => ?_⟩
  cases reads with
  | produced => rfl

/-- A body read from what the chain produced, or from a coding of it, fails where
the chain's does. -/
theorem Honest.of_failure {error : Error} {continued : Continued Error}
    {sent : Response (Sent Error)} {request : HeaderMap}
    (failure : continued.body.failure = some error)
    (honest : Left writeZero behaves continued sent ∨
      ∃ coding, Coded writeZero decode behaves request continued sent coding)
    (octets : Octets) : ¬ Reads writeZero behaves sent.body (.ok octets) := by
  intro reads
  have collected : continued.body.collect = .error error := by rw [Produced.collect, failure]
  rcases honest with left | ⟨coding, coded⟩
  · cases (left.body _ reads).trans collected
  · obtain ⟨original, produced, -⟩ := coded.body octets reads
    cases produced.symm.trans collected

/-- What it takes for a coding to be chosen. -/
theorem coding_of_chosen {negotiated : Negotiated} {policy : Encoding} {refused : Bool}
    {coding : Coding} (chose : chosen negotiated policy refused = .ok (some coding)) :
    refused = false ∧ (negotiated = .encode coding ∨ negotiated = .unstated) := by
  rw [chosen.eq_def] at chose
  cases negotiated <;> cases refused <;> cases policy <;> cases chose <;> simp

/-- A response that may be encoded. -/
structure Open (continued : Continued Error) : Prop where
  plain : continued.headers.getAll Header.contentEncoding = []
  acceptRanges : continued.headers.getAll Header.acceptRanges = []
  contentRange : continued.headers.getAll Header.contentRange = []
  whole : continued.status ≠ 206 ∧ continued.status ≠ 416
  untagged : ∀ value text, continued.headers.get Header.etag = some value →
    value.toStr = some text → ETag.isWeak (Text.trim text) = true
  allowed : continued.policy ≠ .disabled

theorem open_of_not_refused {continued : Continued Error}
    (going : (continued.policy = .disabled || leaveAlone continued.toResponse) = false) :
    Open continued := by
  simp only [leaveAlone, Bool.or_eq_false_iff, decide_eq_false_iff_not, containsKey_eq_false_iff,
    beq_eq_false_iff_ne] at going
  obtain ⟨allowed, ⟨⟨⟨plain, untagged⟩, acceptRanges⟩, whole⟩, contentRange⟩ := going
  refine ⟨plain, acceptRanges, contentRange, whole, fun value text tagged spelled => ?_, allowed⟩
  rw [stronglyTagged, tagged, Option.bind_some, spelled] at untagged
  simpa using untagged

section Coded

variable {continued : Continued Error} {request : HeaderMap} {coding : Coding}

theorem coded_of_open (opened : Open continued) (accepted : Accepts request coding)
    {sent : Response (Sent Error)} {length : Option Nat} {headers : HeaderMap}
    (status : sent.status = continued.status)
    (sentHeaders : sent.headers = (ContentEncoding.mk (some coding) length).write headers)
    (kept : ∀ name, name ≠ Header.contentLength → headers.getAll name = continued.headers.getAll name)
    (contentLength : length.elim (headers.getAll Header.contentLength)
      (fun length => [decimal length]) = [] ∨ ∃ encoded, sent.body = .fromBytes encoded ∧
        length = some encoded.length)
    (body : ∀ octets, Reads writeZero behaves sent.body (.ok octets) →
      ∃ original, continued.body.collect = .ok original ∧ decode coding octets = some original) :
    Coded writeZero decode behaves request continued sent coding where
  status := status
  contentEncoding := by rw [sentHeaders, getAll_contentEncoding_write]
  accepted := accepted
  contentLength := by
    rw [sentHeaders, getAll_contentLength_write]
    rcases contentLength with none | ⟨encoded, isBytes, rfl⟩
    · exact .inl none
    · exact .inr ⟨encoded, isBytes, rfl⟩
  others name notEncoding notLength notVary := by
    rw [sentHeaders, getAll_write_of_ne _ notEncoding notLength notVary, kept name notLength]
  body := body
  plain := opened.plain
  acceptRanges := opened.acceptRanges
  contentRange := opened.contentRange
  whole := opened.whole
  untagged := opened.untagged
  allowed := opened.allowed

/-- A response whose body is read before it is encoded is coded, sent as it is
where the encoder fails, and failing where the read does. -/
theorem buffered_cases (correct : Correct writeZero encode decode behaves) (opened : Open continued)
    (accepted : Accepts request coding) :
    Coded writeZero decode behaves request continued
        (Compression.buffered encode continued coding) coding ∨
      Left writeZero behaves continued (Compression.buffered encode continued coding) ∧
        ((∃ error, continued.body.collect = .error error ∧
            (Compression.buffered encode continued coding).body = .failedAfter [] error) ∨
          ∃ octets, continued.body.collect = .ok octets ∧ encode coding octets = none) := by
  rw [Compression.buffered]
  cases collected : continued.body.collect with
  | error error =>
      refine .inr ⟨⟨rfl, rfl, fun found reads => ?_⟩, .inl ⟨error, rfl, rfl⟩⟩
      cases reads with
      | failedAfter => exact collected.symm
  | ok octets =>
      simp only
      cases encoded : encode coding octets with
      | none =>
          refine .inr ⟨⟨rfl, rfl, fun found reads => ?_⟩, .inr ⟨octets, rfl, encoded⟩⟩
          cases reads with
          | fromBytes => exact collected.symm
      | some coded =>
          refine .inl (coded_of_open opened accepted rfl rfl (fun _ _ => rfl)
            (.inr ⟨coded, rfl, rfl⟩) fun read reads => ?_)
          cases reads with
          | fromBytes => exact ⟨octets, collected, correct.whole coding octets coded encoded⟩

theorem coded_streamed (correct : Correct writeZero encode decode behaves) (opened : Open continued)
    (accepted : Accepts request coding) (latency : LatencyMode) :
    Coded writeZero decode behaves request continued
      ⟨continued.status, (ContentEncoding.mk (some coding) none).write
        (continued.headers.remove Header.contentLength),
        .streamed continued.body coding latency⟩ coding :=
  coded_of_open opened accepted rfl rfl
    (fun _ different => HeaderMap.getAll_remove_of_ne different _)
    (.inl (HeaderMap.getAll_remove_self _ _)) fun _ reads => decode_streamed correct reads

end Coded

theorem required_of_chosen {negotiated : Negotiated} {refused : Bool}
    (chose : chosen negotiated .required refused = .ok none) : False := by
  rw [chosen.eq_def] at chose
  cases negotiated <;> cases refused <;> cases chose

theorem honest_settle (correct : Correct writeZero encode decode behaves) (this : Compression)
    {request : HeaderMap} (continued : Continued Error) :
    Honest writeZero encode decode behaves request continued
      (this.settle encode continued (negotiate request)) := by
  have cases : ∀ sent, this.settle encode continued (negotiate request) = .ok sent →
      (Left writeZero behaves continued sent ∧ (continued.policy = .required →
        (∃ error, continued.body.collect = .error error ∧ sent.body = .failedAfter [] error) ∨
        ∃ coding octets, continued.body.collect = .ok octets ∧ encode coding octets = none)) ∨
      ∃ coding, Coded writeZero decode behaves request continued sent coding := by
    intro sent answered
    rw [Compression.settle] at answered
    split at answered
    next => cases answered
    next chose =>
      cases answered
      refine .inl ⟨left_leave continued, fun required => ?_⟩
      rw [Continued.policy] at required
      rw [required] at chose
      exact (required_of_chosen chose).elim
    next coding chose =>
      obtain ⟨going, negotiated⟩ := coding_of_chosen chose
      have opened : Open continued := open_of_not_refused going
      have accepted : Accepts request coding :=
        negotiated.elim accepts_of_negotiate fun unstated => accepts_of_unstated unstated coding
      split at answered
      next =>
        split at answered
        next => cases answered
        next notRequired =>
          cases answered
          exact .inl ⟨left_leave continued, fun required => absurd required notRequired⟩
      next =>
        split at answered
        next =>
          cases answered
          exact .inr ⟨coding, coded_streamed correct opened accepted this.latency⟩
        next =>
          cases answered
          rcases buffered_cases correct opened accepted with coded | ⟨left, why⟩
          · exact .inr ⟨coding, coded⟩
          · exact .inl ⟨left, fun _ => why.imp_right fun ⟨octets, failed⟩ => ⟨coding, octets, failed⟩⟩
  have sent : ∀ sent, this.settle encode continued (negotiate request) = .ok sent →
      Left writeZero behaves continued sent ∨
        ∃ coding, Coded writeZero decode behaves request continued sent coding :=
    fun sent answered => (cases sent answered).imp_left And.left
  refine ⟨sent, fun required response answered => ?_, fun error failure response answered =>
    Honest.of_failure failure (sent response answered)⟩
  rcases cases response answered with ⟨-, why⟩ | coded
  · exact .inr (why required)
  · exact .inl coded

/-- Whatever the request and the chain beneath, compression sends what the chain
produced, or the same in one coding the request accepts, or refuses. -/
theorem honest_intercept (correct : Correct writeZero encode decode behaves) (this : Compression)
    (request : HeaderMap) (next : HeaderMap → Continued Error) :
    Honest writeZero encode decode behaves request (next request)
      (this.intercept encode request next) := by
  rw [Compression.intercept]
  split
  next =>
    refine ⟨fun _ answered => ?_, fun _ _ answered => ?_, fun _ _ _ answered => ?_⟩ <;> cases answered
  next => exact honest_settle correct this (next request)

/-- An octet, coded. -/
def gzipped : Octets :=
  [0x1f, 0x8b, 0x08, 0, 0, 0, 0, 0, 0, 0xff, 0x4b, 0x04, 0, 0x43, 0xbe, 0xb7, 0xe8, 1, 0, 0, 0]

/-- A request that accepts one coding. -/
def gzipOnly : HeaderMap :=
  HeaderMap.empty.insert Header.acceptEncoding Coding.gzip.fieldValue

/-- What the encoder and the decoder do with the octet. -/
def encodeOctet (coding : Coding) (octets : Octets) : Option Octets :=
  if coding = .gzip ∧ octets = [97] then some gzipped else none

def decodeOctet (coding : Coding) (coded : Octets) : Option Octets :=
  if coding = .gzip ∧ coded = gzipped then some [97] else none

theorem correct_octet : @Correct Unit () encodeOctet decodeOctet fun _ _ => False := by
  refine ⟨fun coding octets encoded isGzip => ?_, fun _ _ _ _ never => never.elim⟩
  rw [encodeOctet] at isGzip
  split at isGzip <;> cases isGzip
  next given => simp [decodeOctet, given]

/-- A response that holds it, and requires a coding. -/
def octetRequired : Continued Unit :=
  ⟨⟨200, .empty, ⟨some 1, [.data [97]], none⟩⟩, some .required⟩

theorem honest_intercept_octet :
    Honest () encodeOctet decodeOctet (fun _ _ => False) gzipOnly octetRequired
      (new.intercept encodeOctet gzipOnly fun _ => octetRequired) :=
  honest_intercept correct_octet new gzipOnly fun _ => octetRequired

/-- A response that requires a coding is sent without one where its body fails. -/
theorem not_coded_of_failure :
    ¬ ∀ (encode : Coding → Octets → Option Octets) (this : Compression) (request : HeaderMap)
      (continued : Continued Unit) (sent : Response (Sent Unit)), continued.policy = .required →
      this.intercept encode request (fun _ => continued) = .ok sent →
        sent.headers.getAll Header.contentEncoding ≠ [] := by
  intro coded
  exact coded (fun _ _ => none) Compression.new gzipOnly
    ⟨⟨200, .empty, ⟨some 1, [], some ()⟩⟩, some .required⟩
    ⟨200, ContentEncoding.none.write .empty, .failedAfter [] ()⟩ rfl (by rfl) (by decide)

end Kynos.Compression
