import Kynos.Compression.Honest
import Kynos.Decompression.Undo

/-!
# What a decoded request comes to

The decoders are assumed to invert the encoders. A payload that was coded in any
order reaches the handler as it was where it and every intermediate form are
within the bound, and it is refused for its size only where one of them is not.
-/

namespace Kynos.Decompression

open Kynos.Http Kynos.Body Kynos.Range Kynos.Numeral Kynos.Compression

variable {Error : Type}

/-! ## The codings a head declares -/

/-- Whether an element names a coding: `identity` and empty ones do not. -/
def isCoded (token : Text) : Bool :=
  !(token = [] ∨ Text.eqIgnoreAsciiCase token "identity".toList)

theorem isCoded_iff {token : Text} :
    isCoded token = true ↔ ¬ (token = [] ∨ Text.eqIgnoreAsciiCase token "identity".toList) := by
  rw [isCoded, Bool.not_eq_true', decide_eq_false_iff_not]

/-- The tokens lines list. -/
def tokensOf (lines : List Text) : List Text :=
  ((lines.flatMap (·.splitOn ',')).map Text.trim).filter isCoded

/-- A head declares codings: its lines list tokens that name them, in order. -/
def Declares (headers : HeaderMap) (codings : List Coding) : Prop :=
  ∃ lines : List Text,
    (headers.getAll Header.contentEncoding).map HeaderValue.toStr = lines.map some ∧
    List.Forall₂ (fun token coding => Http.Coding.names token coding.token = true)
      (tokensOf lines) codings ∧ codings.length ≤ 4

/-- How a coding is spelled, in lower case. -/
def spellings : Coding → List Text
  | .zstd => ["zstd".toList]
  | .brotli => ["br".toList]
  | .gzip => ["gzip".toList, "x-gzip".toList]

theorem names_iff {token : Text} (coding : Coding) :
    Http.Coding.names token coding.token = true ↔
      Text.toAsciiLowercase token ∈ spellings coding := by
  have lower : Text.toAsciiLowercase coding.token = coding.token ∧
      Text.toAsciiLowercase "x-gzip".toList = "x-gzip".toList := by cases coding <;> decide
  rw [Http.Coding.names, Bool.or_eq_true, Text.eqIgnoreAsciiCase, beq_iff_eq, lower.1]
  cases coding with
  | zstd | brotli => simp [Http.Coding.aliases, Coding.token, spellings]
  | gzip =>
      have deprecated : Http.Coding.aliases Coding.gzip.token = ["x-gzip".toList] := rfl
      rw [deprecated, List.any_cons, List.any_nil, Bool.or_false, Text.eqIgnoreAsciiCase, beq_iff_eq,
        lower.2, @eq_comm _ "x-gzip".toList]
      simp [Coding.token, spellings]

theorem eq_of_mem_spellings {word : Text} {coding other : Coding} (spelled : word ∈ spellings coding)
    (also : word ∈ spellings other) : other = coding := by
  cases coding <;> cases other <;> simp_all [spellings]

theorem fromToken_of_names {token : Text} {coding : Coding}
    (named : Http.Coding.names token coding.token = true) :
    Coding.fromToken token = some coding := by
  cases found : Coding.fromToken token with
  | none =>
      have unnamed := List.find?_eq_none.mp found coding (by cases coding <;> decide)
      exact absurd named unnamed
  | some other =>
      have also : Http.Coding.names token other.token = true :=
        List.find?_some (p := fun coding : Coding => Http.Coding.names token coding.token)
          (found : Coding.all.find? _ = some other)
      rw [eq_of_mem_spellings ((names_iff coding).mp named) ((names_iff other).mp also)]

theorem declaredTokens_append (codings : List Coding) (tokens more : List Text) :
    declaredTokens codings (tokens ++ more) =
      (declaredTokens codings tokens).bind fun codings => declaredTokens codings more := by
  induction tokens generalizing codings with
  | nil => rfl
  | cons token tokens ih =>
      simp only [List.cons_append, declaredTokens, ih]
      split
      next => rfl
      next =>
        split
        next => rfl
        next => split <;> rfl

/-- Reading line by line is reading the tokens of every line. -/
theorem declaredLines_eq (codings : List Coding) (values : List HeaderValue) (lines : List Text)
    (spelled : values.map HeaderValue.toStr = lines.map some) :
    values.foldlM (fun codings value => value.toStr.bind fun text =>
        declaredTokens codings (text.splitOn ',')) codings =
      declaredTokens codings (lines.flatMap (·.splitOn ',')) := by
  induction values generalizing codings lines with
  | nil =>
      rw [List.map_nil, List.nil_eq, List.map_eq_nil_iff] at spelled
      subst spelled
      rfl
  | cons value values ih =>
      cases lines with
      | nil => simp at spelled
      | cons line lines =>
          obtain ⟨first, rest⟩ := List.cons_eq_cons.mp spelled
          rw [List.foldlM_cons, first, List.flatMap_cons, declaredTokens_append]
          exact Option.bind_congr fun codings _ => ih codings lines rest

theorem declaredTokens_of_names {tokens : List Text} {codings more : List Coding}
    (named : List.Forall₂ (fun token coding => Http.Coding.names token coding.token = true)
      ((tokens.map Text.trim).filter isCoded) more)
    (few : (codings ++ more).length ≤ maxCodings) :
    declaredTokens codings tokens = some (codings ++ more) := by
  induction tokens generalizing codings more with
  | nil =>
      cases named
      rw [declaredTokens, List.append_nil]
  | cons token tokens ih =>
      rw [declaredTokens]
      split
      next skipped =>
        refine ih ?_ few
        have notCoded : ¬ isCoded (Text.trim token) = true := fun coded =>
          isCoded_iff.mp coded skipped
        rwa [List.map_cons, List.filter_cons_of_neg notCoded] at named
      next taken =>
        have coded : isCoded (Text.trim token) = true := isCoded_iff.mpr taken
        rw [List.map_cons, List.filter_cons_of_pos coded] at named
        cases named with
        | @cons _ coding _ more names rest =>
            rw [fromToken_of_names names]
            have append : codings ++ coding :: more = codings ++ [coding] ++ more := by simp
            rw [append] at few ⊢
            have short : ¬ (codings ++ [coding]).length > maxCodings := by
              rw [List.length_append] at few
              omega
            simp only [if_neg short]
            exact ih rest few

/-- The codings a head declares are those its tokens name. -/
theorem declared_of_declares {headers : HeaderMap} {codings : List Coding}
    (declares : Declares headers codings) : declared headers = some codings := by
  obtain ⟨lines, spelled, named, few⟩ := declares
  rw [declared, declaredLines_eq [] _ lines spelled]
  exact @declaredTokens_of_names _ [] codings named few

/-! ## Payloads in codings -/

section Layers

variable {encodes : Coding → Octets → Octets → Prop} {decoder : Coding → Octets → Decoder}

/-- Decoders invert encoders: from octets in a coding they read what was coded,
chunk by chunk, and consume them all. -/
def Inverts (decoder : Coding → Octets → Decoder) (encodes : Coding → Octets → Octets → Prop) :
    Prop :=
  ∀ coding octets coded, encodes coding octets coded →
    (decoder coding coded).chunks.flatten = octets ∧ [] ∉ (decoder coding coded).chunks ∧
      (decoder coding coded).fails = false ∧ (decoder coding coded).consumed = coded.length

/-- A payload in codings, applied in order: the payload and the forms between,
from the outermost in, and what arrives. -/
inductive Layered (encodes : Coding → Octets → Octets → Prop) (payload : Octets) :
    List Coding → List Octets → Octets → Prop where
  | plain : Layered encodes payload [] [] payload
  | coded {codings : List Coding} {forms : List Octets} {form arrived : Octets} {coding : Coding}
      (beneath : Layered encodes payload codings forms form) (coded : encodes coding form arrived) :
      Layered encodes payload (codings ++ [coding]) (form :: forms) arrived

/-- A drain of chunks comes to all of them, or stops where they pass the cap. -/
theorem drain_eq {cap : Nat} {drained : Octets} {chunks : List Octets} (nonempty : [] ∉ chunks)
    (within : drained.length ≤ cap) :
    drain false (some cap) drained chunks =
      if drained.length + chunks.flatten.length ≤ cap then .ok (drained ++ chunks.flatten)
      else .error .pastCap := by
  induction chunks generalizing drained with
  | nil => simp [drain, within]
  | cons chunk chunks ih =>
      rw [List.mem_cons, not_or] at nonempty
      rw [drain, if_neg (Ne.symm nonempty.1)]
      by_cases past : drained.length + chunk.length > cap
      · rw [if_pos (by simpa using past), if_neg]
        rw [List.flatten_cons, List.length_append]
        omega
      · rw [if_neg (by simpa using past), ih nonempty.2 (by rw [List.length_append]; omega)]
        simp [Nat.add_assoc]

/-- No drain produces more than its cap. -/
theorem length_of_drain {fails : Bool} {cap : Nat} {drained produced : Octets}
    {chunks : List Octets} (within : drained.length ≤ cap)
    (drains : drain fails (some cap) drained chunks = .ok produced) : produced.length ≤ cap := by
  induction chunks generalizing drained with
  | nil =>
      rw [drain] at drains
      split at drains <;> cases drains
      exact within
  | cons chunk chunks ih =>
      rw [drain] at drains
      split at drains
      next =>
        cases drains
        exact within
      next =>
        split at drains
        next => cases drains
        next more =>
          refine ih ?_ drains
          rw [List.length_append]
          simpa using more

theorem length_of_decode {coding : Coding} {octets decoded : Octets} {limit : Nat}
    (decodes : decode decoder coding octets limit = .ok decoded) : decoded.length ≤ limit := by
  rw [decode] at decodes
  split at decodes
  next => cases decodes
  next => cases decodes
  next drains =>
    split at decodes <;> cases decodes
    exact length_of_drain (Nat.zero_le _) drains

theorem decode_eq (inverts : Inverts decoder encodes) {coding : Coding} {octets coded : Octets}
    (encoded : encodes coding octets coded) (limit : Nat) :
    decode decoder coding coded limit =
      if octets.length ≤ limit then .ok octets else .error (.tooLarge limit) := by
  obtain ⟨chunks, nonempty, reads, consumed⟩ := inverts coding octets coded encoded
  have drained : drain (decoder coding coded).fails (some limit) [] (decoder coding coded).chunks =
      if octets.length ≤ limit then .ok octets else .error .pastCap := by
    have drained := @drain_eq limit [] _ nonempty (Nat.zero_le limit)
    rw [chunks, List.length_nil, Nat.zero_add, List.nil_append] at drained
    rw [reads, drained]
  rw [decode, drained]
  by_cases small : octets.length ≤ limit
  · simp [small, consumed]
  · simp [small]

/-- Undoing the codings comes to the payload, or to a refusal for its size where
one of the forms is past the bound. -/
theorem undo_eq (inverts : Inverts decoder encodes) {payload arrived : Octets}
    {codings : List Coding} {forms : List Octets}
    (layered : Layered encodes payload codings forms arrived) (bound : Nat) :
    codings.reverse.foldlM (fun octets coding => decode decoder coding octets bound) arrived =
      if ∀ form ∈ forms, form.length ≤ bound then .ok payload else .error (.tooLarge bound) := by
  induction layered with
  | plain => simp [pure, Except.pure]
  | @coded codings forms form arrived coding beneath coded ih =>
      rw [List.reverse_concat, List.foldlM_cons, decode_eq inverts coded]
      by_cases within : form.length ≤ bound
      · rw [if_pos within]
        simp only [List.forall_mem_cons, within, true_and]
        exact ih
      · have past : ¬ ∀ other ∈ form :: forms, other.length ≤ bound := fun all =>
          within (all form List.mem_cons_self)
        rw [if_neg within, if_neg past]
        rfl

end Layers

/-! ## The body read -/

/-- The octets of a body. -/
def Incoming.octets (body : Incoming Error) : Octets :=
  body.frames.flatMap Frame.octets

theorem collectCapped_eq {limit : Nat} {arrived : Octets} (frames : List Frame)
    (within : arrived.length ≤ limit) :
    collectCapped (none : Option Error) limit arrived frames =
      if arrived.length + (frames.flatMap Frame.octets).length ≤ limit then
        .whole (arrived ++ frames.flatMap Frame.octets)
      else .exceeded limit := by
  induction frames generalizing arrived with
  | nil => simp [collectCapped, within]
  | cons frame frames ih =>
      cases frame with
      | trailers =>
          rw [collectCapped, ih within]
          simp [Frame.octets]
      | data octets =>
          rw [collectCapped]
          by_cases empty : octets = []
          · rw [if_pos empty, ih within]
            simp [Frame.octets, empty]
          · rw [if_neg empty]
            by_cases past : arrived.length + octets.length > limit
            · rw [if_pos past, if_neg]
              simp only [List.flatMap_cons, Frame.octets, List.length_append]
              omega
            · rw [if_neg past, ih (by rw [List.length_append]; omega)]
              simp [Frame.octets, Nat.add_assoc]

/-- A read that fails is not whole. -/
theorem collectCapped_of_failure {error : Error} {limit : Nat} (arrived : Octets)
    (frames : List Frame) :
    collectCapped (some error) limit arrived frames = .exceeded limit ∨
      ∃ octets, collectCapped (some error) limit arrived frames = .failedPartWay octets error := by
  induction frames generalizing arrived with
  | nil => exact .inr ⟨arrived, rfl⟩
  | cons frame frames ih =>
      cases frame with
      | trailers => exact ih arrived
      | data octets =>
          rw [collectCapped]
          split
          next => exact ih arrived
          next =>
            split
            next => exact .inl rfl
            next => exact ih _

/-! ## The whole request -/

/-- What is within the bound is within the limit, and the ratio of what
arrived. -/
theorem le_bound_iff {this : Decompression} {encoded length : Nat} :
    length ≤ this.bound encoded ↔
      length ≤ this.limit ∧ ∀ ratio ∈ this.maxRatio, length ≤ encoded * ratio := by
  have limited := this.limit_le
  rw [bound]
  cases this.maxRatio with
  | none => simp
  | some ratio =>
      simp only [Option.mem_def, Option.some.injEq, forall_eq', le_min_iff]
      refine and_congr_right fun within => and_iff_right ?_
      exact Nat.le_trans within limited

theorem getAll_contentEncoding_decodedFields (headers : HeaderMap) (length : Nat) :
    (decodedFields headers length).getAll Header.contentEncoding = [] := by
  rw [decodedFields, HeaderMap.getAll_insert, if_neg (by decide)]
  simp only [stale, List.foldl_cons, List.foldl_nil]
  rw [HeaderMap.getAll_remove_of_ne (by decide), HeaderMap.getAll_remove_of_ne (by decide),
    HeaderMap.getAll_remove_of_ne (by decide), HeaderMap.getAll_remove_self]

theorem getAll_contentLength_decodedFields (headers : HeaderMap) (length : Nat) :
    (decodedFields headers length).getAll Header.contentLength = [decimal length] := by
  rw [decodedFields, HeaderMap.getAll_insert, if_pos rfl]

/-- What decompression does with a request: a payload that arrives within the
limit, in codings whose every form is within the bound, is handed on, without its
codings and with its length; a body is refused for its size only where a form is
past the bound; no layer produces more than it; and a body that fails is handed on
as one that fails. -/
structure Delivers (decoder : Coding → Octets → Decoder) (encodes : Coding → Octets → Octets → Prop)
    (this : Decompression) (headers : HeaderMap) (body : Incoming Error)
    (answer : Except Reason (Request Error)) : Prop where
  delivered : ∀ codings payload forms, Declares headers codings →
    Layered encodes payload codings forms body.octets → body.failure = none →
    body.octets.length ≤ this.limit →
    (∀ form ∈ forms, form.length ≤ this.limit ∧
      ∀ ratio ∈ this.maxRatio, form.length ≤ body.octets.length * ratio) →
    ∃ request, answer = .ok request ∧ request.body = .fromBytes payload ∧
      (codings = [] → request.headers = headers) ∧
      (codings ≠ [] → request.headers.getAll Header.contentEncoding = [] ∧
        request.headers.getAll Header.contentLength = [decimal payload.length])
  tooLarge : ∀ codings payload forms, Declares headers codings →
    Layered encodes payload codings forms body.octets → body.failure = none →
    codings = [] ∨ body.octets.length ≤ this.limit → ∀ limit, answer = .error (.tooLarge limit) →
      (codings = [] ∧ this.limit < payload.length) ∨
      ∃ form ∈ forms, this.limit < form.length ∨
        ∃ ratio ∈ this.maxRatio, body.octets.length * ratio < form.length
  layers : ∀ codings, declared headers = some codings → ∀ inner coding outer,
    codings = inner ++ coding :: outer → ∀ octets decoded,
    outer.reverse.foldlM (fun octets coding => decode decoder coding octets
      (this.bound body.octets.length)) body.octets = .ok octets →
    decode decoder coding octets (this.bound body.octets.length) = .ok decoded →
      decoded.length ≤ this.limit ∧
        ∀ ratio ∈ this.maxRatio, decoded.length ≤ body.octets.length * ratio
  failed : ∀ error, body.failure = some error → ∀ request, answer = .ok request →
    ∃ arrived, request.body = .failedAfter arrived error

section Delivers

variable {encodes : Coding → Octets → Octets → Prop} {decoder : Coding → Octets → Decoder}
  {this : Decompression} {headers : HeaderMap} {body : Incoming Error} {codings : List Coding}
  {payload : Octets} {forms : List Octets}

/-- What is answered a whole body in codings. -/
theorem intercept_eq (inverts : Inverts decoder encodes) (declares : Declares headers codings)
    (layered : Layered encodes payload codings forms body.octets) (whole : body.failure = none) :
    this.intercept decoder headers body =
      if this.limit < body.octets.length then .error (.tooLarge this.limit)
      else if ∀ form ∈ forms, form.length ≤ this.bound body.octets.length then
        .ok ⟨if codings.isEmpty then headers else decodedFields headers payload.length,
          this.limit, .fromBytes payload⟩
      else .error (.tooLarge (this.bound body.octets.length)) := by
  have collected := @collectCapped_eq Error this.limit [] body.frames (Nat.zero_le _)
  rw [List.length_nil, Nat.zero_add, List.nil_append, ← Incoming.octets] at collected
  rw [intercept, declared_of_declares declares]
  simp only [whole, collected]
  by_cases past : this.limit < body.octets.length
  · rw [if_pos past, if_neg (Nat.not_le_of_lt past)]
  · rw [if_neg past, if_pos (Nat.le_of_not_lt past)]
    simp only [undo]
    rw [undo_eq inverts layered]
    by_cases within : ∀ form ∈ forms, form.length ≤ this.bound body.octets.length
    · rw [if_pos within, if_pos within]
      cases codings.isEmpty <;> rfl
    · rw [if_neg within, if_neg within]

theorem delivered_of_intercept (inverts : Inverts decoder encodes)
    (declares : Declares headers codings)
    (layered : Layered encodes payload codings forms body.octets) (whole : body.failure = none)
    (arrives : body.octets.length ≤ this.limit)
    (within : ∀ form ∈ forms, form.length ≤ this.limit ∧
      ∀ ratio ∈ this.maxRatio, form.length ≤ body.octets.length * ratio) :
    ∃ request, this.intercept decoder headers body = .ok request ∧
      request.body = .fromBytes payload ∧ (codings = [] → request.headers = headers) ∧
      (codings ≠ [] → request.headers.getAll Header.contentEncoding = [] ∧
        request.headers.getAll Header.contentLength = [decimal payload.length]) := by
  rw [intercept_eq inverts declares layered whole, if_neg (Nat.not_lt_of_le arrives),
    if_pos fun form inForms => le_bound_iff.mpr (within form inForms)]
  refine ⟨_, rfl, rfl, fun plain => ?_, fun coded => ?_⟩
  · rw [plain]
    rfl
  · simp only [List.isEmpty_iff, coded, if_false]
    exact ⟨getAll_contentEncoding_decodedFields headers _, getAll_contentLength_decodedFields headers _⟩

theorem exists_of_not_within {encoded : Nat} (past : ¬ ∀ form ∈ forms, form.length ≤ this.bound encoded) :
    ∃ form ∈ forms, this.limit < form.length ∨
      ∃ ratio ∈ this.maxRatio, encoded * ratio < form.length := by
  push Not at past
  obtain ⟨form, inForms, past⟩ := past
  refine ⟨form, inForms, ?_⟩
  by_contra within
  push Not at within
  exact Nat.not_le_of_lt past (le_bound_iff.mpr within)

theorem tooLarge_of_intercept (inverts : Inverts decoder encodes) (declares : Declares headers codings)
    (layered : Layered encodes payload codings forms body.octets) (whole : body.failure = none)
    (arrives : codings = [] ∨ body.octets.length ≤ this.limit) {limit : Nat}
    (refused : this.intercept decoder headers body = .error (.tooLarge limit)) :
    (codings = [] ∧ this.limit < payload.length) ∨
      ∃ form ∈ forms, this.limit < form.length ∨
        ∃ ratio ∈ this.maxRatio, body.octets.length * ratio < form.length := by
  rw [intercept_eq inverts declares layered whole] at refused
  split at refused
  next past =>
    have plain := arrives.resolve_right (Nat.not_le_of_lt past)
    subst plain
    generalize body.octets = arrived at layered past
    generalize hlist : ([] : List Coding) = codings at layered
    cases layered with
    | plain => exact .inl ⟨rfl, past⟩
    | coded => simp at hlist
  next =>
    split at refused
    next => cases refused
    next past => exact .inr (exists_of_not_within past)

theorem failed_of_intercept {error : Error} (failure : body.failure = some error)
    {request : Request Error} (passed : this.intercept decoder headers body = .ok request) :
    ∃ arrived, request.body = .failedAfter arrived error := by
  rw [intercept] at passed
  split at passed
  next => cases passed
  next codings declared =>
    rw [failure] at passed
    rcases @collectCapped_of_failure Error error this.limit [] body.frames with past | ⟨arrived, failed⟩
    · rw [past] at passed
      cases passed
    · rw [failed] at passed
      simp only at passed
      split at passed <;> cases passed
      · exact ⟨arrived, rfl⟩
      · exact ⟨[], rfl⟩

/-- Whatever the request, decompression hands its payload on, or refuses it for
its decoded size, or for what it says of its codings. -/
theorem delivers_intercept (inverts : Inverts decoder encodes) (this : Decompression)
    (headers : HeaderMap) (body : Incoming Error) :
    Delivers decoder encodes this headers body (this.intercept decoder headers body) where
  delivered _ _ _ declares layered whole arrives within :=
    delivered_of_intercept inverts declares layered whole arrives within
  tooLarge _ _ _ declares layered whole arrives _ refused :=
    tooLarge_of_intercept inverts declares layered whole arrives refused
  layers _ _ _ _ _ _ _ _ _ decoded := le_bound_iff.mp (length_of_decode decoded)
  failed _ failure _ passed := failed_of_intercept failure passed

end Delivers

/-- What a decoder reads from an octet in its coding, and from anything else. -/
def decodeOctet (_ : Coding) (octets : Octets) : Decoder :=
  if octets = gzipped then ⟨[[97]], false, gzipped.length⟩ else ⟨[], true, 0⟩

theorem inverts_octet :
    Inverts decodeOctet fun coding octets coded => coding = .gzip ∧ octets = [97] ∧ coded = gzipped := by
  rintro coding octets coded ⟨rfl, rfl, rfl⟩
  rw [decodeOctet, if_pos rfl]
  exact ⟨rfl, by decide, rfl, rfl⟩

/-- A request that declares the coding. -/
def gzipHeaders : HeaderMap :=
  HeaderMap.empty.insert Header.contentEncoding Coding.gzip.fieldValue

theorem delivers_intercept_octet :
    Delivers decodeOctet (fun coding octets coded => coding = .gzip ∧ octets = [97] ∧ coded = gzipped)
      ⟨1024, some 2, by decide⟩ gzipHeaders (⟨[.data gzipped], none⟩ : Incoming Unit)
      (intercept decodeOctet ⟨1024, some 2, by decide⟩ gzipHeaders ⟨[.data gzipped], none⟩) :=
  delivers_intercept inverts_octet _ _ _

/-- A coding that codes nothing. -/
def identityHeaders : HeaderMap :=
  HeaderMap.empty.insert Header.contentEncoding ⟨Text.toOctets "identity".toList, by decide⟩

theorem declares_identity : Declares identityHeaders [] := by
  refine ⟨["identity".toList], by decide, ?_, by decide⟩
  have none : tokensOf ["identity".toList] = [] := by decide
  rw [none]
  exact .nil

/-- A request in no coding keeps the fields it came with, `Content-Encoding` among
them. -/
theorem not_stripped_of_identity :
    ¬ ∀ (decoder : Coding → Octets → Decoder) (encodes : Coding → Octets → Octets → Prop)
      (this : Decompression) (headers : HeaderMap) (body : Incoming Unit) (codings : List Coding)
      (payload : Octets) (forms : List Octets) (request : Request Unit), Inverts decoder encodes →
      Declares headers codings → Layered encodes payload codings forms body.octets →
      body.failure = none → payload.length ≤ this.limit →
      (∀ form ∈ forms, form.length ≤ this.limit) →
      this.intercept decoder headers body = .ok request →
        request.headers.getAll Header.contentEncoding = [] := by
  intro stripped
  have none := stripped decodeOctet (fun _ _ _ => False) ⟨1024, none, by decide⟩ identityHeaders
    ⟨[.data [97]], none⟩ [] [97] [] ⟨identityHeaders, 1024, .fromBytes [97]⟩ nofun declares_identity
    .plain rfl (by decide) nofun (by decide)
  exact absurd none (by decide)

end Kynos.Decompression
