import Kynos.Range.Decision

/-!
# Deliveries give what is owed

The delivery of a representation answers each request with the answer it is
owed. The status, the range fields and the length of the response are those of
the answer, and a source that reads fully is streamed as exactly the octets the
answer names.
-/

namespace Kynos.Range

open Kynos.Http Kynos.Numeral

variable {Error Stream : Type}

/-! ## The fields of a response -/

/-- A name is sent on exactly one line, reading as a text. -/
def SendsText (headers : HeaderMap) (name text : Text) : Prop :=
  ∃ value, headers.getAll name = [value] ∧ value.toStr = some text

theorem toStr_decimal (length : Nat) : (decimal length).toStr = some (Text.decimal length) := by
  obtain ⟨value, sent, reads⟩ :=
    HeaderValue.exists_fromStr (HeaderValue.isTextCharacter_of_mem_decimal length)
  unfold HeaderValue.fromStr HeaderValue.fromBytes at sent
  split at sent
  · cases sent
    exact reads
  · contradiction

namespace ContentRange

theorem isTextCharacter_of_mem_fieldValue (field : ContentRange) (character : Char)
    (member : character ∈ field.fieldValue) : HeaderValue.IsTextCharacter character := by
  have unitText : ∀ character ∈ "bytes ".toList, HeaderValue.IsTextCharacter character :=
    List.all_iff_forall_prop.mp (by decide)
  have starText : ∀ character ∈ "bytes */".toList, HeaderValue.IsTextCharacter character :=
    List.all_iff_forall_prop.mp (by decide)
  unfold fieldValue at member
  cases field with
  | satisfied first last completeLength =>
      simp only [List.mem_append, List.mem_singleton] at member
      rcases member with ((((inUnit | inFirst) | rfl) | inLast) | rfl) | inLength
      · exact unitText character inUnit
      · exact HeaderValue.isTextCharacter_of_mem_decimal _ _ inFirst
      · decide
      · exact HeaderValue.isTextCharacter_of_mem_decimal _ _ inLast
      · decide
      · exact HeaderValue.isTextCharacter_of_mem_decimal _ _ inLength
  | unsatisfied completeLength =>
      simp only [List.mem_append] at member
      rcases member with inStar | inLength
      · exact starText character inStar
      · exact HeaderValue.isTextCharacter_of_mem_decimal _ _ inLength

/-- A `Content-Range` is always sent, as its spelling. -/
theorem exists_encode (field : ContentRange) :
    ∃ value, field.encode = some value ∧ value.toStr = some field.fieldValue :=
  HeaderValue.exists_fromStr field.isTextCharacter_of_mem_fieldValue

end ContentRange

/-- Every field the representation declares can be sent: its tag can be spelled
and its `Cache-Control` is a field value. -/
structure Served.Sendable (served : Served Error) : Prop where
  tag : ∀ tag, served.etag = some tag → ∃ value, tag.encode = some value
  cacheControl : ∀ text, served.cacheControl = some text →
    ∃ value, HeaderValue.fromStr text = some value

namespace Served

variable {served : Served Error} {name : Text}

theorem getAll_validators (tag : Option HeaderValue) (fields : HeaderMap)
    (notTag : Header.etag ≠ name) (notModified : Header.lastModified ≠ name) :
    (served.validators tag fields).getAll name = fields.getAll name := by
  unfold validators
  cases tag <;>
    cases (served.lastModified.bind Date.format).bind HeaderValue.fromStr <;>
      simp [HeaderMap.getAll_insert, notTag, notModified]

theorem exists_labelled (served : Served Error) (selection : Selection) (label : HeaderValue) (fields : HeaderMap) :
    ∃ labels, served.labelled (some selection) (some label) fields = some labels ∧
      ∀ name, Header.contentType ≠ name → Header.contentDisposition ≠ name →
        labels.getAll name = fields.getAll name := by
  cases declared : served.disposition with
  | none =>
      refine ⟨_, by simp only [labelled, declared]; rfl, fun name notType _ => ?_⟩
      rw [HeaderMap.getAll_insert, if_neg notType]
  | some disposition =>
      obtain ⟨value, sent, -⟩ := disposition.exists_encode
      refine ⟨_, by simp only [labelled, declared, sent]; rfl, fun name notType notDisposition => ?_⟩
      rw [HeaderMap.getAll_insert, if_neg notDisposition, HeaderMap.getAll_insert, if_neg notType]

theorem exists_cached (sendable : served.Sendable) (fields : HeaderMap) :
    ∃ kept, served.cached fields = some kept ∧
      ∀ name, Header.cacheControl ≠ name → kept.getAll name = fields.getAll name := by
  cases declared : served.cacheControl with
  | none => exact ⟨fields, by simp only [cached, declared], fun _ _ => rfl⟩
  | some text =>
      obtain ⟨value, sent⟩ := sendable.cacheControl text declared
      refine ⟨_, by simp only [cached, declared, sent]; rfl, fun name notCache => ?_⟩
      rw [HeaderMap.getAll_insert, if_neg notCache]

/-- The head of a response that carries a selection: its frame, the fields
that label it, and its length. -/
theorem exists_head (sendable : served.Sendable) {selection : Selection}
    {frame : Response (Content Stream)} (isFrame : framed (some selection) = some frame)
    (completeLength : Nat) (tag : Option HeaderValue) (label : HeaderValue) :
    ∃ kept, served.head (some selection) completeLength tag (some label) =
        some { frame with headers := sized (some selection) completeLength kept } ∧
      kept.getAll Header.contentRange = frame.headers.getAll Header.contentRange := by
  obtain ⟨labels, isLabelled, labelledFrame⟩ :=
    exists_labelled served selection label frame.headers
  obtain ⟨kept, isCached, cachedFrame⟩ :=
    exists_cached sendable (served.validators tag labels)
  refine ⟨kept, ?_, ?_⟩
  · simp only [head, isFrame, isLabelled, isCached, Option.bind_eq_bind, Option.bind_some]
  · rw [cachedFrame _ (by decide), getAll_validators tag labels (by decide) (by decide),
      labelledFrame _ (by decide) (by decide)]

/-- The head of a 304. -/
theorem exists_head_none (sendable : served.Sendable) (completeLength : Nat)
    (tag contentType : Option HeaderValue) :
    ∃ headers, served.head none completeLength tag contentType =
      some (⟨304, headers, .empty⟩ : Response (Content Stream)) ∧
        headers.getAll Header.contentRange = [] := by
  obtain ⟨kept, isCached, others⟩ :=
    exists_cached sendable (served.validators tag HeaderMap.empty)
  refine ⟨kept, ?_, ?_⟩
  · simp only [head, framed, labelled, isCached, sized, Option.bind_eq_bind, Option.bind_some]
  · rw [others _ (by decide), getAll_validators tag _ (by decide) (by decide),
      HeaderMap.getAll_empty]

/-- The head of the whole representation does not tell why it is whole. -/
theorem head_whole (reason other : Ignored) (completeLength : Nat)
    (tag contentType : Option HeaderValue) :
    (served.head (some (.whole reason)) completeLength tag contentType :
        Option (Response (Content Stream))) =
      served.head (some (.whole other)) completeLength tag contentType :=
  rfl

end Served

/-! ## The answers -/

/-- The octets from `first` to `last`, inclusive. -/
def slice (contents : Octets) (first last : Nat) : Octets :=
  (contents.drop first).take (last - first + 1)

/-- A response carries the octets from `first` to `last` of a representation of
`completeLength` octets: a `HEAD`, and an empty representation, no content, and
every other response a body which, where the source reads fully, streams exactly
these octets. -/
def Carries (source : ByteSource Error) (completeLength : Nat) (method : Method)
    (response : Response (Content (Delivered Error))) (first last : Nat) : Prop :=
  if method = Method.head ∨ completeLength = 0 then
    response.body = .empty
  else
    ∃ body, response.body = .stream (source, body) ∧
      ∀ contents, source.Serves contents →
        (slice contents first last).length = last - first + 1 ∧
          ∃ polls, ∀ fuel, polls ≤ fuel →
            body.collect source fuel = some (.ok (slice contents first last))

/-- A response gives the answer that is owed of a representation of
`completeLength` octets. -/
def Answers (source : ByteSource Error) (completeLength : Nat) (method : Method)
    (response : Response (Content (Delivered Error))) : Owed → Prop
  | .preconditionFailed => response.status = 412
  | .notModified => response.status = 304
  | .notSatisfiable => response.status = 416
  | .part first last =>
      response.status = 206 ∧ first ≤ last ∧ last < completeLength ∧
        SendsText response.headers Header.contentLength (Text.decimal (last - first + 1)) ∧
        SendsText response.headers Header.contentRange
          (ContentRange.satisfied first last completeLength).fieldValue ∧
        Carries source completeLength method response first last
  | .whole =>
      response.status = 200 ∧
        SendsText response.headers Header.contentLength (Text.decimal completeLength) ∧
        response.headers.getAll Header.contentRange = [] ∧
        Carries source completeLength method response 0 (completeLength - 1)

namespace Served

variable {served : Served Error} {completeLength : Nat} {method : Method} {headers : HeaderMap}
  {label : HeaderValue}

/-- The tag is encoded once, and compared as it is spelled. -/
theorem exists_deliver_eq (sendable : served.Sendable) :
    ∃ tag : Option HeaderValue, tag.bind HeaderValue.toStr = served.etag.map ETag.spelling ∧
      ∀ method headers contentType, served.deliver method headers contentType =
        served.answerTagged (Conditions.fromRequestParts method headers) tag contentType := by
  cases declared : served.etag with
  | none => exact ⟨none, rfl, by simp [deliver, answer, declared]⟩
  | some tag =>
      obtain ⟨value, sent⟩ := sendable.tag tag declared
      refine ⟨some value, by simp [ETag.toStr_of_encode sent], ?_⟩
      simp [deliver, answer, declared, sent]

theorem getAll_sized_contentRange (selection : Selection) (completeLength : Nat)
    (fields : HeaderMap) :
    (sized (some selection) completeLength fields).getAll Header.contentRange =
      fields.getAll Header.contentRange := by
  have different : Header.contentLength ≠ Header.contentRange := by decide
  cases selection <;> simp only [sized, HeaderMap.getAll_insert, if_neg different]

/-- A body over part of a representation streams it where its source reads
fully. -/
theorem streams {source : ByteSource Error} (complete : source.completeLength = .ok completeLength)
    {first last : Nat} (ordered : first ≤ last) (inside : last < completeLength)
    (contents : Octets) (serves : source.Serves contents) :
    (slice contents first last).length = last - first + 1 ∧
      ∃ polls, ∀ fuel, polls ≤ fuel →
        (Spans.new first last).collect source fuel = some (.ok (slice contents first last)) := by
  have length : contents.length = completeLength :=
    Except.ok.inj (serves.complete.symm.trans complete)
  refine ⟨?_, last + 2, fun fuel enough => ?_⟩
  · rw [slice, List.length_take, List.length_drop]
    omega
  · have within : (Spans.new first last).last < contents.length := by
      simp only [Spans.new]
      omega
    have collected := Spans.collect_of_serves serves fuel (Spans.new first last) within (by
      simp only [Spans.new]
      omega)
    rw [collected, slice]
    simp only [Spans.new]
    rw [show last + 1 - first = last - first + 1 by omega]

/-- A part is sent as a 206 that names it. -/
theorem send_part (complete : served.source.completeLength = .ok completeLength)
    (sendable : served.Sendable) (tag : Option HeaderValue) (label : HeaderValue)
    {first last : Nat} (ordered : first ≤ last) (inside : last < completeLength)
    (retrieval : method ≠ Method.head) :
    Answers served.source completeLength method
      (served.send method (.part first last completeLength) completeLength tag (some label))
      (.part first last) := by
  obtain ⟨value, encoded, reads⟩ :=
    (ContentRange.satisfied first last completeLength).exists_encode
  have isFrame : framed (some (.part first last completeLength)) =
      some (⟨206, (HeaderMap.empty.insert Header.acceptRanges acceptRanges).insert
        Header.contentRange value, .empty⟩ : Response (Content (Delivered Error))) := by
    simp only [framed, writeSelection, encoded, Option.map_some]
  obtain ⟨kept, isHead, range⟩ := exists_head sendable isFrame completeLength tag label
  have nonempty : completeLength ≠ 0 := Nat.ne_of_gt (Nat.lt_of_le_of_lt (Nat.zero_le _) inside)
  have content : method ≠ Method.head ∧ completeLength > 0 :=
    ⟨retrieval, Nat.pos_of_ne_zero nonempty⟩
  have sent : served.send method (.part first last completeLength) completeLength tag
      (some label) = ⟨206, sized (some (.part first last completeLength)) completeLength kept,
        .stream (served.source, Spans.new first last)⟩ := by
    simp only [send, enclosed, isHead, if_pos content]
  rw [sent]
  refine ⟨rfl, ordered, inside, ?_, ?_, ?_⟩
  · refine ⟨decimal (last - first + 1), ?_, toStr_decimal _⟩
    rw [sized, HeaderMap.getAll_insert, if_pos rfl]
  · refine ⟨value, ?_, reads⟩
    rw [getAll_sized_contentRange, range, HeaderMap.getAll_insert, if_pos rfl]
  · rw [Carries, if_neg (not_or.mpr ⟨retrieval, nonempty⟩)]
    exact ⟨Spans.new first last, rfl, streams complete ordered inside⟩

/-- The whole representation is sent as a 200. -/
theorem send_whole (complete : served.source.completeLength = .ok completeLength)
    (sendable : served.Sendable) (tag : Option HeaderValue) (label : HeaderValue)
    (reason : Ignored) :
    Answers served.source completeLength method
      (served.send method (.whole reason) completeLength tag (some label)) .whole := by
  have isFrame : framed (some (.whole reason)) =
      some (⟨200, HeaderMap.empty.insert Header.acceptRanges acceptRanges, .empty⟩ :
        Response (Content (Delivered Error))) :=
    rfl
  obtain ⟨kept, isHead, range⟩ := exists_head sendable isFrame completeLength tag label
  have different : Header.acceptRanges ≠ Header.contentRange := by decide
  have noRange : (sized (some (.whole reason)) completeLength kept).getAll
      Header.contentRange = [] := by
    rw [getAll_sized_contentRange, range, HeaderMap.getAll_insert, if_neg different,
      HeaderMap.getAll_empty]
  have length : SendsText (sized (some (.whole reason)) completeLength kept)
      Header.contentLength (Text.decimal completeLength) := by
    refine ⟨decimal completeLength, ?_, toStr_decimal _⟩
    rw [sized, HeaderMap.getAll_insert, if_pos rfl]
  by_cases content : method ≠ Method.head ∧ completeLength > 0
  · have sent : served.send method (.whole reason) completeLength tag (some label) =
        ⟨200, sized (some (.whole reason)) completeLength kept,
          .stream (served.source, Spans.new 0 (completeLength - 1))⟩ := by
      simp only [send, enclosed, isHead, if_pos content]
    rw [sent]
    refine ⟨rfl, length, noRange, ?_⟩
    rw [Carries, if_neg (not_or.mpr ⟨content.1, Nat.ne_of_gt content.2⟩)]
    exact ⟨Spans.new 0 (completeLength - 1), rfl,
      streams complete (Nat.zero_le _) (Nat.sub_one_lt_of_lt content.2)⟩
  · have sent : served.send method (.whole reason) completeLength tag (some label) =
        ⟨200, sized (some (.whole reason)) completeLength kept, .empty⟩ := by
      simp only [send, enclosed, isHead, if_neg content]
    rw [sent]
    refine ⟨rfl, length, noRange, ?_⟩
    have silent : method = Method.head ∨ completeLength = 0 := by
      by_contra both
      exact content ⟨not_or.mp both |>.1, Nat.pos_of_ne_zero (not_or.mp both).2⟩
    rw [Carries, if_pos silent]

/-- The 416 is a 416. -/
theorem status_intoResponse (rejection : RangeRejection) :
    (rejection.intoResponse : Response (Content Stream)).status = 416 := by
  cases rejection with
  | notSatisfiable completeLength =>
      obtain ⟨value, encoded, -⟩ := (ContentRange.unsatisfied completeLength).exists_encode
      simp only [RangeRejection.intoResponse, encoded, Problem.intoResponse]

/-- The algorithm answers as it decides. -/
theorem answerTagged_answers (method : Method) (headers : HeaderMap)
    (complete : served.source.completeLength = .ok completeLength) (sendable : served.Sendable)
    {tag : Option HeaderValue} {current : Option Text}
    (isCurrent : tag.bind HeaderValue.toStr = current) (label : HeaderValue) :
    ∃ response, served.answerTagged (Conditions.fromRequestParts method headers) tag
        (some label) = .ok response ∧
      Answers served.source completeLength method response
        (decision served method headers current completeLength) := by
  have kept : (Conditions.fromRequestParts method headers).method = method := rfl
  simp only [answerTagged, isCurrent, complete, kept, read_fromRequestParts, decision]
  split
  · exact ⟨_, rfl, rfl⟩
  · split
    · by_cases retrieval : validated method = true
      · obtain ⟨fields, isHead, -⟩ : ∃ fields, served.head none completeLength tag (some label) =
            some (⟨304, fields, .empty⟩ : Response (Content (Delivered Error))) ∧
              fields.getAll Header.contentRange = [] :=
          exists_head_none sendable completeLength tag (some label)
        simp only [retrieval, Bool.not_true, Bool.false_eq_true, if_false, isHead,
          Option.getD_some, if_true]
        exact ⟨_, rfl, rfl⟩
      · simp only [retrieval, Bool.not_false, if_true, Bool.false_eq_true, if_false]
        exact ⟨_, rfl, rfl⟩
    · cases selected : select (read method headers current) completeLength with
      | error rejection =>
          cases rejection
          exact ⟨_, rfl, status_intoResponse _⟩
      | ok selection =>
          cases selection with
          | whole reason => exact ⟨_, rfl, send_whole complete sendable tag label reason⟩
          | part first last total =>
              obtain ⟨rfl, nonempty, specs, found, spec, member, resolved⟩ :=
                exists_of_select_eq_part selected
              have applies := read_eq_ok_iff.mp found
              obtain ⟨line, value, -, -, parsed⟩ := applies.understood
              obtain ⟨ordered, inside⟩ :=
                resolveOne_bounds (ordered_of_parse parsed spec member) nonempty resolved
              have retrieval : method ≠ Method.head := by
                rw [applies.retrieval]
                decide
              exact ⟨_, rfl, send_part complete sendable tag label ordered inside retrieval⟩

/-! ## `HEAD` -/

theorem getAll_without_range {name : Text} (kept : name ∈ readNames) (other : name ≠ Header.range) :
    (Conditions.fromRequestParts Method.head headers).fields.getAll name =
      (Conditions.fromRequestParts Method.get (headers.remove Header.range)).fields.getAll name := by
  rw [getAll_fromRequestParts _ _ kept, getAll_fromRequestParts _ _ kept,
    HeaderMap.getAll_remove_of_ne other]

/-- The conditions hold of a `HEAD` as of the `GET` without a range. -/
theorem conditions_without_range (served : Served Error) (headers : HeaderMap)
    (current : Option Text) :
    served.preconditionFailed (Conditions.fromRequestParts Method.head headers) current =
        served.preconditionFailed
          (Conditions.fromRequestParts Method.get (headers.remove Header.range)) current ∧
      served.unmodified (Conditions.fromRequestParts Method.head headers) current =
        served.unmodified
          (Conditions.fromRequestParts Method.get (headers.remove Header.range)) current := by
  constructor
  · simp only [preconditionFailed, ETag.ifMatch, singleDate,
      getAll_without_range (show Header.ifMatch ∈ readNames by decide) (by decide),
      getAll_without_range (show Header.ifUnmodifiedSince ∈ readNames by decide) (by decide)]
  · have methods : validated (Conditions.fromRequestParts Method.head headers).method =
        validated (Conditions.fromRequestParts Method.get (headers.remove Header.range)).method :=
      rfl
    simp only [unmodified, ETag.ifNoneMatch, singleDate, methods,
      getAll_without_range (show Header.ifNoneMatch ∈ readNames by decide) (by decide),
      getAll_without_range (show Header.ifModifiedSince ∈ readNames by decide) (by decide)]

theorem exists_read_head (headers : HeaderMap) (current : Option Text) :
    ∃ reason, read Method.head headers current = .error reason := by
  have undefined : Method.head ≠ Method.get := by decide
  cases sent : headers.getAll Header.range with
  | nil => exact ⟨.absent, by simp only [read, sent]⟩
  | cons line more => exact ⟨.methodUndefined, by simp only [read, sent, if_pos undefined]⟩

theorem read_without_range (method : Method) (headers : HeaderMap) (current : Option Text) :
    read method (headers.remove Header.range) current = .error .absent := by
  simp only [read, HeaderMap.getAll_remove_self]

/-- A `HEAD` is answered as the `GET` that asks for no range, without content. -/
theorem answerTagged_head (headers : HeaderMap)
    (complete : served.source.completeLength = .ok completeLength) (sendable : served.Sendable)
    (tag : Option HeaderValue) (label : HeaderValue) :
    ∃ response twin,
      served.answerTagged (Conditions.fromRequestParts Method.head headers) tag (some label) =
        .ok response ∧
      served.answerTagged
          (Conditions.fromRequestParts Method.get (headers.remove Header.range)) tag (some label) =
        .ok twin ∧
      response.status = twin.status ∧ response.headers = twin.headers ∧
      response.body = .empty := by
  obtain ⟨refusals, validations⟩ :=
    conditions_without_range served headers (tag.bind HeaderValue.toStr)
  obtain ⟨reason, whole⟩ := exists_read_head headers (tag.bind HeaderValue.toStr)
  have headMethod : (Conditions.fromRequestParts Method.head headers).method = Method.head := rfl
  have getMethod : (Conditions.fromRequestParts Method.get
      (headers.remove Header.range)).method = Method.get := rfl
  have retrievals : validated Method.head = true ∧ validated Method.get = true := by decide
  simp only [answerTagged, complete, refusals, validations, headMethod, getMethod,
    retrievals, read_fromRequestParts, whole, read_without_range, select_error]
  split
  · exact ⟨_, _, rfl, rfl, rfl, rfl, rfl⟩
  · split
    · obtain ⟨fields, isHead, -⟩ : ∃ fields, served.head none completeLength tag (some label) =
          some (⟨304, fields, .empty⟩ : Response (Content (Delivered Error))) ∧
            fields.getAll Header.contentRange = [] :=
        exists_head_none sendable completeLength tag (some label)
      simp only [isHead, Option.getD_some, Bool.not_true, Bool.false_eq_true, if_false]
      exact ⟨_, _, rfl, rfl, rfl, rfl, rfl⟩
    · obtain ⟨kept, isHead, -⟩ : ∃ kept, served.head (some (.whole reason)) completeLength tag
          (some label) = some (⟨200, kept, .empty⟩ : Response (Content (Delivered Error))) ∧ True := by
        have framing : framed (some (.whole reason)) =
            some (⟨200, _, .empty⟩ : Response (Content (Delivered Error))) := rfl
        obtain ⟨kept, isHead, -⟩ := exists_head sendable framing completeLength tag label
        exact ⟨_, isHead, trivial⟩
      refine ⟨_, _, rfl, rfl, ?_⟩
      have twinHead := isHead
      rw [head_whole reason .absent] at twinHead
      have silent : ¬(Method.head ≠ Method.head ∧ completeLength > 0) := fun both => both.1 rfl
      simp only [send, enclosed, isHead, twinHead, if_neg silent]
      split <;> exact ⟨rfl, rfl, trivial⟩

/-- A representation whose fields can be sent, from a source that knows its
length, is delivered as the one answer the request is owed: its status, its range
fields, its length and, where the source reads fully, its octets. A `HEAD` has the status and the fields of
the `GET` without a range, and no content. -/
theorem deliver_answers (served : Served Error) (completeLength : Nat)
    (complete : served.source.completeLength = .ok completeLength) (sendable : served.Sendable)
    (method : Method) (headers : HeaderMap) (label : HeaderValue) :
    ∃ owed response,
      (∀ other, Owes method headers
        ⟨served.etag.map ETag.spelling, served.lastModified, completeLength⟩ other ↔
          other = owed) ∧
      served.deliver method headers (some label) = .ok response ∧
      Answers served.source completeLength method response owed ∧
      (method = Method.head →
        ∃ twin, served.deliver Method.get (headers.remove Header.range) (some label) = .ok twin ∧
          response.status = twin.status ∧ response.headers = twin.headers ∧
          response.body = .empty) := by
  obtain ⟨tag, spelled, delivered⟩ := exists_deliver_eq sendable
  obtain ⟨response, answered, answers⟩ :=
    answerTagged_answers method headers complete sendable spelled label
  refine ⟨_, response, fun other => owes_iff, (delivered _ _ _).trans answered, answers, ?_⟩
  rintro rfl
  obtain ⟨headResponse, twin, headAnswered, twinAnswered, status, fields, silent⟩ :=
    answerTagged_head headers complete sendable tag label
  cases answered.symm.trans headAnswered
  exact ⟨twin, (delivered _ _ _).trans twinAnswered, status, fields, silent⟩

/-- Three octets in memory, under a tag. -/
def clip (etag : ETag) : Served Empty where
  source := inMemory [1, 2, 3]
  etag := some etag
  lastModified := some (Date.ofSeconds 784111777)
  cacheControl := some "no-cache".toList
  disposition := some ⟨.attachment, some "clip.mp4".toList⟩

/-- A request for two of the three octets. -/
def clipHeaders : HeaderMap :=
  HeaderMap.empty.append Header.range ⟨Text.toOctets "bytes=1-".toList, by decide⟩

/-- A media type label. -/
def clipLabel : HeaderValue :=
  ⟨Text.toOctets "video/mp4".toList, by decide⟩

theorem deliver_answers_clip :
    ∃ owed response,
      (∀ other, Owes Method.get clipHeaders
        ⟨(clip ⟨"r3".toList, false⟩).etag.map ETag.spelling,
          (clip ⟨"r3".toList, false⟩).lastModified, 3⟩ other ↔ other = owed) ∧
      (clip ⟨"r3".toList, false⟩).deliver Method.get clipHeaders (some clipLabel) = .ok response ∧
      Answers (clip ⟨"r3".toList, false⟩).source 3 Method.get response owed ∧
      (Method.get = Method.head →
        ∃ twin, (clip ⟨"r3".toList, false⟩).deliver Method.get
            (clipHeaders.remove Header.range) (some clipLabel) = .ok twin ∧
          response.status = twin.status ∧ response.headers = twin.headers ∧
          response.body = .empty) :=
  deliver_answers (clip ⟨"r3".toList, false⟩) 3 rfl
    { tag := by
        rintro tag ⟨⟩
        exact ⟨_, rfl⟩
      cacheControl := by
        rintro text ⟨⟩
        exact ⟨_, rfl⟩ }
    Method.get clipHeaders clipLabel

/-- A tag that cannot be spelled is answered with a 500, which is no answer a
request is owed. -/
theorem deliver_unspellable :
    ¬∀ (served : Served Empty) (completeLength : Nat),
      served.source.completeLength = .ok completeLength → ∀ (method : Method) (headers : HeaderMap) (label : HeaderValue),
        ∃ owed response,
          (∀ other, Owes method headers
            ⟨served.etag.map ETag.spelling, served.lastModified, completeLength⟩ other ↔
              other = owed) ∧
          served.deliver method headers (some label) = .ok response ∧
          Answers served.source completeLength method response owed := by
  intro answered
  obtain ⟨owed, response, -, delivered, answers⟩ :=
    answered (clip ⟨['"'], false⟩) 3 rfl Method.get HeaderMap.empty clipLabel
  have isRefused : (clip ⟨['"'], false⟩).deliver Method.get HeaderMap.empty (some clipLabel) =
      .ok refused :=
    rfl
  cases isRefused.symm.trans delivered
  cases owed with
  | preconditionFailed => cases answers
  | notModified => cases answers
  | notSatisfiable => cases answers
  | part first last => cases answers.1
  | whole => cases answers.1

end Served

end Kynos.Range
