import Kynos.Range.Delivery
import Kynos.Router.Fallback
import Kynos.Router.Assets

/-!
# Files and sources answer alike

A file compiled into the binary and a representation read from memory evaluate
the same conditions and the same range through different code.  Of the same
octets under the same strong tag they give the same answer.
-/

namespace Kynos.Range

open Kynos.Http Kynos.Numeral

variable {Stream Error : Type}

/-- The `Content-Range` lines a selection is sent with. -/
def Selection.rangeLines : Selection → List HeaderValue
  | .whole _ => []
  | .part first last completeLength =>
      (ContentRange.satisfied first last completeLength).encode.toList

/-- A selection is always written: its status, its `Content-Range`, and nothing
on the content. -/
theorem exists_writeSelection (selection : Selection) (response : Response (Content Stream))
    (ok : response.status = 200) (fresh : response.headers.getAll Header.contentRange = []) :
    ∃ written, writeSelection response selection = some written ∧
      written.status = selection.status ∧
      written.headers.getAll Header.contentRange = selection.rangeLines ∧
      written.body = response.body := by
  have different : Header.acceptRanges ≠ Header.contentRange := by decide
  cases selection with
  | whole reason =>
      refine ⟨_, rfl, ok, ?_, rfl⟩
      rw [HeaderMap.getAll_insert, if_neg different, fresh, Selection.rangeLines]
  | part first last completeLength =>
      obtain ⟨value, encoded, -⟩ :=
        (ContentRange.satisfied first last completeLength).exists_encode
      refine ⟨{ response with
        status := 206
        headers := (response.headers.insert Header.acceptRanges acceptRanges).insert
          Header.contentRange value }, ?_, rfl, ?_, rfl⟩
      · simp only [writeSelection, encoded, Option.map_some]
      · rw [HeaderMap.getAll_insert, if_pos rfl, Selection.rangeLines, encoded,
          Option.toList_some]

/-- A response made of a selection: its status and its `Content-Range`. -/
structure Frames (response : Response (Content Stream)) (selection : Selection) : Prop where
  status : response.status = selection.status
  range : response.headers.getAll Header.contentRange = selection.rangeLines

/-- What a source is sent as frames the selection; its content goes with all but
a `HEAD` and an empty representation. -/
theorem Served.send_frames {served : Served Error} (sendable : served.Sendable)
    (method : Method) (selection : Selection) (completeLength : Nat) (tag : Option HeaderValue)
    (label : HeaderValue) :
    Frames (served.send method selection completeLength tag (some label)) selection ∧
      (served.send method selection completeLength tag (some label)).body =
        if method ≠ Method.head ∧ completeLength > 0 then
          .stream (served.source, Spans.new (enclosed selection completeLength).1
            (enclosed selection completeLength).2)
        else
          .empty := by
  obtain ⟨frame, isFrame, status, range, body⟩ :=
    exists_writeSelection selection
      (⟨200, HeaderMap.empty, .empty⟩ : Response (Content (Delivered Error))) rfl rfl
  obtain ⟨kept, isHead, keptRange⟩ := exists_head sendable isFrame completeLength tag label
  have different : Header.contentLength ≠ Header.contentRange := by decide
  have frames : Frames { frame with headers := sized (some selection) completeLength kept }
      selection := by
    refine ⟨status, ?_⟩
    rw [getAll_sized_contentRange, keptRange, range]
  simp only [send, isHead]
  split
  · exact ⟨⟨frames.status, frames.range⟩, rfl⟩
  · exact ⟨frames, body⟩

end Kynos.Range

namespace Kynos.Router.Assets

open Kynos.Http Kynos.Numeral Kynos.Range

/-! ## The file -/

theorem getAll_write {name : Text} (group : List (Text × HeaderValue)) (fields : HeaderMap)
    (others : ∀ line ∈ group, line.1 ≠ name) :
    (write fields group).getAll name = fields.getAll name := by
  induction group generalizing fields with
  | nil => rfl
  | cons line rest ih =>
      have first := others line List.mem_cons_self
      rw [write, List.foldl_cons]
      refine (ih _ fun other member => others other (List.mem_cons_of_mem _ member)).trans ?_
      rw [HeaderMap.getAll_insert, if_neg first]

/-- No asset field is a `Content-Range`. -/
theorem AssetHeaders.name_ne_contentRange (group : AssetHeaders) :
    ∀ line ∈ group.encode, line.1 ≠ Header.contentRange := by
  have names : Header.etag ≠ Header.contentRange ∧ Header.cacheControl ≠ Header.contentRange ∧
      Header.contentEncoding ≠ Header.contentRange ∧ Header.vary ≠ Header.contentRange := by
    decide
  intro line member
  simp only [encode, List.mem_append, Option.mem_toList, Option.map_eq_some_iff] at member
  rcases member with ((⟨_, -, rfl⟩ | ⟨_, -, rfl⟩) | ⟨_, -, rfl⟩) | member
  · exact names.1
  · exact names.2.1
  · exact names.2.2.1
  · split at member
    · rw [List.mem_singleton] at member
      exact member ▸ names.2.2.2
    · cases member

theorem assembled_frames (body : Octets) (selection : Selection) (mediaType : Text)
    (headers : AssetHeaders) :
    Frames (assembled body selection mediaType headers) selection ∧
      (assembled body selection mediaType headers).body = .stream body := by
  have different : Header.contentType ≠ Header.contentRange := by decide
  have fresh : (write (typed mediaType) headers.encode).getAll Header.contentRange = [] := by
    rw [getAll_write _ _ headers.name_ne_contentRange, typed]
    split
    · rw [HeaderMap.getAll_insert, if_neg different, HeaderMap.getAll_empty]
    · rfl
  obtain ⟨written, isWritten, status, range, sent⟩ :=
    exists_writeSelection selection ⟨200, write (typed mediaType) headers.encode, .stream body⟩
      rfl fresh
  rw [assembled, isWritten, Option.getD_some]
  exact ⟨⟨status, range⟩, sent⟩

/-! ## The agreement -/

/-- The octets of content in hand. -/
def Holds (octets : Octets) : Content Octets → Prop
  | .empty => octets = []
  | .problem _ => False
  | .stream held => held = octets

/-- The octets of content that is streamed, read to its end. -/
def Streams (octets : Octets) : Content (Delivered Empty) → Prop
  | .empty => octets = []
  | .problem _ => False
  | .stream (source, body) =>
      ∃ polls, ∀ fuel, polls ≤ fuel → body.collect source fuel = some (.ok octets)

/-- A file and a representation of the same octets under the same strong tag,
neither with a stored coding nor with a date; the `Cache-Control` of the
representation, if it has one, is a field value. -/
structure SameFile (endpoint : AssetEndpoint) (served : Served Empty) (value : Text) : Prop where
  plain : endpoint.asset.encodings = []
  visible : value.toOctets.all ETag.isEtagc = true
  tagged : endpoint.asset.etag = (ETag.mk value false).spelling
  source : served.source = inMemory endpoint.asset.bytes
  etag : served.etag = some ⟨value, false⟩
  undated : served.lastModified = none
  reusable : ∀ text, served.cacheControl = some text →
    ∃ field, HeaderValue.fromStr text = some field

namespace SameFile

variable {endpoint : AssetEndpoint} {served : Served Empty} {value : Text}

/-- A tag of visible ASCII can be sent. -/
theorem sendable (same : SameFile endpoint served value) : served.Sendable where
  tag tag declared := by
    rw [same.etag, Option.some.injEq] at declared
    subst tag
    obtain ⟨field, sent, -⟩ := ETag.exists_encode (show (ETag.mk value false).value.toOctets.all _ = true from same.visible)
    exact ⟨field, sent⟩
  cacheControl := same.reusable

theorem complete (same : SameFile endpoint served value) :
    served.source.completeLength = .ok endpoint.asset.bytes.length := by
  rw [same.source]
  exact (inMemory_serves endpoint.asset.bounded).complete

/-- The file is chosen as it is. -/
theorem choose (same : SameFile endpoint served value) (fields : HeaderMap) :
    endpoint.choose fields = ⟨endpoint.asset.bytes, (ETag.mk value false).spelling, none⟩ := by
  rw [AssetEndpoint.choose, same.plain, List.isEmpty_nil, if_pos rfl, AssetEndpoint.identity,
    same.tagged]

/-- The source is delivered under the tag the file has. -/
theorem exists_deliver (same : SameFile endpoint served value) :
    ∃ tag : Option HeaderValue, tag.bind HeaderValue.toStr = some (ETag.mk value false).spelling ∧
      ∀ method headers contentType, served.deliver method headers contentType =
        served.answerTagged (Conditions.fromRequestParts method headers) tag contentType := by
  obtain ⟨tag, spelled, delivered⟩ := Served.exists_deliver_eq same.sendable
  refine ⟨tag, ?_, delivered⟩
  rw [spelled, same.etag, Option.map_some]

/-- Without a date, `If-Match` alone refuses a request. -/
theorem preconditionFailed (same : SameFile endpoint served value) (method : Method)
    (headers : HeaderMap) (current : Option Text) :
    served.preconditionFailed (Conditions.fromRequestParts method headers) current =
      (ETag.ifMatch headers current == some false) := by
  have kept : ETag.ifMatch (Conditions.fromRequestParts method headers).fields current =
      ETag.ifMatch headers current := by
    have lines := getAll_fromRequestParts method headers
      (show Header.ifMatch ∈ readNames by decide)
    simp only [ETag.ifMatch, lines]
  rw [Served.preconditionFailed, kept, same.undated]
  cases ETag.ifMatch headers current with
  | none => rfl
  | some holds => cases holds <;> rfl

/-- Without a date, `If-None-Match` alone validates a copy. -/
theorem unmodified (same : SameFile endpoint served value) (method : Method)
    (headers : HeaderMap) (current : Option Text) :
    served.unmodified (Conditions.fromRequestParts method headers) current =
      (ETag.ifNoneMatch headers current == some true) := by
  have kept : ETag.ifNoneMatch (Conditions.fromRequestParts method headers).fields current =
      ETag.ifNoneMatch headers current := by
    have lines := getAll_fromRequestParts method headers
      (show Header.ifNoneMatch ∈ readNames by decide)
    simp only [ETag.ifNoneMatch, lines]
  rw [Served.unmodified, kept, same.undated]
  cases ETag.ifNoneMatch headers current with
  | none => simp
  | some named => cases named <;> rfl

/-- What a selection of a request's range encloses of the file is sent alike. -/
theorem streams (same : SameFile endpoint served value) {selection : Selection}
    (bounds : ∀ first last total, selection = .part first last total →
      first ≤ last ∧ last < endpoint.asset.bytes.length) (nonempty : endpoint.asset.bytes ≠ []) :
    Streams (taken endpoint.asset.bytes selection) (.stream (served.source,
      Spans.new (Served.enclosed selection endpoint.asset.bytes.length).1
        (Served.enclosed selection endpoint.asset.bytes.length).2)) := by
  have serves := inMemory_serves endpoint.asset.bounded
  have positive := List.length_pos_iff.mpr nonempty
  rw [same.source]
  cases selection with
  | whole reason =>
      obtain ⟨-, polls, collects⟩ := Served.streams serves.complete (Nat.zero_le _)
        (Nat.sub_one_lt_of_lt positive) endpoint.asset.bytes serves
      refine ⟨polls, fun fuel enough => (collects fuel enough).trans ?_⟩
      rw [slice, List.drop_zero, List.take_of_length_le (by omega), taken]
  | part first last total =>
      obtain ⟨ordered, inside⟩ := bounds first last total rfl
      obtain ⟨-, polls, collects⟩ :=
        Served.streams serves.complete ordered inside endpoint.asset.bytes serves
      refine ⟨polls, fun fuel enough => (collects fuel enough).trans ?_⟩
      rw [slice, taken, clamped_eq ordered inside]

end SameFile

/-- The two responses to one request: the same status and the same
`Content-Range`; to a `GET`, the same octets on a 200 and a 206, and to a
`HEAD`, none from either once the router has finished both. -/
structure Agree (method : Method) (file : Response (Content Octets))
    (source : Response (Content (Delivered Empty))) : Prop where
  status : file.status = source.status
  range : file.headers.getAll Header.contentRange = source.headers.getAll Header.contentRange
  octets : method = Method.get → source.status = 200 ∨ source.status = 206 →
    ∃ octets, Holds octets file.body ∧ Streams octets source.body
  silent : method = Method.head → ∀ fileLength sourceLength,
    Holds [] (finish method fileLength file).body ∧
      Streams [] (finish method sourceLength source).body

/-- The same octets are sent as the selection encloses. -/
theorem agree_of_selection {endpoint : AssetEndpoint} {served : Served Empty} {value : Text}
    (same : SameFile endpoint served value) (method : Method) {selection : Selection}
    (bounds : ∀ first last total, selection = .part first last total →
      first ≤ last ∧ last < endpoint.asset.bytes.length)
    (whole : endpoint.asset.bytes = [] → ∃ reason, selection = .whole reason)
    (headers : AssetHeaders) (tag : Option HeaderValue) (label : HeaderValue) :
    Agree method
      (assembled (taken endpoint.asset.bytes selection) selection endpoint.asset.mediaType headers)
      (served.send method selection endpoint.asset.bytes.length tag (some label)) := by
  obtain ⟨⟨fileStatus, fileRange⟩, fileBody⟩ := assembled_frames
    (taken endpoint.asset.bytes selection) selection endpoint.asset.mediaType headers
  obtain ⟨⟨sourceStatus, sourceRange⟩, sourceBody⟩ := Served.send_frames same.sendable method
    selection endpoint.asset.bytes.length tag label
  refine ⟨fileStatus.trans sourceStatus.symm, fileRange.trans sourceRange.symm, ?_, ?_⟩
  · rintro rfl -
    have retrieval : Method.get ≠ Method.head := by decide
    refine ⟨taken endpoint.asset.bytes selection, ?_, ?_⟩
    · rw [fileBody]
      rfl
    · by_cases nonempty : endpoint.asset.bytes = []
      · obtain ⟨reason, rfl⟩ := whole nonempty
        rw [sourceBody, nonempty]
        rfl
      · rw [sourceBody, if_pos ⟨retrieval, List.length_pos_iff.mpr nonempty⟩]
        exact same.streams bounds nonempty
  · rintro rfl fileLength sourceLength
    rw [body_finish_head, body_finish_head]
    exact ⟨rfl, rfl⟩

/-- Responses without content agree where their statuses and ranges do. -/
theorem agree_of_status {method : Method} {file : Response (Content Octets)}
    {source : Response (Content (Delivered Empty))} (status : file.status = source.status)
    (other : source.status ≠ 200 ∧ source.status ≠ 206)
    (range : file.headers.getAll Header.contentRange =
      source.headers.getAll Header.contentRange) : Agree method file source := by
  refine ⟨status, range, fun _ sent => ?_, ?_⟩
  · rcases sent with ok | part
    · exact absurd ok other.1
    · exact absurd part other.2
  · rintro rfl fileLength sourceLength
    rw [body_finish_head, body_finish_head]
    exact ⟨rfl, rfl⟩

/-- A 416 is the same of any content. -/
theorem agree_of_rejection (method : Method) (rejection : RangeRejection) :
    Agree method rejection.intoResponse rejection.intoResponse := by
  cases rejection with
  | notSatisfiable completeLength =>
      obtain ⟨field, encoded, -⟩ := (ContentRange.unsatisfied completeLength).exists_encode
      refine agree_of_status ?_ ?_ ?_ <;>
        simp [RangeRejection.intoResponse, encoded, Problem.intoResponse]

/-- What a request's range selects lies within the representation, and of an
empty one it is the whole. -/
theorem selection_bounds {method : Method} {headers : HeaderMap} {current : Option Text}
    {completeLength : Nat} {selection : Selection}
    (selected : select (read method headers current) completeLength = .ok selection) :
    (∀ first last total, selection = .part first last total →
      first ≤ last ∧ last < completeLength) ∧
    (completeLength = 0 → ∃ reason, selection = .whole reason) := by
  constructor
  · rintro first last total rfl
    obtain ⟨rfl, nonempty, specs, found, spec, member, resolved⟩ :=
      exists_of_select_eq_part selected
    obtain ⟨line, value, -, -, parsed⟩ := (read_eq_ok_iff.mp found).understood
    exact resolveOne_bounds (ordered_of_parse parsed spec member) nonempty resolved
  · rintro rfl
    cases selection with
    | whole reason => exact ⟨reason, rfl⟩
    | part first last total =>
        obtain ⟨-, nonempty, -⟩ := exists_of_select_eq_part selected
        exact absurd nonempty (Nat.lt_irrefl 0)

theorem preconditionFailed_of_eq {fields : HeaderMap} {current : Option Text}
    (refused : ETag.ifMatch fields current = some false) :
    preconditionFailed fields current = some (bodiless 412) := by
  rw [preconditionFailed, refused]

theorem preconditionFailed_of_ne {fields : HeaderMap} {current : Option Text}
    (passed : ETag.ifMatch fields current ≠ some false) :
    preconditionFailed fields current = none := by
  unfold preconditionFailed
  split
  · rfl
  · rfl
  · contradiction

/-- A file without stored codings and a source of its octets under its tag
answer every `GET` and every `HEAD` alike. -/
theorem call_agrees {endpoint : AssetEndpoint} {served : Served Empty} {value : Text}
    (same : SameFile endpoint served value) {method : Method}
    (retrieval : method = Method.get ∨ method = Method.head) (headers : HeaderMap)
    (label : HeaderValue) :
    ∃ response, served.deliver method headers (some label) = .ok response ∧
      Agree method (endpoint.call method headers) response := by
  obtain ⟨tag, spelled, delivered⟩ := same.exists_deliver
  have kept : (Conditions.fromRequestParts method headers).method = method := rfl
  have valid : validated method = true := by rcases retrieval with rfl | rfl <;> decide
  simp only [delivered, Served.answerTagged, spelled, same.complete, same.preconditionFailed,
    same.unmodified, kept, read_fromRequestParts, valid, AssetEndpoint.call, same.choose]
  by_cases refused : ETag.ifMatch headers (some (ETag.mk value false).spelling) = some false
  · simp only [refused, beq_self_eq_true, if_true, preconditionFailed_of_eq refused]
    exact ⟨bodiless 412, rfl, agree_of_status rfl (by decide) rfl⟩
  · simp only [preconditionFailed_of_ne refused, beq_eq_false_iff_ne.mpr refused,
      Bool.false_eq_true, if_false]
    by_cases named : ETag.ifNoneMatch headers (some (ETag.mk value false).spelling) = some true
    · obtain ⟨fields, isHead, unranged⟩ : ∃ fields, served.head none
          endpoint.asset.bytes.length tag (some label) =
            some (⟨304, fields, .empty⟩ : Response (Content (Delivered Empty))) ∧
              fields.getAll Header.contentRange = [] :=
        Served.exists_head_none same.sendable _ tag (some label)
      simp only [named, beq_self_eq_true, if_true, Bool.not_true, Bool.false_eq_true, if_false,
        isHead, Option.getD_some]
      refine ⟨_, rfl, agree_of_status rfl ⟨by simp, by simp⟩ ?_⟩
      rw [unranged, getAll_write _ _ (AssetHeaders.name_ne_contentRange _), HeaderMap.getAll_empty]
    · simp only [beq_eq_false_iff_ne.mpr named, named, Bool.false_eq_true, if_false, respond,
        min_eq_left endpoint.asset.bounded]
      cases selected : select (read method headers (some (ETag.mk value false).spelling))
          endpoint.asset.bytes.length with
      | error rejection => exact ⟨_, rfl, agree_of_rejection method rejection⟩
      | ok selection =>
          obtain ⟨bounds, whole⟩ := selection_bounds selected
          exact ⟨_, rfl, agree_of_selection same method bounds
            (fun empty => whole (by rw [empty]; rfl)) _ tag label⟩

/-- A file of three octets, without stored codings. -/
def page : AssetEndpoint where
  asset := ⟨"index.html".toList, [1, 2, 3], by decide, (ETag.mk ['v'] false).spelling, []⟩
  cacheControl := none

/-- The same octets in memory, under the same tag. -/
def pageSource : Served Empty where
  source := inMemory [1, 2, 3]
  etag := some ⟨['v'], false⟩
  lastModified := none
  cacheControl := none
  disposition := none

theorem page_sameFile : SameFile page pageSource ['v'] :=
  ⟨rfl, by decide, rfl, rfl, rfl, rfl, by simp [pageSource]⟩

/-- A media type label. -/
def pageLabel : HeaderValue :=
  ⟨Text.toOctets "text/html".toList, by decide⟩

theorem call_agrees_page :
    ∃ response, pageSource.deliver Method.get HeaderMap.empty (some pageLabel) = .ok response ∧
      Agree Method.get (page.call Method.get HeaderMap.empty) response :=
  call_agrees page_sameFile (.inl rfl) HeaderMap.empty pageLabel

/-- Before the router finishes them, the two answers to a `HEAD` differ in their
content: the file is sent whole and the source is not read. -/
theorem call_head_differs :
    ¬∀ (endpoint : AssetEndpoint) (served : Served Empty) (value : Text),
      SameFile endpoint served value → ∀ method, method = Method.get ∨ method = Method.head →
        ∀ (headers : HeaderMap) (label : HeaderValue),
          ∃ response, served.deliver method headers (some label) = .ok response ∧
            (response.status = 200 ∨ response.status = 206 →
              ∃ octets, Holds octets (endpoint.call method headers).body ∧
                Streams octets response.body) := by
  intro agree
  obtain ⟨response, delivered, octets⟩ :=
    agree page pageSource ['v'] page_sameFile Method.head (.inr rfl) HeaderMap.empty pageLabel
  have answered : ∃ fields, pageSource.deliver Method.head HeaderMap.empty (some pageLabel) =
      .ok ⟨200, fields, .empty⟩ := ⟨_, rfl⟩
  obtain ⟨fields, answered⟩ := answered
  cases answered.symm.trans delivered
  obtain ⟨octets, held, streamed⟩ := octets (.inl rfl)
  cases streamed
  have sent : (page.call Method.head HeaderMap.empty).body = .stream [1, 2, 3] := rfl
  rw [sent] at held
  cases held

end Kynos.Router.Assets
