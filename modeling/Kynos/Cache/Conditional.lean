import Kynos.Cache.Freshness
import Kynos.Http.EntityTags
import Kynos.Http.Problem
import Kynos.Run.Runs
import Mathlib

/-!
# Revalidating what a client holds

The interceptor that answers a retrieval with a 304 where the client's copy is
current, and a client that keeps the last 200 it was given and asks with the tag of
it. Exchange by exchange, such a client sees what it would see without the
interceptor.
-/

namespace Kynos.Http.Header

def contentLocation : Text := "content-location".toList

end Kynos.Http.Header

namespace Kynos.Conditional

open Kynos.Http Kynos.Run

variable {Stream : Type}

/-! ## The interceptor -/

/-- `Preconditions`: the lines of `If-None-Match` that are visible ASCII. -/
structure Preconditions where
  ifNoneMatch : Option (List HeaderValue)

/-- `Preconditions::decode`. -/
def Preconditions.decode (fields : HeaderMap) : Preconditions :=
  match (fields.getAll Header.ifNoneMatch).filter fun line => line.toStr.isSome with
  | [] => ⟨none⟩
  | lines => ⟨some lines⟩

/-- `REPLAYED`: the fields a 304 carries. -/
def replayed : List Text :=
  [Header.cacheControl, Header.contentLocation, Header.date, Header.etag, Header.expires, Header.vary,
    Header.age, Header.lastModified]

/-- `NotModified::from_headers`. -/
def notModified (headers : HeaderMap) : HeaderMap :=
  replayed.foldl (fun fields name =>
    (headers.getAll name).foldl (fun fields value => fields.append name value) fields) HeaderMap.empty

/-- `answers_not_modified`. -/
def answersNotModified (method : Method) : Bool :=
  method == Method.get || method == Method.head || method == Method.query

/-- Whether the client's copy is the one the response carries. -/
def matched (lines : List HeaderValue) (headers : HeaderMap) : Bool :=
  match (headers.get Header.etag).bind HeaderValue.toStr with
  | none => false
  | some current => lines.any fun line => ETag.matches line current

/-- `intercept`, of what the chain returned. -/
def intercept (method : Method) (reads : Preconditions) (continued : Response (Content Stream)) :
    Response (Content Stream) :=
  match reads.ifNoneMatch.filter fun _ => answersNotModified method with
  | none => continued
  | some lines =>
      if continued.status ≠ 200 then
        continued
      else if matched lines continued.headers then
        ⟨304, notModified continued.headers, .empty⟩
      else
        continued

/-! ## Fields of a 304 -/

theorem getAll_foldl_append (values : List HeaderValue) (fields : HeaderMap) (name other : Text) :
    (values.foldl (fun fields value => fields.append name value) fields).getAll other =
      fields.getAll other ++ if name = other then values else [] := by
  induction values generalizing fields with
  | nil => simp
  | cons value values ih =>
      rw [List.foldl_cons, ih, HeaderMap.getAll_append]
      split
      · rw [List.append_assoc, List.singleton_append]
      · rfl

/-- A 304 carries the lines of the fields it replays, and no others. -/
theorem getAll_notModified (headers : HeaderMap) (name : Text) :
    (notModified headers).getAll name = if name ∈ replayed then headers.getAll name else [] := by
  suffices ∀ (names : List Text) (fields : HeaderMap), names.Nodup →
      (names.foldl (fun fields name =>
        (headers.getAll name).foldl (fun fields value => fields.append name value) fields)
        fields).getAll name = fields.getAll name ++ if name ∈ names then headers.getAll name else [] by
    rw [notModified, this replayed HeaderMap.empty (by decide), HeaderMap.getAll_empty, List.nil_append]
  intro names
  induction names with
  | nil => simp
  | cons first names ih =>
      intro fields distinct
      rw [List.nodup_cons] at distinct
      rw [List.foldl_cons, ih _ distinct.2, getAll_foldl_append, List.append_assoc]
      by_cases isFirst : first = name
      · subst isFirst
        rw [if_pos rfl, if_neg distinct.1, if_pos List.mem_cons_self, List.append_nil]
      · rw [if_neg isFirst, List.nil_append]
        simp only [List.mem_cons, Ne.symm isFirst, false_or]

/-! ## A client -/

/-- The fields of a stored response, each replaced by what a 304 has of it. -/
def freshened (stored received : HeaderMap) : HeaderMap :=
  ⟨stored.lines.filter (fun line => (received.getAll line.1).isEmpty) ++ received.lines⟩

/-- What a client holds: the last 200 it was given. -/
abbrev Client (Stream : Type) := Option (Response (Content Stream))

namespace Client

/-- A request that names the tag of what is stored. -/
def ask (client : Client Stream) : HeaderMap :=
  match client.bind fun stored => stored.headers.get Header.etag with
  | none => HeaderMap.empty
  | some tag => HeaderMap.empty.append Header.ifNoneMatch tag

/-- What the client sees of a response. -/
def sees (client : Client Stream) (received : Response (Content Stream)) : Response (Content Stream) :=
  match client with
  | none => received
  | some stored =>
      if received.status = 304 then
        { stored with headers := freshened stored.headers received.headers }
      else
        received

/-- The response the client is sent, where a plain request would be given one. -/
def sent (method : Method) (client : Client Stream) (current : Response (Content Stream)) :
    Response (Content Stream) :=
  intercept method (Preconditions.decode client.ask) current

/-- One exchange. -/
def exchange (method : Method) (client : Client Stream) (current : Response (Content Stream)) :
    Client Stream :=
  let seen := client.sees (client.sent method current)
  if seen.status = 200 then some seen else client

end Client

/-! ## Tags -/

/-- The tag of a response, where it has one. -/
inductive TaggedBy (response : Response (Content Stream)) : Option ETag → Prop where
  | untagged (absent : response.headers.getAll Header.etag = []) : TaggedBy response none
  | tagged {tag : ETag} {value : HeaderValue} (encodes : tag.encode = some value)
      (sends : response.headers.getAll Header.etag = [value]) : TaggedBy response (some tag)

/-- Responses of which no two have one tag and different content. -/
structure Faithful (responses : List (Response (Content Stream))) : Prop where
  tagged : ∀ response ∈ responses, ∃ tag, TaggedBy response tag
  plain : ∀ response ∈ responses, response.status ≠ 304
  apart : ∀ response ∈ responses, ∀ other ∈ responses, ∀ tag otherTag, response.status = 200 →
    other.status = 200 → TaggedBy response (some tag) → TaggedBy other (some otherTag) →
    tag.value = otherTag.value → response.body = other.body

theorem Faithful.of_append {responses : List (Response (Content Stream))} {current : Response (Content Stream)}
    (faithful : Faithful (responses ++ [current])) : Faithful responses where
  tagged response member := faithful.tagged response (List.mem_append_left _ member)
  plain response member := faithful.plain response (List.mem_append_left _ member)
  apart response member other otherMember :=
    faithful.apart response (List.mem_append_left _ member) other (List.mem_append_left _ otherMember)

theorem TaggedBy.toStr {response : Response (Content Stream)} {tag : ETag}
    (tagged : TaggedBy response (some tag)) :
    (response.headers.get Header.etag).bind HeaderValue.toStr = some tag.spelling := by
  cases tagged with
  | tagged encodes sends => simp [HeaderMap.get, sends, ETag.toStr_of_encode encodes]

/-- Two tags of one value. -/
def SameTag : Option ETag → Option ETag → Prop
  | some tag, some other => tag.value = other.value
  | _, _ => False

/-- A tag is matched by a response exactly where the response has one of its value. -/
theorem matched_iff {tag : ETag} {value : HeaderValue} {current : Response (Content Stream)}
    {currentTag : Option ETag} (encodes : tag.encode = some value) (tagged : TaggedBy current currentTag) :
    matched [value] current.headers = true ↔ SameTag (some tag) currentTag := by
  cases tagged with
  | untagged absent => simp [matched, HeaderMap.get, absent, SameTag]
  | @tagged other _ otherEncodes sends =>
      have reads := (TaggedBy.tagged otherEncodes sends).toStr
      obtain ⟨trims, notAny, splits⟩ := ETag.read_spelling (ETag.spelled_of_encode encodes)
      have compares : matched [value] current.headers = ETag.weakMatch tag.spelling other.spelling := by
        simp [matched, reads, ETag.matches, ETag.toStr_of_encode encodes, ETag.listed, trims, notAny,
          splits, ETag.names]
      rw [compares, ETag.weakMatch_spelling]
      rfl

theorem getAll_freshened (stored received : HeaderMap) (name : Text) :
    (freshened stored received).getAll name =
      if received.getAll name = [] then stored.getAll name else received.getAll name := by
  have split_lines : (freshened stored received).getAll name =
      ((stored.lines.filter fun line => line.1 == name && (received.getAll line.1).isEmpty).map Prod.snd) ++
        received.getAll name := by
    simp only [freshened, HeaderMap.getAll, List.filter_append, List.map_append, List.filter_filter]
  rw [split_lines]
  by_cases absent : received.getAll name = []
  · rw [if_pos absent, absent, List.append_nil, HeaderMap.getAll]
    congr 1
    apply List.filter_congr
    intro line _
    by_cases isName : line.1 = name
    · simp [isName, absent]
    · simp [isName]
  · have dropped : stored.lines.filter (fun line => line.1 == name && (received.getAll line.1).isEmpty) = [] := by
      rw [List.filter_eq_nil_iff]
      intro line _
      by_cases isName : line.1 = name
      · simp [isName, absent]
      · simp [isName]
    rw [if_neg absent, dropped, List.map_nil, List.nil_append]

/-! ## Runs of exchanges -/

/-- The last of the responses that is a 200. -/
def lastOk (responses : List (Response (Content Stream))) : Option (Response (Content Stream)) :=
  (responses.filter fun response => response.status = 200).getLast?

/-- A client holds the content and the tag of a response. -/
inductive Holds : Client Stream → Option (Response (Content Stream)) → Prop where
  | nothing : Holds none none
  | stored {stored previous : Response (Content Stream)} (ok : stored.status = 200)
      (content : stored.body = previous.body)
      (tags : stored.headers.getAll Header.etag = previous.headers.getAll Header.etag) :
      Holds (some stored) (some previous)

/-- A response is spared where it is a 200 to a retrieval that names its tag. -/
def Spared (method : Method) (storedTag : Option ETag) (current : Response (Content Stream))
    (currentTag : Option ETag) : Prop :=
  answersNotModified method = true ∧ current.status = 200 ∧ SameTag storedTag currentTag

theorem intercept_named (method : Method) (lines : List HeaderValue) (current : Response (Content Stream)) :
    intercept method ⟨some lines⟩ current =
      if answersNotModified method = true ∧ current.status = 200 ∧ matched lines current.headers = true then
        ⟨304, notModified current.headers, .empty⟩
      else
        current := by
  cases retrieval : answersNotModified method with
  | false => simp [intercept, retrieval, Option.filter]
  | true =>
      by_cases ok : current.status = 200
      · simp [intercept, retrieval, ok, Option.filter]
      · simp [intercept, retrieval, ok, Option.filter]

/-- What a client that holds a response is sent: a 304 where the current response
is spared, and the response where it is not. -/
theorem sent_of_tagged (method : Method) {stored current : Response (Content Stream)}
    {storedTag currentTag : Option ETag} (storedTagged : TaggedBy stored storedTag)
    (tagged : TaggedBy current currentTag) :
    (Spared method storedTag current currentTag →
        Client.sent method (some stored) current = ⟨304, notModified current.headers, .empty⟩) ∧
      (¬Spared method storedTag current currentTag → Client.sent method (some stored) current = current) := by
  cases storedTagged with
  | untagged absent =>
      constructor
      · rintro ⟨-, -, same⟩
        exact same.elim
      · intro _
        simp [Client.sent, Client.ask, HeaderMap.get, absent, Preconditions.decode, intercept]
  | @tagged tag value encodes sends =>
      have asks : Preconditions.decode (Client.ask (some stored)) = ⟨some [value]⟩ := by
        simp [Client.ask, HeaderMap.get, sends, Preconditions.decode, HeaderMap.getAll_append,
          ETag.toStr_of_encode encodes]
      have answer : (answersNotModified method = true ∧ current.status = 200 ∧
          matched [value] current.headers = true) ↔ Spared method (some tag) current currentTag := by
        rw [matched_iff encodes tagged, Spared]
      rw [Client.sent, asks, intercept_named]
      constructor
      · intro spared
        rw [if_pos (answer.mpr spared)]
      · intro plain
        rw [if_neg (answer.not.mpr plain)]

/-- What a client sees of the current response. -/
structure Sees (seen current : Response (Content Stream)) : Prop where
  status : seen.status = current.status
  body : seen.body = current.body
  fields : ∀ name ∈ replayed, current.headers.getAll name ≠ [] →
    seen.headers.getAll name = current.headers.getAll name

theorem Sees.refl (current : Response (Content Stream)) : Sees current current :=
  ⟨rfl, rfl, fun _ _ _ => rfl⟩

/-- A response has the tag of another with the same lines of `ETag`. -/
theorem TaggedBy.of_lines {response other : Response (Content Stream)} {tag : Option ETag}
    (tagged : TaggedBy response tag)
    (lines : other.headers.getAll Header.etag = response.headers.getAll Header.etag) : TaggedBy other tag := by
  cases tagged with
  | untagged absent => exact .untagged (lines.trans absent)
  | tagged encodes sends => exact .tagged encodes (lines.trans sends)

/-- A client that holds the content of a response of which the current one differs in
content only where it differs in its tag sees the current response, and holds
it where it is a 200. -/
theorem sees_of_holds {method : Method} {client : Client Stream}
    {previous : Option (Response (Content Stream))} {current : Response (Content Stream)}
    (holds : Holds client previous) {currentTag : Option ETag} (tagged : TaggedBy current currentTag)
    (plain : current.status ≠ 304)
    (earlier : ∀ response, previous = some response → ∃ tag, TaggedBy response tag ∧
      (Spared method tag current currentTag → response.body = current.body)) :
    Sees (client.sees (client.sent method current)) current ∧
      Holds (client.exchange method current) (if current.status = 200 then some current else previous) := by
  have unspared (sent : client.sent method current = current) :
      Sees (client.sees (client.sent method current)) current ∧
        Holds (client.exchange method current) (if current.status = 200 then some current else previous) := by
    have seen : client.sees (client.sent method current) = current := by
      rw [sent]
      cases client with
      | none => rfl
      | some stored => simp [Client.sees, plain]
    rw [Client.exchange, seen]
    constructor
    · exact .refl current
    · by_cases ok : current.status = 200
      · rw [if_pos ok, if_pos ok]
        exact .stored ok rfl rfl
      · rw [if_neg ok, if_neg ok]
        exact holds
  cases holds with
  | nothing =>
      apply unspared
      simp [Client.sent, Client.ask, Preconditions.decode, intercept]
  | @stored stored previous ok content tags =>
      obtain ⟨tag, previousTagged, agrees⟩ := earlier previous rfl
      have answer := sent_of_tagged method (previousTagged.of_lines tags) tagged
      by_cases spared : Spared method tag current currentTag
      · have seen : Client.sees (some stored) (Client.sent method (some stored) current) =
            { stored with headers := freshened stored.headers (notModified current.headers) } := by
          rw [answer.1 spared]
          rfl
        have fields : ∀ name ∈ replayed, current.headers.getAll name ≠ [] →
            (freshened stored.headers (notModified current.headers)).getAll name =
              current.headers.getAll name := by
          intro name isReplayed present
          rw [getAll_freshened, getAll_notModified, if_pos isReplayed, if_neg present]
        have sameContent : stored.body = current.body := content.trans (agrees spared)
        rw [Client.exchange, seen]
        constructor
        · exact ⟨ok.trans spared.2.1.symm, sameContent, fields⟩
        · rw [if_pos ok, if_pos spared.2.1]
          refine .stored ok sameContent (fields _ (by decide) ?_)
          cases tagged with
          | untagged =>
              obtain ⟨-, -, same⟩ := spared
              cases tag <;> exact same.elim
          | tagged encodes sends => simp [sends]
      · exact unspared (answer.2 spared)

theorem lastOk_concat (responses : List (Response (Content Stream))) (current : Response (Content Stream)) :
    lastOk (responses ++ [current]) = if current.status = 200 then some current else lastOk responses := by
  by_cases ok : current.status = 200
  · simp [lastOk, List.filter_append, ok]
  · simp [lastOk, List.filter_append, ok]

theorem of_lastOk {responses : List (Response (Content Stream))} {response : Response (Content Stream)}
    (last : lastOk responses = some response) : response ∈ responses ∧ response.status = 200 := by
  simpa using List.mem_filter.mp (List.mem_of_getLast? last)

/-- Of faithful responses, the current one agrees with the last 200 where it is spared. -/
theorem Faithful.agrees {responses : List (Response (Content Stream))} {current : Response (Content Stream)}
    (faithful : Faithful (responses ++ [current])) (method : Method) {currentTag : Option ETag}
    (tagged : TaggedBy current currentTag) (response : Response (Content Stream))
    (last : lastOk responses = some response) :
    ∃ tag, TaggedBy response tag ∧ (Spared method tag current currentTag → response.body = current.body) := by
  obtain ⟨member, ok⟩ := of_lastOk last
  have inAll : response ∈ responses ++ [current] := List.mem_append_left _ member
  obtain ⟨tag, responseTagged⟩ := faithful.tagged response inAll
  refine ⟨tag, responseTagged, ?_⟩
  rintro ⟨-, currentOk, same⟩
  cases tag with
  | none => exact same.elim
  | some tag =>
      cases currentTag with
      | none => exact same.elim
      | some currentTag =>
          exact faithful.apart response inAll current (List.mem_append_right _ List.mem_cons_self) tag
            currentTag ok currentOk responseTagged tagged same

/-- After exchanges a client holds the last 200. -/
theorem holds_after (method : Method) {responses : List (Response (Content Stream))}
    (faithful : Faithful responses) :
    Holds (after (Client.exchange method) none responses) (lastOk responses) := by
  induction responses using List.reverseRecOn with
  | nil => exact .nothing
  | append_singleton responses current ih =>
      obtain ⟨currentTag, tagged⟩ := faithful.tagged current (List.mem_append_right _ List.mem_cons_self)
      rw [after_concat, lastOk_concat]
      exact (sees_of_holds (ih faithful.of_append) tagged
        (faithful.plain current (List.mem_append_right _ List.mem_cons_self))
        (faithful.agrees method tagged)).2

/-- Where a client that holds a response is sent a 304, that response and the
current one have one tag. -/
theorem exists_tag_of_spared {method : Method} {client : Client Stream}
    {previous : Option (Response (Content Stream))} {current : Response (Content Stream)}
    (holds : Holds client previous) {currentTag : Option ETag} (tagged : TaggedBy current currentTag)
    (plain : current.status ≠ 304)
    (earlier : ∀ response, previous = some response → ∃ tag, TaggedBy response tag)
    (spared : (client.sent method current).status = 304) :
    answersNotModified method = true ∧ current.status = 200 ∧
      ∃ response tag currentTag, previous = some response ∧ TaggedBy response (some tag) ∧
        TaggedBy current (some currentTag) ∧ tag.value = currentTag.value := by
  cases holds with
  | nothing => exact absurd spared plain
  | @stored stored previous ok content tags =>
      obtain ⟨tag, previousTagged⟩ := earlier previous rfl
      have answer := sent_of_tagged method (previousTagged.of_lines tags) tagged
      by_cases isSpared : Spared method tag current currentTag
      · obtain ⟨retrieval, currentOk, same⟩ := isSpared
        cases tag with
        | none => exact same.elim
        | some tag =>
            cases currentTag with
            | none => exact same.elim
            | some currentTag =>
                exact ⟨retrieval, currentOk, previous, tag, currentTag, rfl, previousTagged, tagged, same⟩
      · rw [answer.2 isSpared] at spared
        exact absurd spared plain

/-- A client that revalidates the last 200 it was given sees every response as it
is, and is sent a 304 for a retrieval exactly where that 200 and the current one
have one tag. -/
theorem sees_after (method : Method) {responses : List (Response (Content Stream))}
    {current : Response (Content Stream)} (faithful : Faithful (responses ++ [current])) :
    let client := after (Client.exchange method) none responses
    Sees (client.sees (client.sent method current)) current ∧
      ((client.sent method current).status = 304 ↔
        answersNotModified method = true ∧ current.status = 200 ∧
          ∃ previous tag currentTag, lastOk responses = some previous ∧ TaggedBy previous (some tag) ∧
            TaggedBy current (some currentTag) ∧ tag.value = currentTag.value) := by
  intro client
  have isCurrent : current ∈ responses ++ [current] := List.mem_append_right _ List.mem_cons_self
  obtain ⟨currentTag, tagged⟩ := faithful.tagged current isCurrent
  have plain := faithful.plain current isCurrent
  have holds : Holds client (lastOk responses) := holds_after method faithful.of_append
  clear_value client
  constructor
  · exact (sees_of_holds holds tagged plain (faithful.agrees method tagged)).1
  · constructor
    · exact exists_tag_of_spared holds tagged plain fun response last =>
        (faithful.tagged response (List.mem_append_left _ (of_lastOk last).1))
    · rintro ⟨retrieval, ok, previous, tag, currentTag, last, previousTagged, currentTagged, same⟩
      rw [last] at holds
      cases holds with
      | @stored stored _ _ _ tags =>
          exact congrArg Response.status
            ((sent_of_tagged method (previousTagged.of_lines tags) currentTagged).1 ⟨retrieval, ok, same⟩)

/-! ## A page that changes -/

/-- A page under a tag. -/
def page (content : Text) (tag : HeaderValue) : Response (Content Text) :=
  ⟨200, HeaderMap.empty.append Header.etag tag, .stream content⟩

/-- The tag `W/"b"`. -/
def changedTag : ETag where
  value := "b".toList
  weak := true

/-- The tag as it is sent. -/
def changedLabel : HeaderValue :=
  ⟨changedTag.spelling.toOctets, by decide⟩

/-- The page before and after. -/
def first : Response (Content Text) :=
  page "first".toList ETag.commaLabel

def changed : Response (Content Text) :=
  page "changed".toList changedLabel

theorem faithful_pages : Faithful [first, changed, changed] where
  tagged response member := by
    simp only [List.mem_cons, List.not_mem_nil, or_false, or_self] at member
    rcases member with rfl | rfl
    · exact ⟨some ETag.comma, .tagged (show ETag.comma.encode = some ETag.commaLabel by decide) rfl⟩
    · exact ⟨some changedTag, .tagged (show changedTag.encode = some changedLabel by decide) rfl⟩
  plain response member := by
    simp only [List.mem_cons, List.not_mem_nil, or_false, or_self] at member
    rcases member with rfl | rfl <;> decide
  apart response member other otherMember tag otherTag _ _ tagged otherTagged same := by
    have reads := tagged.toStr
    have otherReads := otherTagged.toStr
    rw [← ETag.weakMatch_spelling] at same
    have firstReads : (first.headers.get Header.etag).bind HeaderValue.toStr =
        some ETag.comma.spelling := by decide
    have changedReads : (changed.headers.get Header.etag).bind HeaderValue.toStr =
        some changedTag.spelling := by decide
    simp only [List.mem_cons, List.not_mem_nil, or_false, or_self] at member otherMember
    rcases member with rfl | rfl
    · rcases otherMember with rfl | rfl
      · rfl
      · rw [firstReads, Option.some.injEq] at reads
        rw [changedReads, Option.some.injEq] at otherReads
        rw [← reads, ← otherReads] at same
        exact absurd same (by decide)
    · rcases otherMember with rfl | rfl
      · rw [changedReads, Option.some.injEq] at reads
        rw [firstReads, Option.some.injEq] at otherReads
        rw [← reads, ← otherReads] at same
        exact absurd same (by decide)
      · rfl

theorem sees_after_changed :
    let client := after (Client.exchange Method.get) none [first, changed]
    Sees (client.sees (client.sent Method.get changed)) changed ∧
      ((client.sent Method.get changed).status = 304 ↔
        answersNotModified Method.get = true ∧ changed.status = 200 ∧
          ∃ previous tag currentTag, lastOk [first, changed] = some previous ∧
            TaggedBy previous (some tag) ∧ TaggedBy changed (some currentTag) ∧
            tag.value = currentTag.value) :=
  sees_after Method.get faithful_pages

end Kynos.Conditional
