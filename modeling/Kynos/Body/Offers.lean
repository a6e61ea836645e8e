import Kynos.Http.Field
import Kynos.Negotiate.MediaType

/-!
# Which body a request offers

A request names the representation of its body by `Content-Type`. A body is
offered where the type and subtype are its own and every parameter is one it
accepts. Bodies may be alternatives, two at a time and nested; what makes each
two of them distinct is checked when the program is compiled, and keeps a
request from being offered to more than one.
-/

namespace Kynos.Body

open Kynos.Word Kynos.Http Kynos.Negotiate

/-! ## The source -/

/-- `content_type`. -/
def contentType (headers : HeaderMap) : Option (Text × Text) :=
  match headers.getAll Header.contentType with
  | [line] => line.toStr.map fun value =>
      let (mediaType, parameters) := (splitOnce ';' value).getD (value, [])
      (Text.trim mediaType, parameters)
  | _ => none

/-- `mime_names::MULTIPART_FORM_DATA`. -/
def multipartFormData : Text := "multipart/form-data".toList

/-- `CODEC_PARAMETERS`. -/
def codecParameters : List (Text × List Text) :=
  [(multipartFormData, ["boundary".toList])]

/-- `str::trim_matches('"')`. -/
def trimQuotes (text : Text) : Text :=
  trimBy (· == '"') text

/-- `parameter`. -/
def parameter (text : Text) : Option (Text × Text) :=
  (splitOnce '=' text).map fun (name, value) => (Text.trim name, trimQuotes (Text.trim value))

/-- `charset`. -/
def charset : Text := "charset".toList

/-- The parameter a media type declares by a name, if any: the first. -/
def declaration (declared name : Text) : Option (Text × Text) :=
  ((unquotedSplit ';' declared).filterMap parameter).find? fun declared =>
    Text.eqIgnoreAsciiCase name declared.1

/-- Whether one parameter is acceptable: the closure of `parameters_are_acceptable`. -/
def isAcceptable (read : List Text) (declared : Text) : Text × Text → Bool
  | (name, value) =>
      let isCharset := Text.eqIgnoreAsciiCase name charset
      match declaration declared name with
      | some (_, expected) =>
          if isCharset then Text.eqIgnoreAsciiCase value expected else value == expected
      | none =>
          if isCharset then
            Text.eqIgnoreAsciiCase value "utf-8".toList
          else
            read.any fun read => Text.eqIgnoreAsciiCase name read

/-- The parameters a codec reads at any value. -/
def parametersRead (mediaType : Text) : List Text :=
  ((codecParameters.find? fun codec => Text.eqIgnoreAsciiCase codec.1 mediaType).map
    Prod.snd).getD []

/-- `parameters_are_acceptable`. -/
def parametersAreAcceptable (mediaType declared parameters : Text) : Bool :=
  let pieces := (unquotedSplit ';' parameters).filter fun piece => !(Text.trim piece).isEmpty
  pieces.all fun offered =>
    (parameter offered).any (isAcceptable (parametersRead mediaType) declared)

/-- The trimmed type and subtype of a media type, and what it declares after them. -/
def essenceOf (mediaType : Text) : Text × Text :=
  let (essence, declared) := (splitOnce ';' mediaType).getD (mediaType, [])
  (trimAscii essence, declared)

/-- `offers`. -/
def offers (headers : HeaderMap) (mediaType : Text) : Bool :=
  let (essence, declared) := essenceOf mediaType
  (contentType headers).any fun (offered, parameters) =>
    Text.eqIgnoreAsciiCase offered essence && parametersAreAcceptable essence declared parameters

/-- `offers_any`. -/
def offersAny (headers : HeaderMap) (mediaTypes : List Text) : Bool :=
  mediaTypes.any (offers headers)

/-! ## Bodies -/

/-- The bodies a request may be extracted as, each of one media type: those of a
fixed one, and those whose type is declared. -/
inductive Codec where
  | text
  | json
  | form
  | multipart
  | protobuf
  | jsonLines
  | jsonSeq
  | jsonAs (marker : Text)
  | textAs (marker : Text)
  | binary (marker : Text)
  | encoded (mediaType : Text)
  deriving DecidableEq

def applicationJson : Text := "application/json".toList

def textPlain : Text := "text/plain".toList

/-- The only entry of a codec's `media_types`. -/
def Codec.mediaType : Codec → Text
  | .text => textPlain
  | .json => applicationJson
  | .form => "application/x-www-form-urlencoded".toList
  | .multipart => multipartFormData
  | .protobuf => "application/protobuf".toList
  | .jsonLines => "application/x-ndjson".toList
  | .jsonSeq => "application/json-seq".toList
  | .jsonAs marker => marker
  | .textAs marker => marker
  | .binary marker => marker
  | .encoded mediaType => mediaType

/-- `is_json`. -/
def isJson (mediaType : Text) : Bool :=
  let essence := (splitEssence mediaType).1
  Text.eqIgnoreAsciiCase essence applicationJson ||
    (5 ≤ essence.length &&
      Text.eqIgnoreAsciiCase (essence.drop (essence.length - 5)) "+json".toList)

/-- `is_text`. -/
def isText (mediaType : Text) : Bool :=
  let (type_, subtype) := splitAtByte '/' (splitEssence mediaType).1
  Text.eqIgnoreAsciiCase (trimAscii type_) "text".toList && !(trimAscii subtype).isEmpty

/-- What a codec checks of its own media type: `WELL_FORMED`, `JSON` and `TEXT`, but for
the charset of the last. -/
def Codec.isWellFormed : Codec → Bool
  | .jsonAs marker => isMediaType marker && isJson marker
  | .textAs marker => isMediaType marker && isText marker
  | .binary marker => isMediaType marker
  | .encoded mediaType => isMediaType mediaType
  | _ => true

/-- `shares_requests`. -/
def sharesRequests (marker body : Text) : Bool :=
  Text.eqIgnoreAsciiCase (splitEssence marker).1 (splitEssence body).1

/-- `Alternative`: whether one codec may stand beside another, and the `DISTINCT` of the
two evaluates. -/
def Codec.isAlternative : Codec → Codec → Bool
  | .binary _, .binary _ => false
  | .encoded codec, .binary marker => !sharesRequests marker codec
  | .binary marker, .encoded codec => !sharesRequests marker codec
  | .encoded codec, other => !sharesRequests codec other.mediaType
  | other, .encoded codec => !sharesRequests codec other.mediaType
  | .binary marker, other => !sharesRequests marker other.mediaType
  | other, .binary marker => !sharesRequests marker other.mediaType
  | .jsonAs marker, .jsonAs other => !sharesRequests marker other
  | .jsonAs marker, .json => !sharesRequests marker applicationJson
  | .json, .jsonAs marker => !sharesRequests marker applicationJson
  | .textAs marker, .jsonAs other => !sharesRequests marker other
  | .jsonAs marker, .textAs other => !sharesRequests marker other
  | .textAs marker, .textAs other => !sharesRequests marker other
  | .textAs marker, .text => !sharesRequests marker textPlain
  | .text, .textAs marker => !sharesRequests marker textPlain
  | left, right => left ≠ right

/-- A body: one codec, or `OneOf` two bodies. -/
inductive Offered where
  | one (codec : Codec)
  | oneOf (left right : Offered)

namespace Offered

/-- `media_types`. -/
def mediaTypes : Offered → List Text
  | .one codec => [codec.mediaType]
  | .oneOf left right => left.mediaTypes ++ right.mediaTypes

/-- The bodies of a nesting. -/
def codecs : Offered → List Codec
  | .one codec => [codec]
  | .oneOf left right => left.codecs ++ right.codecs

/-- `Alternative`. A body beside a nesting is an alternative to each of its sides, and only
the left side may be one. -/
def isAlternative : Offered → Offered → Bool
  | .one left, .one right => left.isAlternative right
  | .one _, .oneOf _ _ => false
  | .oneOf left right, other =>
      left.isAlternative right && left.isAlternative other && right.isAlternative other

/-- Whether what is checked of a body at compile time holds. -/
def evaluates : Offered → Bool
  | .one codec => codec.isWellFormed
  | .oneOf left right => left.isAlternative right && left.evaluates && right.evaluates

/-- `from_request`: the codec that goes on to read the body, where one is offered it. -/
def fromRequest (headers : HeaderMap) : Offered → Option Codec
  | .one codec => if offers headers codec.mediaType then some codec else none
  | .oneOf left right =>
      if offersAny headers left.mediaTypes then
        left.fromRequest headers
      else if offersAny headers right.mediaTypes then
        right.fromRequest headers
      else
        none

end Offered

/-! ## Sharing requests -/

theorem sharesRequests_comm (marker body : Text) :
    sharesRequests marker body = sharesRequests body marker := by
  rw [sharesRequests, sharesRequests, Text.eqIgnoreAsciiCase, Text.eqIgnoreAsciiCase, Bool.eq_iff_iff,
    beq_iff_eq, beq_iff_eq]
  exact eq_comm

theorem essenceOf_fst (mediaType : Text) : (essenceOf mediaType).1 = (splitEssence mediaType).1 := by
  rw [essenceOf, splitEssence, splitAtByte]

theorem offers_eq (headers : HeaderMap) (mediaType : Text) :
    offers headers mediaType = (contentType headers).any fun named =>
      Text.eqIgnoreAsciiCase named.1 (essenceOf mediaType).1 &&
        parametersAreAcceptable (essenceOf mediaType).1 (essenceOf mediaType).2 named.2 :=
  rfl

/-- Media types that are offered one request share it. -/
theorem sharesRequests_of_offers {headers : HeaderMap} {first second : Text}
    (offersFirst : offers headers first = true) (offersSecond : offers headers second = true) :
    sharesRequests first second = true := by
  rw [offers_eq] at offersFirst offersSecond
  obtain ⟨named, reads, accepts⟩ := (Option.any_eq_true _ _).mp offersFirst
  obtain ⟨_, again, acceptsSecond⟩ := (Option.any_eq_true _ _).mp offersSecond
  cases reads.symm.trans again
  have same := ((Bool.and_eq_true _ _).mp accepts).1
  have sameSecond := ((Bool.and_eq_true _ _).mp acceptsSecond).1
  rw [essenceOf_fst, Text.eqIgnoreAsciiCase, beq_iff_eq] at same sameSecond
  rw [sharesRequests, Text.eqIgnoreAsciiCase, ← same, ← sameSecond, beq_self_eq_true]

/-! ## Codecs that are distinct -/

theorem sharesRequests_iff {first second : Text} : sharesRequests first second = true ↔
    Text.toAsciiLowercase (splitEssence first).1 = Text.toAsciiLowercase (splitEssence second).1 :=
  beq_iff_eq

/-- Whether a media type is one of JSON is seen in any case. -/
theorem isJson_congr {first second : Text} (shares : sharesRequests first second = true) :
    isJson first = isJson second := by
  have same := sharesRequests_iff.mp shares
  have length : (splitEssence first).1.length = (splitEssence second).1.length := by
    simpa [Text.toAsciiLowercase] using congrArg List.length same
  have ends : Text.toAsciiLowercase ((splitEssence first).1.drop ((splitEssence second).1.length - 5)) =
      Text.toAsciiLowercase ((splitEssence second).1.drop ((splitEssence second).1.length - 5)) := by
    rw [Text.toAsciiLowercase, Text.toAsciiLowercase, List.map_drop, List.map_drop]
    exact congrArg _ same
  rw [isJson, isJson]
  simp only [Text.eqIgnoreAsciiCase, same, length, ends]

theorem isAsciiWhitespace_of_isTchar {letter : Char} (tchar : isTchar letter = true) :
    isAsciiWhitespace letter = false := by
  refine Bool.eq_false_iff.mpr fun blank => ?_
  have member : letter ∈ "\t\n\x0c\r ".toList := List.contains_iff_mem.mp blank
  simp only [String.reduceToList, List.mem_cons, List.not_mem_nil, or_false] at member
  rcases member with rfl | rfl | rfl | rfl | rfl <;> cases tchar

/-- A media type of text begins as one. -/
theorem isPrefix_of_isText {mediaType : Text} (formed : isMediaType mediaType = true)
    (text : isText mediaType = true) :
    "text/".toList <+: Text.toAsciiLowercase (splitEssence mediaType).1 := by
  rw [isMediaType, typeAndSubtype] at formed
  rw [isText] at text
  generalize (splitEssence mediaType).1 = essence at formed text ⊢
  cases halves : splitOnce '/' essence with
  | none =>
      simp [splitAtByte, halves, isToken] at formed
  | some found =>
      obtain ⟨type_, subtype⟩ := found
      simp only [splitAtByte, halves, Option.getD_some, Bool.and_eq_true] at formed text
      have kept : trimAscii type_ = type_ := trimBy_eq_self_of_forall fun letter member =>
        isAsciiWhitespace_of_isTchar (isTchar_of_mem formed.2.1 member)
      rw [kept, Text.eqIgnoreAsciiCase, beq_iff_eq] at text
      obtain ⟨-, rfl⟩ := splitOnce_eq_some_iff.mp halves
      rw [Text.toAsciiLowercase, List.map_append, List.map_cons]
      have type := text.1
      rw [Text.toAsciiLowercase] at type
      rw [type]
      exact ⟨subtype.map Text.toAsciiLower, by simp [Text.toAsciiLowercase]; decide⟩

/-- A marker of JSON is none of the fixed media types but its own. -/
theorem not_sharesRequests_of_isJson {marker other : Text} (json : isJson marker = true)
    (plain : isJson other = false) : sharesRequests marker other = false := by
  refine Bool.eq_false_iff.mpr fun shares => ?_
  rw [isJson_congr shares, plain] at json
  cases json

/-- A marker of text is none of the fixed media types but its own. -/
theorem not_sharesRequests_of_isText {marker other : Text} (formed : isMediaType marker = true)
    (text : isText marker = true)
    (plain : ¬ "text/".toList <+: Text.toAsciiLowercase (splitEssence other).1) :
    sharesRequests marker other = false := by
  refine Bool.eq_false_iff.mpr fun shares => ?_
  have begins := isPrefix_of_isText formed text
  rw [sharesRequests_iff.mp shares] at begins
  exact plain begins

/-- The codecs of a fixed media type. -/
def fixed : List Codec :=
  [.text, .json, .form, .multipart, .protobuf, .jsonLines, .jsonSeq]

theorem sharesRequests_fixed : ∀ left ∈ fixed, ∀ right ∈ fixed, left ≠ right →
    sharesRequests left.mediaType right.mediaType = false := by
  decide +kernel

theorem isJson_fixed : ∀ codec ∈ [Codec.text, .form, .multipart, .protobuf, .jsonLines, .jsonSeq],
    isJson codec.mediaType = false := by
  decide +kernel

theorem not_text_fixed : ∀ codec ∈ [Codec.json, .form, .multipart, .protobuf, .jsonLines, .jsonSeq],
    ¬ "text/".toList <+: Text.toAsciiLowercase (splitEssence codec.mediaType).1 := by
  decide +kernel

/-- Codecs that may stand beside each other share no request. -/
theorem not_sharesRequests_of_isAlternative {left right : Codec} (leftFormed : left.isWellFormed = true)
    (rightFormed : right.isWellFormed = true) (alternative : left.isAlternative right = true) :
    sharesRequests left.mediaType right.mediaType = false := by
  unfold Codec.isAlternative at alternative
  split at alternative
  all_goals try rw [Bool.not_eq_true'] at alternative
  case h_1 => cases alternative
  case h_16 encodedLeft binaryLeft encodedRight binaryRight _ _ _ jsonAsJsonAs jsonAsJson jsonJsonAs
      textAsJsonAs jsonAsTextAs textAsTextAs textAsText textTextAs =>
    -- nothing is compared: fixed media types, and markers beside what they cannot name
    cases left with
    | encoded codec => exact (encodedLeft codec rfl).elim
    | binary marker => exact (binaryLeft marker rfl).elim
    | jsonAs marker =>
        refine not_sharesRequests_of_isJson ((Bool.and_eq_true _ _).mp leftFormed).2 ?_
        cases right with
        | encoded codec => exact (encodedRight codec rfl).elim
        | binary other => exact (binaryRight other rfl).elim
        | jsonAs other => exact (jsonAsJsonAs marker other rfl rfl).elim
        | textAs other => exact (jsonAsTextAs marker other rfl rfl).elim
        | json => exact (jsonAsJson marker rfl rfl).elim
        | _ => exact isJson_fixed _ (by decide)
    | textAs marker =>
        obtain ⟨formed, isText⟩ := (Bool.and_eq_true _ _).mp leftFormed
        refine not_sharesRequests_of_isText formed isText ?_
        cases right with
        | encoded codec => exact (encodedRight codec rfl).elim
        | binary other => exact (binaryRight other rfl).elim
        | jsonAs other => exact (textAsJsonAs marker other rfl rfl).elim
        | textAs other => exact (textAsTextAs marker other rfl rfl).elim
        | text => exact (textAsText marker rfl rfl).elim
        | _ => exact not_text_fixed _ (by decide)
    | _ =>
        cases right with
        | encoded codec => exact (encodedRight codec rfl).elim
        | binary other => exact (binaryRight other rfl).elim
        | jsonAs marker =>
            first
            | exact (jsonJsonAs marker rfl rfl).elim
            | exact (sharesRequests_comm _ _).trans (not_sharesRequests_of_isJson
                ((Bool.and_eq_true _ _).mp rightFormed).2 (isJson_fixed _ (by decide)))
        | textAs marker =>
            first
            | exact (textTextAs marker rfl rfl).elim
            | exact (sharesRequests_comm _ _).trans (not_sharesRequests_of_isText
                ((Bool.and_eq_true _ _).mp rightFormed).1 ((Bool.and_eq_true _ _).mp rightFormed).2
                (not_text_fixed _ (by decide)))
        | _ =>
            exact sharesRequests_fixed _ (by decide) _ (by decide) (of_decide_eq_true alternative)
  all_goals first | exact alternative | exact (sharesRequests_comm _ _).trans alternative

namespace Offered

variable {headers : HeaderMap}

theorem mediaTypes_eq (body : Offered) : body.mediaTypes = body.codecs.map Codec.mediaType := by
  induction body with
  | one codec => rfl
  | oneOf left right leftIh rightIh => rw [mediaTypes, codecs, List.map_append, leftIh, rightIh]

theorem offersAny_iff {body : Offered} : offersAny headers body.mediaTypes = true ↔
    ∃ codec ∈ body.codecs, offers headers codec.mediaType = true := by
  rw [offersAny, mediaTypes_eq, List.any_map, List.any_eq_true]
  rfl

theorem filter_of_not_offersAny {body : Offered} (none : ¬ offersAny headers body.mediaTypes = true) :
    body.codecs.filter (fun codec => offers headers codec.mediaType) = [] :=
  List.filter_eq_nil_iff.mpr fun codec member offered =>
    none (offersAny_iff.mpr ⟨codec, member, offered⟩)

theorem isWellFormed_of_evaluates {body : Offered} (evaluates : body.evaluates = true) :
    ∀ codec ∈ body.codecs, codec.isWellFormed = true := by
  induction body with
  | one codec =>
      intro other member
      rw [List.mem_singleton.mp member]
      exact evaluates
  | oneOf left right leftIh rightIh =>
      rw [Offered.evaluates, Bool.and_eq_true, Bool.and_eq_true] at evaluates
      intro codec member
      rcases List.mem_append.mp member with inLeft | inRight
      · exact leftIh evaluates.1.2 codec inLeft
      · exact rightIh evaluates.2 codec inRight

/-- Bodies that may stand beside each other do so codec by codec. -/
theorem isAlternative_of_mem {left right : Offered} (alternative : left.isAlternative right = true) :
    ∀ first ∈ left.codecs, ∀ second ∈ right.codecs, first.isAlternative second = true := by
  induction left with
  | one codec =>
      cases right with
      | one other =>
          intro first inFirst second inSecond
          rw [List.mem_singleton.mp inFirst, List.mem_singleton.mp inSecond]
          exact alternative
      | oneOf _ _ => cases alternative
  | oneOf left other leftIh otherIh =>
      rw [isAlternative, Bool.and_eq_true, Bool.and_eq_true] at alternative
      intro first inFirst
      rcases List.mem_append.mp inFirst with inLeft | inOther
      · exact leftIh alternative.1.2 first inLeft
      · exact otherIh alternative.2 first inOther

/-- No request is offered to codecs on both sides. -/
theorem not_offers_both {left right : Offered} (leftEvaluates : left.evaluates = true)
    (rightEvaluates : right.evaluates = true) (alternative : left.isAlternative right = true)
    {first second : Codec} (inLeft : first ∈ left.codecs) (inRight : second ∈ right.codecs)
    (offersFirst : offers headers first.mediaType = true) :
    offers headers second.mediaType = false := by
  refine Bool.eq_false_iff.mpr fun offersSecond => ?_
  have apart := not_sharesRequests_of_isAlternative
    (isWellFormed_of_evaluates leftEvaluates first inLeft)
    (isWellFormed_of_evaluates rightEvaluates second inRight)
    (isAlternative_of_mem alternative first inLeft second inRight)
  rw [sharesRequests_of_offers offersFirst offersSecond] at apart
  cases apart

/-- The codecs a request is offered to: the one that reads its body, and no other. -/
theorem filter_codecs_eq {body : Offered} (evaluates : body.evaluates = true) :
    body.codecs.filter (fun codec => offers headers codec.mediaType) =
      (body.fromRequest headers).toList := by
  induction body with
  | one codec =>
      rw [codecs, fromRequest]
      cases offered : offers headers codec.mediaType <;> simp [offered]
  | oneOf left right leftIh rightIh =>
      rw [Offered.evaluates, Bool.and_eq_true, Bool.and_eq_true] at evaluates
      obtain ⟨⟨alternative, leftEvaluates⟩, rightEvaluates⟩ := evaluates
      rw [codecs, List.filter_append, fromRequest]
      by_cases offersLeft : offersAny headers left.mediaTypes = true
      · obtain ⟨first, inLeft, offersFirst⟩ := offersAny_iff.mp offersLeft
        have none : right.codecs.filter (fun codec => offers headers codec.mediaType) = [] :=
          List.filter_eq_nil_iff.mpr fun second inRight => Bool.eq_false_iff.mp
            (not_offers_both leftEvaluates rightEvaluates alternative inLeft inRight offersFirst)
        rw [if_pos offersLeft, none, List.append_nil, leftIh leftEvaluates]
      · rw [if_neg offersLeft, filter_of_not_offersAny offersLeft, List.nil_append]
        by_cases offersRight : offersAny headers right.mediaTypes = true
        · rw [if_pos offersRight, rightIh rightEvaluates]
        · rw [if_neg offersRight, filter_of_not_offersAny offersRight]
          rfl

end Offered

end Kynos.Body
