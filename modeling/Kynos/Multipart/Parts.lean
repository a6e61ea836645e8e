import Kynos.Multipart.Decode
import Kynos.Range.Delivery

/-!
# The parts that are sent

The header lines of a form-data part and of a part of a byte range, and the two
responses that carry them. Whatever names, types and contents they are given,
the line a header starts and the boundary a response names never meet, so a
reader of the response has the parts back.
-/

namespace Kynos.Multipart

open Kynos.Http Kynos.Numeral

/-- `put_unfolded`: a header value with its line endings removed. -/
def unfolded (value : Octets) : Octets :=
  value.filter fun octet => octet != 13 && octet != 10

/-- `put_quoted`: a parameter as the quoted-string it travels in; the quote is
escaped, the backslash and line endings are dropped. -/
def quoted : Octets → Octets
  | [] => []
  | octet :: rest =>
      if octet == 34 then
        92 :: 34 :: quoted rest
      else if octet == 92 || octet == 13 || octet == 10 then
        quoted rest
      else
        octet :: quoted rest

/-! ## Form-data parts -/

/-- `Part`, as its octets. -/
structure Part where
  name : Octets
  fileName : Option Octets
  contentType : Option Octets
  bytes : Octets
  deriving DecidableEq, Repr

namespace Part

/-- The `Content-Disposition` line. -/
def disposition (part : Part) : Octets :=
  Text.toOctets "Content-Disposition: form-data; name=\"".toList ++ quoted part.name ++ [34] ++
    part.fileName.elim [] fun fileName =>
      Text.toOctets "; filename=\"".toList ++ quoted fileName ++ [34]

/-- `Encapsulation::headers` of a form-data part. -/
def headers (part : Part) : Octets :=
  part.disposition ++ crlf ++ part.contentType.elim [] fun contentType =>
    Text.toOctets "Content-Type: ".toList ++ unfolded contentType ++ crlf

/-- The header lines of a part. -/
def headerLines (part : Part) : List Octets :=
  part.disposition :: part.contentType.elim [] fun contentType =>
    [Text.toOctets "Content-Type: ".toList ++ unfolded contentType]

end Part

/-! ## Parts of a byte range -/

/-- `part_headers`: the type and the place of a part. -/
def partHeaders (mediaType : Octets) (first last completeLength : Nat) : Octets :=
  Text.toOctets "Content-Type: ".toList ++ unfolded mediaType ++ crlf ++
    Text.toOctets "Content-Range: ".toList ++
    (Range.ContentRange.satisfied first last completeLength).fieldValue.toOctets ++ crlf

/-- The header lines of such a part. -/
def partLines (mediaType : Octets) (first last completeLength : Nat) : List Octets :=
  [Text.toOctets "Content-Type: ".toList ++ unfolded mediaType,
    Text.toOctets "Content-Range: ".toList ++
      (Range.ContentRange.satisfied first last completeLength).fieldValue.toOctets]

/-! ## The responses -/

/-- A multipart body under a type that names its boundary; none where the
boundary search ran out of candidates. -/
def respond (status : Nat) (typePrefix : Text) (parts : List Encapsulation) :
    Option (Response Octets) := do
  let boundary ← boundary (parts.map Encapsulation.content)
  let contentType ← HeaderValue.fromBytes (typePrefix.toOctets ++ boundary)
  some
    { status := status
      headers := HeaderMap.empty.insert Header.contentType contentType
      body := render parts boundary }

/-- `IntoResponse` for `MultipartForm`. -/
def formResponse (parts : List Part) : Option (Response Octets) :=
  respond 200 "multipart/form-data; boundary=".toList
    (parts.map fun part => ⟨part.headers, part.bytes⟩)

/-- `multipart`: the 206 of several byte ranges. -/
def byteRanges (mediaType octets : Octets) (ranges : List (Nat × Nat)) (completeLength : Nat) :
    Option (Response Octets) :=
  (respond 206 "multipart/byteranges; boundary=".toList
    (ranges.map fun range =>
      ⟨partHeaders mediaType range.1 range.2 completeLength,
        Range.clamped octets range.1 range.2⟩)).map
    fun response =>
      { response with headers := response.headers.insert Header.acceptRanges Range.acceptRanges }

/-! ## Header lines -/

/-- A line that neither a line ending nor a hyphen can start another with. -/
def Headed (line : Octets) : Prop :=
  (line ≠ [] ∧ line.head? ≠ some 45) ∧ 13 ∉ line ∧ 10 ∉ line

instance : DecidablePred Headed :=
  fun _ => inferInstanceAs (Decidable ((_ ∧ _) ∧ _))

theorem Headed.isDelimiter {line : Octets} (headed : Headed line) (boundary : Octets) :
    isDelimiter boundary line = false := by
  rw [← Bool.not_eq_true, Multipart.isDelimiter, List.isPrefixOf_iff_prefix]
  rintro ⟨after, rfl⟩
  exact headed.1.2 rfl

theorem lineEnding_notMem_unfolded (value : Octets) : 13 ∉ unfolded value ∧ 10 ∉ unfolded value := by
  simp [unfolded]

theorem lineEnding_notMem_quoted (value : Octets) : 13 ∉ quoted value ∧ 10 ∉ quoted value := by
  induction value with
  | nil => simp [quoted]
  | cons octet rest ih =>
      rw [quoted]
      split
      · simp [ih]
      · split
        · exact ih
        · rename_i kept
          simp only [Bool.or_eq_true, beq_iff_eq, not_or] at kept
          simp [ih, Ne.symm kept.1.2, Ne.symm kept.2]

/-- A header name, and a value without line endings. -/
theorem headed_append {name value : Octets} (headed : Headed name) (plain : 13 ∉ value ∧ 10 ∉ value) :
    Headed (name ++ value) := by
  obtain ⟨⟨nonempty, notDash⟩, carriage, newline⟩ := headed
  refine ⟨⟨by simp [nonempty], ?_⟩, by simp [carriage, plain.1], by simp [newline, plain.2]⟩
  rwa [List.head?_append_of_ne_nil _ nonempty]

theorem headed_disposition :
    Headed (Text.toOctets "Content-Disposition: form-data; name=\"".toList) := by decide

theorem headed_contentType : Headed (Text.toOctets "Content-Type: ".toList) := by decide

theorem headed_contentRange : Headed (Text.toOctets "Content-Range: ".toList) := by decide

theorem Part.headed_of_mem_headerLines {part : Part} {line : Octets}
    (member : line ∈ part.headerLines) : Headed line := by
  rcases List.mem_cons.mp member with rfl | member
  · refine headed_append (headed_append (headed_append headed_disposition
      (lineEnding_notMem_quoted _)) (by decide)) ?_
    cases part.fileName with
    | none => simp
    | some fileName =>
        have label : (13 : UInt8) ∉ Text.toOctets "; filename=\"".toList ∧
            (10 : UInt8) ∉ Text.toOctets "; filename=\"".toList := by decide
        rw [Option.elim_some]
        generalize Text.toOctets "; filename=\"".toList = start at label
        simp [label, lineEnding_notMem_quoted]
  · cases contentType : part.contentType with
    | none => simp [contentType] at member
    | some value =>
        rw [contentType, Option.elim_some, List.mem_singleton] at member
        rw [member]
        exact headed_append headed_contentType (lineEnding_notMem_unfolded _)

theorem Part.headers_eq_block (part : Part) : part.headers = block part.headerLines := by
  cases contentType : part.contentType <;> simp [headers, headerLines, block, contentType]

theorem lineEnding_notMem_toOctets {text : Text}
    (isText : ∀ character ∈ text, HeaderValue.IsTextCharacter character) :
    13 ∉ text.toOctets ∧ 10 ∉ text.toOctets := by
  rw [HeaderValue.toOctets_eq_map isText]
  have apart : ∀ octet : UInt8, isTextOctet octet = true → octet ≠ 13 ∧ octet ≠ 10 := by
    rintro octet textual
    constructor <;> rintro rfl <;> exact absurd textual (by decide)
  constructor <;>
    · intro member
      obtain ⟨character, characterMember, same⟩ := List.mem_map.mp member
      have textual := HeaderValue.isTextOctet_ofNat (isText character characterMember)
      have different := apart _ textual
      simp_all

theorem headed_of_mem_partLines {mediaType line : Octets} {first last completeLength : Nat}
    (member : line ∈ partLines mediaType first last completeLength) : Headed line := by
  rcases List.mem_pair.mp member with rfl | rfl
  · exact headed_append headed_contentType (lineEnding_notMem_unfolded _)
  · exact headed_append headed_contentRange
      (lineEnding_notMem_toOctets (Range.ContentRange.isTextCharacter_of_mem_fieldValue _))

theorem partHeaders_eq_block (mediaType : Octets) (first last completeLength : Nat) :
    partHeaders mediaType first last completeLength =
      block (partLines mediaType first last completeLength) := by
  simp [partHeaders, partLines, block]

/-! ## The parts are read back -/

/-- A response's type names a boundary its body reads back under. -/
def ReadsBack (response : Response Octets) (typePrefix : Text) (parts : List Encapsulation) : Prop :=
  ∃ boundary value, response.headers.getAll Header.contentType = [value] ∧
    value.octets = typePrefix.toOctets ++ boundary ∧ parse boundary response.body = some parts

theorem isFieldOctet_of_mem_new {counter : Nat} {octet : UInt8}
    (member : octet ∈ Boundary.new counter) : isFieldOctet octet = true := by
  have digit : ∀ nibble < 16, isFieldOctet (hexDigit nibble) = true := by decide
  rcases List.mem_append.mp member with fixed | counted
  · exact List.all_eq_true.mp (show boundaryPrefix.all isFieldOctet = true by decide) octet fixed
  · obtain ⟨index, _, rfl⟩ := List.mem_map.mp counted
    exact digit _ (Nat.lt_of_le_of_lt Nat.and_le_right (by decide))

/-- A response of parts whose header lines start with a name reads back. -/
theorem exists_respond (status : Nat) {typePrefix : Text} {parts : List Sent}
    (printable : typePrefix.toOctets.all isFieldOctet = true)
    (small : ((parts.map Prod.snd).map List.length).sum ≤ u64Max)
    (headed : ∀ part ∈ parts, ∀ line ∈ part.1, Headed line) :
    ∃ response, respond status typePrefix (parts.map Sent.encapsulation) = some response ∧
      response.status = status ∧ ReadsBack response typePrefix (parts.map Sent.encapsulation) := by
  obtain ⟨chosen, found, fresh⟩ := exists_boundary small
  obtain ⟨counter, rfl⟩ := eq_new_of_boundaryFrom found
  have contents : (parts.map Sent.encapsulation).map Encapsulation.content = parts.map Prod.snd := by
    simp [Sent.encapsulation]
  have valid : (typePrefix.toOctets ++ Boundary.new counter).all isFieldOctet = true := by
    rw [List.all_append, printable, Bool.true_and, List.all_eq_true]
    exact fun octet member => isFieldOctet_of_mem_new member
  have read := (parse_render_of_fresh (newline_notMem_new counter)
    (fun part member line lineMember => (headed part member line lineMember).2.2)
    (fun part member line lineMember => ⟨(headed part member line lineMember).1.1,
      (headed part member line lineMember).isDelimiter _⟩)
    fun part member => fresh part.2 (List.mem_map_of_mem member)).1
  let contentType : HeaderValue := ⟨typePrefix.toOctets ++ Boundary.new counter, valid⟩
  refine ⟨⟨status, HeaderMap.empty.insert Header.contentType contentType,
    render (parts.map Sent.encapsulation) (Boundary.new counter)⟩, ?_, rfl, Boundary.new counter,
    contentType, ?_, rfl, read⟩
  · simp only [respond, contents, found, HeaderValue.fromBytes, dif_pos valid, Option.bind_eq_bind,
      Option.bind_some]
    rfl
  · rw [HeaderMap.getAll_insert, if_pos rfl]

/-- A form is answered with its parts, whatever their names and contents. -/
theorem exists_formResponse {parts : List Part}
    (small : ((parts.map Part.bytes).map List.length).sum ≤ u64Max) :
    ∃ response, formResponse parts = some response ∧ response.status = 200 ∧
      ReadsBack response "multipart/form-data; boundary=".toList
        (parts.map fun part => ⟨part.headers, part.bytes⟩) := by
  have sent : (parts.map fun part => (⟨part.headers, part.bytes⟩ : Encapsulation)) =
      (parts.map fun part => (part.headerLines, part.bytes)).map Sent.encapsulation := by
    simp [Sent.encapsulation, Part.headers_eq_block]
  rw [formResponse, sent]
  refine exists_respond 200 (by decide) ?_ fun part member line lineMember => ?_
  · rw [List.map_map] at small
    rw [List.map_map, List.map_map]
    exact small
  · obtain ⟨formPart, _, rfl⟩ := List.mem_map.mp member
    exact Part.headed_of_mem_headerLines lineMember

/-- Several byte ranges are answered with their parts. -/
theorem exists_byteRanges {mediaType octets : Octets} {ranges : List (Nat × Nat)}
    {completeLength : Nat}
    (small : ((ranges.map fun range => Range.clamped octets range.1 range.2).map
      List.length).sum ≤ u64Max) :
    ∃ response, byteRanges mediaType octets ranges completeLength = some response ∧
      response.status = 206 ∧
      ReadsBack response "multipart/byteranges; boundary=".toList
        (ranges.map fun range => ⟨partHeaders mediaType range.1 range.2 completeLength,
          Range.clamped octets range.1 range.2⟩) := by
  have sent : (ranges.map fun range =>
        (⟨partHeaders mediaType range.1 range.2 completeLength,
          Range.clamped octets range.1 range.2⟩ : Encapsulation)) =
      (ranges.map fun range => (partLines mediaType range.1 range.2 completeLength,
        Range.clamped octets range.1 range.2)).map Sent.encapsulation := by
    simp [Sent.encapsulation, partHeaders_eq_block]
  rw [byteRanges, sent]
  have headed : ∀ part ∈ ranges.map (fun range =>
      (partLines mediaType range.1 range.2 completeLength,
        Range.clamped octets range.1 range.2)), ∀ line ∈ part.1, Headed line := by
    intro part member line lineMember
    obtain ⟨range, _, rfl⟩ := List.mem_map.mp member
    exact headed_of_mem_partLines lineMember
  have printable : (Text.toOctets "multipart/byteranges; boundary=".toList).all isFieldOctet = true := by
    decide
  have responds := exists_respond 206 printable
    (by rw [List.map_map] at small; rw [List.map_map, List.map_map]; exact small) headed
  obtain ⟨response, responded, status, boundary, value, contentType, valueEq, read⟩ := responds
  refine ⟨{ response with headers :=
      response.headers.insert Header.acceptRanges Range.acceptRanges }, ?_, status, boundary, value,
    ?_, valueEq, read⟩
  · rw [responded]
    rfl
  · rw [HeaderMap.getAll_insert, if_neg (by decide)]
    exact contentType

end Kynos.Multipart
