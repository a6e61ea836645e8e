import Kynos.Assets.Directory
import Kynos.Assets.Opened
import Kynos.Http.EntityTags
import Kynos.Net.Shown
import Kynos.Router.Agreement

/-!
# Answering from a directory

A located file is answered for under a weak tag of its length and of the time it was
written: conditions and the range are decided from what is known of the file before
it is opened, and the body reads it once polled.
-/

namespace Kynos.Assets

open Kynos.Http Kynos.Numeral Kynos.Range Kynos.Router.Assets

/-! ## Fields -/

/-- A weak tag of a length and a modification time. -/
def etag (length : Nat) (modified : Option Nat) : Option Text :=
  modified.map fun modified =>
    ['W', '/', '"'] ++ Nat.toDigits 16 length ++ ['-'] ++ Nat.toDigits 16 modified ++ ['"']

/-- The fields a served file carries. -/
structure FileHeaders where
  etag : Option Text
  cacheControl : Option HeaderValue

/-- The fields of the group; a tag that cannot be spelled is left out. -/
def FileHeaders.encode (group : FileHeaders) : List (Text × HeaderValue) :=
  ((group.etag.bind HeaderValue.fromStr).map fun value => (Header.etag, value)).toList ++
    (group.cacheControl.map fun value => (Header.cacheControl, value)).toList

namespace Directory

/-- The media type a located file is served as. -/
def mediaType (directory : Directory) (path : List Text) : Text :=
  (forPath (path.getLast?.getD directory.rootName)).getD "application/octet-stream".toList

/-- The body a selection is sent as: of an empty file, an empty one. -/
def bodyOf (held : Contents) (completeLength : Nat) (selection : Selection) : Content (Opened × Spans) :=
  let enclosed :=
    match selection with
    | .whole _ => if completeLength = 0 then none else some (0, completeLength - 1)
    | .part first last _ => some (first, last)
  match enclosed with
  | none => .empty
  | some (first, last) => .stream (Opened.new held, Spans.new first last)

/-- `serve`, of a captured path. -/
def serve (directory : Directory) (system : FileSystem) (method : Method) (fields : HeaderMap)
    (captured : Option Text) : Response (Content (Opened × Spans)) :=
  match captured with
  | none => bodiless 404
  | some requested =>
      match directory.locate system requested with
      | none => bodiless 404
      | some (path, contents) =>
          let completeLength := contents.bytes.length
          let group : FileHeaders :=
            ⟨etag completeLength (system.modified path), directory.cacheControl⟩
          if ETag.ifMatch fields group.etag = some false then
            bodiless 412
          else if ETag.ifNoneMatch fields group.etag = some true then
            { (bodiless 304 : Response (Content (Opened × Spans))) with
              headers := write HeaderMap.empty group.encode }
          else
            match select (read method fields group.etag) completeLength with
            | .error rejection => rejection.intoResponse
            | .ok selection =>
                match system.opened path with
                | none => bodiless 404
                | some held =>
                    (writeSelection ⟨200, write (typed (directory.mediaType path)) group.encode,
                      bodyOf held completeLength selection⟩ selection).getD refused

end Directory

/-! ## Tags -/

/-- The value between the quotes of a tag. -/
def tagValue (length modified : Nat) : Text :=
  Nat.toDigits 16 length ++ '-' :: Nat.toDigits 16 modified

theorem etag_eq (length : Nat) (modified : Option Nat) :
    etag length modified = modified.map fun modified => (ETag.mk (tagValue length modified) true).spelling := by
  cases modified with
  | none => rfl
  | some modified =>
      simp [etag, tagValue, ETag.spelling]

theorem digit_bounds {number : Nat} :
    ∀ digit ∈ Nat.toDigits 16 number, 0x30 ≤ digit.toNat ∧ digit.toNat ≤ 0x66 := by
  have all : ∀ digit < 16, 0x30 ≤ digit.digitChar.toNat ∧ digit.digitChar.toNat ≤ 0x66 := by decide
  refine Net.IpAddr.toDigits_induction
    (motive := fun _ digits => ∀ digit ∈ digits, 0x30 ≤ digit.toNat ∧ digit.toNat ≤ 0x66)
    (by decide) (fun digit below => ?_) (fun number _ ih => ?_) number
  · exact List.forall_mem_singleton.mpr (all digit below)
  · exact List.forall_mem_append.mpr
      ⟨ih, List.forall_mem_singleton.mpr (all _ (Nat.mod_lt _ (by decide)))⟩

/-- The value of a tag is visible, between a hyphen and the letter f. -/
theorem tagValue_bounds {length modified : Nat} {character : Char}
    (member : character ∈ tagValue length modified) :
    0x2d ≤ character.toNat ∧ character.toNat ≤ 0x66 := by
  rcases List.mem_append.mp member with inLength | later
  · have := digit_bounds character inLength
    omega
  · rcases List.mem_cons.mp later with rfl | inModified
    · decide
    · have := digit_bounds character inModified
      omega

theorem tagValue_inj {length modified other later : Nat}
    (same : tagValue length modified = tagValue other later) : length = other ∧ modified = later := by
  have hyphenless : ∀ number, '-' ∉ Nat.toDigits 16 number := fun number member => by
    have bounds := digit_bounds '-' member
    exact absurd bounds.1 (by decide)
  have cut : ∀ length modified, Word.splitOnce '-' (tagValue length modified) =
      some (Nat.toDigits 16 length, Nat.toDigits 16 modified) := fun length modified =>
    Word.splitOnce_eq_some_iff.mpr ⟨hyphenless length, rfl⟩
  have halves := cut length modified
  rw [same, cut] at halves
  obtain ⟨lengths, times⟩ := Prod.mk.inj (Option.some.inj halves)
  have number : ∀ number, (Nat.toDigits 16 number).foldl
      (fun value character => value * 16 + (Net.IpAddr.toDigit 16 character).getD 0) 0 = number :=
    Net.IpAddr.foldl_toDigits (by decide) (by decide)
  constructor
  · rw [← number length, ← lengths, number]
  · rw [← number modified, ← times, number]

/-- Two tags are one where the lengths and the times are. -/
theorem etag_eq_some_iff {length other modified later : Nat} :
    etag length (some modified) = etag other (some later) ↔ length = other ∧ modified = later := by
  constructor
  · intro same
    rw [etag_eq, etag_eq] at same
    have spelled := Option.some.inj same
    simp only [ETag.spelling, if_true, List.append_cancel_left_eq, List.cons.injEq, true_and,
      List.append_cancel_right_eq] at spelled
    exact tagValue_inj spelled
  · rintro ⟨rfl, rfl⟩
    rfl

theorem spelled_tagValue (length modified : Nat) :
    (tagValue length modified).toOctets.all ETag.isEtagc = true := by
  have isText : ∀ character ∈ tagValue length modified, HeaderValue.IsTextCharacter character := by
    intro character member
    have bounds := tagValue_bounds member
    exact .inl (by omega)
  rw [List.all_eq_true]
  intro octet member
  obtain ⟨character, inValue, same⟩ := HeaderValue.exists_of_mem_toOctets isText member
  have bounds := tagValue_bounds inValue
  simp only [ETag.isEtagc, Bool.or_eq_true, Bool.and_eq_true, decide_eq_true_eq, UInt8.le_iff_toNat_le, same]
  right
  constructor
  · exact Nat.le_trans (by decide) bounds.1
  · exact Nat.le_trans bounds.2 (by decide)

/-- A tag can be sent, as it is spelled. -/
theorem exists_fromStr_etag {length : Nat} {modified : Option Nat} {tag : Text}
    (isTag : etag length modified = some tag) :
    ∃ value, HeaderValue.fromStr tag = some value ∧ value.toStr = some tag := by
  rw [etag_eq] at isTag
  obtain ⟨written, -, rfl⟩ := Option.map_eq_some_iff.mp isTag
  apply HeaderValue.exists_fromStr
  exact ETag.isTextCharacter_of_mem_spelling (spelled_tagValue length written)

/-! ## Conditions -/

variable {method : Method} {fields : HeaderMap} {current : Option Text} {completeLength : Nat}

/-- Of a representation without a date, `If-Match` alone refuses. -/
theorem refused_iff : Refused fields ⟨current, none, completeLength⟩ ↔
    ETag.ifMatch fields current = some false := by
  by_cases absent : fields.getAll Header.ifMatch = []
  · simp [Refused, absent, ETag.ifMatch_of_absent current absent]
  · obtain ⟨holds, isSent, meaning⟩ := ETag.ifMatch_of_sent current absent
    rw [isSent, Refused]
    simp only [← meaning, ne_eq, absent, not_false_eq_true, true_and, false_and, or_false,
      Bool.not_eq_true, Option.some.injEq]

/-- Of a representation without a date, `If-None-Match` alone names it. -/
theorem current_iff : Current method fields ⟨current, none, completeLength⟩ ↔
    ETag.ifNoneMatch fields current = some true := by
  by_cases absent : fields.getAll Header.ifNoneMatch = []
  · simp [Current, absent, ETag.ifNoneMatch_of_absent current absent]
  · obtain ⟨named, isSent, meaning⟩ := ETag.ifNoneMatch_of_sent current absent
    rw [isSent, Current]
    simp only [← meaning, ne_eq, absent, not_false_eq_true, true_and, false_and, or_false,
      Option.some.injEq]

/-! ## Answers -/

/-- A response sends a tag, where there is one. -/
def Tagged {Stream : Type} (response : Response (Content Stream)) : Option Text → Prop
  | none => response.headers.getAll Header.etag = []
  | some tag => SendsText response.headers Header.etag tag

/-- A response gives the answer that is owed of a file, which is a 404 where it would
read the file and this cannot be opened. -/
def AnswersFile (tag : Option Text) (opened : Option Contents) (completeLength : Nat)
    (response : Response (Content (Opened × Spans))) : Owed → Prop
  | .preconditionFailed => response.status = 412
  | .notModified => response.status = 304 ∧ Tagged response tag
  | .notSatisfiable => response.status = 416
  | .part first last =>
      first ≤ last ∧ last < completeLength ∧
        match opened with
        | none => response.status = 404
        | some held =>
            response.status = 206 ∧ Tagged response tag ∧
              SendsText response.headers Header.contentRange
                (ContentRange.satisfied first last completeLength).fieldValue ∧
              response.body = .stream (Opened.new held, Spans.new first last)
  | .whole =>
      match opened with
      | none => response.status = 404
      | some held =>
          response.status = 200 ∧ Tagged response tag ∧
            response.headers.getAll Header.contentRange = [] ∧
            response.body =
              if completeLength = 0 then .empty
              else .stream (Opened.new held, Spans.new 0 (completeLength - 1))

/-- The fields of a file are its tag, where there is one, and no range. -/
theorem getAll_write_encode (group : FileHeaders) {fields : HeaderMap}
    (untagged : fields.getAll Header.etag = []) (unranged : fields.getAll Header.contentRange = []) :
    (write fields group.encode).getAll Header.etag = (group.etag.bind HeaderValue.fromStr).toList ∧
      (write fields group.encode).getAll Header.contentRange = [] := by
  have names : Header.cacheControl ≠ Header.etag ∧ Header.etag ≠ Header.contentRange ∧
      Header.cacheControl ≠ Header.contentRange := by
    decide
  obtain ⟨control, tagged, cached⟩ := names
  rw [FileHeaders.encode]
  cases group.etag.bind HeaderValue.fromStr with
  | none =>
      cases group.cacheControl with
      | none => exact ⟨untagged, unranged⟩
      | some value =>
          simp only [write, Option.map_none, Option.map_some, Option.toList_none, Option.toList_some,
            List.nil_append, List.foldl_cons, List.foldl_nil, HeaderMap.getAll_insert, if_neg control,
            if_neg cached, untagged, unranged, and_self]
  | some tag =>
      cases group.cacheControl with
      | none =>
          simp only [write, Option.map_none, Option.map_some, Option.toList_none, Option.toList_some,
            List.append_nil, List.foldl_cons, List.foldl_nil, HeaderMap.getAll_insert, if_true,
            if_neg tagged, unranged, and_self]
      | some value =>
          simp only [write, Option.map_some, Option.toList_some, List.singleton_append, List.foldl_cons,
            List.foldl_nil, HeaderMap.getAll_insert, if_true, if_neg control, if_neg tagged, if_neg cached,
            unranged, and_self]

/-- What a located file's fields say of its tag. -/
theorem tagged_write {Stream : Type} {length : Nat} {modified : Option Nat} (control : Option HeaderValue)
    {start : HeaderMap} (untagged : start.getAll Header.etag = [])
    (unranged : start.getAll Header.contentRange = []) {response : Response (Content Stream)}
    (same : response.headers.getAll Header.etag =
      (write start (FileHeaders.encode ⟨etag length modified, control⟩)).getAll Header.etag) :
    Tagged response (etag length modified) := by
  rw [(getAll_write_encode _ untagged unranged).1] at same
  cases isTag : etag length modified with
  | none =>
      rw [isTag] at same
      exact same
  | some tag =>
      obtain ⟨value, sent, reads⟩ := exists_fromStr_etag isTag
      rw [isTag, Option.bind_some, sent] at same
      exact ⟨value, same, reads⟩

namespace Directory

theorem getAll_typed {name : Text} (different : Header.contentType ≠ name) (mediaType : Text) :
    (typed mediaType).getAll name = [] := by
  rw [typed]
  split
  · rw [HeaderMap.getAll_insert, if_neg different, HeaderMap.getAll_empty]
  · rfl

/-- A selection of a file is sent as the answer it is owed. -/
theorem answers_selection (directory : Directory) (path : List Text) {length : Nat} {modified : Option Nat}
    {selection : Selection} (held : Contents)
    (bounds : ∀ first last total, selection = .part first last total →
      total = length ∧ first ≤ last ∧ last < length) :
    AnswersFile (etag length modified) (some held) length
      ((writeSelection ⟨200, write (typed (directory.mediaType path))
          (FileHeaders.encode ⟨etag length modified, directory.cacheControl⟩),
        bodyOf held length selection⟩ selection).getD refused)
      (Owed.ofSelection (.ok selection)) := by
  have names : Header.contentType ≠ Header.etag ∧ Header.contentType ≠ Header.contentRange ∧
      Header.acceptRanges ≠ Header.etag ∧ Header.acceptRanges ≠ Header.contentRange ∧
      Header.contentRange ≠ Header.etag := by
    decide
  obtain ⟨typeTag, typeRange, acceptsTag, acceptsRange, rangeTag⟩ := names
  have untagged := getAll_typed typeTag (directory.mediaType path)
  have unranged := getAll_typed typeRange (directory.mediaType path)
  cases selection with
  | whole reason =>
      refine ⟨rfl, tagged_write directory.cacheControl untagged unranged ?_, ?_, ?_⟩
      · simp only [writeSelection, Option.getD_some, HeaderMap.getAll_insert, if_neg acceptsTag]
      · simp only [writeSelection, Option.getD_some, HeaderMap.getAll_insert, if_neg acceptsRange]
        exact (getAll_write_encode _ untagged unranged).2
      · simp only [writeSelection, Option.getD_some, bodyOf]
        by_cases empty : length = 0
        · rw [if_pos empty, if_pos empty]
        · rw [if_neg empty, if_neg empty]
  | part first last total =>
      obtain ⟨rfl, ordered, inside⟩ := bounds first last total rfl
      obtain ⟨value, encoded, reads⟩ := (ContentRange.satisfied first last total).exists_encode
      refine ⟨ordered, inside, ?_⟩
      simp only [writeSelection, encoded, Option.map_some, Option.getD_some]
      refine ⟨trivial, tagged_write directory.cacheControl untagged unranged ?_, ⟨value, ?_, reads⟩, rfl⟩
      · simp only [HeaderMap.getAll_insert, if_neg acceptsTag, if_neg rangeTag]
      · simp only [HeaderMap.getAll_insert, if_true]

/-- A `GET` or `HEAD` of a located file is answered with what it is owed. -/
theorem answersFile_of_located (directory : Directory) (system : FileSystem) {method : Method}
    (retrieval : method = Method.get ∨ method = Method.head) (fields : HeaderMap) {requested : Text}
    {path : List Text} {contents : Contents}
    (located : directory.locate system requested = some (path, contents)) :
    ∃ owed, (∀ other, Owes method fields
        ⟨etag contents.bytes.length (system.modified path), none, contents.bytes.length⟩ other ↔
          other = owed) ∧
      AnswersFile (etag contents.bytes.length (system.modified path)) (system.opened path)
        contents.bytes.length (directory.serve system method fields (some requested)) owed := by
  have retrieves : Retrieval method := retrieval.imp_right Or.inl
  simp only [serve, located]
  by_cases refused : ETag.ifMatch fields (etag contents.bytes.length (system.modified path)) = some false
  · rw [if_pos refused]
    refine ⟨.preconditionFailed, fun other => ?_, rfl⟩
    constructor
    · intro owes
      cases owes with
      | refused _ => rfl
      | mismatched passed _ _ => exact absurd (refused_iff.mpr refused) passed
      | notModified passed _ _ => exact absurd (refused_iff.mpr refused) passed
      | notSatisfiable passed _ _ _ _ => exact absurd (refused_iff.mpr refused) passed
      | part passed _ _ _ _ _ _ => exact absurd (refused_iff.mpr refused) passed
      | whole passed _ _ => exact absurd (refused_iff.mpr refused) passed
    · rintro rfl
      exact .refused (refused_iff.mpr refused)
  · have passed : ¬ Refused fields ⟨etag contents.bytes.length (system.modified path), none,
        contents.bytes.length⟩ := mt refused_iff.mp refused
    rw [if_neg refused]
    by_cases named : ETag.ifNoneMatch fields (etag contents.bytes.length (system.modified path)) = some true
    · rw [if_pos named]
      refine ⟨.notModified, fun other => ?_, rfl, tagged_write directory.cacheControl rfl rfl rfl⟩
      constructor
      · intro owes
        cases owes with
        | refused isRefused => exact absurd isRefused passed
        | mismatched _ _ update => exact absurd retrieves update
        | notModified _ _ _ => rfl
        | notSatisfiable _ stale _ _ _ => exact absurd (current_iff.mpr named) stale
        | part _ stale _ _ _ _ _ => exact absurd (current_iff.mpr named) stale
        | whole _ stale _ => exact absurd (current_iff.mpr named) stale
      · rintro rfl
        exact .notModified passed (current_iff.mpr named) retrieves
    · have stale : ¬ Current method fields ⟨etag contents.bytes.length (system.modified path), none,
          contents.bytes.length⟩ := mt current_iff.mp named
      rw [if_neg named]
      refine ⟨_, fun other => owes_iff_selection passed stale, ?_⟩
      cases selected : select (read method fields (etag contents.bytes.length (system.modified path)))
          contents.bytes.length with
      | error rejection =>
          cases rejection
          exact Served.status_intoResponse _
      | ok selection =>
          have bounds : ∀ first last total, selection = .part first last total →
              total = contents.bytes.length ∧ first ≤ last ∧ last < contents.bytes.length := by
            rintro first last total rfl
            exact ⟨(exists_of_select_eq_part selected).1,
              (selection_bounds selected).1 first last total rfl⟩
          cases isOpen : system.opened path with
          | some held => exact answers_selection directory path held bounds
          | none =>
              cases selection with
              | whole reason => rfl
              | part first last total =>
                  exact ⟨(bounds first last total rfl).2.1, (bounds first last total rfl).2.2, rfl⟩

/-- A `GET` or `HEAD` of a file is answered with what it is owed of a representation
of the file's length, under its weak tag and without a date, and one of anything else
with a 404. -/
theorem serve_answers (directory : Directory) (system : FileSystem) {method : Method}
    (retrieval : method = Method.get ∨ method = Method.head) (fields : HeaderMap) (captured : Option Text) :
    (captured.bind (directory.locate system) = none →
        directory.serve system method fields captured = bodiless 404) ∧
      ∀ path contents, captured.bind (directory.locate system) = some (path, contents) →
        ∃ owed, (∀ other, Owes method fields
            ⟨etag contents.bytes.length (system.modified path), none, contents.bytes.length⟩ other ↔
              other = owed) ∧
          AnswersFile (etag contents.bytes.length (system.modified path)) (system.opened path)
            contents.bytes.length (directory.serve system method fields captured) owed := by
  cases captured with
  | none =>
      constructor
      · intro _
        rfl
      · intro path contents located
        cases located
  | some requested =>
      rw [Option.bind_some]
      constructor
      · intro absent
        simp only [serve, absent]
      · intro path contents located
        exact answersFile_of_located directory system retrieval fields located

end Directory

/-! ## Requests under a tag -/

/-- What a tag reads as in a field: neither padded nor cut. -/
theorem read_etag {length : Nat} {modified : Option Nat} {tag : Text}
    (isTag : etag length modified = some tag) :
    Text.trim tag = tag ∧ tag ≠ ETag.any ∧ ETag.split tag = [tag] ∧ ETag.isWeak tag = true := by
  rw [etag_eq] at isTag
  obtain ⟨written, -, rfl⟩ := Option.map_eq_some_iff.mp isTag
  obtain ⟨trimmed, notAny, split⟩ :=
    @ETag.read_spelling ⟨tagValue length written, true⟩ (spelled_tagValue length written)
  exact ⟨trimmed, notAny, split, ETag.isWeak_spelling _⟩

/-- Tags compare weakly where they are one. -/
theorem weakMatch_etag {length other : Nat} {modified later : Option Nat} {tag current : Text}
    (isTag : etag length modified = some tag) (isCurrent : etag other later = some current) :
    ETag.weakMatch tag current = true ↔ tag = current := by
  rw [etag_eq] at isTag isCurrent
  obtain ⟨_, -, rfl⟩ := Option.map_eq_some_iff.mp isTag
  obtain ⟨_, -, rfl⟩ := Option.map_eq_some_iff.mp isCurrent
  rw [ETag.weakMatch, beq_iff_eq]
  constructor
  · intro same
    exact congrArg (fun rest => 'W' :: '/' :: rest) same
  · intro same
    rw [same]

/-- A field that sends a tag names it weakly where it is the current one. -/
theorem namedWeakly_etag_iff {line : HeaderValue} {length other : Nat} {modified later : Option Nat}
    {sent : Text} (issued : etag length modified = some sent) (reads : line.toStr = some sent) :
    ETag.NamedWeakly [line] (etag other later) ↔ etag other later = some sent := by
  obtain ⟨trimmed, notAny, split, -⟩ := read_etag issued
  constructor
  · rintro ⟨_, inLines, text, isText, named⟩
    rw [List.mem_singleton.mp inLines, reads] at isText
    cases isText
    rcases named with isAny | ⟨current, isCurrent, member, inSplit, matched⟩
    · rw [trimmed] at isAny
      exact absurd isAny notAny
    · rw [split, List.mem_singleton] at inSplit
      rw [isCurrent, ← (weakMatch_etag issued isCurrent).mp (inSplit ▸ matched)]
  · intro isCurrent
    refine ⟨line, List.mem_singleton_self _, sent, reads, .inr ⟨sent, isCurrent, sent, ?_, ?_⟩⟩
    · rw [split]
      exact List.mem_singleton_self _
    · exact (weakMatch_etag issued isCurrent).mpr rfl

/-- A field that sends a tag never names it strongly. -/
theorem not_namedStrongly_etag {line : HeaderValue} {length : Nat} {modified : Option Nat}
    {sent : Text} (issued : etag length modified = some sent) (reads : line.toStr = some sent)
    (current : Option Text) : ¬ ETag.NamedStrongly [line] current := by
  obtain ⟨trimmed, notAny, split, weak⟩ := read_etag issued
  rintro ⟨_, inLines, text, isText, named⟩
  rw [List.mem_singleton.mp inLines, reads] at isText
  cases isText
  rcases named with isAny | ⟨tag, -, member, inSplit, matched⟩
  · rw [trimmed] at isAny
    exact notAny isAny
  · rw [split, List.mem_singleton] at inSplit
    rw [inSplit, ETag.strongMatch, weak] at matched
    cases matched

/-- No condition on a range holds of a weak tag. -/
theorem holds_etag (condition : HeaderValue) (length : Nat) (modified : Option Nat) :
    holds condition (etag length modified) = false := by
  unfold holds
  cases isTag : etag length modified with
  | none => cases condition.toStr <;> rfl
  | some tag =>
      obtain ⟨-, -, -, weak⟩ := read_etag isTag
      cases condition.toStr with
      | none => rfl
      | some text => simp [ETag.strongMatch, weak]

/-- The status tells whether a part or a 304 was owed. -/
theorem AnswersFile.owed {tag : Option Text} {opened : Option Contents} {completeLength : Nat}
    {response : Response (Content (Opened × Spans))} {owed : Owed}
    (answers : AnswersFile tag opened completeLength response owed) :
    (response.status = 304 ↔ owed = .notModified) ∧
      (response.status = 206 → ∃ first last, owed = .part first last) := by
  cases owed with
  | preconditionFailed =>
      have status : response.status = 412 := answers
      simp [status]
  | notModified =>
      have status : response.status = 304 := answers.1
      simp [status]
  | notSatisfiable =>
      have status : response.status = 416 := answers
      simp [status]
  | part first last =>
      cases opened with
      | none =>
          have status : response.status = 404 := answers.2.2
          simp [status]
      | some held =>
          have status : response.status = 206 := answers.2.2.1
          simp [status]
  | whole =>
      cases opened with
      | none =>
          have status : response.status = 404 := answers
          simp [status]
      | some held =>
          have status : response.status = 200 := answers.1
          simp [status]

namespace Directory

theorem length_page_le : ([1, 2, 3] : Octets).length ≤ u64Max := by
  decide

/-- A file of three octets. -/
def page : Contents :=
  ⟨[1, 2, 3], length_page_le⟩

theorem locate_page : indexed.locate (site [.file "a".toList page]) "a".toList = some (["a".toList], page) :=
  rfl

theorem serve_answers_page :
    ((some "a".toList).bind (indexed.locate (site [.file "a".toList page])) = none →
        indexed.serve (site [.file "a".toList page]) Method.get HeaderMap.empty (some "a".toList) =
          bodiless 404) ∧
      ∀ path contents,
        (some "a".toList).bind (indexed.locate (site [.file "a".toList page])) = some (path, contents) →
          ∃ owed, (∀ other, Owes Method.get HeaderMap.empty
              ⟨etag contents.bytes.length ((site [.file "a".toList page]).modified path), none,
                contents.bytes.length⟩ other ↔ other = owed) ∧
            AnswersFile (etag contents.bytes.length ((site [.file "a".toList page]).modified path))
              ((site [.file "a".toList page]).opened path) contents.bytes.length
              (indexed.serve (site [.file "a".toList page]) Method.get HeaderMap.empty (some "a".toList))
              owed :=
  serve_answers indexed (site [.file "a".toList page]) (.inl rfl) HeaderMap.empty (some "a".toList)

/-- What a request under a tag sent before is answered with: `If-Match` fails it,
`If-None-Match` gives a 304 exactly where neither the length nor the time of writing
has changed, and `If-Range` never gives a part. -/
theorem serve_tagged (directory : Directory) (system : FileSystem) {method : Method}
    (retrieval : method = Method.get ∨ method = Method.head) (fields : HeaderMap) {requested : Text}
    {path : List Text} {contents : Contents}
    (located : directory.locate system requested = some (path, contents)) {length written : Nat}
    {sent : Text} (issued : etag length (some written) = some sent) {line : HeaderValue}
    (reads : line.toStr = some sent) :
    (fields.getAll Header.ifMatch = [line] →
        (directory.serve system method fields (some requested)).status = 412) ∧
      (fields.getAll Header.ifMatch = [] → fields.getAll Header.ifNoneMatch = [line] →
        ((directory.serve system method fields (some requested)).status = 304 ↔
          contents.bytes.length = length ∧ system.modified path = some written)) ∧
      (fields.get Header.ifRange = some line →
        (directory.serve system method fields (some requested)).status ≠ 206) := by
  obtain ⟨owed, owes, answers⟩ := answersFile_of_located directory system retrieval fields located
  have isOwed := (owes owed).mpr rfl
  refine ⟨fun sends => ?_, fun unmatched sends => ?_, fun sends partly => ?_⟩
  · have refused : Refused fields ⟨etag contents.bytes.length (system.modified path), none,
        contents.bytes.length⟩ := by
      left
      rw [sends]
      exact ⟨List.cons_ne_nil _ _, not_namedStrongly_etag issued reads _⟩
    have same := (owes .preconditionFailed).mp (.refused refused)
    rw [← same] at answers
    exact answers
  · have passed : ¬ Refused fields ⟨etag contents.bytes.length (system.modified path), none,
        contents.bytes.length⟩ := by
      rw [refused_iff, ETag.ifMatch_of_absent _ unmatched]
      simp
    have retrieves : Retrieval method := retrieval.imp_right Or.inl
    have isCurrent : Current method fields ⟨etag contents.bytes.length (system.modified path), none,
        contents.bytes.length⟩ ↔ etag contents.bytes.length (system.modified path) = some sent := by
      rw [Current, sends]
      simp [namedWeakly_etag_iff issued reads]
    have same : etag contents.bytes.length (system.modified path) = some sent ↔
        contents.bytes.length = length ∧ system.modified path = some written := by
      rw [← issued]
      cases system.modified path with
      | none => simp [etag]
      | some later => rw [etag_eq_some_iff, Option.some.injEq]
    rw [answers.owed.1, ← same, ← isCurrent]
    constructor
    · rintro rfl
      cases isOwed with
      | notModified _ current _ => exact current
    · intro current
      exact ((owes .notModified).mp (.notModified passed current retrieves)).symm
  · obtain ⟨first, last, rfl⟩ := answers.owed.2 partly
    cases isOwed with
    | part _ _ applies _ _ _ _ =>
        have condition := applies.condition line sends
        rw [holds_etag] at condition
        cases condition

/-- The tag of three octets written at the first nanosecond. -/
def pageTag : HeaderValue :=
  ⟨Text.toOctets "W/\"3-1\"".toList, by decide⟩

/-- A request that revalidates the page. -/
def revalidating : HeaderMap :=
  HeaderMap.empty.append Header.ifNoneMatch pageTag

theorem serve_tagged_page :
    (revalidating.getAll Header.ifMatch = [pageTag] →
        (indexed.serve (site [.file "a".toList page]) Method.get revalidating
          (some "a".toList)).status = 412) ∧
      (revalidating.getAll Header.ifMatch = [] → revalidating.getAll Header.ifNoneMatch = [pageTag] →
        ((indexed.serve (site [.file "a".toList page]) Method.get revalidating
            (some "a".toList)).status = 304 ↔
          page.bytes.length = 3 ∧ (site [.file "a".toList page]).modified ["a".toList] = some 1)) ∧
      (revalidating.get Header.ifRange = some pageTag →
        (indexed.serve (site [.file "a".toList page]) Method.get revalidating
          (some "a".toList)).status ≠ 206) :=
  serve_tagged indexed (site [.file "a".toList page]) (.inl rfl) revalidating locate_page
    (show etag 3 (some 1) = some "W/\"3-1\"".toList by decide) rfl

end Directory

end Kynos.Assets
