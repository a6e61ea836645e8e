import Kynos.Http.Field

/-!
# Entity tags

Writing an entity tag, reading a list of them, and the two ways to compare two
(RFC 9110 section 8.8.3). An opaque tag may hold a comma, so a list is cut only
at the commas outside quotes.
-/

namespace Kynos.Http

/-- An entity tag: its opaque value, without quotes, and whether it is weak. -/
structure ETag where
  value : Text
  weak : Bool
  deriving DecidableEq, Repr

namespace ETag

/-- `etagc` without `obs-text`. -/
def isEtagc (octet : UInt8) : Bool :=
  octet == 0x21 || (0x23 ≤ octet && octet ≤ 0x7e)

/-- The tag as it is spelled: its mark, and its value in quotes. -/
def spelling (tag : ETag) : Text :=
  (if tag.weak then "W/".toList else []) ++ '"' :: (tag.value ++ ['"'])

/-- The tag as a field value, or `none` for one that cannot be spelled. -/
def encode (tag : ETag) : Option HeaderValue :=
  if tag.value.toOctets.all isEtagc then HeaderValue.fromStr tag.spelling else none

/-! ## Lists of tags -/

/-- The pieces of a text between the commas outside quotes. A quote always
toggles: an opaque tag has no escape. -/
def pieces (quoted : Bool) : Text → List Text
  | [] => [[]]
  | letter :: rest =>
      if letter = ',' ∧ !quoted then
        [] :: pieces false rest
      else
        (pieces (if letter = '"' then !quoted else quoted) rest).modifyHead (letter :: ·)

/-- Every member of a `#entity-tag` list, trimmed; empty ones are skipped. -/
def split (text : Text) : List Text :=
  ((pieces false text).map Text.trim).filter fun member => !member.isEmpty

/-- The list that names any current representation. -/
def any : Text := "*".toList

/-- The tags a field value lists, or `none` where it names any. -/
def listed (text : Text) : Option (List Text) :=
  if Text.trim text = any then none else some (split text)

/-! ## Comparing tags -/

/-- The mark of a weak tag. -/
def weakMark : Text := "W/".toList

def isWeak (tag : Text) : Bool :=
  weakMark.isPrefixOf tag

/-- The tag without its weak mark. -/
def opaqueTag (tag : Text) : Text :=
  if isWeak tag then tag.drop weakMark.length else tag

def weakMatch (left right : Text) : Bool :=
  opaqueTag left == opaqueTag right

def strongMatch (left right : Text) : Bool :=
  !isWeak left && !isWeak right && left == right

/-- Whether a list of tags names the current one weakly; `none` names any. -/
def names (tags : Option (List Text)) (current : Text) : Bool :=
  match tags with
  | none => true
  | some tags => tags.any fun tag => weakMatch tag current

/-- Whether one `If-None-Match` line names the current tag. -/
def «matches» (field : HeaderValue) (current : Text) : Bool :=
  match field.toStr with
  | none => false
  | some text => names (listed text) current

/-- Whether one `If-Match` line names the current tag strongly. -/
def matchesStrongly (field : HeaderValue) (current : Option Text) : Bool :=
  match field.toStr with
  | none => false
  | some text =>
      if Text.trim text = any then
        true
      else
        match current with
        | none => false
        | some current => (split text).any fun candidate => strongMatch candidate current

/-- Whether `If-None-Match` names the current representation, or `none` where
the field is not sent. -/
def ifNoneMatch (fields : HeaderMap) (current : Option Text) : Option Bool :=
  let lines := fields.getAll Header.ifNoneMatch
  if lines.isEmpty then
    none
  else
    some (lines.any fun line =>
      match current with
      | some current => «matches» line current
      | none =>
          match line.toStr with
          | none => false
          | some text => (listed text).isNone)

/-- Whether `If-Match` names the current representation, or `none` where the
field is not sent. -/
def ifMatch (fields : HeaderMap) (current : Option Text) : Option Bool :=
  let lines := fields.getAll Header.ifMatch
  if lines.isEmpty then
    none
  else
    some (lines.any fun line => matchesStrongly line current)

/-! ## Spelled tags -/

open HeaderValue

theorem toNat_of_isEtagc {octet : UInt8} (spelled : isEtagc octet = true) :
    0x21 ≤ octet.toNat ∧ octet.toNat ≤ 0x7e := by
  simp only [isEtagc, Bool.or_eq_true, Bool.and_eq_true, decide_eq_true_eq, beq_iff_eq,
    UInt8.le_iff_toNat_le] at spelled
  rcases spelled with rfl | ⟨above, below⟩
  · decide
  · exact ⟨Nat.le_trans (by decide) above, below⟩

/-- The first octet of a character past ASCII is past ASCII. -/
theorem exists_octet_of_not_ascii {character : Char} (past : 0x7f < character.toNat) :
    ∃ octet ∈ String.utf8EncodeChar character, 0x80 ≤ octet.toNat := by
  have notAscii : ¬character.val.toNat ≤ 0x7f := Nat.not_le.mpr past
  simp only [String.utf8EncodeChar, if_neg notAscii]
  split
  · refine ⟨_, List.mem_cons_self, ?_⟩
    rw [UInt8.toNat_ofNat']
    omega
  · split
    · refine ⟨_, List.mem_cons_self, ?_⟩
      rw [UInt8.toNat_ofNat']
      omega
    · refine ⟨_, List.mem_cons_self, ?_⟩
      rw [UInt8.toNat_ofNat']
      omega

/-- A character whose octets are all `etagc` is one visible octet. -/
theorem isTextCharacter_of_isEtagc {character : Char}
    (spelled : ∀ octet ∈ String.utf8EncodeChar character, isEtagc octet = true) :
    IsTextCharacter character := by
  by_cases past : 0x7f < character.toNat
  · obtain ⟨octet, member, above⟩ := exists_octet_of_not_ascii past
    have := (toNat_of_isEtagc (spelled octet member)).2
    omega
  · have ascii : character.val.toNat ≤ 0x7f := Nat.not_lt.mp past
    have visible := toNat_of_isEtagc (spelled (UInt8.ofNat character.toNat) (by
      simp only [String.utf8EncodeChar, if_pos ascii]
      exact List.mem_cons_self))
    rw [UInt8.toNat_ofNat'] at visible
    exact .inl (by omega)

theorem isTextCharacter_of_mem_spelling {tag : ETag}
    (spelled : tag.value.toOctets.all isEtagc = true) :
    ∀ character ∈ tag.spelling, IsTextCharacter character := by
  rw [List.all_eq_true] at spelled
  intro character member
  have mark : ∀ character ∈ (if tag.weak then "W/".toList else []),
      IsTextCharacter character := by
    cases tag.weak <;> exact List.all_iff_forall_prop.mp (by decide)
  simp only [spelling, List.mem_append, List.mem_cons, List.not_mem_nil, or_false] at member
  rcases member with inMark | rfl | inValue | rfl
  · exact mark character inMark
  · decide
  · refine isTextCharacter_of_isEtagc fun octet inOctets => spelled octet ?_
    exact List.mem_flatMap.mpr ⟨character, inValue, inOctets⟩
  · decide

/-- A tag whose octets are all `etagc` is sent, as its spelling. -/
theorem exists_encode {tag : ETag} (spelled : tag.value.toOctets.all isEtagc = true) :
    ∃ value, tag.encode = some value ∧ value.toStr = some tag.spelling := by
  obtain ⟨value, sent, reads⟩ := exists_fromStr (isTextCharacter_of_mem_spelling spelled)
  exact ⟨value, by rw [encode, if_pos spelled, sent], reads⟩

/-- The octets of a tag that is sent are all `etagc`. -/
theorem spelled_of_encode {tag : ETag} {value : HeaderValue} (sent : tag.encode = some value) :
    tag.value.toOctets.all isEtagc = true := by
  unfold encode at sent
  split at sent
  · assumption
  · contradiction

/-- A tag that can be spelled is sent as its spelling. -/
theorem toStr_of_encode {tag : ETag} {value : HeaderValue} (sent : tag.encode = some value) :
    value.toStr = some tag.spelling := by
  obtain ⟨other, sent', reads⟩ := exists_encode (spelled_of_encode sent)
  rw [sent'] at sent
  cases sent
  exact reads

/-! ## What a field says of the current tag -/

/-- Some line names any representation or lists a tag strongly equal to the
current one. -/
def NamedStrongly (lines : List HeaderValue) (current : Option Text) : Prop :=
  ∃ line ∈ lines, ∃ text, line.toStr = some text ∧
    (Text.trim text = any ∨
      ∃ tag, current = some tag ∧ ∃ member ∈ split text, strongMatch member tag = true)

/-- Some line names any representation or lists a tag weakly equal to the
current one. -/
def NamedWeakly (lines : List HeaderValue) (current : Option Text) : Prop :=
  ∃ line ∈ lines, ∃ text, line.toStr = some text ∧
    (Text.trim text = any ∨
      ∃ tag, current = some tag ∧ ∃ member ∈ split text, weakMatch member tag = true)

theorem matchesStrongly_iff {line : HeaderValue} {current : Option Text} :
    matchesStrongly line current = true ↔ ∃ text, line.toStr = some text ∧
      (Text.trim text = any ∨
        ∃ tag, current = some tag ∧ ∃ member ∈ split text, strongMatch member tag = true) := by
  cases read : line.toStr with
  | none => simp [matchesStrongly, read]
  | some text =>
      by_cases anyTag : Text.trim text = any
      · simp [matchesStrongly, read, anyTag]
      · cases current with
        | none => simp [matchesStrongly, read, anyTag]
        | some tag => simp [matchesStrongly, read, anyTag]

/-- `If-Match` is no condition where it is not sent. -/
theorem ifMatch_of_absent {fields : HeaderMap} (current : Option Text)
    (absent : fields.getAll Header.ifMatch = []) : ifMatch fields current = none := by
  simp [ifMatch, absent]

/-- `If-Match` holds exactly where it names the current tag strongly. -/
theorem ifMatch_of_sent {fields : HeaderMap} (current : Option Text)
    (sent : fields.getAll Header.ifMatch ≠ []) :
    ∃ holds, ifMatch fields current = some holds ∧
      (holds = true ↔ NamedStrongly (fields.getAll Header.ifMatch) current) := by
  refine ⟨(fields.getAll Header.ifMatch).any fun line => matchesStrongly line current, ?_, ?_⟩
  · simp [ifMatch, sent]
  · simp only [List.any_eq_true, matchesStrongly_iff, NamedStrongly]

/-- `If-None-Match` is no condition where it is not sent. -/
theorem ifNoneMatch_of_absent {fields : HeaderMap} (current : Option Text)
    (absent : fields.getAll Header.ifNoneMatch = []) : ifNoneMatch fields current = none := by
  simp [ifNoneMatch, absent]

/-- `If-None-Match` names the current representation exactly where it names
its tag weakly. -/
theorem ifNoneMatch_of_sent {fields : HeaderMap} (current : Option Text)
    (sent : fields.getAll Header.ifNoneMatch ≠ []) :
    ∃ named, ifNoneMatch fields current = some named ∧
      (named = true ↔ NamedWeakly (fields.getAll Header.ifNoneMatch) current) := by
  cases found : ifNoneMatch fields current with
  | none => simp [ifNoneMatch, sent] at found
  | some named =>
      refine ⟨named, rfl, ?_⟩
      simp only [ifNoneMatch, List.isEmpty_iff, if_neg sent, Option.some.injEq] at found
      rw [← found, List.any_eq_true]
      refine exists_congr fun line => and_congr_right fun _ => ?_
      cases read : line.toStr with
      | none => cases current <;> simp [«matches», read]
      | some text =>
          by_cases anyTag : Text.trim text = any
          · cases current <;> simp [«matches», read, listed, anyTag, names]
          · cases current <;> simp [«matches», read, listed, anyTag, names]

end ETag

end Kynos.Http
