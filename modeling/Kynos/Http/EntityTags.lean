import Kynos.Http.ETag
import Kynos.Word.Padded
import Kynos.Word.Scan
import Mathlib.Data.List.Forall2

/-!
# Entity tags over many lines

`If-Match` and `If-None-Match` as they may be written: any number of lines, each
a list of tags, stars and empty elements with optional whitespace around them.
The two readers compare the current tag with every tag that is listed.
-/

namespace Kynos.Http

open Kynos.Word

namespace ETag

/-! ## Spelled tags apart -/

/-- A tag within its quotes. -/
def quotedValue (value : Text) : Text :=
  '"' :: (value ++ ['"'])

theorem isWeak_spelling (tag : ETag) : isWeak tag.spelling = tag.weak := by
  obtain ⟨value, weak⟩ := tag
  cases weak <;> rfl

theorem opaqueTag_spelling (tag : ETag) : opaqueTag tag.spelling = quotedValue tag.value := by
  rw [opaqueTag, isWeak_spelling]
  obtain ⟨value, weak⟩ := tag
  cases weak <;> rfl

theorem quotedValue_inj {value other : Text} :
    quotedValue value = quotedValue other ↔ value = other := by
  simp [quotedValue]

/-- Spelled tags are weakly equal where their values are. -/
theorem weakMatch_spelling {tag other : ETag} :
    weakMatch tag.spelling other.spelling = true ↔ tag.value = other.value := by
  rw [weakMatch, opaqueTag_spelling, opaqueTag_spelling, beq_iff_eq, quotedValue_inj]

/-- Spelled tags are strongly equal where they are strong and their values are
equal. -/
theorem strongMatch_spelling {tag other : ETag} :
    strongMatch tag.spelling other.spelling = true ↔
      other.weak = false ∧ tag.weak = false ∧ tag.value = other.value := by
  obtain ⟨value, weak⟩ := tag
  obtain ⟨value', weak'⟩ := other
  simp only [strongMatch, isWeak_spelling, Bool.and_eq_true, Bool.not_eq_true', beq_iff_eq]
  constructor
  · rintro ⟨⟨rfl, rfl⟩, same⟩
    refine ⟨rfl, rfl, ?_⟩
    simpa [spelling] using same
  · rintro ⟨rfl, rfl, rfl⟩
    exact ⟨⟨rfl, rfl⟩, rfl⟩

/-- A star is weakly equal to no tag. -/
theorem weakMatch_any (tag : ETag) : weakMatch any tag.spelling = false := by
  rw [weakMatch, opaqueTag_spelling]
  rfl

theorem strongMatch_any (tag : ETag) : strongMatch any tag.spelling = false := by
  obtain ⟨value, weak⟩ := tag
  cases weak <;> simp [strongMatch, any, spelling]

/-! ## Splitting at the commas outside quotes -/

/-- The reader of a list: whether it is within quotes. -/
def toggle (quoted : Bool) (letter : Char) : Option Bool :=
  if letter = ',' ∧ !quoted then none else some (if letter = '"' then !quoted else quoted)

theorem pieces_eq_scan (quoted : Bool) (text : Text) :
    pieces quoted text = scan toggle false quoted text := by
  induction text generalizing quoted with
  | nil => rfl
  | cons letter rest ih =>
      rw [pieces]
      split
      · rename_i stops
        rw [scan_cons_of_none (by rw [toggle, if_pos stops]), ih]
      · rename_i reads
        rw [scan_cons_of_some (by rw [toggle, if_neg reads]), ih]

/-- No letter of a tag's value is a quote or white space. -/
theorem visible_of_spelled {tag : ETag} (spelled : tag.value.toOctets.all isEtagc = true) :
    '"' ∉ tag.value := by
  intro quote
  rw [List.all_eq_true] at spelled
  exact absurd (spelled 0x22 (List.mem_flatMap.mpr ⟨'"', quote, by decide⟩)) (by decide)

/-! ## Lines as they are written -/

/-- What an element of a list is: nothing, a star, or a tag that can be
spelled. -/
inductive Member where
  | empty
  | star
  | one (tag : ETag) (spelled : tag.value.toOctets.all isEtagc = true)

namespace Member

/-- The spelling of a member. -/
def text : Member → Text
  | .empty => []
  | .star => any
  | .one tag _ => tag.spelling

/-- A member is read whole, up to the comma after it. -/
theorem foldlM_text (member : Member) : member.text.foldlM toggle false = some false := by
  cases member with
  | empty => rfl
  | star => rfl
  | one tag spelled =>
      have noQuote := visible_of_spelled spelled
      have value : tag.value.foldlM toggle true = some true := by
        refine foldlM_of_forall fun letter inValue => ?_
        have notQuote : letter ≠ '"' := fun same => noQuote (same ▸ inValue)
        simp [toggle, notQuote]
      have quoted : (quotedValue tag.value).foldlM toggle false = some false := by
        rw [quotedValue, List.foldlM_cons]
        exact foldlM_append_of_some value rfl
      obtain ⟨written, weak⟩ := tag
      cases weak with
      | false => exact quoted
      | true => exact quoted

/-- A member has no blank at either end. -/
theorem solid (member : Member) : Solid Text.isWhitespace member.text := by
  cases member with
  | empty => exact .nil _
  | star => exact .of_forall (List.all_iff_forall_prop.mp (by decide))
  | one tag spelled =>
      have quoteWord : Solid Text.isWhitespace ['"'] := .of_forall (List.all_iff_forall_prop.mp (by decide))
      obtain ⟨written, weak⟩ := tag
      cases weak with
      | false => exact quoteWord.append quoteWord (by simp) (by simp)
      | true =>
          have markWord : Solid Text.isWhitespace ("W/".toList ++ ['"']) := .of_forall (List.all_iff_forall_prop.mp (by decide))
          exact markWord.append quoteWord (by simp) (by simp)

end Member

/-- A member and the optional whitespace around it. -/
structure Element where
  before : Text
  member : Member
  after : Text
  beforeBlank : ∀ letter ∈ before, Text.isOws letter = true
  afterBlank : ∀ letter ∈ after, Text.isOws letter = true

namespace Element

/-- The spelling of an element. -/
def text (element : Element) : Text :=
  element.before ++ element.member.text ++ element.after

theorem pads (element : Element) : Pads Text.isWhitespace element.text element.member.text :=
  ⟨element.before, element.after, rfl,
    fun letter member => Text.isWhitespace_of_isOws (element.beforeBlank letter member),
    fun letter member => Text.isWhitespace_of_isOws (element.afterBlank letter member)⟩

theorem trim_text (element : Element) : Text.trim element.text = element.member.text :=
  element.pads.trimBy_eq element.member.solid

/-- An element is read whole, up to the comma after it. -/
theorem foldlM_text (element : Element) : element.text.foldlM toggle false = some false := by
  have blank : ∀ text : Text, (∀ letter ∈ text, Text.isOws letter = true) →
      text.foldlM toggle false = some false := by
    intro text blanks
    refine foldlM_of_forall fun letter member => ?_
    have isBlank := blanks letter member
    simp only [Text.isOws, Bool.or_eq_true, beq_iff_eq] at isBlank
    rcases isBlank with rfl | rfl <;> rfl
  exact foldlM_append_of_some
    (foldlM_append_of_some (blank _ element.beforeBlank) element.member.foldlM_text)
    (blank _ element.afterBlank)

end Element

/-- One line: elements between commas. -/
structure Line where
  elements : List Element
  nonempty : elements ≠ []

namespace Line

/-- The spelling of a line. -/
def text (line : Line) : Text :=
  [','].intercalate (line.elements.map Element.text)

/-- A line that is a star. -/
def IsAny (line : Line) : Prop :=
  line.elements.map Element.member = [.star]

/-- A tag is among the elements. -/
def Lists (line : Line) (tag : ETag) : Prop :=
  ∃ element ∈ line.elements, ∃ spelled, element.member = .one tag spelled

/-- The members of a line are read, but for the empty ones. -/
theorem split_text (line : Line) :
    split line.text =
      (line.elements.map fun element => element.member.text).filter fun member =>
        !member.isEmpty := by
  have texts : line.elements.map Element.text ≠ [] := by simp [line.nonempty]
  have cut : pieces false line.text = line.elements.map Element.text := by
    rw [pieces_eq_scan, text]
    refine scan_intercalate texts fun piece member => ⟨false, ?_, rfl⟩
    obtain ⟨element, -, rfl⟩ := List.mem_map.mp member
    exact element.foldlM_text
  rw [split, cut, List.map_map]
  congr 1
  exact List.map_congr_left fun element _ => element.trim_text

theorem exists_mem_split_iff {line : Line} (accepts : Text → Bool) (notStar : accepts any = false) :
    (∃ member ∈ split line.text, accepts member = true) ↔
      ∃ tag, line.Lists tag ∧ accepts tag.spelling = true := by
  rw [split_text]
  constructor
  · rintro ⟨member, inSplit, accepted⟩
    obtain ⟨inMap, nonempty⟩ := List.mem_filter.mp inSplit
    obtain ⟨element, inLine, rfl⟩ := List.mem_map.mp inMap
    cases isMember : element.member with
    | empty => simp [isMember, Member.text] at nonempty
    | star =>
        rw [isMember, Member.text, notStar] at accepted
        cases accepted
    | one tag spelled =>
        rw [isMember, Member.text] at accepted
        exact ⟨tag, ⟨element, inLine, spelled, isMember⟩, accepted⟩
  · rintro ⟨tag, ⟨element, inLine, spelled, isMember⟩, accepted⟩
    refine ⟨tag.spelling, List.mem_filter.mpr ⟨List.mem_map.mpr ⟨element, inLine, ?_⟩, ?_⟩, accepted⟩
    · rw [isMember, Member.text]
    · simp [spelling]

/-- A line is trimmed to a star exactly when it is one. -/
theorem trim_text_eq_any_iff {line : Line} : Text.trim line.text = any ↔ line.IsAny := by
  obtain ⟨elements, nonempty⟩ := line
  cases elements with
  | nil => contradiction
  | cons element rest =>
      cases rest with
      | nil =>
          simp only [text, List.map_cons, List.map_nil, List.intercalate_singleton,
            element.trim_text, IsAny, List.cons.injEq, and_true]
          cases element.member with
          | empty => simp [Member.text, any]
          | star => simp [Member.text]
          | one tag spelled =>
              obtain ⟨written, weak⟩ := tag
              cases weak <;> simp [Member.text, any, spelling]
      | cons second rest =>
          have notAny : ¬IsAny ⟨element :: second :: rest, nonempty⟩ := by simp [IsAny]
          refine iff_of_false (fun trimmed => ?_) notAny
          have comma : ',' ∈ text ⟨element :: second :: rest, nonempty⟩ := by
            simp [text]
          have kept : ',' ∈ Text.trim (text ⟨element :: second :: rest, nonempty⟩) :=
            mem_trimBy_of_mem comma (by decide)
          rw [trimmed] at kept
          exact absurd kept (by decide)

end Line

/-- Some line is a star. -/
def AnyLine (lines : List Line) : Prop :=
  ∃ line ∈ lines, line.IsAny

/-- A tag is listed by some line. -/
def Listed (lines : List Line) (tag : ETag) : Prop :=
  ∃ line ∈ lines, line.Lists tag

/-- The values of a field are the lines that are written. -/
def Written (lines : List Line) (values : List HeaderValue) : Prop :=
  List.Forall₂ (fun line value => value.toStr = some line.text) lines values

variable {lines : List Line} {values : List HeaderValue}

theorem Written.eq_nil_iff (written : Written lines values) : values = [] ↔ lines = [] := by
  cases written with
  | nil => simp
  | cons => simp

/-- What some value says is what some line says. -/
theorem Written.exists_iff (written : Written lines values) {means : Text → Prop} :
    (∃ value ∈ values, ∃ text, value.toStr = some text ∧ means text) ↔
      ∃ line ∈ lines, means line.text := by
  constructor
  · rintro ⟨value, inValues, text, reads, holds⟩
    have flipped : List.Forall₂ (fun value line => value.toStr = some (Line.text line)) values lines :=
      written.flip
    obtain ⟨line, inLines, isText⟩ := exists_of_mem_left flipped value inValues
    rw [isText, Option.some.injEq] at reads
    exact ⟨line, inLines, reads ▸ holds⟩
  · rintro ⟨line, inLines, holds⟩
    obtain ⟨value, inValues, isText⟩ := exists_of_mem_left written line inLines
    exact ⟨value, inValues, line.text, isText, holds⟩

/-- A condition that compares tags holds where a line is a star or lists a tag
the comparison accepts. -/
theorem Written.named_iff (written : Written lines values) {current : Text}
    {accepts : Text → Text → Bool} (notStar : accepts any current = false) :
    (∃ value ∈ values, ∃ text, value.toStr = some text ∧
        (Text.trim text = any ∨ ∃ tag, some current = some tag ∧
          ∃ member ∈ split text, accepts member tag = true)) ↔
      AnyLine lines ∨ ∃ tag, Listed lines tag ∧ accepts tag.spelling current = true := by
  rw [written.exists_iff]
  simp only [Option.some.injEq, exists_eq_left', Line.trim_text_eq_any_iff,
    Line.exists_mem_split_iff (fun member => accepts member current) notStar]
  constructor
  · rintro ⟨line, inLines, isAny | ⟨tag, lists, accepted⟩⟩
    · exact .inl ⟨line, inLines, isAny⟩
    · exact .inr ⟨tag, ⟨line, inLines, lists⟩, accepted⟩
  · rintro (⟨line, inLines, isAny⟩ | ⟨tag, ⟨line, inLines, lists⟩, accepted⟩)
    · exact ⟨line, inLines, .inl isAny⟩
    · exact ⟨line, inLines, .inr ⟨tag, lists, accepted⟩⟩

/-! ## The two conditions -/

/-- `If-Match` and `If-None-Match` as they are written, and a current tag that
is sent. A condition is absent exactly where it has no line. `If-Match` holds
where a line is a star, or where the current tag is strong and a strong tag of
its value is listed; `If-None-Match` names the current tag where a line is a
star or a tag of its value is listed. -/
theorem conditions_written {fields : HeaderMap} {current : ETag} {sent : HeaderValue}
    {strongLines weakLines : List Line} (encodes : current.encode = some sent)
    (strongWritten : Written strongLines (fields.getAll Header.ifMatch))
    (weakWritten : Written weakLines (fields.getAll Header.ifNoneMatch)) :
    (ifMatch fields sent.toStr = none ↔ strongLines = []) ∧
      (ifNoneMatch fields sent.toStr = none ↔ weakLines = []) ∧
      (∀ holds, ifMatch fields sent.toStr = some holds → (holds = true ↔
        AnyLine strongLines ∨ (current.weak = false ∧ ∃ tag, Listed strongLines tag ∧
          tag.weak = false ∧ tag.value = current.value))) ∧
      ∀ named, ifNoneMatch fields sent.toStr = some named → (named = true ↔
        AnyLine weakLines ∨ ∃ tag, Listed weakLines tag ∧ tag.value = current.value) := by
  have spelled := toStr_of_encode encodes
  rw [spelled]
  refine ⟨?_, ?_, ?_, ?_⟩
  · rw [← strongWritten.eq_nil_iff]
    refine ⟨fun isNone => ?_, ifMatch_of_absent _⟩
    by_contra present
    obtain ⟨holds, found, -⟩ := ifMatch_of_sent (some current.spelling) present
    rw [isNone] at found
    cases found
  · rw [← weakWritten.eq_nil_iff]
    refine ⟨fun isNone => ?_, ifNoneMatch_of_absent _⟩
    by_contra present
    obtain ⟨named, found, -⟩ := ifNoneMatch_of_sent (some current.spelling) present
    rw [isNone] at found
    cases found
  · intro holds found
    have present : fields.getAll Header.ifMatch ≠ [] := fun absent => by
      rw [ifMatch_of_absent _ absent] at found
      cases found
    obtain ⟨holds', found', iff⟩ := ifMatch_of_sent (some current.spelling) present
    rw [found', Option.some.injEq] at found
    subst found
    rw [iff, NamedStrongly, strongWritten.named_iff (strongMatch_any current)]
    simp only [strongMatch_spelling]
    refine or_congr_right ⟨?_, ?_⟩
    · rintro ⟨tag, listed, strong, strongTag, same⟩
      exact ⟨strong, tag, listed, strongTag, same⟩
    · rintro ⟨strong, tag, listed, strongTag, same⟩
      exact ⟨tag, listed, strong, strongTag, same⟩
  · intro named found
    have present : fields.getAll Header.ifNoneMatch ≠ [] := fun absent => by
      rw [ifNoneMatch_of_absent _ absent] at found
      cases found
    obtain ⟨named', found', iff⟩ := ifNoneMatch_of_sent (some current.spelling) present
    rw [found', Option.some.injEq] at found
    subst found
    rw [iff, NamedWeakly, weakWritten.named_iff (weakMatch_any current)]
    simp only [weakMatch_spelling]

/-- A tag on a line of its own. -/
theorem read_spelling {tag : ETag} (spelled : tag.value.toOctets.all isEtagc = true) :
    Text.trim tag.spelling = tag.spelling ∧ tag.spelling ≠ any ∧ split tag.spelling = [tag.spelling] := by
  let line : Line :=
    ⟨[⟨[], .one tag spelled, [], Text.isOws_of_mem_nil, Text.isOws_of_mem_nil⟩], List.cons_ne_nil _ _⟩
  have text : line.text = tag.spelling := by
    simp [line, Line.text, Element.text, Member.text]
  have trimmed : Text.trim tag.spelling = tag.spelling := by
    simpa [Element.text, Member.text] using
      Element.trim_text ⟨[], .one tag spelled, [], Text.isOws_of_mem_nil, Text.isOws_of_mem_nil⟩
  refine ⟨trimmed, fun isAny => ?_, ?_⟩
  · have star := Line.trim_text_eq_any_iff.mp (text ▸ trimmed.trans isAny)
    simp [line, Line.IsAny] at star
  · rw [← text, Line.split_text, text]
    simp [line, Member.text, spelling]

/-! ## A tag that holds a comma -/

/-- The tag `"a,b"`. -/
def comma : ETag where
  value := "a,b".toList
  weak := false

/-- The tag as it is sent. -/
def commaLabel : HeaderValue :=
  ⟨comma.spelling.toOctets, by decide⟩

/-- The line `"a,b" ,, *`. -/
def commaLine : Line where
  elements :=
    [⟨[], .one comma (by decide), [' '], Text.isOws_of_mem_nil, List.all_eq_true.mp (by decide)⟩,
      ⟨[], .empty, [], Text.isOws_of_mem_nil, Text.isOws_of_mem_nil⟩,
      ⟨[' '], .star, [], List.all_eq_true.mp (by decide), Text.isOws_of_mem_nil⟩]
  nonempty := by simp

/-- A request with that line as its `If-Match`. -/
def commaRequest : HeaderMap :=
  ⟨[(Header.ifMatch, ⟨commaLine.text.toOctets, by decide⟩)]⟩

theorem conditions_written_comma :
    ifMatch commaRequest commaLabel.toStr = some true ∧
      ifNoneMatch commaRequest commaLabel.toStr = none := by
  have strongWritten : Written [commaLine] (commaRequest.getAll Header.ifMatch) :=
    .cons (by decide) .nil
  have weakWritten : Written [] (commaRequest.getAll Header.ifNoneMatch) := .nil
  have encodes : comma.encode = some commaLabel := by decide
  obtain ⟨absent, weakAbsent, holds, -⟩ := conditions_written encodes strongWritten weakWritten
  refine ⟨?_, weakAbsent.mpr rfl⟩
  cases found : ifMatch commaRequest commaLabel.toStr with
  | none => exact absurd (absent.mp found) (by simp)
  | some held =>
      rw [(holds held found).mpr (.inr ⟨rfl, comma, ⟨commaLine, by simp,
        _, List.mem_cons_self, by decide, rfl⟩, rfl, rfl⟩)]

end ETag

end Kynos.Http
