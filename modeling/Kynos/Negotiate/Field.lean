import Kynos.Negotiate.Accept
import Mathlib.Data.List.Forall2

/-!
# The fields of the grammar

RFC 9110 section 12.5.1: a list of media ranges, each followed by parameters,
with optional white space around commas and semicolons. An element of the list
may be empty, and so may a parameter. A parameter named `q` is a weight wherever
it stands, so no media type has one of that name.
-/

namespace Kynos.Negotiate

open Kynos.Word Kynos.Http

/-! ## The grammar -/

/-- `OWS`. -/
structure Ows where
  text : Text
  blank : ∀ letter ∈ text, Text.isOws letter = true

structure Token where
  text : Text
  token : isToken text = true

/-- `qdtext`, with a character past ASCII for `obs-text`. -/
def IsQdtext (letter : Char) : Prop :=
  letter = '\t' ∨ 32 ≤ letter.toNat ∧ letter ≠ '"' ∧ letter ≠ '\\' ∧ letter.toNat ≠ 127

/-- What a `quoted-pair` escapes. -/
def IsQuotable (letter : Char) : Prop :=
  letter = '\t' ∨ 32 ≤ letter.toNat ∧ letter.toNat ≠ 127

/-- What stands between the quotes of a `quoted-string`. -/
inductive QuotedContent : Text → Prop where
  | nil : QuotedContent []
  | qdtext {letter : Char} {content : Text} (plain : IsQdtext letter)
      (rest : QuotedContent content) : QuotedContent (letter :: content)
  | quotedPair {letter : Char} {content : Text} (quotable : IsQuotable letter)
      (rest : QuotedContent content) : QuotedContent ('\\' :: letter :: content)

/-- `parameter-value`. -/
inductive Value where
  | token (spelling : Token)
  | quotedString (content : Text) (quoted : QuotedContent content)

def Value.text : Value → Text
  | .token spelling => spelling.text
  | .quotedString content _ => '"' :: content ++ ['"']

structure Parameter where
  name : Token
  value : Value

namespace Parameter

def text (parameter : Parameter) : Text :=
  parameter.name.text ++ '=' :: parameter.value.text

/-- A parameter that is a weight. -/
def IsWeight (parameter : Parameter) : Prop :=
  Text.eqIgnoreAsciiCase parameter.name.text ['q'] = true

instance : DecidablePred IsWeight := fun parameter =>
  inferInstanceAs (Decidable (Text.eqIgnoreAsciiCase parameter.name.text ['q'] = true))

end Parameter

/-- A semicolon and the parameter after it, if any. -/
structure Slot where
  before : Ows
  after : Ows
  parameter : Option Parameter

namespace Slot

/-- The spelling of the parameter. -/
def word (slot : Slot) : Text :=
  (slot.parameter.map Parameter.text).getD []

def text (slot : Slot) : Text :=
  slot.before.text ++ ';' :: (slot.after.text ++ slot.word)

end Slot

/-- The values of the parameters that are weights. -/
def weights (slots : List Slot) : List Text :=
  ((slots.filterMap Slot.parameter).filter (·.IsWeight)).map (·.value.text)

/-- The weight the last of some weights states, `quality` where there is none. -/
def States (quality : Nat) (weights : List Text) (stated : Nat) : Prop :=
  match weights.getLast? with
  | none => stated = quality
  | some weight => Quality.IsQvalue weight stated

/-- A type and a subtype, either of which may be a star. -/
structure MediaRange where
  type_ : Token
  subtype : Token

def MediaRange.text (range : MediaRange) : Text :=
  range.type_.text ++ '/' :: range.subtype.text

structure Element where
  range : MediaRange
  slots : List Slot

namespace Element

def text (element : Element) : Text :=
  element.range.text ++ element.slots.flatMap Slot.text

/-- The weight an element is written with: its last, or one where it has none. -/
def Weighs (element : Element) (quality : Nat) : Prop :=
  States 1000 (weights element.slots) quality

/-- No parameter is empty. -/
def Filled (element : Element) : Prop :=
  ∀ slot ∈ element.slots, slot.parameter ≠ none

/-- A star stands for a type only where it stands for its subtypes too, and a
weight is a qvalue. -/
def Meaningful (element : Element) : Prop :=
  (element.range.type_.text = ['*'] → element.range.subtype.text = ['*']) ∧
    ∀ weight ∈ weights element.slots, ∃ quality, Quality.IsQvalue weight quality

end Element

/-- An element of the list, if any, and the white space around it. -/
structure Item where
  before : Ows
  element : Option Element
  after : Ows

namespace Item

def word (item : Item) : Text :=
  (item.element.map Element.text).getD []

def text (item : Item) : Text :=
  item.before.text ++ item.word ++ item.after.text

end Item

/-- A field: items between commas. -/
structure Field where
  items : List Item
  nonempty : items ≠ []

namespace Field

def text (field : Field) : Text :=
  [','].intercalate (field.items.map Item.text)

/-- The elements and their places in the list, from `order` on. -/
def numberedFrom (order : Nat) : List Item → List (Element × Nat)
  | [] => []
  | item :: rest =>
      (item.element.map (·, order)).toList ++ numberedFrom (order + 1) rest

def numbered (field : Field) : List (Element × Nat) :=
  numberedFrom 0 field.items

end Field

/-- A preference is the element it was read from, letters in lower case. -/
structure Written (placed : Element × Nat) (preference : Preference) : Prop where
  type_ : preference.type_ = Text.toAsciiLowercase placed.1.range.type_.text
  subtype : preference.subtype = Text.toAsciiLowercase placed.1.range.subtype.text
  quality : placed.1.Weighs preference.quality
  order : preference.order = placed.2

/-! ## Closed texts -/

section Closed

variable {delimiter : Char} {notQuote : delimiter ≠ '"'} {notEscape : delimiter ≠ '\\'}

theorem closed_of_isToken (isDelimiter : delimiter ∈ delimiters) (token : Token) :
    (quoting delimiter notQuote notEscape).Closed token.text := by
  refine .of_forall fun letter member => ?_
  have tchar := isTchar_of_mem token.token member
  exact ⟨ne_of_isTchar tchar (show '"' ∈ delimiters by decide),
    ne_of_isTchar tchar (show '\\' ∈ delimiters by decide), ne_of_isTchar tchar isDelimiter⟩

theorem closed_of_ows (visible : Text.isOws delimiter = false) (ows : Ows) :
    (quoting delimiter notQuote notEscape).Closed ows.text := by
  refine .of_forall fun letter member => ?_
  have blank := ows.blank letter member
  refine ⟨?_, ?_, ?_⟩
  · rintro rfl
    cases blank
  · rintro rfl
    cases blank
  · rintro rfl
    rw [visible] at blank
    cases blank

theorem content_of_quotedContent {content : Text} (quoted : QuotedContent content) :
    (quoting delimiter notQuote notEscape).Content content := by
  induction quoted with
  | nil => exact .nil
  | qdtext plain _ ih =>
      rcases plain with rfl | ⟨-, notQuoted, notEscaped, -⟩
      · exact .letter (show '\t' ≠ '"' by decide) (show '\t' ≠ '\\' by decide) ih
      · exact .letter notQuoted notEscaped ih
  | quotedPair _ _ ih => exact .escaped ih

theorem closed_of_value (isDelimiter : delimiter ∈ delimiters) (value : Value) :
    (quoting delimiter notQuote notEscape).Closed value.text := by
  cases value with
  | token token => exact closed_of_isToken isDelimiter token
  | quotedString content quoted => exact .quoted (content_of_quotedContent quoted) .nil

theorem closed_of_word (isDelimiter : delimiter ∈ delimiters) (notEquals : '=' ≠ delimiter)
    (slot : Slot) : (quoting delimiter notQuote notEscape).Closed slot.word := by
  obtain ⟨before, after, parameter⟩ := slot
  cases parameter with
  | none => exact .nil
  | some parameter =>
      exact (closed_of_isToken isDelimiter parameter.name).append
        (.letter (show '=' ≠ '"' by decide) (show '=' ≠ '\\' by decide) notEquals
          (closed_of_value isDelimiter parameter.value))

theorem closed_of_range (isDelimiter : delimiter ∈ delimiters) (notSlash : '/' ≠ delimiter)
    (range : MediaRange) : (quoting delimiter notQuote notEscape).Closed range.text :=
  (closed_of_isToken isDelimiter range.type_).append
    (.letter (show '/' ≠ '"' by decide) (show '/' ≠ '\\' by decide) notSlash
      (closed_of_isToken isDelimiter range.subtype))

end Closed

/-! ## Trimmed texts -/

theorem solid_of_token (token : Token) : Solid Text.isWhitespace token.text :=
  .of_forall fun _ member => isWhitespace_of_isTchar (isTchar_of_mem token.token member)

theorem solid_of_value (value : Value) :
    Solid Text.isWhitespace value.text ∧ value.text ≠ [] := by
  cases value with
  | token spelling => exact ⟨solid_of_token spelling, ne_nil_of_isToken spelling.token⟩
  | quotedString content _ =>
      have quote : Solid Text.isWhitespace ['"'] := .of_forall (List.all_iff_forall_prop.mp (by decide))
      exact ⟨quote.append quote (by simp) (by simp), by simp [Value.text]⟩

theorem solid_word (slot : Slot) : Solid Text.isWhitespace slot.word := by
  obtain ⟨before, after, parameter⟩ := slot
  cases parameter with
  | none => exact .nil _
  | some parameter =>
      obtain ⟨valueSolid, valueNonempty⟩ := solid_of_value parameter.value
      have joined : Solid Text.isWhitespace
          (parameter.name.text ++ ['='] ++ parameter.value.text) :=
        (solid_of_token parameter.name).append valueSolid
          (ne_nil_of_isToken parameter.name.token) valueNonempty
      simpa [Slot.word, Parameter.text] using joined

theorem solid_range (range : MediaRange) : Solid Text.isWhitespace range.text := by
  have joined : Solid Text.isWhitespace (range.type_.text ++ ['/'] ++ range.subtype.text) :=
    (solid_of_token range.type_).append (solid_of_token range.subtype)
      (ne_nil_of_isToken range.type_.token) (ne_nil_of_isToken range.subtype.token)
  simpa [MediaRange.text] using joined

theorem isWhitespace_of_ows (ows : Ows) : ∀ letter ∈ ows.text, Text.isWhitespace letter = true :=
  fun letter member => Text.isWhitespace_of_isOws (ows.blank letter member)

/-! ## The words of an item -/

/-- What stands before the first semicolon and the parameters after each are the
trimmed segments. -/
theorem map_trim_split {head : Text} (closed : semicolons.Closed head) (slots : List Slot)
    (after : Ows) :
    (semicolons.split (head ++ (slots.flatMap Slot.text ++ after.text))).map Text.trim =
      Text.trim head :: slots.map Slot.word := by
  induction slots generalizing head with
  | nil =>
      have whole : semicolons.Closed (head ++ after.text) :=
        closed.append (closed_of_ows (by decide) after)
      rw [List.flatMap_nil, List.nil_append, Quoting.split,
        scan_eq_singleton (Quoting.foldlM_closed whole), List.map_singleton, Text.trim,
        trimBy_append_right (isWhitespace_of_ows after)]
      rfl
  | cons slot slots ih =>
      have before : semicolons.Closed (head ++ slot.before.text) :=
        closed.append (closed_of_ows (by decide) slot.before)
      have next : semicolons.Closed (slot.after.text ++ slot.word) :=
        (closed_of_ows (by decide) slot.after).append
          (closed_of_word (by decide) (by decide) slot)
      have stops : semicolons.step (false, false) ';' = none := rfl
      have cut : head ++ ((slot :: slots).flatMap Slot.text ++ after.text) =
          (head ++ slot.before.text) ++ ';' ::
            (slot.after.text ++ slot.word ++ (slots.flatMap Slot.text ++ after.text)) := by
        simp [Slot.text]
      rw [cut, Quoting.split, scan_append (Quoting.foldlM_closed before), scan_cons_of_none stops,
        List.modifyHead_cons, List.append_nil, List.map_cons, List.map_cons, Text.trim,
        trimBy_append_right (isWhitespace_of_ows slot.before)]
      have word : Text.trim (slot.after.text ++ slot.word) = slot.word := by
        rw [Text.trim, trimBy_append_left (isWhitespace_of_ows slot.after),
          trimBy_of_solid (solid_word slot)]
      have rest := ih next
      rw [Quoting.split, word] at rest
      rw [rest]
      rfl

/-- No comma of an item separates. -/
theorem closed_item (item : Item) : commas.Closed item.text := by
  have slotClosed : ∀ slot : Slot, commas.Closed slot.text := fun slot =>
    (closed_of_ows (by decide) slot.before).append
      (.letter (by decide) (by decide) (by decide)
        ((closed_of_ows (by decide) slot.after).append (closed_of_word (by decide) (by decide) slot)))
  have slotsClosed : ∀ slots : List Slot, commas.Closed (slots.flatMap Slot.text) := by
    intro slots
    induction slots with
    | nil => exact .nil
    | cons slot slots ih => exact (slotClosed slot).append ih
  have wordClosed : commas.Closed item.word := by
    rw [Item.word]
    cases item.element with
    | none => exact .nil
    | some element =>
        exact (closed_of_range (by decide) (by decide) element.range).append (slotsClosed element.slots)
  exact ((closed_of_ows (by decide) item.before).append wordClosed).append
    (closed_of_ows (by decide) item.after)

theorem map_trim_split_item {item : Item} {element : Element} (holds : item.element = some element) :
    (semicolons.split item.text).map Text.trim =
      element.range.text :: element.slots.map Slot.word := by
  have closed : semicolons.Closed (item.before.text ++ element.range.text) :=
    (closed_of_ows (by decide) item.before).append
      (closed_of_range (by decide) (by decide) element.range)
  have word : Text.trim (item.before.text ++ element.range.text) = element.range.text := by
    rw [Text.trim, trimBy_append_left (isWhitespace_of_ows item.before),
      trimBy_of_solid (solid_range element.range)]
  have cut : item.text = item.before.text ++ element.range.text ++
      (element.slots.flatMap Slot.text ++ item.after.text) := by
    simp [Item.text, Item.word, holds, Element.text]
  rw [cut, map_trim_split closed, word]

/-- An item is blank exactly where it has no element. -/
theorem trim_item_eq_nil_iff {item : Item} : Text.trim item.text = [] ↔ item.element = none := by
  rw [Text.trim, trimBy_eq_nil_iff]
  cases holds : item.element with
  | none =>
      refine iff_of_true (fun letter member => ?_) rfl
      simp only [Item.text, Item.word, holds, Option.map_none, Option.getD_none, List.append_nil,
        List.mem_append] at member
      exact member.elim (isWhitespace_of_ows _ letter) (isWhitespace_of_ows _ letter)
  | some element =>
      refine iff_of_false (fun blank => ?_) (by simp)
      have slash : '/' ∈ item.text := by
        simp [Item.text, Item.word, holds, Element.text, MediaRange.text]
      cases blank '/' slash

/-! ## The weights of an element -/

theorem weights_cons_of_some {slot : Slot} {parameter : Parameter}
    (holds : slot.parameter = some parameter) (slots : List Slot) :
    weights (slot :: slots) =
      if parameter.IsWeight then parameter.value.text :: weights slots else weights slots := by
  rw [weights, List.filterMap_cons_some holds]
  by_cases isWeight : parameter.IsWeight
  · rw [List.filter_cons_of_pos (by simpa using isWeight), if_pos isWeight]
    rfl
  · rw [List.filter_cons_of_neg (by simpa using isWeight), if_neg isWeight]
    rfl

/-- A weight replaces those before it. -/
theorem states_cons_iff {quality first stated : Nat} {weight : Text} {rest : List Text}
    (isQvalue : Quality.IsQvalue weight first) :
    States quality (weight :: rest) stated ↔ States first rest stated := by
  have unique : Quality.IsQvalue weight stated ↔ stated = first := by
    rw [← Quality.parse_eq_some_iff, Quality.parse_eq_some_iff.mpr isQvalue, Option.some.injEq]
    exact eq_comm
  rw [States, States, List.getLast?_cons]
  cases rest.getLast? with
  | none => exact unique
  | some last => rfl

theorem splitOnce_word {slot : Slot} {parameter : Parameter}
    (holds : slot.parameter = some parameter) :
    splitOnce '=' (Text.trim slot.word) = some (parameter.name.text, parameter.value.text) := by
  have absent : '=' ∉ parameter.name.text := notMem_of_isToken parameter.name.token (by decide)
  rw [Text.trim, trimBy_of_solid (solid_word slot), splitOnce_eq_some_iff]
  refine ⟨absent, ?_⟩
  rw [Slot.word, holds]
  rfl

/-- Parameters are read where none is empty and the weights are qvalues. -/
theorem weightFrom_words {slots : List Slot} {quality stated : Nat} :
    Quality.weightFrom quality (slots.map Slot.word) = some stated ↔
      (∀ slot ∈ slots, slot.parameter ≠ none) ∧
        (∀ weight ∈ weights slots, ∃ quality, Quality.IsQvalue weight quality) ∧
          States quality (weights slots) stated := by
  induction slots generalizing quality with
  | nil => simp [Quality.weightFrom, weights, States, eq_comm]
  | cons slot slots ih =>
      rw [List.map_cons, Quality.weightFrom, List.forall_mem_cons]
      cases holds : slot.parameter with
      | none =>
          have empty : splitOnce '=' (Text.trim slot.word) = none := by
            rw [Slot.word, holds]
            rfl
          simp [empty]
      | some parameter =>
          have name : Text.trim parameter.name.text = parameter.name.text :=
            trimBy_of_solid (solid_of_token parameter.name)
          have value : Text.trim parameter.value.text = parameter.value.text :=
            trimBy_of_solid (solid_of_value parameter.value).1
          simp only [splitOnce_word holds, name, value, weights_cons_of_some holds, ne_eq,
            reduceCtorEq, not_false_eq_true, true_and]
          by_cases isWeight : parameter.IsWeight
          · have isName : Text.eqIgnoreAsciiCase parameter.name.text ['q'] = true := isWeight
            simp only [isName, isWeight, if_true, List.forall_mem_cons]
            cases reads : Quality.parse parameter.value.text with
            | none =>
                refine iff_of_false (by simp) ?_
                rintro ⟨-, ⟨⟨quality, isQvalue⟩, -⟩, -⟩
                rw [Quality.parse_eq_some_iff.mpr isQvalue] at reads
                cases reads
            | some first =>
                have isQvalue := Quality.parse_eq_some_iff.mp reads
                rw [states_cons_iff isQvalue]
                have weighed : ∃ quality, Quality.IsQvalue parameter.value.text quality := ⟨first, isQvalue⟩
                simp only [ih, weighed, true_and]
          · have notName : Text.eqIgnoreAsciiCase parameter.name.text ['q'] = false :=
              Bool.eq_false_iff.mpr isWeight
            simp only [notName, isWeight, if_false, ih, Bool.false_eq_true]

/-! ## The preferences -/

/-- An element that is read. -/
def Element.Readable (element : Element) : Prop :=
  element.Filled ∧ element.Meaningful

theorem splitOnce_range (range : MediaRange) :
    splitOnce '/' range.text = some (range.type_.text, range.subtype.text) :=
  splitOnce_eq_some_iff.mpr ⟨notMem_of_isToken range.type_.token (by decide), rfl⟩

theorem parseItem_iff {item : Item} {element : Element} (holds : item.element = some element)
    {order : Nat} {preference : Preference} :
    parseItem order (Text.trim item.text) = .ok preference ↔
      element.Readable ∧ Written (element, order) preference := by
  have typeNonempty : element.range.type_.text.isEmpty = false := by
    simpa using ne_nil_of_isToken element.range.type_.token
  have subtypeNonempty : element.range.subtype.text.isEmpty = false := by
    simpa using ne_nil_of_isToken element.range.subtype.token
  rw [parseItem_trim, map_trim_split_item holds, readWords]
  simp only [List.headD_cons, splitOnce_range, typeNonempty, subtypeNonempty, Bool.false_eq_true,
    false_or, List.tail_cons, Quality.weight]
  by_cases starred : element.range.type_.text = ['*'] ∧ element.range.subtype.text ≠ ['*']
  · rw [if_pos starred]
    refine iff_of_false (by simp) ?_
    rintro ⟨⟨-, grouped, -⟩, -⟩
    exact starred.2 (grouped starred.1)
  · have grouped : element.range.type_.text = ['*'] → element.range.subtype.text = ['*'] :=
      fun isStar => not_not.mp fun notStar => starred ⟨isStar, notStar⟩
    rw [if_neg starred]
    cases weighs : Quality.weightFrom 1000 (element.slots.map Slot.word) with
    | none =>
        refine iff_of_false (by simp) ?_
        rintro ⟨⟨filled, -, qvalues⟩, written⟩
        rw [weightFrom_words.mpr ⟨filled, qvalues, written.quality⟩] at weighs
        cases weighs
    | some quality =>
        obtain ⟨filled, qvalues, states⟩ := weightFrom_words.mp weighs
        constructor
        · intro reads
          cases reads
          exact ⟨⟨filled, grouped, qvalues⟩, rfl, rfl, states, rfl⟩
        · rintro ⟨-, isType, isSubtype, isStated, isPlace⟩
          have same := weightFrom_words.mpr ⟨filled, qvalues, isStated⟩
          rw [weighs, Option.some.injEq] at same
          obtain ⟨type_, subtype, stated, place⟩ := preference
          dsimp only at isType isSubtype same isPlace ⊢
          rw [isType, isSubtype, same, isPlace]

theorem exists_of_map_eq_ok {ε α β : Type} {tried : Except ε α} {change : α → β} {result : β}
    (succeeds : tried.map change = .ok result) : ∃ value, tried = .ok value ∧ change value = result := by
  cases tried with
  | error => cases succeeds
  | ok value => exact ⟨value, rfl, by simpa [Except.map] using succeeds⟩

theorem exists_forall₂ {α β : Type} {related : α → β → Prop} {left : List α}
    (total : ∀ first ∈ left, ∃ second, related first second) :
    ∃ right, List.Forall₂ related left right := by
  induction left with
  | nil => exact ⟨[], .nil⟩
  | cons first left ih =>
      obtain ⟨second, isRelated⟩ := total first List.mem_cons_self
      obtain ⟨right, areRelated⟩ := ih fun other member => total other (List.mem_cons_of_mem _ member)
      exact ⟨second :: right, .cons isRelated areRelated⟩

/-- An element that is read is read as some preference. -/
theorem Element.Readable.exists_written {element : Element} (readable : element.Readable)
    (order : Nat) : ∃ preference, Written (element, order) preference := by
  have weighed : ∃ quality, element.Weighs quality := by
    unfold Element.Weighs States
    cases last : (weights element.slots).getLast? with
    | none => exact ⟨1000, rfl⟩
    | some weight => exact readable.2.2 weight (List.mem_of_getLast? last)
  obtain ⟨quality, weighs⟩ := weighed
  exact ⟨⟨_, _, quality, order⟩, rfl, rfl, weighs, rfl⟩

theorem parseItems_iff {items : List Item} {order : Nat} {preferences : List Preference} :
    parseItems order (items.map Item.text) = .ok preferences ↔
      (∀ placed ∈ Field.numberedFrom order items, placed.1.Readable) ∧
        List.Forall₂ Written (Field.numberedFrom order items) preferences := by
  induction items generalizing order preferences with
  | nil =>
      rw [List.map_nil, parseItems, Field.numberedFrom, List.forall₂_nil_left_iff, Except.ok.injEq]
      simp [eq_comm]
  | cons item items ih =>
      rw [List.map_cons, parseItems, Field.numberedFrom]
      cases holds : item.element with
      | none =>
          have blank : Text.trim item.text = [] := trim_item_eq_nil_iff.mpr holds
          simp only [blank, List.isEmpty_nil, if_true, ih, Option.map_none, Option.toList_none,
            List.nil_append]
      | some element =>
          have nonempty : (Text.trim item.text).isEmpty = false := by
            rw [Bool.eq_false_iff, Ne, List.isEmpty_iff, trim_item_eq_nil_iff, holds]
            simp
          simp only [nonempty, Bool.false_eq_true, if_false, Option.map_some, Option.toList_some,
            List.singleton_append, List.forall_mem_cons, List.forall₂_cons_left_iff]
          constructor
          · intro reads
            cases first : parseItem order (Text.trim item.text) with
            | error rejection =>
                rw [first] at reads
                cases reads
            | ok preference =>
                rw [first] at reads
                obtain ⟨readable, written⟩ := (parseItem_iff holds).mp first
                obtain ⟨rest, readsRest, rfl⟩ := exists_of_map_eq_ok reads
                obtain ⟨restReadable, restWritten⟩ := ih.mp readsRest
                exact ⟨⟨readable, restReadable⟩, preference, rest, written, restWritten, rfl⟩
          · rintro ⟨⟨readable, restReadable⟩, preference, rest, written, restWritten, rfl⟩
            rw [(parseItem_iff holds).mpr ⟨readable, written⟩, ih.mpr ⟨restReadable, restWritten⟩]
            rfl

/-- A field of the grammar is read, one preference for each element, exactly
where no parameter is empty, a star stands for a type only with its subtypes,
and weights are qvalues. -/
theorem parse_text_iff (field : Field) :
    (∃ preferences, parse field.text = .ok preferences ∧
        List.Forall₂ Written field.numbered preferences) ↔
      ∀ placed ∈ field.numbered, placed.1.Filled ∧ placed.1.Meaningful := by
  have texts : field.items.map Item.text ≠ [] := by simp [field.nonempty]
  have cut : parse field.text = parseItems 0 (field.items.map Item.text) := by
    rw [parse, unquotedSplit_comma, Field.text]
    congr 1
    refine Quoting.split_intercalate texts fun text member => ?_
    obtain ⟨item, -, rfl⟩ := List.mem_map.mp member
    exact closed_item item
  rw [cut]
  constructor
  · rintro ⟨preferences, reads, -⟩
    exact (parseItems_iff.mp reads).1
  · intro readable
    have written : ∀ placed ∈ field.numbered, ∃ preference, Written placed preference :=
      fun placed member => Element.Readable.exists_written (readable placed member) placed.2
    obtain ⟨preferences, isWritten⟩ := exists_forall₂ written
    exact ⟨preferences, parseItems_iff.mpr ⟨readable, isWritten⟩, isWritten⟩

/-! ## An empty parameter -/

/-- One element, `text/html;`. -/
def trailingSemicolon : Field where
  items :=
    [{ before := ⟨[], Text.isOws_of_mem_nil⟩
       element := some
        { range := ⟨⟨"text".toList, by decide⟩, ⟨"html".toList, by decide⟩⟩
          slots := [⟨⟨[], Text.isOws_of_mem_nil⟩, ⟨[], Text.isOws_of_mem_nil⟩, none⟩] }
       after := ⟨[], Text.isOws_of_mem_nil⟩ }]
  nonempty := by simp

theorem not_parse_text_trailingSemicolon :
    trailingSemicolon.text = "text/html;".toList ∧
      ¬∃ preferences, parse trailingSemicolon.text = .ok preferences ∧
        List.Forall₂ Written trailingSemicolon.numbered preferences := by
  have refused : parse trailingSemicolon.text = .error invalidAccept := by decide
  refine ⟨by decide, ?_⟩
  rintro ⟨preferences, reads, -⟩
  rw [refused] at reads
  cases reads

end Kynos.Negotiate
