import Kynos.Range.Unbounded
import Kynos.Word.Padded
import Mathlib.Computability.Language

/-!
# The pattern of a `Range` parameter

The grammar a sender is told to write is emitted as a regular expression, the
reader is written by hand. Every string the expression matches is read as the
list of its elements, but for one that hides an inverted range past the
greatest 64-bit integer.
-/

namespace Kynos.Range

open Kynos.Numeral Kynos.Word

/-! ## The expression -/

/-- The expressions the pattern is built of. -/
inductive Pattern where
  | letter (character : Char)
  | oneOf (characters : List Char)
  | digit
  | many (inner : Pattern)
  | many1 (inner : Pattern)
  | sequence (first second : Pattern)
  | either (first second : Pattern)
  | atMost (count : Nat) (inner : Pattern)

namespace Pattern

/-- A character of a class: a tab is escaped. -/
def renderCharacter (character : Char) : Text :=
  if character = '\t' then ['\\', 't'] else [character]

/-- The expression as it is written. -/
def render : Pattern → Text
  | .letter character => [character]
  | .oneOf characters => '[' :: characters.flatMap renderCharacter ++ [']']
  | .digit => ['\\', 'd']
  | .many inner => inner.render ++ ['*']
  | .many1 inner => inner.render ++ ['+']
  | .sequence first second => first.render ++ second.render
  | .either first second => "(?:".toList ++ first.render ++ '|' :: second.render ++ [')']
  | .atMost count inner =>
      "(?:".toList ++ inner.render ++ ")\x7b0,".toList ++ Text.decimal count ++ ['}']

/-- The strings an expression matches whole, its digits the ASCII ones. -/
def language : Pattern → Language Char
  | .letter character => {[character]}
  | .oneOf characters => { text | ∃ character ∈ characters, text = [character] }
  | .digit => { text | ∃ character, Text.isAsciiDigit character = true ∧ text = [character] }
  | .many inner => KStar.kstar inner.language
  | .many1 inner => inner.language * KStar.kstar inner.language
  | .sequence first second => first.language * second.language
  | .either first second => first.language + second.language
  | .atMost count inner => { text | ∃ times ≤ count, text ∈ inner.language ^ times }

/-- Optional whitespace. -/
def ows : Pattern :=
  .many (.oneOf [' ', '\t'])

/-- One spec: `\d+-\d*` or `-\d+`. -/
def oneSpec : Pattern :=
  .either (.sequence (.many1 .digit) (.sequence (.letter '-') (.many .digit)))
    (.sequence (.letter '-') (.many1 .digit))

/-- The unit, each letter in either case. -/
def unitLetters : Pattern :=
  .sequence (.oneOf ['B', 'b']) (.sequence (.oneOf ['Y', 'y'])
    (.sequence (.oneOf ['T', 't']) (.sequence (.oneOf ['E', 'e']) (.oneOf ['S', 's']))))

/-- A further element of the list. -/
def further : Pattern :=
  .sequence ows (.sequence (.letter ',') (.sequence ows oneSpec))

/-- The whole field. -/
def field : Pattern :=
  .sequence unitLetters (.sequence (.letter '=') (.sequence ows (.sequence oneSpec
    (.atMost (maxRanges - 1) further))))

end Pattern

/-- `to_ascii_uppercase` of one letter. -/
def toAsciiUpper (character : Char) : Char :=
  if 'a' ≤ character ∧ character ≤ 'z' then
    Char.ofNat (character.toNat - 32)
  else
    character

/-- `pattern`: the expression an emitted `Range` parameter carries. -/
def pattern : Text :=
  let spec := "(?:\\d+-\\d*|-\\d+)".toList
  let ows := "[ \\t]*".toList
  '^' :: unit.flatMap (fun letter => ['[', toAsciiUpper letter, letter, ']']) ++ '=' :: ows ++
    spec ++ "(?:".toList ++ ows ++ ',' :: ows ++ spec ++ ")\x7b0,".toList ++
    Text.decimal (maxRanges - 1) ++ "\x7d$".toList

/-- What is emitted is the expression of the field, anchored at both ends. -/
theorem pattern_eq_render : pattern = '^' :: Pattern.field.render ++ ['$'] := by
  decide +kernel

/-! ## What is written -/

/-- The spec an element writes, its last position free to be below its
first. -/
inductive Writes : Text → Spec → Prop where
  | toEnd {start : Text} {first : Nat} (startNumeral : Unbounded.numeral start = some first) :
      Writes (start ++ ['-']) (.offsets first none)
  | bounded {start stop : Text} {first last : Nat}
      (startNumeral : Unbounded.numeral start = some first)
      (stopNumeral : Unbounded.numeral stop = some last) :
      Writes (start ++ '-' :: stop) (.offsets first (some last))
  | suffix {written : Text} {length : Nat}
      (suffixNumeral : Unbounded.numeral written = some length) :
      Writes ('-' :: written) (.suffix length)

/-- The last position is below the first. -/
def Spec.Inverted : Spec → Prop
  | .offsets first (some last) => last < first
  | .offsets _ none => False
  | .suffix _ => False

/-- The last position is below the first and below the greatest 64-bit
integer. -/
def Spec.SeenInverted : Spec → Prop
  | .offsets first (some last) => last < first ∧ last < u64Max
  | .offsets _ none => False
  | .suffix _ => False

instance : DecidablePred Spec.Inverted
  | .offsets first (some last) => inferInstanceAs (Decidable (last < first))
  | .offsets _ none => inferInstanceAs (Decidable False)
  | .suffix _ => inferInstanceAs (Decidable False)

instance : DecidablePred Spec.SeenInverted
  | .offsets first (some last) => inferInstanceAs (Decidable (last < first ∧ last < u64Max))
  | .offsets _ none => inferInstanceAs (Decidable False)
  | .suffix _ => inferInstanceAs (Decidable False)

theorem Spec.SeenInverted.inverted {spec : Spec} (seen : spec.SeenInverted) : spec.Inverted := by
  rcases spec with ⟨first, _ | last⟩ | length
  · exact seen
  · exact seen.1
  · exact seen

theorem numeral_eq_some {written : Text} {value : Nat}
    (read : Unbounded.numeral written = some value) :
    written ≠ [] ∧ ∀ character ∈ written, Text.isAsciiDigit character = true := by
  unfold Unbounded.numeral at read
  split at read
  · contradiction
  · rename_i accepted
    simpa using accepted

theorem exists_numeral {written : Text} (nonempty : written ≠ [])
    (digits : ∀ character ∈ written, Text.isAsciiDigit character = true) :
    ∃ value, Unbounded.numeral written = some value := by
  refine ⟨_, if_neg ?_⟩
  simpa [nonempty] using digits

/-- An element is a word of digits and hyphens. -/
theorem Writes.letters {written : Text} {spec : Spec} (writes : Writes written spec) :
    written ≠ [] ∧ ∀ character ∈ written, Text.isAsciiDigit character = true ∨ character = '-' := by
  cases writes with
  | toEnd startNumeral =>
      obtain ⟨-, digits⟩ := numeral_eq_some startNumeral
      refine ⟨by simp, fun character member => ?_⟩
      rcases List.mem_append.mp member with inStart | hyphen
      · exact .inl (digits character inStart)
      · exact .inr (List.mem_singleton.mp hyphen)
  | bounded startNumeral stopNumeral =>
      obtain ⟨-, startDigits⟩ := numeral_eq_some startNumeral
      obtain ⟨-, stopDigits⟩ := numeral_eq_some stopNumeral
      refine ⟨by simp, fun character member => ?_⟩
      rcases List.mem_append.mp member with inStart | rest
      · exact .inl (startDigits character inStart)
      · rcases List.mem_cons.mp rest with hyphen | inStop
        · exact .inr hyphen
        · exact .inl (stopDigits character inStop)
  | suffix suffixNumeral =>
      obtain ⟨-, digits⟩ := numeral_eq_some suffixNumeral
      refine ⟨by simp, fun character member => ?_⟩
      rcases List.mem_cons.mp member with hyphen | inLength
      · exact .inr hyphen
      · exact .inl (digits character inLength)

/-- A word that opens with a numeral is read as an `int-range`. -/
theorem spec_of_numeral {start stop : Text} {first : Nat}
    (read : Unbounded.numeral start = some first) :
    spec (start ++ '-' :: stop) = intRange (start ++ '-' :: stop) := by
  obtain ⟨nonempty, digits⟩ := numeral_eq_some read
  cases start with
  | nil => contradiction
  | cons letter rest =>
      have notHyphen : letter ≠ '-' := by
        rintro rfl
        exact absurd (digits '-' List.mem_cons_self) (by decide)
      unfold spec
      split
      · rename_i equal
        exact absurd (List.cons.inj equal).1 notHyphen
      · rfl

/-- An element is read as its numerals held at the greatest 64-bit integer, and
is malformed where an inversion is left of them. -/
theorem Writes.spec_eq {written : Text} {read : Spec} (writes : Writes written read) :
    spec written =
      if read.SeenInverted then .error .malformed else .ok (Unbounded.saturate read) := by
  cases writes with
  | @toEnd start first startNumeral =>
      have cut := Unbounded.splitOnce_of_numeral [] startNumeral
      simp [spec_of_numeral startNumeral, intRange, cut, Unbounded.digits_eq, startNumeral,
        Unbounded.saturate, Spec.SeenInverted]
  | @bounded start stop first last startNumeral stopNumeral =>
      have cut := Unbounded.splitOnce_of_numeral stop startNumeral
      obtain ⟨nonempty, -⟩ := numeral_eq_some stopNumeral
      have seen : min last u64Max < min first u64Max ↔ last < first ∧ last < u64Max := by omega
      simp [spec_of_numeral startNumeral, intRange, cut, Unbounded.digits_eq, startNumeral,
        stopNumeral, nonempty, Unbounded.saturate, Spec.SeenInverted, seen]
      congr
  | suffix suffixNumeral =>
      simp [spec, Unbounded.digits_eq, suffixNumeral, Unbounded.saturate, Spec.SeenInverted]

/-- A list of elements is malformed where an inversion is left of one, and is
read otherwise. -/
theorem mapM_spec_of_writes {written : List Text} {specs : List Spec}
    (writes : List.Forall₂ Writes written specs) :
    written.mapM spec =
      if ∃ read ∈ specs, read.SeenInverted then
        .error .malformed
      else
        .ok (specs.map Unbounded.saturate) := by
  induction writes with
  | nil => rfl
  | @cons element read elements reads writesElement writesRest ih =>
      rw [List.mapM_cons, writesElement.spec_eq, ih]
      by_cases seen : read.SeenInverted
      · simp [seen]
        rfl
      · by_cases later : ∃ other ∈ reads, other.SeenInverted
        · simp [seen, later]
          rfl
        · simp [seen, later]
          rfl

/-! ## What is matched -/

namespace Pattern

theorem mem_ows {text : Text} (matched : text ∈ ows.language) :
    ∀ character ∈ text, Text.isOws character = true := by
  obtain ⟨pieces, rfl, blanks⟩ := Language.mem_kstar.mp matched
  intro character member
  obtain ⟨piece, inPieces, inPiece⟩ := List.mem_flatten.mp member
  obtain ⟨blank, isBlank, rfl⟩ := blanks piece inPieces
  rw [List.mem_singleton] at inPiece
  subst character
  simpa [Text.isOws] using isBlank

theorem mem_many_digit {text : Text} (matched : text ∈ (Pattern.many .digit).language) :
    ∀ character ∈ text, Text.isAsciiDigit character = true := by
  obtain ⟨pieces, rfl, digits⟩ := Language.mem_kstar.mp matched
  intro character member
  obtain ⟨piece, inPieces, inPiece⟩ := List.mem_flatten.mp member
  obtain ⟨digit, isDigit, rfl⟩ := digits piece inPieces
  rw [List.mem_singleton] at inPiece
  exact inPiece ▸ isDigit

theorem mem_many1_digit {text : Text} (matched : text ∈ (Pattern.many1 .digit).language) :
    ∃ value, Unbounded.numeral text = some value := by
  obtain ⟨first, ⟨digit, isDigit, rfl⟩, rest, restMatched, rfl⟩ := Language.mem_mul.mp matched
  refine exists_numeral (by simp) fun character member => ?_
  rcases List.mem_cons.mp member with rfl | inRest
  · exact isDigit
  · exact mem_many_digit restMatched character inRest

theorem mem_oneSpec {text : Text} (matched : text ∈ oneSpec.language) :
    ∃ read, Writes text read := by
  rcases matched with matched | matched
  · obtain ⟨start, startMatched, rest, restMatched, rfl⟩ := Language.mem_mul.mp matched
    obtain ⟨hyphen, rfl, stop, stopMatched, rfl⟩ := Language.mem_mul.mp restMatched
    obtain ⟨first, startNumeral⟩ := mem_many1_digit startMatched
    by_cases empty : stop = []
    · subst stop
      exact ⟨_, .toEnd startNumeral⟩
    · obtain ⟨last, stopNumeral⟩ := exists_numeral empty (mem_many_digit stopMatched)
      exact ⟨_, .bounded startNumeral stopNumeral⟩
  · obtain ⟨hyphen, rfl, length, lengthMatched, rfl⟩ := Language.mem_mul.mp matched
    obtain ⟨value, lengthNumeral⟩ := mem_many1_digit lengthMatched
    exact ⟨_, .suffix lengthNumeral⟩

/-- A further element: padding, a comma, padding and a spec. -/
theorem mem_further {text : Text} (matched : text ∈ further.language) :
    ∃ before after element, text = before ++ ',' :: (after ++ element) ∧
      (∀ character ∈ before, Text.isOws character = true) ∧
      (∀ character ∈ after, Text.isOws character = true) ∧
      element ∈ oneSpec.language := by
  obtain ⟨before, beforeMatched, list, listMatched, rfl⟩ := Language.mem_mul.mp matched
  obtain ⟨comma, rfl, padded, paddedMatched, rfl⟩ := Language.mem_mul.mp listMatched
  obtain ⟨after, afterMatched, element, elementMatched, rfl⟩ := Language.mem_mul.mp paddedMatched
  exact ⟨before, after, element, rfl, mem_ows beforeMatched, mem_ows afterMatched, elementMatched⟩

/-- The unit is read as `bytes`. -/
theorem mem_unitLetters {text : Text} (matched : text ∈ unitLetters.language) :
    ∃ first ∈ ['B', 'b'], ∃ second ∈ ['Y', 'y'], ∃ third ∈ ['T', 't'], ∃ fourth ∈ ['E', 'e'],
      ∃ fifth ∈ ['S', 's'], text = [first, second, third, fourth, fifth] := by
  obtain ⟨_, ⟨first, isFirst, rfl⟩, _, afterFirst, rfl⟩ := Language.mem_mul.mp matched
  obtain ⟨_, ⟨second, isSecond, rfl⟩, _, afterSecond, rfl⟩ := Language.mem_mul.mp afterFirst
  obtain ⟨_, ⟨third, isThird, rfl⟩, _, afterThird, rfl⟩ := Language.mem_mul.mp afterSecond
  obtain ⟨_, ⟨fourth, isFourth, rfl⟩, _, ⟨fifth, isFifth, rfl⟩, rfl⟩ :=
    Language.mem_mul.mp afterThird
  exact ⟨first, isFirst, second, isSecond, third, isThird, fourth, isFourth, fifth, isFifth, rfl⟩

theorem unit_facts : ∀ first ∈ ['B', 'b'], ∀ second ∈ ['Y', 'y'], ∀ third ∈ ['T', 't'],
    ∀ fourth ∈ ['E', 'e'], ∀ fifth ∈ ['S', 's'],
      let text := [first, second, third, fourth, fifth]
      Text.trim text = text ∧ Text.eqIgnoreAsciiCase text unit = true ∧ '=' ∉ text ∧
        ∀ character ∈ text, Text.isWhitespace character = false := by
  simp only [← List.all_iff_forall_prop]
  decide +kernel

end Pattern

/-- A letter of an element is no blank and no comma. -/
theorem Writes.visible {written : Text} {read : Spec} (writes : Writes written read) :
    ∀ character ∈ written, Text.isWhitespace character = false ∧ character ≠ ',' := by
  have digit : ∀ character, Text.isAsciiDigit character = true →
      Text.isWhitespace character = false ∧ character ≠ ',' := by
    intro character isDigit
    obtain ⟨low, high⟩ := Text.toNat_of_isAsciiDigit isDigit
    refine ⟨Text.isWhitespace_of_visible (by omega) (by omega), ?_⟩
    rintro rfl
    exact absurd isDigit (by decide)
  intro character member
  rcases writes.letters.2 character member with isDigit | rfl
  · exact digit character isDigit
  · decide

/-- The elements of a matched list, padded and joined by commas. -/
theorem exists_pieces {left element : Text} (leftBlank : ∀ character ∈ left, Text.isOws character = true)
    (elementMatched : element ∈ Pattern.oneSpec.language) (items : List Text)
    (matched : ∀ item ∈ items, item ∈ Pattern.further.language) :
    ∃ pieces elements specs, left ++ element ++ items.flatten = [','].intercalate pieces ∧
      pieces ≠ [] ∧ List.Forall₂ (Pads Text.isOws) pieces elements ∧
      List.Forall₂ Writes elements specs ∧ elements.length = items.length + 1 ∧
      ∀ character ∈ (left ++ element ++ items.flatten).getLast?,
        Text.isWhitespace character = false := by
  obtain ⟨read, writes⟩ := Pattern.mem_oneSpec elementMatched
  induction items generalizing left element read with
  | nil =>
      refine ⟨[left ++ element], [element], [read], by simp, by simp,
        .cons ⟨left, [], by simp, leftBlank, by simp⟩ .nil, .cons writes .nil, rfl, ?_⟩
      intro character member
      rw [List.flatten_nil, List.append_nil,
        List.getLast?_append_of_ne_nil _ writes.letters.1] at member
      exact (writes.visible character (List.mem_of_mem_getLast? member)).1
  | cons item items ih =>
      obtain ⟨before, after, next, rfl, beforeBlank, afterBlank, nextMatched⟩ :=
        Pattern.mem_further (matched _ List.mem_cons_self)
      obtain ⟨nextRead, nextWrites⟩ := Pattern.mem_oneSpec nextMatched
      obtain ⟨pieces, elements, specs, joined, nonempty, pads, writesRest, count, solid⟩ :=
        ih afterBlank nextMatched (fun other member => matched other (List.mem_cons_of_mem _ member))
          nextRead nextWrites
      refine ⟨(left ++ element ++ before) :: pieces, element :: elements, read :: specs, ?_,
        by simp, .cons ⟨left, before, rfl, leftBlank, beforeBlank⟩ pads, .cons writes writesRest,
        by simp [count], ?_⟩
      · rw [List.intercalate_cons_of_ne_nil nonempty, ← joined]
        simp
      · have regrouped : left ++ element ++
            ((before ++ ',' :: (after ++ next)) :: items).flatten =
              (left ++ element ++ before ++ [',']) ++ (after ++ next ++ items.flatten) := by
          simp
        rw [regrouped, List.getLast?_append_of_ne_nil _ (by simp [nextWrites.letters.1])]
        exact solid

/-- The elements between the commas after the unit, without the padding. -/
def elements (value : Text) : List Text :=
  match splitOnce '=' value with
  | none => []
  | some (_, set) => (set.splitOn ',').map Text.trimOws

/-- What a matched field is read as. -/
theorem parse_of_matched {value : Text} (matched : value ∈ Pattern.field.language) :
    ∃ specs, List.Forall₂ Writes (elements value) specs ∧
      parse value =
        if ∃ read ∈ specs, read.SeenInverted then
          .error .malformed
        else
          .ok (specs.map Unbounded.saturate) := by
  obtain ⟨named, namedMatched, _, rest, rfl⟩ := Language.mem_mul.mp matched
  obtain ⟨_, rfl, _, list, rfl⟩ := Language.mem_mul.mp rest
  obtain ⟨left, leftMatched, _, afterLeft, rfl⟩ := Language.mem_mul.mp list
  obtain ⟨element, elementMatched, _, ⟨times, bounded, tail⟩, rfl⟩ := Language.mem_mul.mp afterLeft
  obtain ⟨items, rfl, count, itemsMatched⟩ := Language.mem_pow.mp tail
  obtain ⟨pieces, texts, specs, joined, nonempty, pads, writes, length, solid⟩ :=
    exists_pieces (Pattern.mem_ows leftMatched) elementMatched items itemsMatched
  have visible : ∀ text ∈ texts, ∀ character ∈ text,
      Text.isWhitespace character = false ∧ character ≠ ',' := by
    intro text member
    obtain ⟨read, -, wrote⟩ := exists_of_mem_left writes text member
    exact wrote.visible
  have split : (([','].intercalate pieces).splitOn ',').map Text.trimOws = texts := by
    refine map_trimBy_splitOn_intercalate pads (by decide)
      (fun text member comma => (visible text member ',' comma).2 rfl) ?_ nonempty
    refine fun text member => .of_forall fun character inText => ?_
    by_contra blank
    have white := Text.isWhitespace_of_isOws (Bool.of_not_eq_false blank)
    rw [(visible text member character inText).1] at white
    cases white
  obtain ⟨first, isFirst, second, isSecond, third, isThird, fourth, isFourth, fifth, isFifth,
    rfl⟩ := Pattern.mem_unitLetters namedMatched
  obtain ⟨trimmed, isUnit, noEquals, noBlank⟩ := Pattern.unit_facts first isFirst second isSecond
    third isThird fourth isFourth fifth isFifth
  have namedWord : [first, second, third, fourth, fifth] ≠ [] := by simp
  have setWord : left ++ element ++ items.flatten ≠ [] := by
    obtain ⟨read, wrote⟩ := Pattern.mem_oneSpec elementMatched
    simp [wrote.letters.1]
  generalize [first, second, third, fourth, fifth] = named at *
  generalize written : left ++ element ++ items.flatten = set at *
  have regrouped : named ++ (['='] ++ (left ++ (element ++ items.flatten))) = named ++ '=' :: set := by
    simp [← written]
  have cut : splitOnce '=' (named ++ '=' :: set) = some (named, set) :=
    splitOnce_eq_some_iff.mpr ⟨noEquals, rfl⟩
  have whole : Text.trim (named ++ '=' :: set) = named ++ '=' :: set := by
    refine trimBy_of_solid ⟨fun character member => ?_, fun character member => ?_⟩
    · rw [List.head?_append_of_ne_nil _ namedWord] at member
      exact noBlank character (List.mem_of_mem_head? member)
    · rw [List.append_cons, List.getLast?_append_of_ne_nil _ setWord] at member
      exact solid character member
  have count : texts.length ≤ maxRanges := by
    rw [length, count]
    exact Nat.succ_le_of_lt (Nat.lt_of_le_of_lt bounded (by decide))
  have listed : texts ≠ [] := by
    rintro rfl
    simp at length
  have kept : writtenSpecs set = texts := by
    rw [writtenSpecs, joined, split, List.filter_eq_self]
    intro text member
    obtain ⟨read, -, wrote⟩ := exists_of_mem_left writes text member
    simpa using wrote.letters.1
  refine ⟨specs, ?_, ?_⟩
  · rw [regrouped, elements, cut]
    simpa only [joined, split] using writes
  · rw [regrouped, parse, whole, cut]
    simp only [trimmed, isUnit, kept, Bool.not_true, Bool.false_eq_true, if_false,
      List.isEmpty_iff, listed, Nat.not_lt.mpr count]
    exact mapM_spec_of_writes writes

/-- Two hyphens after numerals are the same one. -/
theorem start_unique {start start' stop stop' : Text} {first first' : Nat}
    (read : Unbounded.numeral start = some first) (read' : Unbounded.numeral start' = some first')
    (same : start ++ '-' :: stop = start' ++ '-' :: stop') : start = start' ∧ stop = stop' := by
  have cut := Unbounded.splitOnce_of_numeral stop read
  rw [same, Unbounded.splitOnce_of_numeral stop' read'] at cut
  cases cut
  exact ⟨rfl, rfl⟩

/-- An element that opens with a hyphen does not open with a numeral. -/
theorem suffix_ne_start {start stop length : Text} {first : Nat}
    (read : Unbounded.numeral start = some first) : start ++ '-' :: stop ≠ '-' :: length := by
  intro same
  obtain ⟨nonempty, digits⟩ := numeral_eq_some read
  cases start with
  | nil => contradiction
  | cons letter rest =>
      have hyphen := (List.cons.inj same).1
      exact absurd (digits letter List.mem_cons_self) (by rw [hyphen]; decide)

/-- An element writes one spec. -/
theorem Writes.unique {written : Text} {read other : Spec} (writes : Writes written read)
    (writesOther : Writes written other) : read = other := by
  cases writes with
  | toEnd startNumeral =>
      generalize same : _ ++ ['-'] = word at writesOther
      cases writesOther with
      | toEnd startNumeral' =>
          obtain ⟨rfl, -⟩ := start_unique startNumeral startNumeral' same
          rw [Option.some.inj (startNumeral.symm.trans startNumeral')]
      | bounded startNumeral' stopNumeral' =>
          obtain ⟨-, rfl⟩ := start_unique startNumeral startNumeral' same
          cases stopNumeral'
      | suffix => exact absurd same (suffix_ne_start startNumeral)
  | bounded startNumeral stopNumeral =>
      generalize same : _ ++ '-' :: _ = word at writesOther
      cases writesOther with
      | toEnd startNumeral' =>
          obtain ⟨-, rfl⟩ := start_unique startNumeral startNumeral' same
          cases stopNumeral
      | bounded startNumeral' stopNumeral' =>
          obtain ⟨rfl, rfl⟩ := start_unique startNumeral startNumeral' same
          rw [Option.some.inj (startNumeral.symm.trans startNumeral'),
            Option.some.inj (stopNumeral.symm.trans stopNumeral')]
      | suffix => exact absurd same (suffix_ne_start startNumeral)
  | suffix suffixNumeral =>
      generalize same : '-' :: _ = word at writesOther
      cases writesOther with
      | toEnd startNumeral' => exact absurd same.symm (suffix_ne_start startNumeral')
      | bounded startNumeral' => exact absurd same.symm (suffix_ne_start startNumeral')
      | suffix suffixNumeral' =>
          cases same
          rw [Option.some.inj (suffixNumeral.symm.trans suffixNumeral')]

/-- A list of elements writes one list of specs. -/
theorem Writes.list_unique {written : List Text} {specs others : List Spec}
    (writes : List.Forall₂ Writes written specs) (writesOthers : List.Forall₂ Writes written others) :
    others = specs := by
  induction writes generalizing others with
  | nil =>
      cases writesOthers
      rfl
  | cons writesElement _ ih =>
      cases writesOthers with
      | cons writesOther writesRest => rw [writesElement.unique writesOther, ih writesRest]

/-- The pattern is emitted as it is modelled, and no string it matches has an
unknown unit or too many ranges. The string is read as the list of its
elements, their numerals held at the greatest 64-bit integer, or malformed where
one is inverted, exactly when one is inverted below that integer if any is. -/
theorem parse_pattern_iff (value : Text) :
    pattern = '^' :: Pattern.field.render ++ ['$'] ∧
      (value ∈ Pattern.field.language →
        parse value ≠ .error .unknownUnit ∧ parse value ≠ .error .tooManyRanges ∧
        ∃ specs, (∀ others, List.Forall₂ Writes (elements value) others ↔ others = specs) ∧
          ((parse value =
              if ∃ read ∈ specs, read.Inverted then
                .error .malformed
              else
                .ok (specs.map Unbounded.saturate)) ↔
            ((∃ read ∈ specs, read.Inverted) → ∃ read ∈ specs, read.SeenInverted))) := by
  refine ⟨pattern_eq_render, fun matched => ?_⟩
  obtain ⟨specs, wrote, parsed⟩ := parse_of_matched matched
  have writes : ∀ others, List.Forall₂ Writes (elements value) others ↔ others = specs :=
    fun others => ⟨Writes.list_unique wrote, fun same => same ▸ wrote⟩
  by_cases seen : ∃ read ∈ specs, read.SeenInverted
  · have inverted : ∃ read ∈ specs, read.Inverted := by
      obtain ⟨read, member, isSeen⟩ := seen
      exact ⟨read, member, isSeen.inverted⟩
    rw [if_pos seen] at parsed
    refine ⟨by simp [parsed], by simp [parsed], specs, writes, ?_⟩
    rw [parsed, if_pos inverted]
    exact ⟨fun _ _ => seen, fun _ => rfl⟩
  · rw [if_neg seen] at parsed
    refine ⟨by simp [parsed], by simp [parsed], specs, writes, ?_⟩
    by_cases inverted : ∃ read ∈ specs, read.Inverted
    · rw [parsed, if_pos inverted]
      exact ⟨fun same => (by cases same), fun sees => absurd (sees inverted) seen⟩
    · rw [parsed, if_neg inverted]
      exact ⟨fun _ isInverted => absurd isInverted inverted, fun _ => rfl⟩

/-- An inverted range past the greatest 64-bit integer, as a sender writes it. -/
def invertedField : Text :=
  "bytes=18446744073709551617-18446744073709551616".toList

namespace Pattern

theorem mem_many_digit_of_all {text : Text} (digits : text.all Text.isAsciiDigit = true) :
    text ∈ (Pattern.many .digit).language := by
  refine Language.mem_kstar.mpr ⟨text.map fun character => [character], ?_, ?_⟩
  · exact (List.flatMap_singleton' text).symm
  · intro piece member
    obtain ⟨character, inText, rfl⟩ := List.mem_map.mp member
    exact ⟨character, List.all_eq_true.mp digits character inText, rfl⟩

theorem singleton_mem_oneOf {character : Char} {characters : List Char}
    (member : character ∈ characters) : [character] ∈ (Pattern.oneOf characters).language :=
  ⟨character, member, rfl⟩

theorem nil_mem_ows : [] ∈ ows.language :=
  Language.nil_mem_kstar _

/-- A single bounded element is matched. -/
theorem mem_field_bounded {first : Char} {start stop : Text}
    (firstDigit : Text.isAsciiDigit first = true) (startDigits : start.all Text.isAsciiDigit = true)
    (stopDigits : stop.all Text.isAsciiDigit = true) :
    "bytes".toList ++ (['='] ++ ([] ++ ((([first] ++ start) ++ (['-'] ++ stop)) ++ []))) ∈
      field.language := by
  have named : ['b'] ++ (['y'] ++ (['t'] ++ (['e'] ++ ['s']))) ∈ unitLetters.language :=
    Language.append_mem_mul (singleton_mem_oneOf (by decide))
      (Language.append_mem_mul (singleton_mem_oneOf (by decide))
        (Language.append_mem_mul (singleton_mem_oneOf (by decide))
          (Language.append_mem_mul (singleton_mem_oneOf (by decide))
            (singleton_mem_oneOf (by decide)))))
  have element : ([first] ++ start) ++ (['-'] ++ stop) ∈ oneSpec.language :=
    .inl (Language.append_mem_mul
      (Language.append_mem_mul ⟨first, firstDigit, rfl⟩ (mem_many_digit_of_all startDigits))
      (Language.append_mem_mul rfl (mem_many_digit_of_all stopDigits)))
  exact Language.append_mem_mul named (Language.append_mem_mul rfl
    (Language.append_mem_mul nil_mem_ows
      (Language.append_mem_mul element ⟨0, Nat.zero_le _, rfl⟩)))

end Pattern

theorem invertedField_matched : invertedField ∈ Pattern.field.language := by
  have firstDigit : Text.isAsciiDigit '1' = true := by decide
  have startDigits : "8446744073709551617".toList.all Text.isAsciiDigit = true := by decide
  have stopDigits : "18446744073709551616".toList.all Text.isAsciiDigit = true := by decide
  exact Pattern.mem_field_bounded firstDigit startDigits stopDigits

/-- An inverted range past the greatest 64-bit integer is read, not malformed. -/
theorem parse_inverted_ne_malformed :
    ¬∀ value ∈ Pattern.field.language, ∀ specs, List.Forall₂ Writes (elements value) specs →
      parse value =
        if ∃ read ∈ specs, read.Inverted then
          .error .malformed
        else
          .ok (specs.map Unbounded.saturate) := by
  intro agree
  have startNumeral : Unbounded.numeral "18446744073709551617".toList =
      some 18446744073709551617 := by
    decide +kernel
  have stopNumeral : Unbounded.numeral "18446744073709551616".toList =
      some 18446744073709551616 := by
    decide +kernel
  have only : elements invertedField =
      ["18446744073709551617".toList ++ '-' :: "18446744073709551616".toList] := by
    decide +kernel
  have read : parse invertedField = .ok [.offsets u64Max (some u64Max)] := by
    decide +kernel
  have inverted : Spec.Inverted (.offsets 18446744073709551617 (some 18446744073709551616)) := by
    decide
  have claimed := agree invertedField invertedField_matched
    [.offsets 18446744073709551617 (some 18446744073709551616)]
    (only ▸ .cons (.bounded startNumeral stopNumeral) .nil)
  rw [read, if_pos ⟨_, List.mem_cons_self, inverted⟩] at claimed
  cases claimed

end Kynos.Range
