import Kynos.StructuredField.Read

/-!
# Writing structured fields

The serializer of RFC 9651 section 4.1, for the items the reader reads. Joined
items are read back as the items they were, parameters that share a key having
overwritten one another.
-/

namespace Kynos.StructuredField

/-- The largest integer. -/
def integerMax : Nat :=
  999999999999999

/-- A first character and further ones. -/
def isName (opens continues : Char → Bool) : Text → Bool
  | [] => false
  | character :: rest => opens character && rest.all continues

/-- One character of a string, escaped where it must be. -/
def escapeCharacter (character : Char) : Text :=
  if character = '"' ∨ character = '\\' then ['\\', character] else [character]

/-- What a string holds between its quotes. -/
def escape (text : Text) : Text :=
  text.flatMap escapeCharacter

/-- Section 4.1.3.1. -/
def BareItem.write : BareItem → Option Text
  | integer value =>
      if value.natAbs ≤ integerMax then
        some ((if value < 0 then ['-'] else []) ++ Text.decimal value.natAbs)
      else
        none
  | string text => if text.all isPrintable then some ('"' :: (escape text ++ ['"'])) else none
  | token text => if isName opensToken isTokenCharacter text then some text else none
  | boolean value => some ['?', if value then '1' else '0']

/-- One parameter: section 4.1.1.2. -/
def writeParameter (parameter : Text × BareItem) : Option Text :=
  if isName opensKey isKeyCharacter parameter.1 then
    if parameter.2 = .boolean true then
      some (';' :: parameter.1)
    else
      parameter.2.write.map fun value => ';' :: parameter.1 ++ '=' :: value
  else
    none

/-- The parameters of an item, one after another. -/
def writeParameters : List (Text × BareItem) → Option Text
  | [] => some []
  | parameter :: rest =>
      match writeParameter parameter, writeParameters rest with
      | some parameter, some rest => some (parameter ++ rest)
      | _, _ => none

/-- Section 4.1.3. -/
def Item.write (item : Item) : Option Text :=
  match item.value.write, writeParameters item.parameters with
  | some value, some parameters => some (value ++ parameters)
  | _, _ => none

/-- Parameters, each key once: a later one overwrites an earlier one. -/
def insertAll (read parameters : List (Text × BareItem)) : List (Text × BareItem) :=
  parameters.foldl (fun read parameter => insertParameter parameter.1 parameter.2 read) read

/-- An item as it is read, each key once. -/
def Item.merged (item : Item) : Item :=
  ⟨item.value, insertAll [] item.parameters⟩

theorem BareItem.write_natCast {number : Nat} (bounded : number ≤ integerMax) :
    (BareItem.integer number).write = some (Text.decimal number) := by
  have nonnegative : ¬ (number : Int) < 0 := by omega
  rw [BareItem.write, Int.natAbs_natCast, if_pos bounded, if_neg nonnegative, List.nil_append]

/-- A parameter that is a number. -/
theorem writeParameter_natCast {key : Text} (isKey : isName opensKey isKeyCharacter key = true)
    {number : Nat} (bounded : number ≤ integerMax) :
    writeParameter (key, .integer number) = some (';' :: key ++ '=' :: Text.decimal number) := by
  rw [writeParameter, if_pos isKey, if_neg BareItem.noConfusion, BareItem.write_natCast bounded]
  rfl

theorem writeParameters_append {first second : List (Text × BareItem)} {text rest : Text}
    (written : writeParameters first = some text) (writtenRest : writeParameters second = some rest) :
    writeParameters (first ++ second) = some (text ++ rest) := by
  induction first generalizing text with
  | nil =>
      cases written
      exact writtenRest
  | cons parameter first ih =>
      rw [writeParameters] at written
      split at written
      next spelled others writtenParameter writtenOthers =>
        cases written
        rw [List.cons_append, writeParameters, writtenParameter, ih writtenOthers, List.append_assoc]
      next => cases written

theorem writeParameters_singleton {parameter : Text × BareItem} {text : Text}
    (written : writeParameter parameter = some text) : writeParameters [parameter] = some text := by
  rw [writeParameters, written, writeParameters]
  exact congrArg some (List.append_nil text)

/-- An item is written where its value and its parameters are. -/
theorem Item.write_eq {item : Item} {parameters : Text}
    (written : writeParameters item.parameters = some parameters) :
    item.write = item.value.write.map (· ++ parameters) := by
  rw [Item.write, written]
  cases item.value.write <;> rfl

/-! ## Merging -/

theorem insertParameter_of_notMem {key : Text} {value : BareItem}
    {read : List (Text × BareItem)} (fresh : key ∉ read.map Prod.fst) :
    insertParameter key value read = read ++ [(key, value)] := by
  induction read with
  | nil => rfl
  | cons entry rest ih =>
      rw [List.map_cons, List.mem_cons, not_or] at fresh
      rw [insertParameter, if_neg (Ne.symm fresh.1), ih fresh.2, List.cons_append]

theorem insertAll_of_nodup {read parameters : List (Text × BareItem)}
    (distinct : ((read ++ parameters).map Prod.fst).Nodup) :
    insertAll read parameters = read ++ parameters := by
  induction parameters generalizing read with
  | nil => simp [insertAll]
  | cons parameter rest ih =>
      have fresh : parameter.1 ∉ read.map Prod.fst := fun member => by
        rw [List.map_append, List.map_cons] at distinct
        exact (List.nodup_append.mp distinct).2.2 _ member _ List.mem_cons_self rfl
      have step : insertAll read (parameter :: rest) = insertAll (read ++ [parameter]) rest := by
        rw [insertAll, List.foldl_cons, insertParameter_of_notMem fresh]
        rfl
      rw [step, ih (by simpa using distinct), List.append_assoc, List.singleton_append]

/-- Parameters whose keys are distinct are not changed by reading them. -/
theorem Item.merged_eq {item : Item} (distinct : (item.parameters.map Prod.fst).Nodup) :
    item.merged = item := by
  have kept : insertAll [] item.parameters = item.parameters :=
    insertAll_of_nodup (by simpa using distinct)
  rw [Item.merged, kept]

/-! ## What may follow -/

/-- What follows a member of a list. -/
def memberEnds : List Char :=
  [',', ' ', '\t']

/-- What follows a bare item. -/
def itemEnds : List Char :=
  ';' :: memberEnds

/-- What follows a bare item or a key. -/
def delimiters : List Char :=
  '=' :: itemEnds

/-- A text that is empty or begins with one of some characters. -/
def Begins (characters : List Char) (text : Text) : Prop :=
  ∀ character ∈ text.head?, character ∈ characters

theorem begins_nil (characters : List Char) : Begins characters [] :=
  nofun

theorem begins_cons {characters : List Char} {character : Char} (member : character ∈ characters)
    (rest : Text) : Begins characters (character :: rest) := by
  simpa [Begins] using member

theorem Begins.cons {characters : List Char} {text : Text} (begins : Begins characters text)
    (other : Char) : Begins (other :: characters) text :=
  fun character member => List.mem_cons_of_mem _ (begins character member)

/-- A scanner that no delimiter continues stops at a delimiter. -/
theorem scan_append {continues : Char → Bool} {text rest : Text}
    (continued : text.all continues = true) (delimited : Begins delimiters rest)
    (stops : delimiters.all (fun character => !continues character) = true) :
    (text ++ rest).takeWhile continues = text ∧ (text ++ rest).dropWhile continues = rest := by
  rw [List.all_eq_true] at continued stops
  rw [List.takeWhile_append_of_pos continued, List.dropWhile_append_of_pos continued]
  cases rest with
  | nil => simp
  | cons character rest =>
      have stopped : continues character = false := by
        simpa using stops character (delimited character rfl)
      simp [stopped]

/-- A name is read up to the delimiter that follows it. -/
theorem readName_append {opens continues : Char → Bool} {name rest : Text}
    (isName : isName opens continues name = true) (delimited : Begins delimiters rest)
    (stops : delimiters.all (fun character => !continues character) = true) :
    readName opens continues (name ++ rest) = some (name, rest) := by
  cases name with
  | nil => cases isName
  | cons character name =>
      rw [StructuredField.isName, Bool.and_eq_true] at isName
      obtain ⟨opened, continued⟩ := isName
      obtain ⟨taken, dropped⟩ := scan_append continued delimited stops
      rw [List.cons_append, readName, if_pos opened, taken, dropped]

/-! ## Bare items -/

theorem readString_escape {text : Text} (printable : text.all isPrintable = true) (rest : Text) :
    readString (escape text ++ '"' :: rest) = some (text, rest) := by
  induction text with
  | nil => rw [escape, List.flatMap_nil, List.nil_append, readString.eq_def]; rfl
  | cons character text ih =>
      rw [List.all_cons, Bool.and_eq_true] at printable
      have read := ih printable.2
      rw [escape] at read
      rw [escape, List.flatMap_cons, List.append_assoc, escapeCharacter]
      split
      next special =>
        have either : character = '"' ∨ character = '\\' := special
        rw [List.cons_append, List.cons_append, List.nil_append, readString.eq_def]
        simp only [if_true]
        rw [if_pos either, read]
        rfl
      next plain =>
        rw [not_or] at plain
        rw [List.cons_append, List.nil_append, readString.eq_def]
        simp only [if_neg plain.1, if_neg plain.2]
        rw [if_pos printable.1, read]
        rfl

/-- A numeral begins with a digit. -/
theorem exists_decimal_eq_cons (number : Nat) :
    ∃ digit digits, Text.decimal number = digit :: digits ∧ Text.isAsciiDigit digit = true := by
  obtain ⟨digit, digits, spelled⟩ := List.exists_cons_of_ne_nil (Text.decimal_ne_nil number)
  exact ⟨digit, digits, spelled,
    Text.isAsciiDigit_of_mem_decimal (by rw [spelled]; exact List.mem_cons_self)⟩

theorem readSign_sign (negative : Bool) (number : Nat) (rest : Text) :
    readSign ((if negative then ['-'] else []) ++ (Text.decimal number ++ rest)) =
      (negative, Text.decimal number ++ rest) := by
  obtain ⟨digit, digits, spelled, isDigit⟩ := exists_decimal_eq_cons number
  cases negative with
  | true => rfl
  | false =>
      rw [if_neg Bool.false_ne_true, List.nil_append, spelled, List.cons_append, readSign.eq_def]
      split
      next minus =>
        rw [List.cons.injEq] at minus
        exact absurd isDigit (by rw [minus.1]; decide)
      next => rfl

theorem readInteger_decimal {number : Nat} (bounded : number ≤ integerMax) {rest : Text}
    (delimited : Begins delimiters rest) (negative : Bool) :
    readInteger ((if negative then ['-'] else []) ++ (Text.decimal number ++ rest)) =
      some (.integer (if negative then -number else number), rest) := by
  obtain ⟨taken, dropped⟩ :=
    scan_append (Text.all_isAsciiDigit_decimal number) delimited (by decide)
  have short : (Text.decimal number).length ≤ 15 :=
    (Nat.length_toDigits_le_iff (by decide) (by decide)).mpr
      (Nat.lt_of_le_of_lt bounded (by decide))
  have noPoint : rest.head? ≠ some '.' := fun point =>
    absurd (delimited '.' point) (by decide)
  simp only [readInteger, readSign_sign, taken, dropped]
  simp [Text.decimal_ne_nil, short, noPoint]

/-- A token begins like no other bare item. -/
theorem distinct_of_opensToken {character : Char} (opens : opensToken character = true) :
    character ≠ '-' ∧ ¬ Text.isAsciiDigit character = true ∧ character ≠ '"' := by
  refine ⟨?_, fun digit => ?_, ?_⟩
  · rintro rfl
    exact absurd opens (by decide)
  · obtain ⟨low, high⟩ := Text.toNat_of_isAsciiDigit digit
    simp only [opensToken, isAlpha, Bool.or_eq_true, Bool.and_eq_true, decide_eq_true_eq,
      beq_iff_eq] at opens
    rcases opens with (⟨lower, _⟩ | ⟨upper, _⟩) | rfl
    · exact absurd (show 97 ≤ character.toNat from lower) (by omega)
    · exact absurd (show 65 ≤ character.toNat from upper) (by omega)
    · exact absurd low (by decide)
  · rintro rfl
    exact absurd opens (by decide)

/-- What the serializer writes is read back, whatever delimiter follows it. -/
theorem readBareItem_write {item : BareItem} {text : Text} (written : item.write = some text)
    {rest : Text} (delimited : Begins delimiters rest) : readBareItem (text ++ rest) = some (item, rest) := by
  cases item with
  | integer value =>
      rw [BareItem.write] at written
      split at written
      next bounded =>
        cases written
        have signed : (if decide (value < 0) = true then -(value.natAbs : Int) else value.natAbs) =
            value := by
          split <;> simp only [decide_eq_true_eq] at * <;> omega
        have read := readInteger_decimal bounded delimited (decide (value < 0))
        rw [signed] at read
        simp only [decide_eq_true_eq] at read
        rw [List.append_assoc]
        obtain ⟨digit, digits, spelled, isDigit⟩ := exists_decimal_eq_cons value.natAbs
        rw [spelled] at read ⊢
        split at read <;> rename_i sign
        · rw [if_pos sign]
          exact read
        · rw [if_neg sign, List.nil_append, List.cons_append, readBareItem, if_pos (.inr isDigit)]
          exact read
      next => cases written
  | string value =>
      rw [BareItem.write] at written
      split at written
      next printable =>
        cases written
        rw [List.cons_append, List.append_assoc, List.singleton_append, readBareItem]
        simp only [readString_escape printable]
        rfl
      next => cases written
  | token name =>
      rw [BareItem.write] at written
      split at written
      next token =>
        cases written
        cases text with
        | nil => cases token
        | cons character name =>
            obtain ⟨opens, _⟩ := Bool.and_eq_true_iff.mp token
            obtain ⟨notSign, notDigit, notQuote⟩ := distinct_of_opensToken opens
            have read := readName_append token delimited (by decide)
            rw [List.cons_append] at read ⊢
            rw [readBareItem, if_neg (not_or.mpr ⟨notSign, notDigit⟩), if_neg notQuote, if_pos opens,
              read]
            rfl
      next => cases written
  | boolean value =>
      cases written
      cases value <;> rfl

/-! ## Parameters -/

theorem isKeyCharacter_delimiters :
    delimiters.all (fun character => !isKeyCharacter character) = true := by
  decide

/-- A key opens with no blank. -/
theorem dropWhile_key {key : Text} (isKey : isName opensKey isKeyCharacter key = true)
    (rest : Text) : (key ++ rest).dropWhile (· == ' ') = key ++ rest := by
  cases key with
  | nil => cases isKey
  | cons character key =>
      rw [isName, Bool.and_eq_true] at isKey
      have solid : (character == ' ') = false := by
        rw [beq_eq_false_iff_ne]
        rintro rfl
        exact absurd isKey.1 (by decide)
      rw [List.cons_append, List.dropWhile_cons_of_neg (by simp [solid])]

/-- One parameter is read, and overwrites one of its key. -/
theorem readParameters_append {parameter : Text × BareItem} {text : Text}
    (written : writeParameter parameter = some text) {rest : Text} (ends : Begins itemEnds rest)
    (read : List (Text × BareItem)) (steps : Nat) :
    readParameters read (steps + 1) (text ++ rest) =
      readParameters (insertParameter parameter.1 parameter.2 read) steps rest := by
  obtain ⟨key, value⟩ := parameter
  rw [writeParameter] at written
  split at written
  next isKey =>
    split at written
    next isTrue =>
      change value = .boolean true at isTrue
      subst isTrue
      cases written
      have named := readName_append isKey (ends.cons '=') isKeyCharacter_delimiters
      rw [List.cons_append, readParameters]
      simp only [dropWhile_key isKey, named]
      cases rest with
      | nil => rfl
      | cons character rest =>
          have notEquals : character ≠ '=' := by
            rintro rfl
            exact absurd (ends '=' rfl) (by decide)
          split
          next equals => exact absurd (List.cons.inj equals).1 notEquals
          next => rfl
    next =>
      obtain ⟨spelled, writtenValue, rfl⟩ := Option.map_eq_some_iff.mp written
      have equals : Begins delimiters ('=' :: (spelled ++ rest)) := begins_cons (by decide) _
      have named := readName_append isKey equals isKeyCharacter_delimiters
      rw [List.cons_append, List.cons_append, List.append_assoc, List.cons_append, readParameters]
      simp only [dropWhile_key isKey, named, readBareItem_write writtenValue (ends.cons '=')]
  next => cases written

theorem exists_writeParameter_eq_cons {parameter : Text × BareItem} {text : Text}
    (written : writeParameter parameter = some text) : ∃ rest, text = ';' :: rest := by
  rw [writeParameter] at written
  split at written
  · split at written
    · cases written
      exact ⟨_, rfl⟩
    · obtain ⟨spelled, _, rfl⟩ := Option.map_eq_some_iff.mp written
      exact ⟨_, rfl⟩
  · cases written

theorem writeParameters_cons {parameter : Text × BareItem} {parameters : List (Text × BareItem)}
    {text : Text} (written : writeParameters (parameter :: parameters) = some text) :
    ∃ first others, writeParameter parameter = some first ∧
      writeParameters parameters = some others ∧ text = first ++ others := by
  rw [writeParameters] at written
  split at written
  next first others writtenFirst writtenOthers =>
    cases written
    exact ⟨first, others, writtenFirst, writtenOthers, rfl⟩
  next => cases written

/-- A parameter takes at least one character. -/
theorem length_le_of_writeParameters {parameters : List (Text × BareItem)} {text : Text}
    (written : writeParameters parameters = some text) : parameters.length ≤ text.length := by
  induction parameters generalizing text with
  | nil => exact Nat.zero_le _
  | cons parameter parameters ih =>
      obtain ⟨first, others, writtenFirst, writtenOthers, rfl⟩ := writeParameters_cons written
      obtain ⟨rest, rfl⟩ := exists_writeParameter_eq_cons writtenFirst
      have shorter := ih writtenOthers
      simp only [List.length_cons, List.length_append]
      omega

/-- What follows a bare item are its parameters, or what follows the item. -/
theorem begins_itemEnds {parameters : List (Text × BareItem)} {text rest : Text}
    (written : writeParameters parameters = some text) (ends : Begins memberEnds rest) :
    Begins itemEnds (text ++ rest) := by
  cases parameters with
  | nil =>
      cases written
      exact ends.cons ';'
  | cons parameter parameters =>
      obtain ⟨first, others, writtenFirst, _, rfl⟩ := writeParameters_cons written
      obtain ⟨tail, rfl⟩ := exists_writeParameter_eq_cons writtenFirst
      exact begins_cons List.mem_cons_self _

/-- Parameters are read, each key once. -/
theorem readParameters_write {parameters : List (Text × BareItem)} {text : Text}
    (written : writeParameters parameters = some text) {rest : Text}
    (ends : Begins memberEnds rest) (read : List (Text × BareItem)) {steps : Nat}
    (enough : parameters.length < steps) :
    readParameters read steps (text ++ rest) = some (insertAll read parameters, rest) := by
  induction parameters generalizing text read steps with
  | nil =>
      cases written
      obtain ⟨steps, rfl⟩ := Nat.exists_eq_add_of_lt enough
      rw [List.nil_append, readParameters.eq_def]
      simp only
      split
      next => exact absurd (ends ';' rfl) (by decide)
      next => rfl
  | cons parameter parameters ih =>
      obtain ⟨first, others, writtenFirst, writtenOthers, rfl⟩ := writeParameters_cons written
      obtain ⟨steps, rfl⟩ : ∃ remaining, steps = remaining + 1 := ⟨steps - 1, by omega⟩
      rw [List.length_cons, Nat.add_lt_add_iff_right] at enough
      rw [List.append_assoc, readParameters_append writtenFirst (begins_itemEnds writtenOthers ends),
        ih writtenOthers _ enough]
      rfl

/-! ## Items -/

/-- An item is read back, each key of its parameters once. -/
theorem readItem_write {item : Item} {text : Text} (written : item.write = some text) {rest : Text}
    (ends : Begins memberEnds rest) : readItem (text ++ rest) = some (item.merged, rest) := by
  rw [Item.write] at written
  split at written
  next value parameters writtenValue writtenParameters =>
    cases written
    have enough : item.parameters.length < (parameters ++ rest).length + 1 := by
      have shorter := length_le_of_writeParameters writtenParameters
      rw [List.length_append]
      omega
    rw [List.append_assoc, readItem,
      readBareItem_write writtenValue ((begins_itemEnds writtenParameters ends).cons '=')]
    simp only [readParameters_write writtenParameters ends [] enough]
    rfl
  next => cases written

/-! ## Lists -/

/-- An item begins with no blank. -/
theorem dropWhile_write {item : Item} {text : Text} (written : item.write = some text) {rest : Text}
    (ends : Begins memberEnds rest) {isBlank : Char → Bool}
    (blank : ∀ character, isBlank character = true → character = ' ' ∨ character = '\t') :
    (text ++ rest).dropWhile isBlank = text ++ rest := by
  have read := readItem_write written ends
  cases whole : text ++ rest with
  | nil => rfl
  | cons character tail =>
      rw [whole] at read
      refine List.dropWhile_cons_of_neg fun isBlank => ?_
      rcases blank character isBlank with rfl | rfl <;> cases read

/-- Written items, joined. -/
def joined (texts : List Text) : Text :=
  texts.flatMap fun text => ',' :: ' ' :: text

theorem begins_joined (texts : List Text) : Begins memberEnds (joined texts) := by
  cases texts with
  | nil => exact begins_nil _
  | cons text texts => exact begins_cons List.mem_cons_self _

theorem length_le_joined (texts : List Text) : texts.length ≤ (joined texts).length := by
  induction texts with
  | nil => exact Nat.zero_le _
  | cons text texts ih =>
      rw [joined] at ih ⊢
      rw [List.flatMap_cons, List.length_append, List.length_cons, List.length_cons, List.length_cons]
      omega

/-- Written items are read one after another, by enough steps. -/
theorem readMembers_write {item : Item} {items : List Item} {text : Text} {texts : List Text}
    (written : item.write = some text)
    (others : List.Forall₂ (fun item text => item.write = some text) items texts) {steps : Nat}
    (enough : texts.length < steps) :
    readMembers steps (text ++ joined texts) = some (item.merged :: items.map Item.merged) := by
  induction others generalizing item text steps with
  | nil =>
      obtain ⟨steps, rfl⟩ := Nat.exists_eq_add_of_lt enough
      rw [readMembers, readItem_write written (begins_joined [])]
      rfl
  | @cons second next items texts writtenSecond others ih =>
      obtain ⟨steps, rfl⟩ : ∃ remaining, steps = remaining + 1 := ⟨steps - 1, by omega⟩
      rw [List.length_cons, Nat.add_lt_add_iff_right] at enough
      have comma : (joined (next :: texts)).dropWhile Text.isOws =
          ',' :: ' ' :: (next ++ joined texts) := rfl
      have blank : (' ' :: (next ++ joined texts)).dropWhile Text.isOws = next ++ joined texts := by
        rw [List.dropWhile_cons_of_pos (by rfl)]
        exact dropWhile_write writtenSecond (begins_joined texts) (by simp [Text.isOws])
      rw [readMembers, readItem_write written (begins_joined _)]
      simp only [comma, blank, ih writtenSecond enough]
      rfl

/-- Joined items are read back, each key of their parameters once. -/
theorem readList_write {item : Item} {items : List Item} {text : Text} {texts : List Text}
    (written : item.write = some text)
    (others : List.Forall₂ (fun item text => item.write = some text) items texts) :
    readList (text ++ joined texts) = some (item.merged :: items.map Item.merged) := by
  have enough : texts.length < (text ++ joined texts).length + 1 := by
    have shorter := length_le_joined texts
    rw [List.length_append]
    omega
  have read := readMembers_write written others enough
  have kept : (text ++ joined texts).dropWhile (· == ' ') = text ++ joined texts :=
    dropWhile_write written (begins_joined texts) (by simp)
  rw [readList, kept]
  split
  next empty => rw [empty] at read; cases read
  next => exact read

end Kynos.StructuredField
