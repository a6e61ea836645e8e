import Kynos.Http.Lists
import Kynos.StructuredField.Write

/-!
# Fields of joined items

Written items joined with commas are a field value, which reads back as the
items; there is no field exactly where there is no item.
-/

namespace Kynos.StructuredField

open Kynos.Http

/-! ## Written items are printable -/

theorem all_isPrintable_of_all {isClass : Char → Bool} {text : Text}
    (inClass : text.all isClass = true)
    (printable : ∀ character, isClass character = true → isPrintable character = true) :
    text.all isPrintable = true := by
  rw [List.all_eq_true] at *
  exact fun character member => printable character (inClass character member)

theorem isPrintable_iff {character : Char} :
    isPrintable character = true ↔ 32 ≤ character.toNat ∧ character.toNat < 127 := by
  simp [isPrintable]

theorem isPrintable_of_isAsciiDigit {character : Char}
    (digit : Text.isAsciiDigit character = true) : isPrintable character = true := by
  have bounds := Text.toNat_of_isAsciiDigit digit
  rw [isPrintable_iff]
  omega

theorem isPrintable_of_isLowerAlpha {character : Char} (lower : isLowerAlpha character = true) :
    isPrintable character = true := by
  simp only [isLowerAlpha, Bool.and_eq_true, decide_eq_true_eq] at lower
  have low : 97 ≤ character.toNat := lower.1
  have high : character.toNat ≤ 122 := lower.2
  rw [isPrintable_iff]
  omega

theorem isPrintable_of_isTokenCharacter {character : Char}
    (token : isTokenCharacter character = true) : isPrintable character = true := by
  simp only [isTokenCharacter, Bool.or_eq_true, beq_iff_eq] at token
  rcases token with (tchar | rfl) | rfl
  · have bounds := toNat_of_isTchar tchar
    rw [isPrintable_iff]
    omega
  · decide
  · decide

theorem isPrintable_of_opensToken {character : Char} (opens : opensToken character = true) :
    isPrintable character = true := by
  simp only [opensToken, isAlpha, Bool.or_eq_true, Bool.and_eq_true, decide_eq_true_eq,
    beq_iff_eq] at opens
  rw [isPrintable_iff]
  rcases opens with (⟨low, high⟩ | ⟨low, high⟩) | rfl
  · have low : 97 ≤ character.toNat := low
    have high : character.toNat ≤ 122 := high
    omega
  · have low : 65 ≤ character.toNat := low
    have high : character.toNat ≤ 90 := high
    omega
  · decide

theorem isPrintable_of_isKeyCharacter {character : Char}
    (key : isKeyCharacter character = true) : isPrintable character = true := by
  simp only [isKeyCharacter, Bool.or_eq_true] at key
  rcases key with (lower | digit) | other
  · exact isPrintable_of_isLowerAlpha lower
  · exact isPrintable_of_isAsciiDigit digit
  · have every : "_-.*".toList.all isPrintable = true := by decide
    exact List.all_eq_true.mp every character (List.contains_iff_mem.mp other)

theorem isPrintable_of_opensKey {character : Char} (opens : opensKey character = true) :
    isPrintable character = true := by
  rw [opensKey, Bool.or_eq_true, beq_iff_eq] at opens
  rcases opens with lower | rfl
  · exact isPrintable_of_isLowerAlpha lower
  · decide

theorem all_isPrintable_of_isName {opens continues : Char → Bool} {name : Text}
    (isName : isName opens continues name = true)
    (printableOpens : ∀ character, opens character = true → isPrintable character = true)
    (printable : ∀ character, continues character = true → isPrintable character = true) :
    name.all isPrintable = true := by
  cases name with
  | nil => rfl
  | cons character name =>
      rw [StructuredField.isName, Bool.and_eq_true] at isName
      rw [List.all_cons, printableOpens character isName.1,
        all_isPrintable_of_all isName.2 printable]
      rfl

theorem all_isPrintable_escape {text : Text} (printable : text.all isPrintable = true) :
    (escape text).all isPrintable = true := by
  rw [List.all_eq_true] at *
  intro character member
  obtain ⟨escaped, inText, inEscaped⟩ := List.mem_flatMap.mp member
  rw [escapeCharacter] at inEscaped
  split at inEscaped
  · rcases List.mem_cons.mp inEscaped with rfl | same
    · decide
    · rw [List.mem_singleton.mp same]
      exact printable escaped inText
  · rw [List.mem_singleton.mp inEscaped]
    exact printable escaped inText

theorem all_isPrintable_of_writeValue {item : BareItem} {text : Text}
    (written : item.write = some text) : text.all isPrintable = true := by
  cases item with
  | integer value =>
      rw [BareItem.write] at written
      split at written
      next =>
        cases written
        rw [List.all_append, all_isPrintable_of_all (Text.all_isAsciiDigit_decimal _)
          fun _ => isPrintable_of_isAsciiDigit]
        split <;> rfl
      next => cases written
  | string value =>
      rw [BareItem.write] at written
      split at written
      next printable =>
        cases written
        rw [List.all_cons, List.all_append, all_isPrintable_escape printable]
        rfl
      next => cases written
  | token name =>
      rw [BareItem.write] at written
      split at written
      next token =>
        cases written
        exact all_isPrintable_of_isName token (fun _ => isPrintable_of_opensToken)
          fun _ => isPrintable_of_isTokenCharacter
      next => cases written
  | boolean value =>
      cases written
      cases value <;> rfl

theorem all_isPrintable_of_writeParameter {parameter : Text × BareItem} {text : Text}
    (written : writeParameter parameter = some text) : text.all isPrintable = true := by
  rw [writeParameter] at written
  split at written
  next isKey =>
    have key := all_isPrintable_of_isName isKey (fun _ => isPrintable_of_opensKey)
      fun _ => isPrintable_of_isKeyCharacter
    split at written
    next =>
      cases written
      rw [List.all_cons, key]
      rfl
    next =>
      obtain ⟨value, writtenValue, rfl⟩ := Option.map_eq_some_iff.mp written
      rw [List.cons_append, List.all_cons, List.all_append, List.all_cons, key,
        all_isPrintable_of_writeValue writtenValue]
      rfl
  next => cases written

theorem all_isPrintable_of_writeParameters {parameters : List (Text × BareItem)} {text : Text}
    (written : writeParameters parameters = some text) : text.all isPrintable = true := by
  induction parameters generalizing text with
  | nil => cases written; rfl
  | cons parameter parameters ih =>
      obtain ⟨first, others, writtenFirst, writtenOthers, rfl⟩ := writeParameters_cons written
      rw [List.all_append, all_isPrintable_of_writeParameter writtenFirst, ih writtenOthers]
      rfl

/-- A written item is printable ASCII. -/
theorem all_isPrintable_of_write {item : Item} {text : Text} (written : item.write = some text) :
    text.all isPrintable = true := by
  rw [Item.write] at written
  split at written
  next writtenValue writtenParameters =>
    cases written
    rw [List.all_append, all_isPrintable_of_writeValue writtenValue,
      all_isPrintable_of_writeParameters writtenParameters]
    rfl
  next => cases written

/-! ## The field -/

theorem foldl_join_eq_joined (texts : List Text) (first : Text) :
    texts.foldl (fun joined name => joined ++ ", ".toList ++ name) first = first ++ joined texts :=
  foldl_join texts first

/-- Joined items are a field, unless there is none, and the field is a List of
them. -/
theorem joinNames_write {items : List Item} {texts : List Text}
    (written : List.Forall₂ (fun item text => item.write = some text) items texts) :
    (joinNames texts = none ↔ items = []) ∧
      ∀ value ∈ joinNames texts, ∃ text, value.toStr = some text ∧
        readList text = some (items.map Item.merged) := by
  cases written with
  | nil => exact ⟨⟨fun _ => rfl, fun _ => rfl⟩, nofun⟩
  | @cons item first items texts writtenFirst others =>
      have printable : (first ++ joined texts).all isPrintable = true := by
        rw [List.all_append, all_isPrintable_of_write writtenFirst, Bool.true_and, joined]
        clear writtenFirst
        induction others with
        | nil => rfl
        | cons writtenText _ ih =>
            rw [List.flatMap_cons, List.all_append, ih, List.all_cons, List.all_cons,
              all_isPrintable_of_write writtenText]
            rfl
      have isText : ∀ character ∈ first ++ joined texts, HeaderValue.IsTextCharacter character :=
        fun character member =>
          .inl (isPrintable_iff.mp (List.all_eq_true.mp printable character member))
      obtain ⟨value, sent, reads⟩ := HeaderValue.exists_fromStr isText
      have isJoined : joinNames (first :: texts) = some value := by
        rw [joinNames, foldl_join_eq_joined, sent]
      rw [isJoined]
      refine ⟨by simp, fun other same => ?_⟩
      cases same
      exact ⟨_, reads, readList_write writtenFirst others⟩

end Kynos.StructuredField
