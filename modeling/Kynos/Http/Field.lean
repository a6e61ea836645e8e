import Kynos.Text.Str

/-!
# Header fields

Field values are octets, field names lowercase tokens, and a header map an
ordered multimap from names to values: a name may be sent on several lines,
whose order is kept.
-/

namespace Kynos

/-- The octets of a string's UTF-8 encoding. -/
def Text.toOctets (text : Text) : List UInt8 :=
  text.flatMap String.utf8EncodeChar

namespace Http

/-- A sequence of octets. -/
abbrev Octets := List UInt8

namespace Octets

/-- `u8::is_ascii_whitespace`. -/
def isAsciiWhitespace (octet : UInt8) : Bool :=
  octet == 32 || octet == 9 || octet == 10 || octet == 12 || octet == 13

/-- `<[u8]>::trim_ascii`. -/
def trimAscii (octets : Octets) : Octets :=
  Word.trimBy isAsciiWhitespace octets

/-- `u8::to_ascii_lowercase`. -/
def toAsciiLower (octet : UInt8) : UInt8 :=
  if 65 ≤ octet && octet ≤ 90 then octet + 32 else octet

/-- `<[u8]>::eq_ignore_ascii_case`. -/
def eqIgnoreAsciiCase (left right : Octets) : Bool :=
  left.map toAsciiLower == right.map toAsciiLower

/-- `std::str::from_utf8`. -/
def fromUtf8 (octets : Octets) : Option Text :=
  (ByteArray.mk octets.toArray).utf8Decode?.map Array.toList

end Octets

/-! ## Values -/

/-- An octet a field value may hold: every octet but the controls, the tab
being allowed. -/
def isFieldOctet (octet : UInt8) : Bool :=
  (32 ≤ octet && octet != 127) || octet == 9

/-- An octet that is read as text: visible ASCII, a space or a tab. -/
def isTextOctet (octet : UInt8) : Bool :=
  (32 ≤ octet && octet < 127) || octet == 9

theorem isFieldOctet_of_isTextOctet {octet : UInt8} (text : isTextOctet octet = true) :
    isFieldOctet octet = true := by
  simp only [isTextOctet, isFieldOctet, Bool.or_eq_true, Bool.and_eq_true, decide_eq_true_eq,
    bne_iff_ne, beq_iff_eq] at *
  rcases text with ⟨visible, below⟩ | tab
  · refine .inl ⟨visible, ?_⟩
    rintro rfl
    exact absurd below (by decide)
  · exact .inr tab

/-- A field value: octets, each one a field value may hold. -/
structure HeaderValue where
  octets : Octets
  valid : octets.all isFieldOctet = true
  deriving DecidableEq, Repr

namespace HeaderValue

/-- `HeaderValue::from_bytes`. -/
def fromBytes (octets : Octets) : Option HeaderValue :=
  if valid : octets.all isFieldOctet = true then some ⟨octets, valid⟩ else none

/-- `HeaderValue::from_str`. -/
def fromStr (text : Text) : Option HeaderValue :=
  fromBytes text.toOctets

/-- `HeaderValue::to_str`: the value as text, where every octet is visible
ASCII or a tab. -/
def toStr (value : HeaderValue) : Option Text :=
  if value.octets.all isTextOctet then some (value.octets.map Char.ofUInt8) else none

/-- A character that is one text octet. -/
def IsTextCharacter (character : Char) : Prop :=
  (32 ≤ character.toNat ∧ character.toNat < 127) ∨ character.toNat = 9

instance : DecidablePred IsTextCharacter :=
  fun _ => inferInstanceAs (Decidable (_ ∨ _))

/-- A decimal spelling is digits. -/
theorem isTextCharacter_of_mem_decimal (number : Nat) (character : Char)
    (member : character ∈ Text.decimal number) : IsTextCharacter character := by
  have digit := Nat.isDigit_of_mem_toDigits (by decide) (by decide) member
  rw [Char.isDigit_iff_toNat] at digit
  have zero : '0'.toNat = 48 := rfl
  have nine : '9'.toNat = 57 := rfl
  exact .inl (by omega)

theorem utf8EncodeChar_of_isTextCharacter {character : Char} (text : IsTextCharacter character) :
    String.utf8EncodeChar character = [UInt8.ofNat character.toNat] := by
  have below : character.val.toNat ≤ 0x7f := by
    change character.toNat ≤ 0x7f
    rcases text with text | text <;> omega
  simp only [String.utf8EncodeChar, if_pos below]
  rfl

theorem isTextOctet_ofNat {character : Char} (text : IsTextCharacter character) :
    isTextOctet (UInt8.ofNat character.toNat) = true := by
  have small : character.toNat < 256 := by
    rcases text with text | text <;> omega
  simp only [isTextOctet, Bool.or_eq_true, Bool.and_eq_true, decide_eq_true_eq, beq_iff_eq,
    UInt8.le_iff_toNat_le, UInt8.lt_iff_toNat_lt, ← UInt8.toNat_inj, UInt8.toNat_ofNat',
    Nat.mod_eq_of_lt small]
  exact text

theorem ofUInt8_ofNat {character : Char} (text : IsTextCharacter character) :
    Char.ofUInt8 (UInt8.ofNat character.toNat) = character := by
  have small : character.toNat < 256 := by
    rcases text with text | text <;> omega
  apply Char.ext
  apply UInt32.toNat_inj.mp
  have wrapped : (UInt8.ofNat character.toNat).toUInt32.toNat = character.toNat % 256 := by simp
  change (UInt8.ofNat character.toNat).toUInt32.toNat = character.toNat
  rw [wrapped, Nat.mod_eq_of_lt small]

theorem toOctets_eq_map {text : Text} (isText : ∀ character ∈ text, IsTextCharacter character) :
    text.toOctets = text.map fun character => UInt8.ofNat character.toNat := by
  induction text with
  | nil => rfl
  | cons character rest ih =>
      have tail := ih fun other member => isText other (List.mem_cons_of_mem _ member)
      rw [Text.toOctets, List.flatMap_cons,
        utf8EncodeChar_of_isTextCharacter (isText character List.mem_cons_self)]
      exact congrArg _ tail

/-- An octet of text characters is one of them. -/
theorem exists_of_mem_toOctets {text : Text}
    (isText : ∀ character ∈ text, IsTextCharacter character) {octet : UInt8}
    (member : octet ∈ text.toOctets) : ∃ character ∈ text, octet.toNat = character.toNat := by
  rw [toOctets_eq_map isText] at member
  obtain ⟨character, inText, rfl⟩ := List.mem_map.mp member
  have small : character.toNat < 256 := by
    rcases isText character inText with text | text <;> omega
  exact ⟨character, inText, by rw [UInt8.toNat_ofNat', Nat.mod_eq_of_lt small]⟩

/-- Text of text characters is a field value, and reads back. -/
theorem exists_fromStr {text : Text} (isText : ∀ character ∈ text, IsTextCharacter character) :
    ∃ value, fromStr text = some value ∧ value.toStr = some text := by
  have textual : text.toOctets.all isTextOctet = true := by
    rw [toOctets_eq_map isText, List.all_map, List.all_eq_true]
    exact fun character member => isTextOctet_ofNat (isText character member)
  have valid : text.toOctets.all isFieldOctet = true := by
    rw [List.all_eq_true] at *
    exact fun octet member => isFieldOctet_of_isTextOctet (textual octet member)
  refine ⟨⟨text.toOctets, valid⟩, ?_, ?_⟩
  · rw [fromStr, fromBytes, dif_pos valid]
  · have back : text.toOctets.map Char.ofUInt8 = text := by
      rw [toOctets_eq_map isText, List.map_map]
      calc
        text.map _ = text.map id :=
          List.map_congr_left fun character member => ofUInt8_ofNat (isText character member)
        _ = text := List.map_id text
    rw [toStr, if_pos textual, back]

/-- A value read as text is the octets of text characters. -/
theorem toStr_eq_some_iff {value : HeaderValue} {text : Text} :
    value.toStr = some text ↔
      value.octets = text.toOctets ∧ ∀ character ∈ text, IsTextCharacter character := by
  constructor
  · intro reads
    rw [toStr, Option.ite_none_right_eq_some, Option.some.injEq] at reads
    obtain ⟨textual, rfl⟩ := reads
    have isText : ∀ character ∈ value.octets.map Char.ofUInt8, IsTextCharacter character := by
      intro character member
      obtain ⟨octet, inValue, rfl⟩ := List.mem_map.mp member
      have textOctet := List.all_eq_true.mp textual octet inValue
      simp only [isTextOctet, Bool.or_eq_true, Bool.and_eq_true, decide_eq_true_eq, beq_iff_eq,
        UInt8.le_iff_toNat_le, UInt8.lt_iff_toNat_lt, ← UInt8.toNat_inj] at textOctet
      rw [IsTextCharacter, Text.toNat_ofUInt8]
      exact textOctet
    refine ⟨?_, isText⟩
    rw [toOctets_eq_map isText, List.map_map]
    calc
      value.octets = value.octets.map id := (List.map_id _).symm
      _ = _ := List.map_congr_left fun octet _ => by
        simp [Text.toNat_ofUInt8]
  · rintro ⟨octets, isText⟩
    obtain ⟨written, writes, reads⟩ := exists_fromStr isText
    rw [fromStr, fromBytes, Option.dite_none_right_eq_some] at writes
    obtain ⟨valid, isWritten⟩ := writes
    obtain rfl : written = value := by
      rw [← Option.some.inj isWritten]
      cases value
      simp_all
    exact reads

end HeaderValue

/-! ## Maps -/

/-- The lines of a message head, first to last: a lowercase name and a value
each. -/
structure HeaderMap where
  lines : List (Text × HeaderValue)
  deriving DecidableEq, Repr

namespace HeaderMap

/-- The map without a line. -/
def empty : HeaderMap :=
  ⟨[]⟩

/-- Every value of a name, in order. -/
def getAll (fields : HeaderMap) (name : Text) : List HeaderValue :=
  (fields.lines.filter fun line => line.1 == name).map Prod.snd

/-- The first value of a name. -/
def get (fields : HeaderMap) (name : Text) : Option HeaderValue :=
  (fields.getAll name).head?

/-- Whether a name is sent. -/
def containsKey (fields : HeaderMap) (name : Text) : Bool :=
  (fields.get name).isSome

/-- Every line but those of a name. -/
def remove (fields : HeaderMap) (name : Text) : HeaderMap :=
  ⟨fields.lines.filter fun line => line.1 != name⟩

/-- One more line. -/
def append (fields : HeaderMap) (name : Text) (value : HeaderValue) : HeaderMap :=
  ⟨fields.lines ++ [(name, value)]⟩

/-- One line of a name, in place of all it had. -/
def insert (fields : HeaderMap) (name : Text) (value : HeaderValue) : HeaderMap :=
  (fields.remove name).append name value

@[simp]
theorem getAll_empty (name : Text) : empty.getAll name = [] :=
  rfl

@[simp]
theorem get_empty (name : Text) : empty.get name = none :=
  rfl

theorem getAll_append (fields : HeaderMap) (name other : Text) (value : HeaderValue) :
    (fields.append name value).getAll other =
      if name = other then fields.getAll other ++ [value] else fields.getAll other := by
  by_cases same : name = other <;> simp [append, getAll, same]

@[simp]
theorem getAll_remove_self (fields : HeaderMap) (name : Text) :
    (fields.remove name).getAll name = [] := by
  simp [remove, getAll, List.filter_filter]

theorem getAll_remove_of_ne {name other : Text} (different : other ≠ name)
    (fields : HeaderMap) : (fields.remove name).getAll other = fields.getAll other := by
  simp only [remove, getAll, List.filter_filter]
  congr 1
  refine List.filter_congr fun line _ => ?_
  by_cases same : line.1 = other <;> simp [same, different]

/-- An inserted name has its one value, and every other name keeps its own. -/
theorem getAll_insert (fields : HeaderMap) (name other : Text) (value : HeaderValue) :
    (fields.insert name value).getAll other =
      if name = other then [value] else fields.getAll other := by
  rw [insert, getAll_append]
  by_cases same : name = other
  · subst other
    simp
  · rw [if_neg same, if_neg same, getAll_remove_of_ne (Ne.symm same)]

theorem remove_insert (fields : HeaderMap) (name : Text) (value : HeaderValue) :
    (fields.insert name value).remove name = fields.remove name := by
  simp [insert, remove, append, List.filter_append, List.filter_filter]

theorem get_insert (fields : HeaderMap) (name other : Text) (value : HeaderValue) :
    (fields.insert name value).get other = if name = other then some value else fields.get other := by
  rw [get, getAll_insert]
  split <;> rfl

end HeaderMap

/-! ## The field names that are read and written -/

namespace Header

def acceptEncoding : Text := "accept-encoding".toList
def acceptRanges : Text := "accept-ranges".toList
def cacheControl : Text := "cache-control".toList
def contentDisposition : Text := "content-disposition".toList
def contentEncoding : Text := "content-encoding".toList
def contentLength : Text := "content-length".toList
def contentRange : Text := "content-range".toList
def contentType : Text := "content-type".toList
def etag : Text := "etag".toList
def host : Text := "host".toList
def ifMatch : Text := "if-match".toList
def ifModifiedSince : Text := "if-modified-since".toList
def ifNoneMatch : Text := "if-none-match".toList
def ifRange : Text := "if-range".toList
def ifUnmodifiedSince : Text := "if-unmodified-since".toList
def lastModified : Text := "last-modified".toList
def range : Text := "range".toList
def vary : Text := "vary".toList

end Header

/-! ## Messages -/

/-- A response: its status, its fields, and a body of some kind. -/
structure Response (Body : Type) where
  status : Nat
  headers : HeaderMap
  body : Body

/-- A request method, by its token. -/
abbrev Method := Text

namespace Method

def get : Method := "GET".toList
def head : Method := "HEAD".toList
def query : Method := "QUERY".toList
def options : Method := "OPTIONS".toList

end Method

end Http

end Kynos
