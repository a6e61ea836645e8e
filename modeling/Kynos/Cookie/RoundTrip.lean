import Kynos.Cookie.UserAgent
import Kynos.Word.Padded
import Mathlib.Data.List.Find

/-!
# Cookies come back

A cookie that is written is stored by a user agent under its own name, with its
own value and exactly its own attributes; sent back, in any number of fields, it
is read as that name and that value. There is no escape to rely on: every letter
that could end a name, a value or an attribute is refused when it is written.
-/

namespace Kynos.Http.Cookie

open Kynos.Word Kynos.Numeral

/-! ## The attributes of a cookie -/

/-- The attributes set on a cookie, as a user agent takes them, in the order they
are written. -/
def attributes (cookie : Cookie) : List Attribute :=
  (if cookie.hostPrefixed then [.path (some ['/'])]
    else cookie.path.toList.map fun path => .path (readPath (Text.trimOws path))) ++
  cookie.domain.toList.map (fun domain => .domain (Text.toAsciiLowercase (stripDot domain))) ++
  cookie.maxAge.toList.map
    (fun age => .maxAge (min u64Max ((age + 999999999) / 1000000000) : Nat)) ++
  (if cookie.isSecure then [.secure] else []) ++
  (if cookie.httpOnly then [.httpOnly] else []) ++
  cookie.sameSite.toList.map (fun sameSite => .sameSite (some sameSite)) ++
  (if cookie.partitioned then [.partitioned] else [])

/-! ## Texts that spell attributes -/

/-- Attributes are spelled with a semicolon and a space before each. -/
structure Spells (text : Text) (attributes : List Attribute) : Prop where
  spelled : ∃ avs : List Text, text = avs.flatMap ([';', ' '] ++ ·) ∧
    (∀ av ∈ avs, ∀ letter ∈ av, isAttributeOctet letter = true) ∧
    (avs.map (' ' :: ·)).filterMap attributeOf = attributes

theorem Spells.nil : Spells [] [] :=
  ⟨[], rfl, by simp, rfl⟩

theorem Spells.append {text other : Text} {attributes others : List Attribute}
    (spells : Spells text attributes) (otherSpells : Spells other others) :
    Spells (text ++ other) (attributes ++ others) := by
  obtain ⟨avs, rfl, plain, rfl⟩ := spells.spelled
  obtain ⟨otherAvs, rfl, otherPlain, rfl⟩ := otherSpells.spelled
  refine ⟨avs ++ otherAvs, by simp, fun av member => ?_, by simp⟩
  exact (List.mem_append.mp member).elim (plain av) (otherPlain av)

theorem Spells.single {av : Text} {taken : Attribute}
    (plain : ∀ letter ∈ av, isAttributeOctet letter = true)
    (reads : attributeOf (' ' :: av) = some taken) : Spells ([';', ' '] ++ av) [taken] :=
  ⟨[av], by simp, by simpa using plain, by simp [reads]⟩

/-- An attribute is read by its name and what stands after the equals sign. -/
theorem attributeOf_valued {name : Text} (noEquals : '=' ∉ name) (value : Text) :
    attributeOf (' ' :: (name ++ '=' :: value)) =
      readAttribute (Text.toAsciiLowercase (Text.trimOws (' ' :: name))) (Text.trimOws value) := by
  have cut : splitOnce '=' (' ' :: (name ++ '=' :: value)) = some (' ' :: name, value) :=
    splitOnce_eq_some_iff.mpr ⟨by simp [noEquals], rfl⟩
  rw [attributeOf, cut]
  rfl

theorem notMem_of_isAttributeOctet {text : Text}
    (plain : ∀ letter ∈ text, isAttributeOctet letter = true) : ';' ∉ text := fun member => by
  have isPlain := plain ';' member
  cases isPlain

/-- A user agent stores the pair and the attributes that follow it. -/
theorem receive_of_spells {name value text : Text} {attributes : List Attribute}
    (plainName : ∀ letter ∈ name, isAttributeOctet letter = true)
    (plainValue : ∀ letter ∈ value, isAttributeOctet letter = true) (noEquals : '=' ∉ name)
    (nameNonempty : name ≠ []) (solidName : Text.trimOws name = name)
    (solidValue : Text.trimOws value = value) (spells : Spells text attributes) :
    receive (name ++ '=' :: value ++ text) = some ⟨name, value, attributes⟩ := by
  obtain ⟨avs, rfl, plain, rfl⟩ := spells.spelled
  have pieces : (name ++ '=' :: value ++ avs.flatMap ([';', ' '] ++ ·)).splitOn ';' =
      (name ++ '=' :: value) :: avs.map (' ' :: ·) := by
    rw [← intercalate_cons, intercalate_spaced]
    refine List.splitOn_intercalate ';' (fun piece member => ?_) (List.cons_ne_nil _ _)
    rcases List.mem_cons.mp member with rfl | inRest
    · simp [notMem_of_isAttributeOctet plainName, notMem_of_isAttributeOctet plainValue]
    · obtain ⟨av, inAvs, rfl⟩ := List.mem_map.mp inRest
      simpa using notMem_of_isAttributeOctet (plain av inAvs)
  have pair : splitOnce '=' (name ++ '=' :: value) = some (name, value) :=
    splitOnce_eq_some_iff.mpr ⟨noEquals, rfl⟩
  have isName : name.isEmpty = false := by simpa using nameNonempty
  rw [receive, pieces]
  simp only [pair, solidName, solidValue, isName, Bool.false_eq_true, if_false]

/-! ## The attributes that are written -/

theorem plain_of_all {text : Text} (plain : text.all isAttributeOctet = true) :
    ∀ letter ∈ text, isAttributeOctet letter = true :=
  List.all_eq_true.mp plain

/-- An attribute written with a value. -/
theorem spells_valued (name value : Text) {taken : Attribute} (noEquals : '=' ∉ name)
    (plainName : name.all isAttributeOctet = true) (plainValue : value.all isAttributeOctet = true)
    (reads : readAttribute (Text.toAsciiLowercase (Text.trimOws (' ' :: name)))
      (Text.trimOws value) = some taken) :
    Spells ([';', ' '] ++ (name ++ '=' :: value)) [taken] := by
  refine .single (plain_of_all ?_) ((attributeOf_valued noEquals value).trans reads)
  rw [List.all_append, List.all_cons, plainName, plainValue]
  rfl

theorem spells_path {cookie : Cookie} {text : Text} (written : cookie.pathText = some text) :
    Spells text (if cookie.hostPrefixed then [.path (some ['/'])]
      else cookie.path.toList.map fun path => .path (readPath (Text.trimOws path))) := by
  rw [pathText] at written
  by_cases host : cookie.hostPrefixed
  · rw [if_pos host, Option.some.injEq] at written
    subst text
    rw [if_pos host]
    exact spells_valued "Path".toList ['/'] (by decide) rfl rfl rfl
  · rw [if_neg host] at written ⊢
    cases isPath : cookie.path with
    | none =>
        rw [isPath, Option.some.injEq] at written
        subst text
        exact .nil
    | some path =>
        simp only [isPath, Option.ite_none_right_eq_some, Option.some.injEq, isAttributeValue,
          Bool.and_eq_true] at written
        obtain ⟨⟨-, plain⟩, rfl⟩ := written
        exact spells_valued "Path".toList path (by decide) rfl plain rfl

/-- A letter of a domain: alphanumeric, a hyphen or a dot. -/
def isDomainLetter (letter : Char) : Bool :=
  LanguageTag.isAsciiAlphanumeric letter || letter == '-' || letter == '.'

theorem toNat_of_isDomainLetter {letter : Char} (isLetter : isDomainLetter letter = true) :
    45 ≤ letter.toNat ∧ letter.toNat ≤ 122 ∧ letter ≠ ';' := by
  simp only [isDomainLetter, LanguageTag.isAsciiAlphanumeric, LanguageTag.isAsciiAlphabetic,
    Bool.or_eq_true, Bool.and_eq_true, decide_eq_true_eq, beq_iff_eq] at isLetter
  rcases isLetter with (((⟨low, high⟩ | ⟨low, high⟩) | digit) | rfl) | rfl
  · have bounds : 97 ≤ letter.toNat ∧ letter.toNat ≤ 122 := ⟨low, high⟩
    refine ⟨by omega, by omega, ?_⟩
    rintro rfl
    exact absurd bounds (by decide)
  · have bounds : 65 ≤ letter.toNat ∧ letter.toNat ≤ 90 := ⟨low, high⟩
    refine ⟨by omega, by omega, ?_⟩
    rintro rfl
    exact absurd bounds (by decide)
  · have bounds := Text.toNat_of_isAsciiDigit digit
    refine ⟨by omega, by omega, ?_⟩
    rintro rfl
    exact absurd bounds (by decide)
  · decide
  · decide

/-- A letter of a word is the separator or in a piece. -/
theorem mem_splitOn_of_mem {word : Text} {letter : Char} (member : letter ∈ word) :
    letter = '.' ∨ ∃ piece ∈ word.splitOn '.', letter ∈ piece := by
  have joined : ['.'].intercalate (word.splitOn '.') = word := List.intercalate_splitOn '.'
  rw [← joined] at member
  cases pieces : word.splitOn '.' with
  | nil => exact absurd pieces (List.splitOn_ne_nil _ _)
  | cons first rest =>
      rw [pieces, intercalate_cons, List.mem_append, List.mem_flatMap] at member
      rcases member with inFirst | ⟨piece, inRest, inLed⟩
      · exact .inr ⟨first, List.mem_cons_self, inFirst⟩
      · rcases List.mem_cons.mp inLed with isDot | inPiece
        · exact .inl isDot
        · exact .inr ⟨piece, List.mem_cons_of_mem _ inRest, inPiece⟩

theorem isDomainLetter_of_isDomainValue {domain : Text} (isDomain : isDomainValue domain = true) :
    ∀ letter ∈ domain, isDomainLetter letter = true := by
  intro letter member
  simp only [isDomainValue, Bool.and_eq_true, List.all_eq_true] at isDomain
  have stripped : letter = '.' ∨ letter ∈ stripDot domain := by
    match domain, member with
    | '.' :: rest, member => exact List.mem_cons.mp member
    | [], member => cases member
    | first :: rest, member =>
        unfold stripDot
        split <;> simp_all
  rcases stripped with rfl | inRest
  · rfl
  · rcases mem_splitOn_of_mem inRest with rfl | ⟨label, inLabels, inLabel⟩
    · rfl
    · have isLabel := isDomain.2 label inLabels
      simp only [Cookie.isLabel, Bool.and_eq_true, List.all_eq_true] at isLabel
      have isLetter := isLabel.2 letter inLabel
      rw [isDomainLetter, isLetter]
      rfl

theorem spells_domain {cookie : Cookie} {text : Text} (written : cookie.domainText = some text) :
    Spells text
      (cookie.domain.toList.map fun domain => .domain (Text.toAsciiLowercase (stripDot domain))) := by
  rw [domainText] at written
  cases isDomain : cookie.domain with
  | none =>
      rw [isDomain, Option.some.injEq] at written
      subst text
      exact .nil
  | some domain =>
      simp only [isDomain, Option.ite_none_right_eq_some, Option.some.injEq] at written
      obtain ⟨isValue, rfl⟩ := written
      have letters := isDomainLetter_of_isDomainValue isValue
      have plain : domain.all isAttributeOctet = true := List.all_eq_true.mpr fun letter member => by
        obtain ⟨low, high, notSemicolon⟩ := toNat_of_isDomainLetter (letters letter member)
        simp only [isAttributeOctet, Bool.and_eq_true, decide_eq_true_eq, bne_iff_ne]
        exact ⟨⟨by omega, by omega⟩, notSemicolon⟩
      have solid : Text.trimOws domain = domain := trimBy_eq_self_of_forall fun letter member => by
        have visible := (toNat_of_isDomainLetter (letters letter member)).1
        simp only [Bool.or_eq_false_iff, beq_eq_false_iff_ne]
        constructor <;>
          · rintro rfl
            exact absurd visible (by decide)
      have nonempty : domain.isEmpty = false := by
        cases domain with
        | nil => cases isValue
        | cons => rfl
      refine spells_valued "Domain".toList domain (by decide) rfl plain ?_
      rw [solid]
      change readDomain domain = _
      rw [readDomain, nonempty]
      rfl

/-! ### Numbers and flags -/

/-- A decimal number of seconds is read back. -/
theorem readMaxAge_decimal (seconds : Nat) :
    readMaxAge (Text.trimOws (Text.decimal seconds)) = some (.maxAge seconds) := by
  have digits : (Text.decimal seconds).all Text.isAsciiDigit = true :=
    Text.all_isAsciiDigit_decimal seconds
  have solid : Text.trimOws (Text.decimal seconds) = Text.decimal seconds :=
    trimBy_eq_self_of_forall fun letter member => by
      have visible := (Text.toNat_of_isAsciiDigit (Text.isAsciiDigit_of_mem_decimal member)).1
      simp only [Bool.or_eq_false_iff, beq_eq_false_iff_ne]
      constructor <;>
        · rintro rfl
          exact absurd visible (by decide)
  rw [solid, readMaxAge, if_pos digits, Text.ofDigitChars_decimal]
  · exact Text.decimal_ne_nil seconds
  · intro rest signed
    rw [signed] at digits
    cases digits

theorem spells_maxAge (cookie : Cookie) :
    Spells cookie.maxAgeText (cookie.maxAge.toList.map
      fun age => .maxAge (min u64Max ((age + 999999999) / 1000000000) : Nat)) := by
  rw [maxAgeText]
  cases cookie.maxAge with
  | none => exact .nil
  | some age =>
      have plain : (Text.decimal (Duration.wholeSeconds age)).all isAttributeOctet = true :=
        List.all_eq_true.mpr fun letter member => by
          obtain ⟨low, high⟩ := Text.toNat_of_isAsciiDigit (Text.isAsciiDigit_of_mem_decimal member)
          simp only [isAttributeOctet, Bool.and_eq_true, decide_eq_true_eq, bne_iff_ne]
          refine ⟨⟨by omega, by omega⟩, ?_⟩
          rintro rfl
          exact absurd high (by decide)
      refine spells_valued "Max-Age".toList (Text.decimal (Duration.wholeSeconds age)) (by decide)
        rfl plain ?_
      change readMaxAge _ = _
      rw [readMaxAge_decimal, Duration.wholeSeconds_eq]

theorem spells_flag (name : Text) (taken : Attribute) (plain : name.all isAttributeOctet = true)
    (reads : attributeOf (' ' :: name) = some taken) (isSet : Bool) :
    Spells (if isSet then [';', ' '] ++ name else []) (if isSet then [taken] else []) := by
  cases isSet with
  | false => exact .nil
  | true => exact .single (plain_of_all plain) reads

theorem spells_sameSite (cookie : Cookie) :
    Spells cookie.sameSiteText
      (cookie.sameSite.toList.map fun sameSite => .sameSite (some sameSite)) := by
  rw [sameSiteText]
  cases cookie.sameSite with
  | none => exact .nil
  | some sameSite =>
      cases sameSite <;> exact spells_valued "SameSite".toList _ (by decide) rfl rfl rfl

/-! ## What is sent and received -/

theorem plain_of_isToken {name : Text} (token : isToken name = true) :
    ∀ letter ∈ name, isAttributeOctet letter = true := fun letter member => by
  have tchar := isTchar_of_mem token member
  obtain ⟨low, high⟩ := toNat_of_isTchar tchar
  simp only [isAttributeOctet, Bool.and_eq_true, decide_eq_true_eq, bne_iff_ne]
  exact ⟨⟨by omega, by omega⟩, ne_of_isTchar tchar (by decide)⟩

theorem toNat_of_isCookieValue {value : Text} (isValue : isCookieValue value = true) :
    ∀ letter ∈ value, 33 ≤ letter.toNat ∧ letter.toNat ≤ 126 ∧
      letter ∉ ['"', ',', ';', '\\'] := fun letter member => by
  have isOctet := List.all_eq_true.mp isValue letter member
  simp only [isCookieOctet, Bool.and_eq_true, decide_eq_true_eq, Bool.not_eq_true',
    List.contains_eq_mem, decide_eq_false_iff_not] at isOctet
  exact ⟨isOctet.1.1, isOctet.1.2, isOctet.2⟩

theorem plain_of_isCookieValue {value : Text} (isValue : isCookieValue value = true) :
    ∀ letter ∈ value, isAttributeOctet letter = true := fun letter member => by
  obtain ⟨low, high, notDelimiter⟩ := toNat_of_isCookieValue isValue letter member
  simp only [isAttributeOctet, Bool.and_eq_true, decide_eq_true_eq, bne_iff_ne]
  refine ⟨⟨by omega, by omega⟩, ?_⟩
  rintro rfl
  simp at notDelimiter

/-- Visible text has no optional white space. -/
theorem trimOws_of_visible {text : Text} (visible : ∀ letter ∈ text, 33 ≤ letter.toNat) :
    Text.trimOws text = text :=
  trimBy_eq_self_of_forall fun letter member => by
    have isVisible := visible letter member
    simp only [Bool.or_eq_false_iff, beq_eq_false_iff_ne]
    constructor <;>
      · rintro rfl
        exact absurd isVisible (by decide)

/-- The text a cookie is written as, its attributes after its pair. -/
theorem exists_spells {cookie : Cookie} {sent : HeaderValue} (encodes : cookie.encode = some sent) :
    isToken cookie.name = true ∧ isCookieValue cookie.value = true ∧
      ∃ text, Spells text cookie.attributes ∧
        HeaderValue.fromStr (cookie.name ++ '=' :: cookie.value ++ text) = some sent := by
  rw [encode] at encodes
  simp only [Option.ite_none_left_eq_some] at encodes
  obtain ⟨grammatical, -, -, written⟩ := encodes
  simp only [Bool.or_eq_true, Bool.not_eq_true', not_or, Bool.not_eq_false] at grammatical
  refine ⟨grammatical.1, grammatical.2, ?_⟩
  cases path : cookie.pathText with
  | none =>
      rw [path] at written
      cases written
  | some pathText =>
      cases domain : cookie.domainText with
      | none =>
          rw [path, domain] at written
          cases written
      | some domainText =>
          rw [path, domain] at written
          have secure : Spells cookie.secureText _ :=
            spells_flag "Secure".toList .secure rfl rfl cookie.isSecure
          have httpOnly : Spells cookie.httpOnlyText _ :=
            spells_flag "HttpOnly".toList .httpOnly rfl rfl cookie.httpOnly
          have partitioned : Spells cookie.partitionedText _ :=
            spells_flag "Partitioned".toList .partitioned rfl rfl cookie.partitioned
          refine ⟨_, ((((((spells_path path).append (spells_domain domain)).append
            (spells_maxAge cookie)).append secure).append httpOnly).append
              (spells_sameSite cookie)).append partitioned, ?_⟩
          rw [← written]
          simp only [List.append_assoc, List.cons_append]

theorem isText_of_isAttributeOctet {letter : Char} (plain : isAttributeOctet letter = true) :
    HeaderValue.IsTextCharacter letter := by
  simp only [isAttributeOctet, Bool.and_eq_true, decide_eq_true_eq] at plain
  exact .inl (by omega)

theorem Spells.isText {text : Text} {attributes : List Attribute} (spells : Spells text attributes) :
    ∀ letter ∈ text, HeaderValue.IsTextCharacter letter := by
  obtain ⟨avs, rfl, plain, -⟩ := spells.spelled
  intro letter member
  obtain ⟨av, inAvs, inLed⟩ := List.mem_flatMap.mp member
  rcases List.mem_append.mp inLed with inGlue | inAv
  · have glue : ∀ letter ∈ [';', ' '], HeaderValue.IsTextCharacter letter :=
      List.all_iff_forall_prop.mp (by decide)
    exact glue letter inGlue
  · exact isText_of_isAttributeOctet (plain av inAvs letter inAv)

/-- A user agent stores what a cookie says. -/
theorem receive_encode {cookie : Cookie} (encodes : cookie.encode.isSome = true) :
    (cookie.encode.bind HeaderValue.toStr).bind receive =
      some ⟨cookie.name, cookie.value, cookie.attributes⟩ := by
  obtain ⟨sent, isSent⟩ := Option.isSome_iff_exists.mp encodes
  obtain ⟨token, isValue, text, spells, written⟩ := exists_spells isSent
  have plainName := plain_of_isToken token
  have plainValue := plain_of_isCookieValue isValue
  have isText : ∀ letter ∈ cookie.name ++ '=' :: cookie.value ++ text,
      HeaderValue.IsTextCharacter letter := by
    intro letter member
    rcases List.mem_append.mp member with inPair | inText
    · rcases List.mem_append.mp inPair with inName | inRest
      · exact isText_of_isAttributeOctet (plainName letter inName)
      · rcases List.mem_cons.mp inRest with rfl | inValue
        · decide
        · exact isText_of_isAttributeOctet (plainValue letter inValue)
    · exact spells.isText letter inText
  have reads : sent.toStr = some (cookie.name ++ '=' :: cookie.value ++ text) := by
    obtain ⟨value, isWritten, isRead⟩ := HeaderValue.exists_fromStr isText
    rw [written, Option.some.injEq] at isWritten
    rw [isWritten, isRead]
  have visibleName : Text.trimOws cookie.name = cookie.name := trimOws_of_visible
    fun letter member => (toNat_of_isTchar (isTchar_of_mem token member)).1
  have visibleValue : Text.trimOws cookie.value = cookie.value := trimOws_of_visible
    fun letter member => (toNat_of_isCookieValue isValue letter member).1
  rw [isSent, Option.bind_some, reads, Option.bind_some]
  exact receive_of_spells plainName plainValue (notMem_of_isToken token (by decide))
    (ne_nil_of_isToken token) visibleName visibleValue spells

/-! ## What is sent back and read -/

/-- The octets of the pair a cookie is sent back as. -/
def pairOctets (cookie : Cookie) : Octets :=
  Text.toOctets (cookie.name ++ '=' :: cookie.value)

/-- A `Cookie` field that sends cookies back. -/
def fieldOctets (cookies : List Cookie) : Octets :=
  [59, 32].intercalate (cookies.map pairOctets)

/-- A cookie whose name and value can be spelled. -/
structure Spelled (cookie : Cookie) : Prop where
  token : isToken cookie.name = true
  isValue : isCookieValue cookie.value = true

section Visible

variable {text : Text} (visible : ∀ letter ∈ text, 33 ≤ letter.toNat ∧ letter.toNat ≤ 126)

include visible

theorem isText_of_visible : ∀ letter ∈ text, HeaderValue.IsTextCharacter letter :=
  fun letter member => by
    obtain ⟨low, high⟩ := visible letter member
    exact .inl (by omega)

/-- An octet that is no letter of the text is no octet of it. -/
theorem notMem_toOctets (letter : Char) {octet : UInt8} (code : octet.toNat = letter.toNat)
    (absent : letter ∉ text) : octet ∉ text.toOctets := fun member => by
  obtain ⟨other, inText, same⟩ := HeaderValue.exists_of_mem_toOctets (isText_of_visible visible) member
  have isLetter : other = letter := Char.toNat_inj.mp (same.symm.trans code)
  exact absent (isLetter ▸ inText)

theorem isAsciiWhitespace_of_visible :
    ∀ octet ∈ text.toOctets, Octets.isAsciiWhitespace octet = false := by
  intro octet member
  obtain ⟨letter, inText, code⟩ :=
    HeaderValue.exists_of_mem_toOctets (isText_of_visible visible) member
  have low := (visible letter inText).1
  simp only [Octets.isAsciiWhitespace, Bool.or_eq_false_iff, beq_eq_false_iff_ne, ne_eq,
    ← UInt8.toNat_inj]
  simp
  omega

theorem trimAscii_toOctets : Octets.trimAscii text.toOctets = text.toOctets :=
  trimBy_eq_self_of_forall (isAsciiWhitespace_of_visible visible)

theorem textOf_toOctets : textOf text.toOctets = some text := by
  have isText := isText_of_visible visible
  have ascii : text.toOctets.all (· < 128) = true := List.all_eq_true.mpr fun octet member => by
    obtain ⟨letter, inText, code⟩ := HeaderValue.exists_of_mem_toOctets isText member
    have high := (visible letter inText).2
    rw [decide_eq_true_eq, UInt8.lt_iff_toNat_lt, code]
    simp
    omega
  rw [textOf, if_pos ascii, HeaderValue.toOctets_eq_map isText, List.map_map, Option.some.injEq]
  calc
    text.map _ = text.map id :=
      List.map_congr_left fun letter member => HeaderValue.ofUInt8_ofNat (isText letter member)
    _ = text := List.map_id text

end Visible

namespace Spelled

variable {cookie : Cookie} (spelled : cookie.Spelled)

include spelled

theorem visibleName : ∀ letter ∈ cookie.name, 33 ≤ letter.toNat ∧ letter.toNat ≤ 126 :=
  fun _ member => toNat_of_isTchar (isTchar_of_mem spelled.token member)

theorem visibleValue : ∀ letter ∈ cookie.value, 33 ≤ letter.toNat ∧ letter.toNat ≤ 126 :=
  fun letter member =>
    have isVisible := toNat_of_isCookieValue spelled.isValue letter member
    ⟨isVisible.1, isVisible.2.1⟩

theorem visible : ∀ letter ∈ cookie.name ++ '=' :: cookie.value,
    33 ≤ letter.toNat ∧ letter.toNat ≤ 126 := by
  intro letter member
  rcases List.mem_append.mp member with inName | inRest
  · exact spelled.visibleName letter inName
  · rcases List.mem_cons.mp inRest with rfl | inValue
    · decide
    · exact spelled.visibleValue letter inValue

theorem notMem_value {letter : Char} (delimiter : letter ∈ ['"', ',', ';', '\\']) :
    letter ∉ cookie.value := fun member =>
  (toNat_of_isCookieValue spelled.isValue letter member).2.2 delimiter

theorem noSemicolon : 59 ∉ cookie.pairOctets := by
  refine notMem_toOctets spelled.visible ';' rfl fun member => ?_
  rcases List.mem_append.mp member with inName | inRest
  · exact notMem_of_isToken spelled.token (by decide) inName
  · rcases List.mem_cons.mp inRest with isEquals | inValue
    · cases isEquals
    · exact spelled.notMem_value (by decide) inValue

theorem unquoted_value : unquoted cookie.value.toOctets = cookie.value.toOctets := by
  have noQuote : 34 ∉ cookie.value.toOctets :=
    notMem_toOctets spelled.visibleValue '"' rfl (spelled.notMem_value (by decide))
  unfold unquoted
  split
  · rename_i rest isValue
    rw [isValue] at noQuote
    simp at noQuote
  · rfl

/-- The pair is read back. -/
theorem pairOf_pairOctets :
    pairOf (cookie.pairOctets) = some (cookie.name.toOctets, cookie.value.toOctets) := by
  have noEquals : 61 ∉ cookie.name.toOctets :=
    notMem_toOctets spelled.visibleName '=' rfl (notMem_of_isToken spelled.token (by decide))
  have joined : cookie.pairOctets = cookie.name.toOctets ++ 61 :: cookie.value.toOctets := by
    simp only [pairOctets, Text.toOctets, List.flatMap_append, List.flatMap_cons]
    rfl
  have cut : splitOnce 61 cookie.pairOctets = some (cookie.name.toOctets, cookie.value.toOctets) :=
    splitOnce_eq_some_iff.mpr ⟨noEquals, joined⟩
  have nonempty : cookie.pairOctets.isEmpty = false := by
    rw [joined]
    simp
  rw [pairOf, nonempty, cut]
  simp only [Option.getD_some, trimAscii_toOctets spelled.visibleName,
    trimAscii_toOctets spelled.visibleValue, spelled.unquoted_value, Bool.false_eq_true, if_false]

end Spelled

/-- The pairs of one field are those of its cookies. -/
theorem pairs_field {cookies : List Cookie} (spelled : ∀ cookie ∈ cookies, cookie.Spelled) :
    ((fieldOctets cookies).splitOn 59).filterMap (fun entry => pairOf (Octets.trimAscii entry)) =
      cookies.map fun cookie => (cookie.name.toOctets, cookie.value.toOctets) := by
  have split : ((fieldOctets cookies).splitOn 59).filterMap
        (fun entry => pairOf (Octets.trimAscii entry)) =
      (((fieldOctets cookies).splitOn 59).map Octets.trimAscii).filterMap pairOf := by
    rw [List.filterMap_map]
    rfl
  rw [split]
  by_cases none : cookies = []
  · subst cookies
    rfl
  · have words : ((fieldOctets cookies).splitOn 59).map Octets.trimAscii =
        cookies.map pairOctets := by
      refine map_trimBy_splitOn_spaced rfl rfl (fun word member => ?_) (fun word member => ?_)
        (by simpa using none)
      · obtain ⟨cookie, inCookies, rfl⟩ := List.mem_map.mp member
        exact (spelled cookie inCookies).noSemicolon
      · obtain ⟨cookie, inCookies, rfl⟩ := List.mem_map.mp member
        exact .of_forall (isAsciiWhitespace_of_visible (spelled cookie inCookies).visible)
    rw [words, List.filterMap_map]
    have each : ∀ cookie ∈ cookies, (pairOf ∘ pairOctets) cookie =
        some (cookie.name.toOctets, cookie.value.toOctets) := fun cookie member =>
      (spelled cookie member).pairOf_pairOctets
    rw [List.filterMap_congr each]
    exact congrFun List.filterMap_eq_map' cookies

section Sent

variable {lines : List (List Cookie)} {headers : HeaderMap}
  (spelled : ∀ cookie ∈ lines.flatten, cookie.Spelled)
  (sent : (headers.getAll Header.cookie).map HeaderValue.octets = lines.map fieldOctets)

include spelled sent

theorem pairs_eq : pairs headers =
    lines.flatten.map fun cookie => (cookie.name.toOctets, cookie.value.toOctets) := by
  have fields : ((headers.getAll Header.cookie).flatMap fun field => field.octets.splitOn 59) =
      lines.flatMap fun cookies => (fieldOctets cookies).splitOn 59 := by
    calc
      ((headers.getAll Header.cookie).flatMap fun field => field.octets.splitOn 59) =
        ((headers.getAll Header.cookie).map HeaderValue.octets).flatMap (·.splitOn 59) := by
          rw [List.flatMap_map]
      _ = lines.flatMap fun cookies => (fieldOctets cookies).splitOn 59 := by
          rw [sent, List.flatMap_map]
  rw [pairs, fields, List.filterMap_flatMap, List.map_flatten, ← List.flatMap_def]
  refine List.flatMap_congr fun cookies inLines => pairs_field fun cookie member => ?_
  exact spelled cookie (List.mem_flatten.mpr ⟨cookies, inLines, member⟩)

theorem jar_eq : jar headers = lines.flatten.map fun cookie => (cookie.name, cookie.value) := by
  rw [jar, pairs_eq spelled sent, List.filterMap_map]
  calc
    _ = lines.flatten.filterMap fun cookie => some (cookie.name, cookie.value) := by
      refine List.filterMap_congr fun cookie member => ?_
      have isSpelled := spelled cookie member
      simp only [Function.comp_apply, textOf_toOctets isSpelled.visibleName,
        textOf_toOctets isSpelled.visibleValue]
    _ = _ := congrFun List.filterMap_eq_map' _

theorem valueOf_eq (name : Text) :
    valueOf headers name =
      .ok ((lines.flatten.find? fun cookie => cookie.name = name).map Cookie.value) := by
  have found : (pairs headers).find? (fun pair => textOf pair.1 = some name) =
      (lines.flatten.find? fun cookie => cookie.name = name).map
        fun cookie => (cookie.name.toOctets, cookie.value.toOctets) := by
    rw [pairs_eq spelled sent, List.find?_map]
    congr 1
    refine List.find?_congr fun cookie member => ?_
    simp only [Function.comp_apply, textOf_toOctets (spelled cookie member).visibleName,
      Option.some.injEq]
  rw [valueOf, found]
  cases first : lines.flatten.find? fun cookie => cookie.name = name with
  | none => rfl
  | some cookie =>
      have isSpelled := spelled cookie (List.mem_of_find?_eq_some first)
      simp only [Option.map_some, textOf_toOctets isSpelled.visibleValue]

end Sent

/-! ## The round trip -/

/-- Cookies that are written come back. Sent back in any number of `Cookie`
fields they are read as their names and values, in order, and each name as its
first value; and a user agent stores of each the name, the value and exactly the
attributes set. A path that does not begin with a slash, the spaces around it
apart, stands for the default path, a domain is stored in lower case without its
leading dot, and a lifetime is rounded up to whole seconds, as far as they can
be counted. -/
theorem cookies_come_back {lines : List (List Cookie)} {headers : HeaderMap}
    (encode : ∀ cookie ∈ lines.flatten, cookie.encode.isSome = true)
    (sent : (headers.getAll Header.cookie).map HeaderValue.octets = lines.map fieldOctets) :
    jar headers = lines.flatten.map (fun cookie => (cookie.name, cookie.value)) ∧
      (∀ name, valueOf headers name =
        .ok ((lines.flatten.find? fun cookie => cookie.name = name).map Cookie.value)) ∧
      ∀ cookie ∈ lines.flatten,
        (cookie.encode.bind HeaderValue.toStr).bind receive =
          some ⟨cookie.name, cookie.value, cookie.attributes⟩ := by
  have spelled : ∀ cookie ∈ lines.flatten, cookie.Spelled := fun cookie member => by
    obtain ⟨value, encodes⟩ := Option.isSome_iff_exists.mp (encode cookie member)
    obtain ⟨token, isValue, -⟩ := exists_spells encodes
    exact ⟨token, isValue⟩
  exact ⟨jar_eq spelled sent, valueOf_eq spelled sent,
    fun cookie member => receive_encode (encode cookie member)⟩

/-- A cookie of a host, and one that is deleted. -/
def session : Cookie :=
  { new "__Host-id".toList "a=b".toList with sameSite := some .strict }

def theme : Cookie :=
  { new "theme".toList [] with path := some "/ ".toList, maxAge := some 0 }

def sentBack : HeaderMap :=
  HeaderMap.empty.append Header.cookie ⟨fieldOctets [session, theme], by decide⟩

theorem cookies_come_back_session :
    jar sentBack = [("__Host-id".toList, "a=b".toList), ("theme".toList, [])] ∧
      (theme.encode.bind HeaderValue.toStr).bind receive =
        some ⟨"theme".toList, [], [.path (some ['/']), .maxAge 0]⟩ := by
  have encode : ∀ cookie ∈ [[session, theme]].flatten, cookie.encode.isSome = true := by
    decide
  have isSent : (sentBack.getAll Header.cookie).map HeaderValue.octets =
      [[session, theme]].map fieldOctets := rfl
  obtain ⟨isJar, -, received⟩ := cookies_come_back encode isSent
  exact ⟨isJar, received theme (by decide)⟩

/-- A path without a slash, a domain in upper case and the longest lifetime are
not what a user agent stores. -/
theorem not_received_as_written :
    (((({ new ['a'] ['1'] with path := some "docs".toList } : Cookie).encode.bind
        HeaderValue.toStr).bind receive).map Received.attributes = some [.path none]) ∧
      (((({ new ['a'] ['1'] with domain := some "Example.COM".toList } : Cookie).encode.bind
        HeaderValue.toStr).bind receive).map Received.attributes =
          some [.domain "example.com".toList]) ∧
      (((({ new ['a'] ['1'] with maxAge := some Duration.max } : Cookie).encode.bind
        HeaderValue.toStr).bind receive).map Received.attributes =
          some [.maxAge (18446744073709551615 : Nat)]) ∧
      18446744073709551615 * 1000000000 < Duration.max := by
  decide +kernel

end Kynos.Http.Cookie
