import Kynos.Text.Utf8

/-!
# Well-formed UTF-8

The first octet of a character says which octets may stand after it, and how
many. Read octet by octet against that table, a word is a sequence of characters,
is cut short within one, or is ill-formed. The table holds the encodings of the
characters and nothing else, so no encoding begins another.
-/

namespace Kynos.Text.Utf8

open Kynos.Http

/-! ## The table -/

/-- Octets from a first to a last. -/
structure Span where
  first : Nat
  last : Nat
  deriving DecidableEq

/-- Whether an octet is within a span. -/
def Span.holds (span : Span) (octet : UInt8) : Bool :=
  span.first ≤ octet.toNat && octet.toNat ≤ span.last

/-- What any octet but the first and the second is within. -/
def tail : Span :=
  ⟨0x80, 0xBF⟩

/-- What the second octet is within: no spelling longer than the shortest, no
surrogate, nothing past the last character. -/
def second (first : Nat) : Span :=
  ⟨if first = 0xE0 then 0xA0 else if first = 0xF0 then 0x90 else 0x80,
    if first = 0xED then 0x9F else if first = 0xF4 then 0x8F else 0xBF⟩

/-- What must stand after the first octet of a character. -/
def follow (first : Nat) : Option (List Span) :=
  if first < 0x80 then
    some []
  else if first < 0xC2 then
    none
  else if first < 0xE0 then
    some [tail]
  else if first < 0xF0 then
    some [second first, tail]
  else if first < 0xF5 then
    some [second first, tail, tail]
  else
    none

/-- What is owed after the octets, where they are within what was owed. -/
def advance : List Span → Octets → Option (List Span)
  | owed, [] => some owed
  | [], _ :: _ => none
  | span :: owed, octet :: rest => if span.holds octet then advance owed rest else none

/-- What is owed after octets that begin one character, or are it. -/
def owedAfter : Octets → Option (List Span)
  | [] => none
  | first :: rest => (follow first.toNat).bind fun owed => advance owed rest

/-- What `str::from_utf8` says of octets: `truncated` is the error without a
length, `illFormed` the error with one. -/
inductive Reading
  | valid
  | truncated
  | illFormed
  deriving DecidableEq

/-- What is said of octets after which so much is owed. -/
def Reading.ofOwed : Option (List Span) → Reading
  | none => .illFormed
  | some [] => .valid
  | some (_ :: _) => .truncated

/-- The octets read where some are owed. -/
def readingFrom : List Span → Octets → Reading
  | [], [] => .valid
  | _ :: _, [] => .truncated
  | [], octet :: rest =>
      match follow octet.toNat with
      | none => .illFormed
      | some owed => readingFrom owed rest
  | span :: owed, octet :: rest =>
      if span.holds octet then readingFrom owed rest else .illFormed

/-- `str::from_utf8`. -/
def reading (octets : Octets) : Reading :=
  readingFrom [] octets

/-! ## The encodings are the table -/

@[simp]
theorem advance_nil (owed : List Span) : advance owed [] = some owed := by
  cases owed <;> rfl

theorem advance_append (owed : List Span) (octets more : Octets) :
    advance owed (octets ++ more) = (advance owed octets).bind fun left => advance left more := by
  induction octets generalizing owed with
  | nil => rw [List.nil_append, advance_nil, Option.bind_some]
  | cons octet octets ih =>
      cases owed with
      | nil => rfl
      | cons span owed =>
          rw [List.cons_append, advance, advance]
          split
          · exact ih owed
          · rfl

theorem owedAfter_append {octets : Octets} (nonempty : octets ≠ []) (more : Octets) :
    owedAfter (octets ++ more) = (owedAfter octets).bind fun left => advance left more := by
  cases octets with
  | nil => exact absurd rfl nonempty
  | cons first rest =>
      rw [List.cons_append, owedAfter, owedAfter, Option.bind_assoc]
      congr 1
      funext owed
      exact advance_append owed rest more

theorem advance_nil_eq_some_iff {octets : Octets} {left : List Span} :
    advance [] octets = some left ↔ octets = [] ∧ left = [] := by
  cases octets with
  | nil => simp [advance, eq_comm]
  | cons => simp [advance]

theorem Span.holds_iff {span : Span} {octet : UInt8} :
    span.holds octet = true ↔ span.first ≤ octet.toNat ∧ octet.toNat ≤ span.last := by
  simp [Span.holds]

theorem advance_cons_eq_some_iff {span : Span} {owed left : List Span} {octet : UInt8}
    {rest : Octets} : advance (span :: owed) (octet :: rest) = some left ↔
      (span.first ≤ octet.toNat ∧ octet.toNat ≤ span.last) ∧ advance owed rest = some left := by
  rw [advance, ← Span.holds_iff]
  split <;> simp_all

/-- The sequences of the table, by their lengths. -/
def InTable (first : Nat) : List Nat → Prop
  | [] => first < 0x80
  | [next] => 0xC2 ≤ first ∧ first < 0xE0 ∧ 0x80 ≤ next ∧ next ≤ 0xBF
  | [next, third] => 0xE0 ≤ first ∧ first < 0xF0 ∧ (second first).first ≤ next ∧
      next ≤ (second first).last ∧ 0x80 ≤ third ∧ third ≤ 0xBF
  | [next, third, fourth] => 0xF0 ≤ first ∧ first < 0xF5 ∧ (second first).first ≤ next ∧
      next ≤ (second first).last ∧ 0x80 ≤ third ∧ third ≤ 0xBF ∧ 0x80 ≤ fourth ∧ fourth ≤ 0xBF
  | _ => False

theorem owedAfter_eq_nil_iff {first : UInt8} {rest : Octets} :
    owedAfter (first :: rest) = some [] ↔ InTable first.toNat (rest.map UInt8.toNat) := by
  rw [owedAfter, follow]
  rcases rest with _ | ⟨next, _ | ⟨third, _ | ⟨fourth, _ | ⟨fifth, rest⟩⟩⟩⟩ <;> split_ifs <;>
    simp only [Option.bind_some, Option.bind_none, advance, Span.holds_iff, tail, InTable,
      List.map_cons, List.map_nil] <;> grind

/-- What is owed after an encoding is nothing. -/
theorem owedAfter_utf8EncodeChar (character : Char) :
    owedAfter (String.utf8EncodeChar character) = some [] := by
  have scalar := character.valid
  simp only [UInt32.isValidChar, Nat.isValidChar] at scalar
  simp only [String.utf8EncodeChar]
  generalize character.val.toNat = value at scalar ⊢
  split_ifs with one two three <;> rw [owedAfter_eq_nil_iff] <;>
    simp only [InTable, List.map_cons, List.map_nil, UInt8.toNat_ofNat', second]
  · omega
  · omega
  · split_ifs <;> omega
  · split_ifs <;> omega

/-- A scalar value is a character's. -/
theorem exists_toNat_eq (value : Nat)
    (scalar : value < 0xD800 ∨ 0xDFFF < value ∧ value < 0x110000) :
    ∃ character : Char, character.val.toNat = value := by
  refine ⟨⟨UInt32.ofNat value, ?_⟩, ?_⟩
  · rw [UInt32.isValidChar, UInt32.toNat_ofNat', Nat.mod_eq_of_lt (by omega)]
    exact scalar
  · rw [UInt32.toNat_ofNat', Nat.mod_eq_of_lt (by omega)]

theorem ofNat_eq_of_toNat {value : Nat} (octet : UInt8) (same : octet.toNat = value) :
    UInt8.ofNat value = octet := by
  rw [← same, UInt8.ofNat_toNat]

/-- Octets after which nothing is owed are an encoding. -/
theorem exists_of_owedAfter_eq_nil {octets : Octets} (whole : owedAfter octets = some []) :
    ∃ character, String.utf8EncodeChar character = octets := by
  rcases octets with _ | ⟨first, rest⟩
  · cases whole
  rw [owedAfter_eq_nil_iff] at whole
  rcases rest with _ | ⟨next, _ | ⟨third, _ | ⟨fourth, _ | ⟨fifth, rest⟩⟩⟩⟩ <;>
    simp only [InTable, List.map_cons, List.map_nil, second] at whole
  · obtain ⟨character, isValue⟩ := exists_toNat_eq first.toNat (by omega)
    refine ⟨character, ?_⟩
    rw [String.utf8EncodeChar, isValue, if_pos (by omega), UInt8.ofNat_toNat]
  · obtain ⟨character, isValue⟩ := exists_toNat_eq
      ((first.toNat - 0xC0) * 64 + (next.toNat - 0x80)) (by omega)
    refine ⟨character, ?_⟩
    simp only [String.utf8EncodeChar, isValue]
    rw [if_neg (by omega), if_pos (by omega), ofNat_eq_of_toNat first (by omega),
      ofNat_eq_of_toNat next (by omega)]
  · obtain ⟨bits, isBits⟩ : ∃ bits, bits =
        (first.toNat - 0xE0) * 4096 + (next.toNat - 0x80) * 64 + (third.toNat - 0x80) := ⟨_, rfl⟩
    have scalar : bits < 0xD800 ∨ 0xDFFF < bits ∧ bits < 0x110000 := by split_ifs at whole <;> omega
    have long : 0x800 ≤ bits := by split_ifs at whole <;> omega
    have tails : 0x80 ≤ next.toNat ∧ next.toNat ≤ 0xBF := by split_ifs at whole <;> omega
    obtain ⟨character, isValue⟩ := exists_toNat_eq bits scalar
    refine ⟨character, ?_⟩
    simp only [String.utf8EncodeChar, isValue]
    rw [if_neg (by omega), if_neg (by omega), if_pos (by omega),
      ofNat_eq_of_toNat first (by omega), ofNat_eq_of_toNat next (by omega),
      ofNat_eq_of_toNat third (by omega)]
  · obtain ⟨bits, isBits⟩ : ∃ bits, bits = (first.toNat - 0xF0) * 262144 +
        (next.toNat - 0x80) * 4096 + (third.toNat - 0x80) * 64 + (fourth.toNat - 0x80) := ⟨_, rfl⟩
    have scalar : 0xFFFF < bits ∧ bits < 0x110000 := by split_ifs at whole <;> omega
    have tails : 0x80 ≤ next.toNat ∧ next.toNat ≤ 0xBF := by split_ifs at whole <;> omega
    obtain ⟨character, isValue⟩ := exists_toNat_eq bits (by omega)
    refine ⟨character, ?_⟩
    simp only [String.utf8EncodeChar, isValue]
    rw [if_neg (by omega), if_neg (by omega), if_neg (by omega),
      ofNat_eq_of_toNat first (by omega), ofNat_eq_of_toNat next (by omega),
      ofNat_eq_of_toNat third (by omega), ofNat_eq_of_toNat fourth (by omega)]

/-- The table holds the encodings and nothing else. -/
theorem owedAfter_eq_some_nil_iff {octets : Octets} :
    owedAfter octets = some [] ↔ ∃ character, String.utf8EncodeChar character = octets := by
  refine ⟨exists_of_owedAfter_eq_nil, ?_⟩
  rintro ⟨character, rfl⟩
  exact owedAfter_utf8EncodeChar character

/-- No encoding begins another. -/
theorem utf8EncodeChar_append_inj {first second : Char} {rest rest' : Octets}
    (same : String.utf8EncodeChar first ++ rest = String.utf8EncodeChar second ++ rest') :
    first = second ∧ rest = rest' := by
  have shorter {one other : Char} {more : Octets}
      (longer : String.utf8EncodeChar other = String.utf8EncodeChar one ++ more) : more = [] := by
    have owed := owedAfter_utf8EncodeChar other
    rw [longer, owedAfter_append (utf8EncodeChar_ne_nil one), owedAfter_utf8EncodeChar,
      Option.bind_some] at owed
    exact (advance_nil_eq_some_iff.mp owed).1
  have ofSame (octets : String.utf8EncodeChar first = String.utf8EncodeChar second) :
      first = second := by
    have texts : toOctets [first] = toOctets [second] := by simp [octets]
    exact List.singleton_inj.mp (toOctets_injective texts)
  rcases List.append_eq_append_iff.mp same with ⟨more, longer, isRest⟩ | ⟨more, longer, isRest⟩
  · obtain rfl := shorter longer
    exact ⟨ofSame (by simpa using longer.symm), by simpa using isRest⟩
  · obtain rfl := shorter longer
    exact ⟨ofSame (by simpa using longer), by simpa using isRest.symm⟩

/-! ## Reading octet by octet -/

/-- Octets that begin a character and are not one yet, or none. -/
def Begun (octets : Octets) : Prop :=
  octets = [] ∨ ∃ span owed, owedAfter octets = some (span :: owed)

/-- What is owed after octets, one of them within what was owed. -/
theorem owedAfter_concat {octets : Octets} {span : Span} {owed : List Span}
    (begun : owedAfter octets = some (span :: owed)) (octet : UInt8) :
    owedAfter (octets ++ [octet]) = if span.holds octet then some owed else none := by
  have nonempty : octets ≠ [] := by
    rintro rfl
    cases begun
  rw [owedAfter_append nonempty, begun, Option.bind_some, advance, advance_nil]

theorem readingFrom_append {owed left : List Span} {octets : Octets}
    (within : advance owed octets = some left) (rest : Octets) :
    readingFrom owed (octets ++ rest) = readingFrom left rest := by
  induction octets generalizing owed with
  | nil =>
      rw [advance_nil] at within
      obtain rfl := Option.some.inj within
      rfl
  | cons octet octets ih =>
      cases owed with
      | nil => cases within
      | cons span owed =>
          rw [List.cons_append, readingFrom]
          rw [advance] at within
          split at within
          · rename_i holds
            rw [if_pos holds]
            exact ih within
          · cases within

theorem reading_append {octets : Octets} {left : List Span} (within : owedAfter octets = some left)
    (rest : Octets) : reading (octets ++ rest) = readingFrom left rest := by
  cases octets with
  | nil => cases within
  | cons first octets =>
      obtain ⟨owed, follows, advances⟩ := Option.bind_eq_some_iff.mp within
      rw [List.cons_append, reading, readingFrom, follows]
      exact readingFrom_append advances rest

theorem reading_utf8EncodeChar_append (character : Char) (rest : Octets) :
    reading (String.utf8EncodeChar character ++ rest) = reading rest :=
  reading_append (owedAfter_utf8EncodeChar character) rest

/-- The reading of octets that went on by one. -/
theorem reading_concat {octets : Octets} (begun : Begun octets) (octet : UInt8) :
    reading (octets ++ [octet]) = .ofOwed (owedAfter (octets ++ [octet])) := by
  cases after : owedAfter (octets ++ [octet]) with
  | some left =>
      have reads := reading_append after []
      rw [List.append_nil] at reads
      rw [reads]
      cases left <;> rfl
  | none =>
      rcases begun with rfl | ⟨span, owed, isOwed⟩
      · have follows : follow octet.toNat = none := by
          rw [List.nil_append, owedAfter, Option.bind_eq_none_iff] at after
          rw [Option.eq_none_iff_forall_ne_some]
          intro owed isOwed
          have advances := after owed isOwed
          rw [advance_nil] at advances
          cases advances
        rw [List.nil_append, reading, readingFrom, follows]
        rfl
      · rw [owedAfter_concat isOwed] at after
        split at after
        · cases after
        · rename_i outside
          rw [reading_append isOwed, readingFrom, if_neg outside]
          rfl

/-- Octets that encode a text. -/
def IsText (octets : Octets) : Prop :=
  ∃ text : Text, text.toOctets = octets

theorem isText_utf8EncodeChar_append {character : Char} {octets : Octets} (isText : IsText octets) :
    IsText (String.utf8EncodeChar character ++ octets) := by
  obtain ⟨text, rfl⟩ := isText
  exact ⟨character :: text, toOctets_cons character text⟩

/-- Octets read through hold what was owed first. -/
theorem exists_of_readingFrom {owed : List Span} {octets : Octets}
    (reads : readingFrom owed octets = .valid) :
    ∃ whole rest, octets = whole ++ rest ∧ advance owed whole = some [] ∧ reading rest = .valid := by
  induction octets generalizing owed with
  | nil =>
      cases owed with
      | nil => exact ⟨[], [], rfl, rfl, rfl⟩
      | cons => cases reads
  | cons octet octets ih =>
      cases owed with
      | nil => exact ⟨[], octet :: octets, rfl, rfl, reads⟩
      | cons span owed =>
          rw [readingFrom] at reads
          split at reads
          · rename_i holds
            obtain ⟨whole, rest, rfl, advances, reads⟩ := ih reads
            refine ⟨octet :: whole, rest, rfl, ?_, reads⟩
            rw [advance, if_pos holds, advances]
          · cases reads

/-- `str::from_utf8` accepts the encodings of texts and nothing else. -/
theorem reading_eq_valid_iff {octets : Octets} :
    reading octets = .valid ↔ IsText octets := by
  constructor
  · induction length : octets.length using Nat.strong_induction_on generalizing octets with
    | _ total ih =>
        intro reads
        cases octets with
        | nil => exact ⟨[], rfl⟩
        | cons first others =>
            rw [reading, readingFrom] at reads
            cases follows : follow first.toNat with
            | none =>
                rw [follows] at reads
                cases reads
            | some owed =>
                rw [follows] at reads
                obtain ⟨whole, rest, rfl, advances, reads⟩ := exists_of_readingFrom reads
                have complete : owedAfter (first :: whole) = some [] := by
                  rw [owedAfter, follows, Option.bind_some, advances]
                obtain ⟨character, encodes⟩ := exists_of_owedAfter_eq_nil complete
                have shorter : rest.length < total := by
                  rw [← length, List.length_cons, List.length_append]
                  omega
                have isText := ih rest.length shorter rfl reads
                rw [← List.cons_append, ← encodes]
                exact isText_utf8EncodeChar_append isText
  · rintro ⟨text, rfl⟩
    induction text with
    | nil => rfl
    | cons character text ih => rw [toOctets_cons, reading_utf8EncodeChar_append, ih]

theorem length_add_of_advance {owed left : List Span} {octets : Octets}
    (advances : advance owed octets = some left) : octets.length + left.length = owed.length := by
  induction octets generalizing owed with
  | nil =>
      rw [advance_nil] at advances
      obtain rfl := Option.some.inj advances
      rw [List.length_nil, Nat.zero_add]
  | cons octet octets ih =>
      cases owed with
      | nil => cases advances
      | cons span owed =>
          have rest := ih (advance_cons_eq_some_iff.mp advances).2
          rw [List.length_cons, List.length_cons]
          omega

/-- No character has more than four octets. -/
theorem length_add_of_owedAfter {octets : Octets} {left : List Span}
    (isOwed : owedAfter octets = some left) : octets.length + left.length ≤ 4 := by
  cases octets with
  | nil => cases isOwed
  | cons first rest =>
      obtain ⟨owed, follows, advances⟩ := Option.bind_eq_some_iff.mp isOwed
      have few : owed.length ≤ 3 := by
        rw [follow] at follows
        split_ifs at follows <;> cases follows <;> simp
      have total := length_add_of_advance advances
      rw [List.length_cons]
      omega

/-! ## Ill-formed sequences -/

/-- Octets no character begins. -/
def BeginsNone (octets : Octets) : Prop :=
  ∀ character, ¬ String.utf8EncodeChar character <+: octets

/-- What is owed after an encoding is never more than was owed before. -/
theorem owedAfter_ne_of_isPrefix {character : Char} {octets : Octets}
    (starts : String.utf8EncodeChar character <+: octets) (span : Span) (owed : List Span) :
    owedAfter octets ≠ some (span :: owed) := by
  obtain ⟨more, rfl⟩ := starts
  rw [owedAfter_append (utf8EncodeChar_ne_nil character), owedAfter_utf8EncodeChar,
    Option.bind_some]
  intro isOwed
  cases (advance_nil_eq_some_iff.mp isOwed).2

/-- Octets that begin a character and are not one are no character's with more. -/
theorem beginsNone_of_owed {octets : Octets} {span : Span} {owed : List Span}
    (isOwed : owedAfter octets = some (span :: owed)) : BeginsNone octets :=
  fun _ starts => owedAfter_ne_of_isPrefix starts span owed isOwed

/-- Nor are octets that go on as none was owed. -/
theorem beginsNone_of_outside {octets rest : Octets} {octet : UInt8} (begun : Begun octets)
    (outside : owedAfter (octets ++ [octet]) = none) : BeginsNone (octets ++ octet :: rest) := by
  intro character starts
  obtain ⟨more, same⟩ := starts
  rcases List.append_eq_append_iff.mp same with ⟨between, isOctets, -⟩ | ⟨between, isEncoding, isRest⟩
  · rcases begun with rfl | ⟨span, owed, isOwed⟩
    · exact utf8EncodeChar_ne_nil character (List.append_eq_nil_iff.mp isOctets.symm).1
    · exact owedAfter_ne_of_isPrefix ⟨between, isOctets.symm⟩ span owed isOwed
  · cases between with
    | nil =>
        rcases begun with rfl | ⟨span, owed, isOwed⟩
        · exact utf8EncodeChar_ne_nil character (by rw [isEncoding]; rfl)
        · rw [List.append_nil] at isEncoding
          exact owedAfter_ne_of_isPrefix (by rw [isEncoding]) span owed isOwed
    | cons second between =>
        obtain ⟨rfl, -⟩ := List.cons_eq_cons.mp isRest
        have whole := owedAfter_utf8EncodeChar character
        rw [isEncoding, List.append_cons, owedAfter_append (by simp), outside] at whole
        cases whole

/-- What is owed is past ASCII and begins no character. -/
theorem within_tail {first : Nat} {owed : List Span} (follows : follow first = some owed) :
    ∀ span ∈ owed, 0x80 ≤ span.first ∧ span.last ≤ 0xBF := by
  have bounds : 0x80 ≤ (second first).first ∧ (second first).last ≤ 0xBF := by
    rw [second]
    split_ifs <;> decide
  rw [follow] at follows
  split_ifs at follows <;> cases follows <;> simp [tail, bounds]

theorem mem_of_advance {owed left : List Span} {octets : Octets}
    (advances : advance owed octets = some left) {span : Span} (member : span ∈ left) :
    span ∈ owed := by
  induction octets generalizing owed with
  | nil =>
      rw [advance_nil] at advances
      obtain rfl := Option.some.inj advances
      exact member
  | cons octet octets ih =>
      cases owed with
      | nil => cases advances
      | cons first owed =>
          exact List.mem_cons_of_mem _ (ih (advance_cons_eq_some_iff.mp advances).2)

/-- What begins a character goes on with none that is begun. -/
theorem owedAfter_concat_of_first {octets rest : Octets} {first : UInt8} {character : Char}
    {span : Span} {owed : List Span} (isOwed : owedAfter octets = some (span :: owed))
    (encoding : String.utf8EncodeChar character = first :: rest) :
    owedAfter (octets ++ [first]) = none := by
  have whole := owedAfter_utf8EncodeChar character
  rw [encoding] at whole
  obtain ⟨expected, follows, -⟩ := Option.bind_eq_some_iff.mp whole
  have begins : first.toNat < 0x80 ∨ 0xC2 ≤ first.toNat := by
    rw [follow] at follows
    split_ifs at follows <;> omega
  have bounds : 0x80 ≤ span.first ∧ span.last ≤ 0xBF := by
    cases octets with
    | nil => cases isOwed
    | cons head others =>
        obtain ⟨spans, follows, advances⟩ := Option.bind_eq_some_iff.mp isOwed
        exact within_tail follows span (mem_of_advance advances List.mem_cons_self)
  rw [owedAfter_concat isOwed, if_neg]
  rw [Span.holds_iff]
  omega

/-- A text ends where no character begins. -/
theorem not_isText_append {octets rest : Octets} (isText : IsText octets) (nonempty : rest ≠ [])
    (begins : BeginsNone rest) : ¬ IsText (octets ++ rest) := by
  obtain ⟨text, rfl⟩ := isText
  induction text with
  | nil =>
      rintro ⟨_ | ⟨character, whole⟩, same⟩
      · exact nonempty same.symm
      · exact begins character ⟨toOctets whole, same⟩
  | cons character text ih =>
      rintro ⟨_ | ⟨first, whole⟩, same⟩
      · rw [toOctets_cons, List.append_assoc] at same
        exact utf8EncodeChar_ne_nil character (List.append_eq_nil_iff.mp same.symm).1
      · rw [toOctets_cons, toOctets_cons, List.append_assoc] at same
        exact ih ⟨whole, (utf8EncodeChar_append_inj same).2⟩

theorem isText_append {first second : Octets} (isFirst : IsText first) (isSecond : IsText second) :
    IsText (first ++ second) := by
  obtain ⟨text, rfl⟩ := isFirst
  obtain ⟨more, rfl⟩ := isSecond
  exact ⟨text ++ more, toOctets_append text more⟩

theorem owedAfter_of_ascii {octet : UInt8} (ascii : octet.toNat < 128) :
    owedAfter [octet] = some [] := by
  rw [owedAfter, follow, if_pos ascii]
  rfl

/-- An ASCII octet is a character. -/
theorem exists_utf8EncodeChar_eq_singleton {octet : UInt8} (ascii : octet.toNat < 128) :
    ∃ character, String.utf8EncodeChar character = [octet] :=
  exists_of_owedAfter_eq_nil (owedAfter_of_ascii ascii)

/-- An encoding that holds an ASCII octet is that octet. -/
theorem utf8EncodeChar_eq_singleton {character : Char} {octet : UInt8} (ascii : octet.toNat < 128)
    (member : octet ∈ String.utf8EncodeChar character) :
    String.utf8EncodeChar character = [octet] := by
  have low : character.toNat < 128 := by
    by_contra past
    have high := le_of_mem_utf8EncodeChar (Nat.le_of_not_lt past) member
    omega
  rw [utf8EncodeChar_of_ascii low] at member ⊢
  rw [List.mem_singleton.mp member]

/-- An ASCII octet divides a text. -/
theorem isText_append_cons_iff {before after : Octets} {octet : UInt8} (ascii : octet.toNat < 128) :
    IsText (before ++ octet :: after) ↔ IsText before ∧ IsText after := by
  obtain ⟨divider, isDivider⟩ := exists_utf8EncodeChar_eq_singleton ascii
  have divided : octet :: after = String.utf8EncodeChar divider ++ after := by
    rw [isDivider, List.singleton_append]
  constructor
  · rintro ⟨text, same⟩
    induction text generalizing before with
    | nil => simp at same
    | cons character text ih =>
        rw [toOctets_cons] at same
        cases before with
        | nil =>
            rw [List.nil_append, divided] at same
            exact ⟨⟨[], rfl⟩, ⟨text, (utf8EncodeChar_append_inj same).2⟩⟩
        | cons first before =>
            rcases List.append_eq_append_iff.mp same with ⟨between, isBefore, isRest⟩ |
              ⟨between, isEncoding, isRest⟩
            · obtain ⟨isBetween, isAfter⟩ := ih isRest
              rw [isBefore]
              exact ⟨isText_utf8EncodeChar_append isBetween, isAfter⟩
            · cases between with
              | nil =>
                  obtain ⟨isNothing, isAfter⟩ := ih (show toOctets text = [] ++ octet :: after from
                    isRest.symm)
                  rw [List.append_nil] at isEncoding
                  rw [← isEncoding, ← List.append_nil (String.utf8EncodeChar character)]
                  exact ⟨isText_utf8EncodeChar_append isNothing, isAfter⟩
              | cons second between =>
                  obtain ⟨rfl, -⟩ := List.cons_eq_cons.mp isRest
                  have single := utf8EncodeChar_eq_singleton ascii
                    (show octet ∈ String.utf8EncodeChar character by rw [isEncoding]; simp)
                  rw [isEncoding] at single
                  simp at single
  · rintro ⟨isBefore, isAfter⟩
    rw [divided]
    exact isText_append isBefore (isText_utf8EncodeChar_append isAfter)

end Kynos.Text.Utf8
