import Kynos.Security.Carrier
import Kynos.Text.Percent
import Kynos.Text.Utf8Table
import Kynos.Word.Split

/-!
# Form text in place

A query is read as pairs, each half decoded to octets. The check of a form's
body decodes nothing into memory: it walks the escapes, holding the octets of
the character it is within. It accepts what has every half of every pair UTF-8,
and where it refuses it names the escape the first ill-formed sequence begins at.
-/

namespace Kynos.Uri

open Kynos.Word Kynos.Http Kynos.Text Kynos.Text.Percent Kynos.Text.Utf8

/-! ## The source -/

/-- `decode_query_component`: `+` is a space. -/
def decodeQueryComponent (raw : Text) : Octets :=
  decode (toOctets (raw.map fun character => if character = '+' then ' ' else character))

/-- `query_names`, each value as the target wrote it. -/
def queryNames (query : Option Text) : List (Octets × Text) :=
  (((query.getD []).splitOn '&').filter fun pair => !pair.isEmpty).map fun pair =>
    let halves := (splitOnce '=' pair).getD (pair, [])
    (decodeQueryComponent halves.1, halves.2)

/-- `query_pairs`. -/
def queryPairs (query : Option Text) : List (Octets × Octets) :=
  (queryNames query).map fun entry => (entry.1, decodeQueryComponent entry.2)

/-- `escaped_octet`: the octet the escape the octets begin with encodes. -/
def escapedOctet : Octets → Option UInt8
  | percent :: high :: low :: _ => if percent = 37 then escaped high low else none
  | _ => none

/-- The loop of `check_percent_decoded_utf8`, at an index into the text with what
is left of it, the octets held and where the first of these was escaped. -/
def checkFrom (index began : Nat) (pending : Octets) : Octets → Except Nat Unit
  | octet :: high :: low :: rest =>
      match escapedOctet (octet :: high :: low :: rest) with
      | none =>
          if pending.isEmpty then
            checkFrom (index + 1) began pending (high :: low :: rest)
          else
            .error began
      | some decoded =>
          if pending.isEmpty && decoded < 128 then
            checkFrom (index + 3) began pending rest
          else
            let began := if pending.isEmpty then index else began
            match reading (pending ++ [decoded]) with
            | .valid => checkFrom (index + 3) began [] rest
            | .truncated =>
                if (pending ++ [decoded]).length < 4 then
                  checkFrom (index + 3) began (pending ++ [decoded]) rest
                else
                  .error began
            | .illFormed => .error began
  | _ => if pending.isEmpty then .ok () else .error began

/-- `check_percent_decoded_utf8`. -/
def checkPercentDecodedUtf8 (text : Text) : Except Nat Unit :=
  checkFrom 0 0 [] text.toOctets

/-! ## Escapes -/

theorem decode_cons_of_stray {octet : UInt8} {rest : Octets}
    (stray : escapedOctet (octet :: rest) = none) : decode (octet :: rest) = octet :: decode rest := by
  rcases rest with _ | ⟨high, _ | ⟨low, rest⟩⟩
  · rfl
  · rfl
  · rw [decode]
    split
    · rename_i isPercent
      rw [escapedOctet, if_pos isPercent] at stray
      rw [stray]
    · rfl

theorem escapedOctet_cons_of_ne {octet : UInt8} (literal : octet ≠ 37) (rest : Octets) :
    escapedOctet (octet :: rest) = none := by
  rcases rest with _ | ⟨high, _ | ⟨low, rest⟩⟩
  · rfl
  · rfl
  · rw [escapedOctet, if_neg literal]

theorem exists_of_escapedOctet {octets : Octets} {decoded : UInt8}
    (isEscape : escapedOctet octets = some decoded) :
    ∃ high low rest, octets = 37 :: high :: low :: rest ∧ escaped high low = some decoded := by
  rcases octets with _ | ⟨percent, _ | ⟨high, _ | ⟨low, rest⟩⟩⟩
  · cases isEscape
  · cases isEscape
  · cases isEscape
  · rw [escapedOctet] at isEscape
    split at isEscape
    · rename_i isPercent
      exact ⟨high, low, rest, by rw [isPercent], isEscape⟩
    · cases isEscape

theorem lt_of_hexValue {octet : UInt8} {value : Nat} (isDigit : hexValue octet = some value) :
    octet.toNat < 128 := by
  by_contra past
  have outside : hexValue octet = none := by
    simp only [hexValue, UInt8.le_iff_toNat_le, UInt8.reduceToNat, Bool.and_eq_true, decide_eq_true_eq]
    rw [if_neg (by omega), if_neg (by omega), if_neg (by omega)]
  rw [outside] at isDigit
  cases isDigit

/-- A text that begins with an ASCII octet begins with its character. -/
theorem exists_of_toOctets_cons {text : Text} {octet : UInt8} {rest : Octets}
    (ascii : octet.toNat < 128) (same : text.toOctets = octet :: rest) :
    ∃ character after, text = character :: after ∧ toOctets after = rest := by
  cases text with
  | nil => cases same
  | cons character after =>
      rw [toOctets_cons] at same
      cases encoding : String.utf8EncodeChar character with
      | nil => exact absurd encoding (utf8EncodeChar_ne_nil character)
      | cons first others =>
          rw [encoding, List.cons_append] at same
          obtain ⟨rfl, isRest⟩ := List.cons_eq_cons.mp same
          have single := utf8EncodeChar_eq_singleton ascii
            (show first ∈ String.utf8EncodeChar character by rw [encoding]; exact List.mem_cons_self)
          rw [encoding] at single
          obtain rfl := (List.cons_eq_cons.mp single).2
          exact ⟨character, after, rfl, isRest⟩

/-- What is after an escape in a text is a text. -/
theorem exists_of_escape {text : Text} {decoded : UInt8}
    (isEscape : escapedOctet text.toOctets = some decoded) :
    ∃ high low after, text.toOctets = 37 :: high :: low :: Text.toOctets after ∧
      escaped high low = some decoded ∧ after.length < text.length := by
  obtain ⟨high, low, rest, same, spells⟩ := exists_of_escapedOctet isEscape
  obtain ⟨upper, isUpper, lower⟩ := Option.bind_eq_some_iff.mp spells
  obtain ⟨value, isLower, -⟩ := Option.map_eq_some_iff.mp lower
  obtain ⟨percent, more, rfl, isMore⟩ := exists_of_toOctets_cons (by decide) same
  obtain ⟨first, others, rfl, isOthers⟩ := exists_of_toOctets_cons (lt_of_hexValue isUpper) isMore
  obtain ⟨second, after, rfl, rfl⟩ := exists_of_toOctets_cons (lt_of_hexValue isLower) isOthers
  refine ⟨high, low, after, same, spells, ?_⟩
  simp only [List.length_cons]
  omega

/-! ## A step of the check -/

section Step

variable {pending : Octets} {index began : Nat}

theorem checkFrom_cons_of_stray {octet : UInt8} {rest : Octets}
    (stray : escapedOctet (octet :: rest) = none) :
    checkFrom index began [] (octet :: rest) = checkFrom (index + 1) began [] rest := by
  rcases rest with _ | ⟨high, _ | ⟨low, rest⟩⟩
  · rfl
  · rfl
  · rw [checkFrom, stray]
    rfl

theorem checkFrom_of_pending {octets : Octets} (holds : pending ≠ [])
    (stray : escapedOctet octets = none) : checkFrom index began pending octets = .error began := by
  have held : pending.isEmpty = false := List.isEmpty_eq_false_iff.mpr holds
  rcases octets with _ | ⟨octet, _ | ⟨high, _ | ⟨low, rest⟩⟩⟩
  · simp [checkFrom, held]
  · simp [checkFrom, held]
  · simp [checkFrom, held]
  · rw [checkFrom, stray]
    simp [held]

/-- An ASCII octet is held nowhere. -/
theorem isEmpty_and_lt_eq_false {decoded : UInt8}
    (unfinished : owedAfter (pending ++ [decoded]) ≠ some []) :
    (pending.isEmpty && decoded < 128) = false := by
  rw [← Bool.not_eq_true, Bool.and_eq_true, List.isEmpty_iff, decide_eq_true_eq]
  rintro ⟨rfl, ascii⟩
  exact unfinished (owedAfter_of_ascii (UInt8.lt_iff_toNat_lt.mp ascii))

/-- Literal octets are passed by while none are held. -/
theorem checkFrom_append_of_literal {word : Octets} (literal : ∀ octet ∈ word, octet ≠ 37)
    (rest : Octets) :
    checkFrom index began [] (word ++ rest) = checkFrom (index + word.length) began [] rest := by
  induction word generalizing index with
  | nil => rfl
  | cons octet word ih =>
      rw [List.forall_mem_cons] at literal
      rw [List.cons_append, checkFrom_cons_of_stray (escapedOctet_cons_of_ne literal.1 _),
        ih literal.2, List.length_cons, Nat.add_assoc, Nat.add_comm 1]

theorem decode_append_of_literal {word : Octets} (literal : ∀ octet ∈ word, octet ≠ 37)
    (rest : Octets) : decode (word ++ rest) = word ++ decode rest := by
  induction word with
  | nil => rfl
  | cons octet word ih =>
      rw [List.forall_mem_cons] at literal
      rw [List.cons_append, decode_cons_of_ne literal.1, ih literal.2, List.cons_append]

variable {high low decoded : UInt8} (spells : escaped high low = some decoded) (rest : Octets)

include spells

/-- An escape whose octet makes what is held a character. -/
theorem exists_checkFrom_of_whole (begun : Begun pending)
    (whole : owedAfter (pending ++ [decoded]) = some []) :
    ∃ anew, checkFrom index began pending (37 :: high :: low :: rest) =
      checkFrom (index + 3) anew [] rest := by
  rw [checkFrom, escapedOctet, if_pos rfl, spells]
  dsimp only
  split
  · rename_i single
    rw [Bool.and_eq_true, List.isEmpty_iff] at single
    exact ⟨began, by rw [single.1]⟩
  · rw [reading_concat begun, whole]
    exact ⟨_, rfl⟩

/-- An escape after which more is owed. -/
theorem checkFrom_of_within {span : Span} {owed : List Span} (begun : Begun pending)
    (within : owedAfter (pending ++ [decoded]) = some (span :: owed)) :
    checkFrom index began pending (37 :: high :: low :: rest) =
      checkFrom (index + 3) (if pending.isEmpty then index else began) (pending ++ [decoded]) rest := by
  have several := isEmpty_and_lt_eq_false (by rw [within]; simp)
  have few := length_add_of_owedAfter within
  rw [List.length_cons] at few
  rw [checkFrom, escapedOctet, if_pos rfl, spells]
  dsimp only
  rw [several, reading_concat begun, within]
  exact if_pos (show (pending ++ [decoded]).length < 4 by omega)

/-- An escape whose octet no character goes on with. -/
theorem checkFrom_of_outside (begun : Begun pending)
    (outside : owedAfter (pending ++ [decoded]) = none) :
    checkFrom index began pending (37 :: high :: low :: rest) =
      .error (if pending.isEmpty then index else began) := by
  have several := isEmpty_and_lt_eq_false (by rw [outside]; simp)
  rw [checkFrom, escapedOctet, if_pos rfl, spells]
  dsimp only
  rw [several, reading_concat begun, outside]
  rfl

end Step

/-! ## Where the check stops -/

/-- The escape at an offset begins the first ill-formed sequence of what octets
decode to, after what was held before them. -/
def IllFormedAt (held octets : Octets) (offset : Nat) : Prop :=
  ∃ before after, octets = before ++ after ∧ before.length = offset ∧
    (escapedOctet after).isSome ∧ decode octets = decode before ++ decode after ∧
    IsText (held ++ decode before) ∧ BeginsNone (decode after)

theorem illFormedAt_zero {octets : Octets} (isEscape : (escapedOctet octets).isSome)
    (begins : BeginsNone (decode octets)) : IllFormedAt [] octets 0 :=
  ⟨[], octets, rfl, rfl, isEscape, rfl, ⟨[], rfl⟩, begins⟩

/-- What comes before adds to the offset. -/
theorem IllFormedAt.append {held held' word spelled rest : Octets} {offset : Nat}
    (illFormed : IllFormedAt held' rest offset)
    (decodes : ∀ before, before <+: rest → decode (word ++ before) = spelled ++ decode before)
    (texts : ∀ octets, IsText (held' ++ octets) → IsText (held ++ (spelled ++ octets))) :
    IllFormedAt held (word ++ rest) (word.length + offset) := by
  obtain ⟨before, after, rfl, rfl, isEscape, divides, isText, begins⟩ := illFormed
  refine ⟨word ++ before, after, (List.append_assoc ..).symm, List.length_append, isEscape, ?_, ?_,
    begins⟩
  · rw [decodes _ (List.prefix_refl _), decodes before (List.prefix_append _ _), divides,
      List.append_assoc]
  · rw [decodes before (List.prefix_append _ _)]
    exact texts _ isText

/-- Where the check stops, at an index with octets held since another. -/
def Stops (pending octets : Octets) (index began offset : Nat) : Prop :=
  (pending ≠ [] ∧ offset = began ∧ BeginsNone (pending ++ decode octets)) ∨
    ∃ more, offset = index + more ∧ IllFormedAt pending octets more

/-- What the check says of a text that follows what is held. -/
def Judges (pending octets : Octets) (index began : Nat) : Except Nat Unit → Prop
  | .ok () => IsText (pending ++ decode octets)
  | .error offset => Stops pending octets index began offset

theorem stray_of_isPrefix {octet : UInt8} {before rest : Octets} (starts : before <+: rest)
    (stray : escapedOctet (octet :: rest) = none) : escapedOctet (octet :: before) = none := by
  obtain ⟨after, rfl⟩ := starts
  rcases before with _ | ⟨high, _ | ⟨low, before⟩⟩
  · rfl
  · rfl
  · exact stray

/-- Passed by with nothing held, what decodes to a text changes nothing. -/
theorem Judges.append {word spelled rest : Octets} {index began : Nat} {answer : Except Nat Unit}
    (judges : Judges [] rest (index + word.length) began answer) (isText : IsText spelled)
    (decodes : ∀ before, before <+: rest → decode (word ++ before) = spelled ++ decode before) :
    Judges [] (word ++ rest) index began answer := by
  cases answer with
  | ok =>
      change IsText (decode (word ++ rest))
      rw [decodes rest (List.prefix_refl rest)]
      exact isText_append isText judges
  | error offset =>
      rcases judges with ⟨nonempty, -⟩ | ⟨more, rfl, illFormed⟩
      · exact absurd rfl nonempty
      · have texts (octets : Octets) (isRest : IsText ([] ++ octets)) :
            IsText ([] ++ (spelled ++ octets)) :=
          show IsText (spelled ++ octets) from isText_append isText isRest
        exact .inr ⟨word.length + more, Nat.add_assoc .., illFormed.append decodes texts⟩

/-- An escape that makes what is held a character. -/
theorem Judges.whole {pending rest : Octets} {index began anew : Nat} {high low decoded : UInt8}
    {answer : Except Nat Unit} (judges : Judges [] rest (index + 3) anew answer)
    (spells : escaped high low = some decoded)
    (whole : owedAfter (pending ++ [decoded]) = some []) :
    Judges pending (37 :: high :: low :: rest) index began answer := by
  obtain ⟨character, encodes⟩ := exists_of_owedAfter_eq_nil whole
  have texts (octets : Octets) (isText : IsText octets) :
      IsText (pending ++ ([decoded] ++ octets)) := by
    rw [← List.append_assoc, ← encodes]
    exact isText_utf8EncodeChar_append isText
  cases answer with
  | ok =>
      change IsText (pending ++ decode (37 :: high :: low :: rest))
      rw [decode_escape spells]
      exact texts _ judges
  | error offset =>
      rcases judges with ⟨nonempty, -⟩ | ⟨more, rfl, illFormed⟩
      · exact absurd rfl nonempty
      · have decodes (before : Octets) (_ : before <+: rest) :
            decode ([37, high, low] ++ before) = [decoded] ++ decode before :=
          decode_escape spells before
        exact .inr ⟨3 + more, Nat.add_assoc .., illFormed.append decodes texts⟩

/-- An escape after which more is owed. -/
theorem Judges.within {pending rest : Octets} {index began : Nat} {high low decoded : UInt8}
    {answer : Except Nat Unit}
    (judges : Judges (pending ++ [decoded]) rest (index + 3)
      (if pending.isEmpty then index else began) answer)
    (spells : escaped high low = some decoded) :
    Judges pending (37 :: high :: low :: rest) index began answer := by
  cases answer with
  | ok =>
      change IsText (pending ++ decode (37 :: high :: low :: rest))
      rw [decode_escape spells, List.append_cons]
      exact judges
  | error offset =>
      rcases judges with ⟨-, isOffset, begins⟩ | ⟨more, rfl, illFormed⟩
      · rw [← List.append_cons, ← decode_escape spells] at begins
        cases pending with
        | nil =>
            obtain rfl : offset = index := isOffset
            refine .inr ⟨0, rfl, illFormedAt_zero ?_ begins⟩
            rw [escapedOctet, if_pos rfl, spells]
            rfl
        | cons => exact .inl ⟨by simp, isOffset, begins⟩
      · have decodes (before : Octets) (_ : before <+: rest) :
            decode ([37, high, low] ++ before) = [decoded] ++ decode before :=
          decode_escape spells before
        have texts (octets : Octets) (isText : IsText (pending ++ [decoded] ++ octets)) :
            IsText (pending ++ ([decoded] ++ octets)) := by
          rwa [← List.append_assoc]
        exact .inr ⟨3 + more, Nat.add_assoc .., illFormed.append decodes texts⟩

/-- An escape whose octet no character goes on with. -/
theorem judges_of_outside {pending rest : Octets} {index began : Nat} {high low decoded : UInt8}
    (begun : Begun pending) (spells : escaped high low = some decoded)
    (outside : owedAfter (pending ++ [decoded]) = none) :
    Judges pending (37 :: high :: low :: rest) index began
      (.error (if pending.isEmpty then index else began)) := by
  have begins : BeginsNone (pending ++ decoded :: decode rest) := beginsNone_of_outside begun outside
  rw [← decode_escape spells] at begins
  cases pending with
  | nil =>
      refine .inr ⟨0, rfl, illFormedAt_zero ?_ begins⟩
      rw [escapedOctet, if_pos rfl, spells]
      rfl
  | cons => exact .inl ⟨by simp, rfl, begins⟩

/-- No escape where more is owed. -/
theorem judges_of_pending {pending : Octets} {text : Text} {index began : Nat} (begun : Begun pending)
    (holds : pending ≠ []) (stray : escapedOctet text.toOctets = none) :
    Judges pending text.toOctets index began (.error began) := by
  refine .inl ⟨holds, rfl, ?_⟩
  obtain ⟨span, owed, isOwed⟩ := begun.resolve_left holds
  cases text with
  | nil =>
      rw [toOctets_nil, decode, List.append_nil]
      exact beginsNone_of_owed isOwed
  | cons character rest =>
      cases encoding : String.utf8EncodeChar character with
      | nil => exact absurd encoding (utf8EncodeChar_ne_nil character)
      | cons first others =>
          rw [toOctets_cons, encoding, List.cons_append] at stray ⊢
          rw [decode_cons_of_stray stray]
          exact beginsNone_of_outside begun (owedAfter_concat_of_first isOwed encoding)

theorem ne_percent_of_mem {character : Char} (other : character ≠ '%') :
    ∀ octet ∈ String.utf8EncodeChar character, octet ≠ 37 := by
  rintro octet member rfl
  have single := utf8EncodeChar_eq_singleton (by decide) member
  have isOne : String.utf8EncodeChar '%' = [37] := by decide
  have same : String.utf8EncodeChar character ++ [] = String.utf8EncodeChar '%' ++ [] := by
    rw [single, isOne]
  exact other (utf8EncodeChar_append_inj same).1

/-- The check of a text, whatever was held before it. By induction on the text,
an escape or a character at a time. -/
theorem judges_checkFrom {pending : Octets} (begun : Begun pending) (text : Text)
    (index began : Nat) :
    Judges pending text.toOctets index began (checkFrom index began pending text.toOctets) := by
  induction length : text.length using Nat.strong_induction_on
    generalizing text pending index began with
  | _ total ih =>
      cases escape : escapedOctet text.toOctets with
      | some decoded =>
          obtain ⟨high, low, after, same, spells, shorter⟩ := exists_of_escape escape
          rw [same]
          cases owed : owedAfter (pending ++ [decoded]) with
          | none =>
              rw [checkFrom_of_outside spells _ begun owed]
              exact judges_of_outside begun spells owed
          | some left =>
              cases left with
              | nil =>
                  obtain ⟨anew, isAnswer⟩ : ∃ anew, checkFrom index began pending
                      (37 :: high :: low :: Text.toOctets after) =
                        checkFrom (index + 3) anew [] (Text.toOctets after) :=
                    exists_checkFrom_of_whole spells _ begun owed
                  rw [isAnswer]
                  exact (ih _ (length ▸ shorter) (.inl rfl) after _ _ rfl).whole spells owed
              | cons span left =>
                  rw [checkFrom_of_within spells _ begun owed]
                  exact (ih _ (length ▸ shorter) (.inr ⟨_, _, owed⟩) after _ _ rfl).within spells
      | none =>
          by_cases holds : pending = []
          · subst holds
            cases text with
            | nil => exact ⟨[], rfl⟩
            | cons character rest =>
                have shorter : rest.length < total := by
                  rw [← length, List.length_cons]
                  omega
                rw [toOctets_cons] at escape ⊢
                by_cases isPercent : character = '%'
                · subst isPercent
                  have isOne : String.utf8EncodeChar '%' = [37] := by decide
                  rw [isOne, List.singleton_append] at escape
                  rw [isOne, List.singleton_append, checkFrom_cons_of_stray escape]
                  have decodes (before : Octets) (starts : before <+: Text.toOctets rest) :
                      decode ([37] ++ before) = [37] ++ decode before :=
                    decode_cons_of_stray (stray_of_isPrefix starts escape)
                  have isText : IsText [37] := ⟨['%'], isOne⟩
                  exact (ih _ shorter (.inl rfl) rest _ _ rfl).append isText decodes
                · have literal := ne_percent_of_mem isPercent
                  rw [checkFrom_append_of_literal literal]
                  have decodes (before : Octets) (_ : before <+: Text.toOctets rest) :
                      decode (String.utf8EncodeChar character ++ before) =
                        String.utf8EncodeChar character ++ decode before :=
                    decode_append_of_literal literal before
                  have isText : IsText (String.utf8EncodeChar character) :=
                    ⟨[character], by rw [toOctets_cons, toOctets_nil, List.append_nil]⟩
                  exact (ih _ shorter (.inl rfl) rest _ _ rfl).append isText decodes
          · rw [checkFrom_of_pending holds escape]
            exact judges_of_pending begun holds escape

/-! ## Halves of pairs -/

theorem escapedOctet_of_notDigit {first octet : UInt8} (notDigit : hexValue octet = none)
    (after : Octets) : escapedOctet (first :: octet :: after) = none := by
  cases after with
  | nil => rfl
  | cons low after =>
      rw [escapedOctet, escaped, notDigit, Option.bind_none, ite_self]

/-- No escape goes past an octet that is neither `%` nor a digit. -/
theorem decode_append_cons {octet : UInt8} (literal : octet ≠ 37) (notDigit : hexValue octet = none)
    (before after : Octets) :
    decode (before ++ octet :: after) = decode before ++ octet :: decode after := by
  fun_induction decode before with
  | case1 => exact decode_cons_of_ne literal after
  | case2 first =>
      rw [List.singleton_append, decode_cons_of_stray (escapedOctet_of_notDigit notDigit after),
        decode_cons_of_ne literal]
      rfl
  | case3 first second =>
      have unspelled : escaped second octet = none := by
        rw [escaped, notDigit]
        exact Option.bind_eq_none_iff.mpr fun _ _ => rfl
      have stray : escapedOctet (first :: second :: octet :: after) = none := by
        rw [escapedOctet, unspelled, ite_self]
      rw [List.cons_append, List.singleton_append, decode_cons_of_stray stray,
        decode_cons_of_stray (escapedOctet_of_notDigit notDigit after), decode_cons_of_ne literal]
      rfl
  | case4 high low rest decoded spells ih =>
      rw [List.cons_append, List.cons_append, List.cons_append, decode_escape spells, ih,
        List.cons_append]
  | case5 high low rest unspelled ih =>
      have stray : escapedOctet (37 :: (high :: low :: rest ++ octet :: after)) = none := by
        rw [List.cons_append, List.cons_append, escapedOctet, unspelled, ite_self]
      rw [List.cons_append, decode_cons_of_stray stray, ih, List.cons_append]
  | case6 first high low rest notPercent ih =>
      rw [List.cons_append, decode_cons_of_ne notPercent, ih, List.cons_append]

/-- What decodes to text. -/
def Decodes (raw : Text) : Prop :=
  IsText (decode raw.toOctets)

/-- A character of ASCII that is in no escape. -/
def Separates (separator : Char) : Prop :=
  ∃ octet, String.utf8EncodeChar separator = [octet] ∧ octet.toNat < 128 ∧ octet ≠ 37 ∧
    hexValue octet = none

theorem decodes_nil : Decodes [] :=
  ⟨[], rfl⟩

theorem decodes_append_cons_iff {separator : Char} (separates : Separates separator)
    {before after : Text} :
    Decodes (before ++ separator :: after) ↔ Decodes before ∧ Decodes after := by
  obtain ⟨octet, encodes, ascii, literal, notDigit⟩ := separates
  rw [Decodes, toOctets_append, toOctets_cons, encodes, List.singleton_append,
    decode_append_cons literal notDigit]
  exact isText_append_cons_iff ascii

theorem decodes_iff_splitOn {separator : Char} (separates : Separates separator) {raw : Text} :
    Decodes raw ↔ ∀ part ∈ raw.splitOn separator, Decodes part := by
  induction length : raw.length using Nat.strong_induction_on generalizing raw with
  | _ total ih =>
      by_cases member : separator ∈ raw
      · obtain ⟨before, after, rfl⟩ := List.append_of_mem member
        rw [List.length_append, List.length_cons] at length
        rw [decodes_append_cons_iff separates, List.splitOn_append_cons_self, List.forall_mem_append,
          ih before.length (by omega) rfl, ih after.length (by omega) rfl]
      · rw [List.splitOn_eq_singleton member, List.forall_mem_singleton]

/-- A space in a character's place, where both divide. -/
theorem decodes_map_iff {separator space : Char} (separates : Separates separator)
    (spaces : Separates space) {raw : Text} :
    Decodes (raw.map fun character => if character = separator then space else character) ↔
      Decodes raw := by
  induction length : raw.length using Nat.strong_induction_on generalizing raw with
  | _ total ih =>
      by_cases member : separator ∈ raw
      · obtain ⟨before, after, rfl⟩ := List.append_of_mem member
        rw [List.length_append, List.length_cons] at length
        rw [List.map_append, List.map_cons, if_pos rfl, decodes_append_cons_iff spaces,
          decodes_append_cons_iff separates, ih before.length (by omega) rfl,
          ih after.length (by omega) rfl]
      · have same : (raw.map fun character => if character = separator then space else character) =
            raw.map id := by
          refine List.map_congr_left fun character inRaw => if_neg ?_
          rintro rfl
          exact member inRaw
        rw [same, List.map_id]

theorem isText_decodeQueryComponent_iff {raw : Text} :
    IsText (decodeQueryComponent raw) ↔ Decodes raw :=
  decodes_map_iff ⟨43, by decide⟩ ⟨32, by decide⟩

/-- The halves of a pair decode to text where the pair does. -/
theorem isText_halves_iff (pair : Text) :
    (IsText (decodeQueryComponent ((splitOnce '=' pair).getD (pair, [])).1) ∧
      IsText (decodeQueryComponent ((splitOnce '=' pair).getD (pair, [])).2)) ↔ Decodes pair := by
  rw [isText_decodeQueryComponent_iff, isText_decodeQueryComponent_iff]
  cases split : splitOnce '=' pair with
  | none => exact and_iff_left decodes_nil
  | some halves =>
      obtain ⟨-, rfl⟩ := splitOnce_eq_some_iff.mp split
      exact (decodes_append_cons_iff ⟨61, by decide⟩).symm

/-- The halves of the pairs decode to text where the query does. -/
theorem isText_queryPairs_iff (text : Text) :
    (∀ pair ∈ queryPairs (some text), IsText pair.1 ∧ IsText pair.2) ↔ Decodes text := by
  have separates : Separates '&' := ⟨38, by decide⟩
  rw [decodes_iff_splitOn separates]
  simp only [queryPairs, queryNames, List.forall_mem_map, Option.getD_some, isText_halves_iff]
  constructor
  · intro decodes part member
    by_cases nonempty : part = []
    · rw [nonempty]
      exact decodes_nil
    · exact decodes part (List.mem_filter.mpr ⟨member, by simpa using nonempty⟩)
  · exact fun decodes part member => decodes part (List.mem_of_mem_filter member)

theorem isSome_fromUtf8_iff {octets : Octets} : (octets.fromUtf8).isSome ↔ IsText octets := by
  rw [Option.isSome_iff_exists]
  exact exists_congr fun text => fromUtf8_eq_some_iff.trans eq_comm

/-! ## The check -/

theorem not_isText_of_illFormedAt {octets : Octets} {offset : Nat}
    (illFormed : IllFormedAt [] octets offset) : ¬ IsText (decode octets) := by
  obtain ⟨before, after, -, -, isEscape, divides, isText, begins⟩ := illFormed
  obtain ⟨decoded, isDecoded⟩ := Option.isSome_iff_exists.mp isEscape
  obtain ⟨high, low, rest, rfl, spells⟩ := exists_of_escapedOctet isDecoded
  rw [divides]
  refine not_isText_append isText ?_ begins
  rw [decode_escape spells]
  exact List.cons_ne_nil _ _

/-- The check passes exactly the texts every half of every pair of which is UTF-8,
and otherwise names the escape that begins the first ill-formed sequence. -/
theorem checkPercentDecodedUtf8_exact (text : Text) :
    (checkPercentDecodedUtf8 text = .ok () ↔
      ∀ pair ∈ queryPairs (some text), pair.1.fromUtf8.isSome ∧ pair.2.fromUtf8.isSome) ∧
    ∀ offset, checkPercentDecodedUtf8 text = .error offset → IllFormedAt [] text.toOctets offset := by
  have judges : Judges [] text.toOctets 0 0 (checkPercentDecodedUtf8 text) :=
    judges_checkFrom (.inl rfl) text 0 0
  simp only [isSome_fromUtf8_iff]
  rw [isText_queryPairs_iff]
  cases answer : checkPercentDecodedUtf8 text with
  | ok =>
      rw [answer] at judges
      exact ⟨iff_of_true rfl judges, nofun⟩
  | error offset =>
      rw [answer] at judges
      obtain ⟨more, isOffset, illFormed⟩ := judges.resolve_left fun held => held.1 rfl
      rw [Nat.zero_add] at isOffset
      subst isOffset
      refine ⟨iff_of_false nofun (not_isText_of_illFormedAt illFormed), ?_⟩
      rintro other isOther
      obtain rfl := Except.error.inj isOther
      exact illFormed

end Kynos.Uri
