import Kynos.Numeral.Unsigned
import Kynos.Security.Base64
import Kynos.Text.Percent
import Kynos.Word.Split

/-!
# Reading a basic credential

The `Authorization` field is a scheme and what follows its spaces. A basic
credential has one spelling: the scheme in any case, and the canonical encoding
of the user-id, a colon and the password.
-/

namespace Kynos.Security

open Kynos.Http Kynos.Numeral Kynos.Word

/-- `AuthRejection`. -/
inductive AuthRejection where
  | unauthenticated (challenge : Option Text)
  | forbidden (typeUri challenge : Option Text)
  | unavailable (retryAfter : Option Duration)
  deriving DecidableEq, Repr

/-- `AuthRejection::unauthenticated`. -/
def AuthRejection.unchallenged : AuthRejection :=
  .unauthenticated none

/-- `Credentials`. -/
structure Credentials where
  username : Text
  password : Text
  deriving DecidableEq, Repr

/-! ## The field -/

/-- The name of the field. -/
def authorizationName : Text :=
  "authorization".toList

/-- `Authorization`: the two halves of the field's value. -/
structure Authorization where
  scheme : Text
  credentials : Text
  deriving DecidableEq, Repr

/-- `authorization`: the request's one field, where it has any. -/
def authorization (headers : HeaderMap) : Except AuthRejection (Option Authorization) :=
  match headers.getAll authorizationName with
  | [] => .ok none
  | [field] =>
      match field.toStr with
      | none => .error .unchallenged
      | some value =>
          let (scheme, credentials) := (splitOnce ' ' value).getD (value, [])
          if scheme.isEmpty then
            .error .unchallenged
          else
            .ok (some ⟨scheme, credentials.dropWhile (· == ' ')⟩)
  | _ :: _ :: _ => .error .unchallenged

/-- `scheme_is`. -/
def schemeIs (presented expected : Text) : Bool :=
  Text.eqIgnoreAsciiCase presented expected

/-- `basic`. -/
def basic (headers : HeaderMap) : Except AuthRejection (Option Credentials) :=
  match authorization headers with
  | .error rejection => .error rejection
  | .ok none => .ok none
  | .ok (some authorization) =>
      if schemeIs authorization.scheme "basic".toList then
        match (Base64.decode authorization.credentials).bind Octets.fromUtf8 with
        | none => .error .unchallenged
        | some text =>
            match splitOnce ':' text with
            | none => .error .unchallenged
            | some (username, password) => .ok (some ⟨username, password⟩)
      else
        .error .unchallenged

/-! ## What is read -/

theorem splitOnce_getD (value : Text) :
    ∃ scheme rest, (splitOnce ' ' value).getD (value, []) = (scheme, rest) ∧ ' ' ∉ scheme ∧
      (value = scheme ++ ' ' :: rest ∨ (value = scheme ∧ rest = [])) := by
  cases split : splitOnce ' ' value with
  | none => exact ⟨value, [], rfl, splitOnce_eq_none_iff.mp split, .inr ⟨rfl, rfl⟩⟩
  | some halves =>
      obtain ⟨notMem, isValue⟩ := splitOnce_eq_some_iff.mp split
      exact ⟨halves.1, halves.2, rfl, notMem, .inl isValue⟩

/-- Spaces, and what they are dropped before. -/
theorem dropWhile_spaces (rest : Text) :
    ∃ spaces, rest = List.replicate spaces ' ' ++ rest.dropWhile (· == ' ') := by
  refine ⟨(rest.takeWhile (· == ' ')).length, ?_⟩
  rw [← List.eq_replicate_of_mem fun character member => by simpa using List.mem_takeWhile_imp member]
  exact (List.takeWhile_append_dropWhile).symm

theorem authorization_eq_ok_some {headers : HeaderMap} {read : Authorization}
    (reads : authorization headers = .ok (some read)) :
    ∃ value text, headers.getAll authorizationName = [value] ∧ value.toStr = some text ∧
      (text = read.scheme ∧ read.credentials = [] ∨
        ∃ spaces, text = read.scheme ++ ' ' :: (List.replicate spaces ' ' ++ read.credentials)) := by
  unfold authorization at reads
  split at reads
  · cases reads
  · next value single =>
      split at reads
      · cases reads
      · next text isText =>
          obtain ⟨scheme, rest, halves, -, isValue⟩ := splitOnce_getD text
          rw [halves] at reads
          simp only at reads
          split at reads
          · cases reads
          · cases reads
            refine ⟨value, text, single, isText, ?_⟩
            rcases isValue with isValue | ⟨isValue, rfl⟩
            · obtain ⟨spaces, isRest⟩ := dropWhile_spaces rest
              exact .inr ⟨spaces, by rw [isValue, ← isRest]⟩
            · exact .inl ⟨isValue, rfl⟩
  · cases reads

theorem authorization_of_field {headers : HeaderMap} {value : HeaderValue}
    {scheme credentials : Text} {spaces : Nat}
    (single : headers.getAll authorizationName = [value]) (named : scheme ≠ []) (solid : ' ' ∉ scheme)
    (starts : credentials.head? ≠ some ' ')
    (isText : value.toStr = some (scheme ++ ' ' :: (List.replicate spaces ' ' ++ credentials))) :
    authorization headers = .ok (some ⟨scheme, credentials⟩) := by
  have halves : splitOnce ' ' (scheme ++ ' ' :: (List.replicate spaces ' ' ++ credentials)) =
      some (scheme, List.replicate spaces ' ' ++ credentials) :=
    splitOnce_eq_some_iff.mpr ⟨solid, rfl⟩
  have dropped : (List.replicate spaces ' ' ++ credentials).dropWhile (· == ' ') = credentials := by
    rw [List.dropWhile_append_of_pos fun character member => by
      simpa using (List.mem_replicate.mp member).2]
    cases credentials with
    | nil => rfl
    | cons first rest => rw [List.dropWhile_cons_of_neg (by simpa using starts)]
  rw [authorization, single]
  simp only [isText, halves, Option.getD_some, List.isEmpty_iff, if_neg named, dropped]

/-! ## Basic credentials -/

/-- A scheme that is read as `basic` is ASCII letters. -/
theorem of_schemeIs_basic {scheme : Text} (isBasic : schemeIs scheme "basic".toList = true) :
    scheme ≠ [] ∧ ∀ character ∈ scheme, 65 ≤ character.toNat ∧ character.toNat ≤ 122 := by
  have lowered : scheme.map Text.toAsciiLower = "basic".toList := by
    simpa [schemeIs, Text.eqIgnoreAsciiCase, Text.toAsciiLowercase, Text.toAsciiLower] using isBasic
  constructor
  · rintro rfl
    cases lowered
  · intro character member
    have isLetter : Text.toAsciiLower character ∈ "basic".toList :=
      lowered ▸ List.mem_map_of_mem member
    have letters : ∀ letter ∈ "basic".toList, 97 ≤ letter.toNat ∧ letter.toNat ≤ 122 :=
      fun letter inBasic => by
        have all := List.all_eq_true.mp (show "basic".toList.all fun letter =>
          decide (97 ≤ letter.toNat ∧ letter.toNat ≤ 122) by decide) letter inBasic
        simpa using all
    have bounds := letters _ isLetter
    unfold Text.toAsciiLower at bounds
    split at bounds
    · next upper =>
        have low : 'A'.toNat ≤ character.toNat := upper.1
        have high : character.toNat ≤ 'Z'.toNat := upper.2
        have capitalA : 'A'.toNat = 65 := rfl
        have capitalZ : 'Z'.toNat = 90 := rfl
        omega
    · omega

theorem isTextCharacter_letter {value : Nat} (small : value < 64) :
    HeaderValue.IsTextCharacter (Base64.letter value) ∧ Base64.letter value ≠ ' ' := by
  have all : ∀ value : Fin 64, HeaderValue.IsTextCharacter (Base64.letter value) ∧
      Base64.letter value ≠ ' ' := by
    decide +kernel
  exact all ⟨value, small⟩

/-- An encoding is text characters without a space. -/
theorem isTextCharacter_encode (octets : Octets) :
    ∀ character ∈ Base64.encode octets,
      HeaderValue.IsTextCharacter character ∧ character ≠ ' ' := by
  have padding : HeaderValue.IsTextCharacter '=' ∧ '=' ≠ ' ' := by decide
  match octets with
  | [] => simp [Base64.encode]
  | [first] =>
      have firstLt := first.toNat_lt
      simp only [Base64.encode, List.forall_mem_cons]
      exact ⟨isTextCharacter_letter (by omega), isTextCharacter_letter (by omega), padding, padding,
        by simp⟩
  | [first, second] =>
      have firstLt := first.toNat_lt
      have secondLt := second.toNat_lt
      simp only [Base64.encode, List.forall_mem_cons]
      exact ⟨isTextCharacter_letter (by omega), isTextCharacter_letter (by omega),
        isTextCharacter_letter (by omega), padding, by simp⟩
  | first :: second :: third :: rest =>
      have firstLt := first.toNat_lt
      have secondLt := second.toNat_lt
      have thirdLt := third.toNat_lt
      simp only [Base64.encode, List.forall_mem_cons]
      exact ⟨isTextCharacter_letter (by omega), isTextCharacter_letter (by omega),
        isTextCharacter_letter (by omega), isTextCharacter_letter (by omega),
        isTextCharacter_encode rest⟩

/-- The text a basic credential encodes. -/
def pair (username password : Text) : Octets :=
  Text.toOctets (username ++ ':' :: password)

/-- The request has one `Authorization` field: the scheme in any case, spaces,
and the canonical encoding of the pair. -/
def CarriesBasic (headers : HeaderMap) (username password : Text) : Prop :=
  ∃ value scheme spaces, headers.getAll authorizationName = [value] ∧
    schemeIs scheme "basic".toList = true ∧
    value.octets = Text.toOctets (scheme ++ ' ' ::
      (List.replicate spaces ' ' ++ Base64.encode (pair username password))) ∧
    ':' ∉ username

theorem encode_pair_ne_nil (username password : Text) :
    Base64.encode (pair username password) ≠ [] := by
  intro empty
  have none := Base64.decode_eq_some_iff.mpr empty.symm
  have nothing : Base64.decode [] = some [] := rfl
  rw [nothing, Option.some.injEq, pair] at none
  have colon : Text.toOctets [] = Text.toOctets (username ++ ':' :: password) := none
  simpa using Text.toOctets_injective colon

theorem basic_eq_ok_some_iff {headers : HeaderMap} {username password : Text} :
    basic headers = .ok (some ⟨username, password⟩) ↔ CarriesBasic headers username password := by
  constructor
  · intro reads
    unfold basic at reads
    split at reads
    · cases reads
    · cases reads
    · next read isRead =>
        obtain ⟨value, text, single, isText, split⟩ := authorization_eq_ok_some isRead
        split at reads
        · next isBasic =>
            split at reads
            · cases reads
            · next credential decodes =>
                split at reads
                · cases reads
                · next halves =>
                    cases reads
                    obtain ⟨octets, decoded, isCredential⟩ := Option.bind_eq_some_iff.mp decodes
                    obtain ⟨notMem, rfl⟩ := splitOnce_eq_some_iff.mp halves
                    rw [Text.fromUtf8_eq_some_iff] at isCredential
                    subst isCredential
                    have encoded := Base64.decode_eq_some_iff.mp decoded
                    rcases split with ⟨-, empty⟩ | ⟨spaces, isValue⟩
                    · exact absurd (encoded.symm.trans empty) (encode_pair_ne_nil _ _)
                    · refine ⟨value, read.scheme, spaces, single, isBasic, ?_, notMem⟩
                      rw [(HeaderValue.toStr_eq_some_iff.mp isText).1, isValue, encoded]
                      rfl
        · cases reads
  · rintro ⟨value, scheme, spaces, single, isBasic, octets, notMem⟩
    obtain ⟨named, letters⟩ := of_schemeIs_basic isBasic
    have spelled := isTextCharacter_encode (pair username password)
    have isText : value.toStr = some (scheme ++ ' ' ::
        (List.replicate spaces ' ' ++ Base64.encode (pair username password))) := by
      refine HeaderValue.toStr_eq_some_iff.mpr ⟨octets, fun character member => ?_⟩
      rcases List.mem_append.mp member with inScheme | afterScheme
      · exact .inl (by have := letters character inScheme; omega)
      rcases List.mem_cons.mp afterScheme with rfl | inRest
      · decide
      rcases List.mem_append.mp inRest with isSpace | inEncoding
      · rw [(List.mem_replicate.mp isSpace).2]
        decide
      · exact (spelled character inEncoding).1
    have solid : ' ' ∉ scheme := fun member => by
      have bounds := letters _ member
      exact absurd bounds.1 (by decide)
    have starts : (Base64.encode (pair username password)).head? ≠ some ' ' := fun isSpace =>
      (spelled ' ' (List.mem_of_head? isSpace)).2 rfl
    have decodes : (Base64.decode (Base64.encode (pair username password))).bind Octets.fromUtf8 =
        some (username ++ ':' :: password) := by
      rw [Base64.decode_eq_some_iff.mpr rfl, Option.bind_some]
      exact Text.fromUtf8_toOctets _
    have halves : splitOnce ':' (username ++ ':' :: password) = some (username, password) :=
      splitOnce_eq_some_iff.mpr ⟨notMem, rfl⟩
    rw [basic, authorization_of_field single named solid starts isText]
    simp only [isBasic, if_true, decodes, halves]

/-- Base64 has one spelling, and so has a basic credential. -/
theorem basic_has_one_spelling :
    (∀ (input : Text) (octets : Octets),
      Base64.decode input = some octets ↔ input = Base64.encode octets) ∧
    ∀ (headers : HeaderMap) (username password : Text),
      basic headers = .ok (some ⟨username, password⟩) ↔ CarriesBasic headers username password :=
  ⟨fun _ _ => Base64.decode_eq_some_iff, fun _ _ _ => basic_eq_ok_some_iff⟩

end Kynos.Security
