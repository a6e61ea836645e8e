import Kynos.Text.Utf8

/-!
# Base64

`security/carrier/base64.rs`: standard, padded base64, decoded strictly. The
encoding of RFC 4648, section 4 stands beside it.
-/

namespace Kynos.Security.Base64

open Kynos.Http

/-! ## Decoding -/

/-- The value of one alphabet character. -/
def sextet (byte : UInt8) : Option Nat :=
  if 65 ≤ byte.toNat ∧ byte.toNat ≤ 90 then some (byte.toNat - 65)
  else if 97 ≤ byte.toNat ∧ byte.toNat ≤ 122 then some (byte.toNat - 97 + 26)
  else if 48 ≤ byte.toNat ∧ byte.toNat ≤ 57 then some (byte.toNat - 48 + 52)
  else if byte = 43 then some 62
  else if byte = 47 then some 63
  else none

/-- The padding character. -/
def pad : UInt8 := 61

/-- A chunk up to its padding: the bits accumulated, and how many are held. -/
def readChunk (accumulated held : Nat) : Octets → Option (Nat × Nat)
  | [] => some (accumulated, held)
  | byte :: rest =>
      if byte = pad then
        some (accumulated, held)
      else
        (sextet byte).bind fun value =>
          readChunk (accumulated <<< 6 ||| value) (held + 6) rest

/-- The whole octets of the bits held, unless a bit past them is set. -/
def wholeOctets (accumulated held : Nat) : Option Octets :=
  let whole := held / 8
  let leftover := held % 8
  if leftover ≠ 0 ∧ accumulated &&& (1 <<< leftover - 1) ≠ 0 then
    none
  else
    let accumulated := accumulated >>> leftover
    some ((List.range whole).reverse.map fun index =>
      UInt8.ofNat ((accumulated >>> (index * 8)) &&& 0xff))

def decodeChunk (chunk : Octets) : Option Octets :=
  (readChunk 0 0 chunk).bind fun (accumulated, held) => wholeOctets accumulated held

/-- The chunks of four octets, each decoded. -/
def decodeChunks : Octets → Option Octets
  | [] => some []
  | first :: second :: third :: fourth :: rest =>
      (decodeChunk [first, second, third, fourth]).bind fun octets =>
        (decodeChunks rest).map (octets ++ ·)
  | chunk => decodeChunk chunk

/-- `decode`. -/
def decode (input : Text) : Option Octets :=
  let bytes := input.toOctets
  if bytes.isEmpty then
    some []
  else if bytes.length % 4 ≠ 0 then
    none
  else
    let padding := (bytes.reverse.takeWhile (· == pad)).length
    if 2 < padding then
      none
    else if (bytes.take (bytes.length - padding)).contains pad then
      none
    else
      decodeChunks bytes

/-! ## Encoding -/

/-- The alphabet. -/
def alphabet : List Char :=
  "ABCDEFGHIJKLMNOPQRSTUVWXYZabcdefghijklmnopqrstuvwxyz0123456789+/".toList

/-- The character of a value. -/
def letter (value : Nat) : Char :=
  alphabet.getD value '='

/-- The encoding of octets: groups of three as four characters, and what is left
as two or three characters and padding. -/
def encode : Octets → Text
  | [] => []
  | [first] =>
      let bits := first.toNat * 16
      [letter (bits / 64), letter (bits % 64), '=', '=']
  | [first, second] =>
      let bits := (first.toNat * 256 + second.toNat) * 4
      [letter (bits / 4096), letter (bits / 64 % 64), letter (bits % 64), '=']
  | first :: second :: third :: rest =>
      let bits := (first.toNat * 256 + second.toNat) * 256 + third.toNat
      letter (bits / 262144) :: letter (bits / 4096 % 64) :: letter (bits / 64 % 64) ::
        letter (bits % 64) :: encode rest

/-! ## The alphabet -/

/-- The octet of a value's character. -/
def letterOctet (value : Nat) : UInt8 :=
  UInt8.ofNat (letter value).toNat

theorem sextet_letterOctet {value : Nat} (small : value < 64) :
    sextet (letterOctet value) = some value ∧ letterOctet value ≠ pad ∧
      String.utf8EncodeChar (letter value) = [letterOctet value] := by
  have all : ∀ value : Fin 64, sextet (letterOctet value) = some value.val ∧
      letterOctet value ≠ pad ∧ (letter value).toNat < 128 := by
    decide +kernel
  obtain ⟨valued, notPad, ascii⟩ := all ⟨value, small⟩
  exact ⟨valued, notPad, Text.utf8EncodeChar_of_ascii ascii⟩

theorem of_sextet_eq_some {byte : UInt8} {value : Nat} (valued : sextet byte = some value) :
    value < 64 ∧ byte = letterOctet value := by
  have all : ∀ number : Fin 256, ∀ value ∈ sextet (UInt8.ofNat number),
      value < 64 ∧ UInt8.ofNat number = letterOctet value := by
    decide +kernel
  have found := all ⟨byte.toNat, byte.toNat_lt⟩ value (by rw [UInt8.ofNat_toNat]; exact valued)
  rwa [UInt8.ofNat_toNat] at found

/-! ## One chunk -/

theorem shiftLeft_or {accumulated value : Nat} (small : value < 64) :
    accumulated <<< 6 ||| value = accumulated * 64 + value := by
  rw [← Nat.shiftLeft_add_eq_or_of_lt (show value < 2 ^ 6 from small), Nat.shiftLeft_eq]

theorem readChunk_letterOctet {accumulated held value : Nat} (small : value < 64) (rest : Octets) :
    readChunk accumulated held (letterOctet value :: rest) =
      readChunk (accumulated * 64 + value) (held + 6) rest := by
  obtain ⟨valued, notPad, -⟩ := sextet_letterOctet small
  rw [readChunk, if_neg notPad, valued, Option.bind_some, shiftLeft_or small]

theorem readChunk_pad (accumulated held : Nat) (rest : Octets) :
    readChunk accumulated held (pad :: rest) = some (accumulated, held) := by
  rw [readChunk, if_pos rfl]

/-- A character that is read is the letter of a value. -/
theorem exists_of_readChunk {accumulated held : Nat} {byte : UInt8} {rest : Octets}
    {read : Nat × Nat} (notPad : byte ≠ pad)
    (reads : readChunk accumulated held (byte :: rest) = some read) :
    ∃ value, value < 64 ∧ byte = letterOctet value := by
  rw [readChunk, if_neg notPad, Option.bind_eq_some_iff] at reads
  obtain ⟨value, valued, -⟩ := reads
  exact ⟨value, of_sextet_eq_some valued⟩

theorem ofNat_and (value : Nat) : UInt8.ofNat (value &&& 0xff) = UInt8.ofNat value := by
  rw [← UInt8.toNat_inj, UInt8.toNat_ofNat', UInt8.toNat_ofNat',
    show (0xff : Nat) = 2 ^ 8 - 1 from rfl, Nat.and_two_pow_sub_one_eq_mod, Nat.mod_mod]

theorem wholeOctets_three (accumulated : Nat) : wholeOctets accumulated 24 =
    some [UInt8.ofNat (accumulated / 65536), UInt8.ofNat (accumulated / 256),
      UInt8.ofNat accumulated] := by
  simp only [wholeOctets, ofNat_and]
  simp [List.range_succ, Nat.shiftRight_eq_div_pow]

theorem wholeOctets_two (accumulated : Nat) : wholeOctets accumulated 18 =
    if accumulated % 4 ≠ 0 then none
    else some [UInt8.ofNat (accumulated / 4 / 256), UInt8.ofNat (accumulated / 4)] := by
  have bits : accumulated &&& (1 <<< (18 % 8) - 1) = accumulated % 4 :=
    Nat.and_two_pow_sub_one_eq_mod accumulated 2
  simp only [wholeOctets, ofNat_and, bits]
  simp [List.range_succ, Nat.shiftRight_eq_div_pow]

theorem wholeOctets_one (accumulated : Nat) : wholeOctets accumulated 12 =
    if accumulated % 16 ≠ 0 then none else some [UInt8.ofNat (accumulated / 16)] := by
  have bits : accumulated &&& (1 <<< (12 % 8) - 1) = accumulated % 16 :=
    Nat.and_two_pow_sub_one_eq_mod accumulated 4
  simp only [wholeOctets, ofNat_and, bits]
  simp [List.range_succ, Nat.shiftRight_eq_div_pow]

theorem toOctets_letter {value : Nat} (small : value < 64) (rest : Text) :
    Text.toOctets (letter value :: rest) = letterOctet value :: rest.toOctets := by
  rw [Text.toOctets_cons, (sextet_letterOctet small).2.2]
  rfl

theorem toOctets_pad (rest : Text) : Text.toOctets ('=' :: rest) = pad :: rest.toOctets := by
  rw [Text.toOctets_cons, Text.utf8EncodeChar_of_ascii (by decide)]
  rfl

/-- The values of the four characters of three octets. -/
theorem toOctets_encode_three (first second third : UInt8) (rest : Octets) :
    let bits := (first.toNat * 256 + second.toNat) * 256 + third.toNat
    (encode (first :: second :: third :: rest)).toOctets =
      letterOctet (bits / 262144) :: letterOctet (bits / 4096 % 64) ::
        letterOctet (bits / 64 % 64) :: letterOctet (bits % 64) :: (encode rest).toOctets := by
  have firstLt := first.toNat_lt
  have secondLt := second.toNat_lt
  have thirdLt := third.toNat_lt
  intro bits
  rw [encode, toOctets_letter (by omega), toOctets_letter (by omega), toOctets_letter (by omega),
    toOctets_letter (by omega)]

theorem toOctets_encode_two (first second : UInt8) :
    let bits := (first.toNat * 256 + second.toNat) * 4
    (encode [first, second]).toOctets =
      [letterOctet (bits / 4096), letterOctet (bits / 64 % 64), letterOctet (bits % 64), pad] := by
  have firstLt := first.toNat_lt
  have secondLt := second.toNat_lt
  intro bits
  rw [encode, toOctets_letter (by omega), toOctets_letter (by omega), toOctets_letter (by omega),
    toOctets_pad]
  rfl

theorem toOctets_encode_one (first : UInt8) :
    let bits := first.toNat * 16
    (encode [first]).toOctets = [letterOctet (bits / 64), letterOctet (bits % 64), pad, pad] := by
  have firstLt := first.toNat_lt
  intro bits
  rw [encode, toOctets_letter (by omega), toOctets_letter (by omega), toOctets_pad, toOctets_pad]
  rfl

theorem ofNat_eq_iff {number : Nat} {octet : UInt8} :
    UInt8.ofNat number = octet ↔ number % 256 = octet.toNat := by
  rw [← UInt8.toNat_inj, UInt8.toNat_ofNat']

/-- Four characters spell three octets. -/
theorem decodeChunk_four {first second third fourth : UInt8} (firstNot : first ≠ pad)
    (secondNot : second ≠ pad) (thirdNot : third ≠ pad) (fourthNot : fourth ≠ pad)
    {octets : Octets} :
    decodeChunk [first, second, third, fourth] = some octets ↔
      octets.length = 3 ∧ [first, second, third, fourth] = (encode octets).toOctets := by
  constructor
  · intro decodes
    obtain ⟨read, reads, whole⟩ := Option.bind_eq_some_iff.mp decodes
    obtain ⟨one, oneLt, rfl⟩ := exists_of_readChunk firstNot reads
    rw [readChunk_letterOctet oneLt] at reads
    obtain ⟨two, twoLt, rfl⟩ := exists_of_readChunk secondNot reads
    rw [readChunk_letterOctet twoLt] at reads
    obtain ⟨three, threeLt, rfl⟩ := exists_of_readChunk thirdNot reads
    rw [readChunk_letterOctet threeLt] at reads
    obtain ⟨four, fourLt, rfl⟩ := exists_of_readChunk fourthNot reads
    rw [readChunk_letterOctet fourLt, readChunk, Option.some.injEq] at reads
    subst reads
    obtain rfl := Option.some.inj ((wholeOctets_three _).symm.trans whole)
    refine ⟨rfl, ?_⟩
    simp only [toOctets_encode_three, UInt8.toNat_ofNat', Nat.zero_mul, Nat.zero_add]
    congr <;> omega
  · rintro ⟨three, spells⟩
    match octets, three with
    | [one, two, three], _ =>
        have oneLt := one.toNat_lt
        have twoLt := two.toNat_lt
        have threeLt := three.toNat_lt
        rw [spells, toOctets_encode_three, decodeChunk, encode, Text.toOctets_nil,
          readChunk_letterOctet (by omega), readChunk_letterOctet (by omega),
          readChunk_letterOctet (by omega), readChunk_letterOctet (by omega), readChunk,
          Option.bind_some]
        refine (wholeOctets_three _).trans ?_
        simp only [Option.some.injEq, List.cons.injEq, ofNat_eq_iff, and_true]
        omega

/-- Three characters and one of padding spell two octets. -/
theorem decodeChunk_three {first second third : UInt8} (firstNot : first ≠ pad)
    (secondNot : second ≠ pad) (thirdNot : third ≠ pad) {octets : Octets} :
    decodeChunk [first, second, third, pad] = some octets ↔
      octets.length = 2 ∧ [first, second, third, pad] = (encode octets).toOctets := by
  constructor
  · intro decodes
    obtain ⟨read, reads, whole⟩ := Option.bind_eq_some_iff.mp decodes
    obtain ⟨one, oneLt, rfl⟩ := exists_of_readChunk firstNot reads
    rw [readChunk_letterOctet oneLt] at reads
    obtain ⟨two, twoLt, rfl⟩ := exists_of_readChunk secondNot reads
    rw [readChunk_letterOctet twoLt] at reads
    obtain ⟨three, threeLt, rfl⟩ := exists_of_readChunk thirdNot reads
    rw [readChunk_letterOctet threeLt, readChunk_pad, Option.some.injEq] at reads
    subst reads
    have split := (wholeOctets_two _).symm.trans whole
    rw [ite_eq_iff] at split
    rcases split with ⟨-, ⟨⟩⟩ | ⟨none, isOctets⟩
    obtain rfl := Option.some.inj isOctets
    refine ⟨rfl, ?_⟩
    simp only [toOctets_encode_two, UInt8.toNat_ofNat', Nat.zero_mul, Nat.zero_add] at none ⊢
    congr <;> omega
  · rintro ⟨two, spells⟩
    match octets, two with
    | [one, two], _ =>
        have oneLt := one.toNat_lt
        have twoLt := two.toNat_lt
        rw [spells, toOctets_encode_two, decodeChunk, readChunk_letterOctet (by omega),
          readChunk_letterOctet (by omega), readChunk_letterOctet (by omega), readChunk_pad,
          Option.bind_some]
        refine (wholeOctets_two _).trans ?_
        rw [if_neg (by omega)]
        simp only [Option.some.injEq, List.cons.injEq, ofNat_eq_iff, and_true]
        omega

/-- Two characters and two of padding spell one octet. -/
theorem decodeChunk_two {first second : UInt8} (firstNot : first ≠ pad) (secondNot : second ≠ pad)
    {octets : Octets} :
    decodeChunk [first, second, pad, pad] = some octets ↔
      octets.length = 1 ∧ [first, second, pad, pad] = (encode octets).toOctets := by
  constructor
  · intro decodes
    obtain ⟨read, reads, whole⟩ := Option.bind_eq_some_iff.mp decodes
    obtain ⟨one, oneLt, rfl⟩ := exists_of_readChunk firstNot reads
    rw [readChunk_letterOctet oneLt] at reads
    obtain ⟨two, twoLt, rfl⟩ := exists_of_readChunk secondNot reads
    rw [readChunk_letterOctet twoLt, readChunk_pad, Option.some.injEq] at reads
    subst reads
    have split := (wholeOctets_one _).symm.trans whole
    rw [ite_eq_iff] at split
    rcases split with ⟨-, ⟨⟩⟩ | ⟨none, isOctets⟩
    obtain rfl := Option.some.inj isOctets
    refine ⟨rfl, ?_⟩
    simp only [toOctets_encode_one, UInt8.toNat_ofNat', Nat.zero_mul, Nat.zero_add] at none ⊢
    congr <;> omega
  · rintro ⟨one, spells⟩
    match octets, one with
    | [one], _ =>
        have oneLt := one.toNat_lt
        rw [spells, toOctets_encode_one, decodeChunk, readChunk_letterOctet (by omega),
          readChunk_letterOctet (by omega), readChunk_pad, Option.bind_some]
        refine (wholeOctets_one _).trans ?_
        rw [if_neg (by omega)]
        simp only [Option.some.injEq, List.cons.injEq, ofNat_eq_iff, and_true]
        omega

/-! ## All chunks -/

/-- Octets with their padding: a body without any and at most two after it, in
chunks of four. -/
structure Padded (body : Octets) (padding : Nat) : Prop where
  unpadded : pad ∉ body
  few : padding ≤ 2
  chunked : (body.length + padding) % 4 = 0

theorem letterOctet_ne_pad {value : Nat} (small : value < 64) : letterOctet value ≠ pad :=
  (sextet_letterOctet small).2.1

theorem encode_append {octets : Octets} (three : octets.length = 3) (rest : Octets) :
    encode (octets ++ rest) = encode octets ++ encode rest := by
  match octets, three with
  | [first, second, third], _ => rfl

/-- Characters that are not padding spell three octets, and the rest what is
left. -/
theorem exists_of_encode {first second third fourth : UInt8} (thirdNot : third ≠ pad)
    (fourthNot : fourth ≠ pad) {rest octets : Octets}
    (spells : first :: second :: third :: fourth :: rest = (encode octets).toOctets) :
    ∃ group others, octets = group ++ others ∧ group.length = 3 ∧
      [first, second, third, fourth] = (encode group).toOctets ∧
      rest = (encode others).toOctets := by
  match octets with
  | [] => cases spells
  | [one] =>
      rw [toOctets_encode_one] at spells
      simp only [List.cons.injEq] at spells
      exact absurd spells.2.2.1 thirdNot
  | [one, two] =>
      rw [toOctets_encode_two] at spells
      simp only [List.cons.injEq] at spells
      exact absurd spells.2.2.2.1 fourthNot
  | one :: two :: three :: others =>
      refine ⟨[one, two, three], others, rfl, rfl, ?_⟩
      rw [toOctets_encode_three] at spells ⊢
      simp only [List.cons.injEq] at spells ⊢
      obtain ⟨isFirst, isSecond, isThird, isFourth, isRest⟩ := spells
      exact ⟨⟨isFirst, isSecond, isThird, isFourth, rfl⟩, isRest⟩

/-- Only two octets end in one character of padding. -/
theorem length_of_encode_two {first second third : UInt8} (thirdNot : third ≠ pad)
    {octets : Octets} (spells : [first, second, third, pad] = (encode octets).toOctets) :
    octets.length = 2 := by
  match octets with
  | [] => cases spells
  | [one] =>
      rw [toOctets_encode_one] at spells
      simp only [List.cons.injEq] at spells
      exact absurd spells.2.2.1 thirdNot
  | [one, two] => rfl
  | one :: two :: three :: others =>
      rw [toOctets_encode_three] at spells
      simp only [List.cons.injEq] at spells
      exact absurd spells.2.2.2.1.symm (letterOctet_ne_pad (Nat.mod_lt _ (by decide)))

/-- Only one octet ends in two. -/
theorem length_of_encode_one {first second : UInt8} {octets : Octets}
    (spells : [first, second, pad, pad] = (encode octets).toOctets) : octets.length = 1 := by
  match octets with
  | [] => cases spells
  | [one] => rfl
  | [one, two] =>
      rw [toOctets_encode_two] at spells
      simp only [List.cons.injEq] at spells
      exact absurd spells.2.2.1.symm (letterOctet_ne_pad (Nat.mod_lt _ (by decide)))
  | one :: two :: three :: others =>
      rw [toOctets_encode_three] at spells
      simp only [List.cons.injEq] at spells
      exact absurd spells.2.2.1.symm (letterOctet_ne_pad (Nat.mod_lt _ (by decide)))

theorem decodeChunks_four {first second third fourth : UInt8} {rest octets : Octets} :
    decodeChunks (first :: second :: third :: fourth :: rest) = some octets ↔
      ∃ group others, decodeChunk [first, second, third, fourth] = some group ∧
        decodeChunks rest = some others ∧ group ++ others = octets := by
  rw [decodeChunks, Option.bind_eq_some_iff]
  simp only [Option.map_eq_some_iff, exists_and_left]

theorem decodeChunks_last {first second third fourth : UInt8} {octets : Octets} :
    decodeChunks [first, second, third, fourth] = some octets ↔
      decodeChunk [first, second, third, fourth] = some octets := by
  rw [decodeChunks_four]
  constructor
  · rintro ⟨group, others, decodes, ⟨⟩, rfl⟩
    rw [decodes, List.append_nil]
  · exact fun decodes => ⟨octets, [], decodes, rfl, List.append_nil _⟩

/-- Padded chunks are the encoding of what they decode to. -/
theorem decodeChunks_padded {body : Octets} {padding : Nat} (padded : Padded body padding)
    {octets : Octets} :
    decodeChunks (body ++ List.replicate padding pad) = some octets ↔
      body ++ List.replicate padding pad = (encode octets).toOctets := by
  obtain ⟨unpadded, few, chunked⟩ := padded
  match body with
  | [] =>
      obtain rfl : padding = 0 := by
        simp only [List.length_nil] at chunked
        omega
      constructor
      · rintro ⟨⟩
        rfl
      · intro spells
        match octets with
        | [] => rfl
        | [one] =>
            rw [toOctets_encode_one] at spells
            cases spells
        | [one, two] =>
            rw [toOctets_encode_two] at spells
            cases spells
        | one :: two :: three :: others =>
            rw [toOctets_encode_three] at spells
            cases spells
  | [first] =>
      simp only [List.length_cons, List.length_nil] at chunked
      omega
  | [first, second] =>
      obtain rfl : padding = 2 := by
        simp only [List.length_cons, List.length_nil] at chunked
        omega
      simp only [List.mem_cons, List.not_mem_nil, or_false, not_or] at unpadded
      refine decodeChunks_last.trans ((decodeChunk_two (Ne.symm unpadded.1)
        (Ne.symm unpadded.2)).trans ⟨And.right, fun spells => ⟨length_of_encode_one spells, spells⟩⟩)
  | [first, second, third] =>
      obtain rfl : padding = 1 := by
        simp only [List.length_cons, List.length_nil] at chunked
        omega
      simp only [List.mem_cons, List.not_mem_nil, or_false, not_or] at unpadded
      refine decodeChunks_last.trans ((decodeChunk_three (Ne.symm unpadded.1)
        (Ne.symm unpadded.2.1) (Ne.symm unpadded.2.2)).trans ⟨And.right, fun spells =>
          ⟨length_of_encode_two (Ne.symm unpadded.2.2) spells, spells⟩⟩)
  | first :: second :: third :: fourth :: rest =>
      simp only [List.mem_cons, not_or] at unpadded
      obtain ⟨firstNot, secondNot, thirdNot, fourthNot, restNot⟩ := unpadded
      have padded : Padded rest padding := ⟨restNot, few, by
        simp only [List.length_cons] at chunked
        omega⟩
      refine decodeChunks_four.trans ?_
      simp only [decodeChunk_four (Ne.symm firstNot) (Ne.symm secondNot) (Ne.symm thirdNot)
        (Ne.symm fourthNot)]
      constructor
      · rintro ⟨group, others, ⟨three, isGroup⟩, isRest, rfl⟩
        rw [encode_append three, Text.toOctets_append, ← isGroup,
          ← (decodeChunks_padded padded).mp isRest]
        rfl
      · intro spells
        obtain ⟨group, others, rfl, three, isGroup, isRest⟩ :=
          exists_of_encode (Ne.symm thirdNot) (Ne.symm fourthNot) spells
        exact ⟨group, others, ⟨three, isGroup⟩, (decodeChunks_padded padded).mpr isRest, rfl⟩

/-- What is encoded is padded. -/
theorem exists_padded_encode (octets : Octets) :
    ∃ body padding, (encode octets).toOctets = body ++ List.replicate padding pad ∧
      Padded body padding := by
  have notPad : ∀ value, value < 64 → ¬ pad = letterOctet value := fun value small =>
    Ne.symm (letterOctet_ne_pad small)
  match octets with
  | [] => exact ⟨[], 0, rfl, by simp, by decide, by decide⟩
  | [first] =>
      have firstLt := first.toNat_lt
      refine ⟨[letterOctet (first.toNat * 16 / 64), letterOctet (first.toNat * 16 % 64)], 2,
        toOctets_encode_one first, ?_, by decide, by simp⟩
      simp only [List.mem_cons, List.not_mem_nil, or_false, not_or]
      exact ⟨notPad _ (by omega), notPad _ (by omega)⟩
  | [first, second] =>
      have firstLt := first.toNat_lt
      have secondLt := second.toNat_lt
      refine ⟨[letterOctet ((first.toNat * 256 + second.toNat) * 4 / 4096),
        letterOctet ((first.toNat * 256 + second.toNat) * 4 / 64 % 64),
        letterOctet ((first.toNat * 256 + second.toNat) * 4 % 64)], 1,
        toOctets_encode_two first second, ?_, by decide, by simp⟩
      simp only [List.mem_cons, List.not_mem_nil, or_false, not_or]
      exact ⟨notPad _ (by omega), notPad _ (by omega), notPad _ (by omega)⟩
  | first :: second :: third :: rest =>
      have firstLt := first.toNat_lt
      have secondLt := second.toNat_lt
      have thirdLt := third.toNat_lt
      obtain ⟨body, padding, isRest, unpadded, few, chunked⟩ := exists_padded_encode rest
      have encoded := toOctets_encode_three first second third rest
      generalize isBits : (first.toNat * 256 + second.toNat) * 256 + third.toNat = bits at encoded
      rw [isRest] at encoded
      refine ⟨letterOctet (bits / 262144) :: letterOctet (bits / 4096 % 64) ::
        letterOctet (bits / 64 % 64) :: letterOctet (bits % 64) :: body, padding, encoded, ?_, few,
        ?_⟩
      · simp only [List.mem_cons, not_or]
        exact ⟨notPad _ (by omega), notPad _ (by omega), notPad _ (by omega), notPad _ (by omega),
          unpadded⟩
      · simp only [List.length_cons]
        omega

/-! ## Texts -/

/-- Octets are a body and the padding after it. -/
theorem exists_padding (bytes : Octets) :
    ∃ body padding, bytes = body ++ List.replicate padding pad ∧ body.getLast? ≠ some pad := by
  induction bytes using List.reverseRecOn with
  | nil => exact ⟨[], 0, rfl, by simp⟩
  | append_singleton bytes byte ih =>
      by_cases isPad : byte = pad
      · obtain ⟨body, padding, rfl, ends⟩ := ih
        refine ⟨body, padding + 1, ?_, ends⟩
        rw [isPad, List.replicate_succ', List.append_assoc]
      · exact ⟨bytes ++ [byte], 0, by simp, by simpa using isPad⟩

theorem takeWhile_padding {body : Octets} (ends : body.getLast? ≠ some pad) (padding : Nat) :
    (body ++ List.replicate padding pad).reverse.takeWhile (· == pad) =
      List.replicate padding pad := by
  rw [List.reverse_append, List.reverse_replicate, List.takeWhile_append_of_pos fun byte member => by
    simpa using (List.mem_replicate.mp member).2]
  rcases List.eq_nil_or_concat body with rfl | ⟨front, byte, rfl⟩
  · simp
  · have notPad : byte ≠ pad := by simpa using ends
    simp [notPad]

theorem decode_eq {input : Text} {body : Octets} {padding : Nat}
    (split : input.toOctets = body ++ List.replicate padding pad)
    (ends : body.getLast? ≠ some pad) :
    decode input =
      if padding ≤ 2 ∧ (body.length + padding) % 4 = 0 ∧ pad ∉ body then
        decodeChunks (body ++ List.replicate padding pad)
      else none := by
  simp only [decode, split, takeWhile_padding ends, List.length_append, List.length_replicate,
    Nat.add_sub_cancel, List.take_left, List.contains_iff_mem]
  by_cases empty : body ++ List.replicate padding pad = []
  · obtain ⟨rfl, none⟩ := List.append_eq_nil_iff.mp empty
    obtain rfl := List.replicate_eq_nil_iff _ |>.mp none
    simp [decodeChunks]
  · rw [if_neg (by simpa using empty)]
    by_cases chunked : (body.length + padding) % 4 = 0
    · rw [if_neg (not_not.mpr chunked)]
      by_cases few : padding ≤ 2
      · rw [if_neg (Nat.not_lt.mpr few)]
        by_cases unpadded : pad ∈ body
        · rw [if_pos unpadded, if_neg fun all => all.2.2 unpadded]
        · rw [if_neg unpadded, if_pos ⟨few, chunked, unpadded⟩]
      · rw [if_pos (Nat.not_le.mp few), if_neg fun all => few all.1]
    · rw [if_pos chunked, if_neg fun all => chunked all.2.1]

/-- A text decodes just where it is the encoding. -/
theorem decode_eq_some_iff {input : Text} {octets : Octets} :
    decode input = some octets ↔ input = encode octets := by
  constructor
  · intro decodes
    obtain ⟨body, padding, split, ends⟩ := exists_padding input.toOctets
    rw [decode_eq split ends] at decodes
    split at decodes
    · next padded =>
        rw [decodeChunks_padded ⟨padded.2.2, padded.1, padded.2.1⟩, ← split] at decodes
        exact Text.toOctets_injective decodes
    · cases decodes
  · rintro rfl
    obtain ⟨body, padding, split, padded⟩ := exists_padded_encode octets
    have ends : body.getLast? ≠ some pad := fun last =>
      padded.unpadded (List.mem_of_getLast? last)
    rw [decode_eq split ends, if_pos ⟨padded.few, padded.chunked, padded.unpadded⟩,
      decodeChunks_padded padded, split]

end Kynos.Security.Base64
