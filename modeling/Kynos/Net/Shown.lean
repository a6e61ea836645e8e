import Kynos.Net.IpAddr
import Kynos.Word.Led

/-!
# Addresses as text

An address is shown in decimal octets or in hexadecimal groups, the longest run
of zero groups left out. What is shown is read back as the same address.
-/

namespace Kynos.Net.IpAddr

open Kynos.Word

/-! ## The source -/

/-- `Ipv4Addr::octets`. -/
def octets (bits : BitVec 32) : List Nat :=
  [bits.toNat / 16777216, bits.toNat / 65536 % 256, bits.toNat / 256 % 256, bits.toNat % 256]

/-- `Ipv6Addr::segments`. -/
def segments (bits : BitVec 128) : List Nat :=
  (List.range 8).map fun index => bits.toNat / 65536 ^ (7 - index) % 65536

/-- An IPv4 address as text. -/
def showIpv4 (bits : BitVec 32) : Text :=
  ['.'].intercalate ((octets bits).map (Nat.toDigits 10))

/-- Zero groups after each other. -/
structure Zeroes where
  start : Nat
  length : Nat

/-- Zero groups with the one at an index after them. -/
def Zeroes.goOn (index : Nat) (current : Zeroes) : Zeroes :=
  ⟨if current.length = 0 then index else current.start, current.length + 1⟩

/-- The first of the longest runs of zero groups, from a group on, with the
longest so far and the one the group may go on with. -/
def longestFrom (index : Nat) (longest current : Zeroes) : List Nat → Zeroes
  | [] => longest
  | segment :: rest =>
      if segment = 0 then
        let current := current.goOn index
        longestFrom (index + 1) (if longest.length < current.length then current else longest)
          current rest
      else
        longestFrom (index + 1) longest ⟨0, 0⟩ rest

/-- Groups in hexadecimal with colons between them. -/
def showGroups (groups : List Nat) : Text :=
  [':'].intercalate (groups.map (Nat.toDigits 16))

/-- An IPv6 address as text. -/
def showIpv6 (bits : BitVec 128) : Text :=
  if bits >>> 32 = 0xffff then
    "::ffff:".toList ++ showIpv4 (bits.truncate 32)
  else
    let groups := segments bits
    let zeroes := longestFrom 0 ⟨0, 0⟩ ⟨0, 0⟩ groups
    if 1 < zeroes.length then
      showGroups (groups.take zeroes.start) ++ "::".toList ++
        showGroups (groups.drop (zeroes.start + zeroes.length))
    else
      showGroups groups

/-- `IpAddr::to_string`. -/
def display : IpAddr → Text
  | .v4 bits => showIpv4 bits
  | .v6 bits => showIpv6 bits

/-! ## Numbers -/

/-- Text that goes on with no digit. -/
def Stops (radix : Nat) (rest : Text) : Prop :=
  ∀ character ∈ rest.head?, toDigit radix character = none

section Numbers

variable {radix : Nat}

theorem stops_nil : Stops radix [] :=
  nofun

theorem stops_cons {character : Char} {rest : Text} (isNone : toDigit radix character = none) :
    Stops radix (character :: rest) := by
  rintro _ ⟨⟩
  exact isNone

theorem Stops.takeWhile_eq_nil {rest : Text} (stops : Stops radix rest) :
    rest.takeWhile (fun character => (toDigit radix character).isSome) = [] := by
  cases rest with
  | nil => rfl
  | cons character rest =>
      rw [List.takeWhile_cons_of_neg]
      rw [stops character rfl]
      exact Bool.false_ne_true

/-- No number is read where none begins. -/
theorem readNumber_of_stops {maxDigits bound : Nat} {allowZeroPrefix : Bool} {rest : Text}
    (stops : Stops radix rest) : readNumber radix maxDigits allowZeroPrefix bound rest = none := by
  simp [readNumber, stops.takeWhile_eq_nil]

theorem toDigit_digitChar (within : radix ≤ 16) {digit : Nat} (below : digit < radix) :
    toDigit radix digit.digitChar = some digit := by
  have all : ∀ radix ≤ 16, ∀ digit < radix, toDigit radix digit.digitChar = some digit := by decide
  exact all radix within digit below

/-- A number's digits, the last apart. -/
theorem toDigits_induction (several : 1 < radix) {motive : Nat → Text → Prop}
    (one : ∀ digit < radix, motive digit [digit.digitChar])
    (more : ∀ number, radix ≤ number → motive (number / radix) (Nat.toDigits radix (number / radix)) →
      motive number (Nat.toDigits radix (number / radix) ++ [(number % radix).digitChar]))
    (number : Nat) : motive number (Nat.toDigits radix number) := by
  induction number using Nat.strong_induction_on with
  | _ number ih =>
      by_cases below : number < radix
      · rw [Nat.toDigits_of_lt_base below]
        exact one number below
      · rw [Nat.toDigits_of_base_le several (by omega)]
        exact more number (by omega) (ih _ (Nat.div_lt_self (by omega) several))

variable (several : 1 < radix) (within : radix ≤ 16)

include several within

theorem isSome_toDigit_of_mem_toDigits (number : Nat) :
    ∀ digit ∈ Nat.toDigits radix number, (toDigit radix digit).isSome := by
  refine toDigits_induction (motive := fun _ digits => ∀ digit ∈ digits, (toDigit radix digit).isSome)
    several (fun digit below => ?_) (fun number _ ih => ?_) number
  · rw [List.forall_mem_singleton, toDigit_digitChar within below]
    rfl
  · rw [List.forall_mem_append, List.forall_mem_singleton,
      toDigit_digitChar within (Nat.mod_lt _ (by omega))]
    exact ⟨ih, rfl⟩

theorem notMem_toDigits {character : Char} (notDigit : toDigit radix character = none)
    (number : Nat) : character ∉ Nat.toDigits radix number := by
  intro member
  have isDigit := isSome_toDigit_of_mem_toDigits several within number character member
  rw [notDigit] at isDigit
  cases isDigit

theorem foldl_toDigits (number : Nat) :
    (Nat.toDigits radix number).foldl
      (fun value character => value * radix + (toDigit radix character).getD 0) 0 = number := by
  refine toDigits_induction (motive := fun number digits => digits.foldl
    (fun value character => value * radix + (toDigit radix character).getD 0) 0 = number)
    several (fun digit below => ?_) (fun number _ ih => ?_) number
  · rw [List.foldl_cons, List.foldl_nil, toDigit_digitChar within below]
    simp
  · rw [List.foldl_concat, ih, toDigit_digitChar within (Nat.mod_lt _ (by omega)), Option.getD_some,
      Nat.div_add_mod']

theorem head?_toDigits {number : Nat} (positive : 0 < number) :
    (Nat.toDigits radix number).head? ≠ some '0' := by
  have nonzero {digit : Nat} (below : digit < radix) (positive : 0 < digit) : digit.digitChar ≠ '0' := by
    have all : ∀ digit < 16, 0 < digit → digit.digitChar ≠ '0' := by decide
    exact all digit (by omega) positive
  revert positive
  refine toDigits_induction (motive := fun number digits => 0 < number → digits.head? ≠ some '0')
    several (fun digit below positive => ?_) (fun number large ih _ => ?_) number
  · simpa using nonzero below positive
  · rw [List.head?_append_of_ne_nil _ Nat.toDigits_ne_nil]
    exact ih (Nat.div_pos large (by omega))

/-- A number before what is no digit is read back. -/
theorem readNumber_toDigits {maxDigits bound number : Nat} {allowZeroPrefix : Bool} {rest : Text}
    (allowed : 0 < maxDigits) (fits : number < radix ^ maxDigits) (inBound : number ≤ bound)
    (stops : Stops radix rest) :
    readNumber radix maxDigits allowZeroPrefix bound (Nat.toDigits radix number ++ rest) =
      some (number, rest) := by
  have few : (Nat.toDigits radix number).length ≤ maxDigits :=
    (Nat.length_toDigits_le_iff several allowed).mpr fits
  have whole : (Nat.toDigits radix number ++ rest).takeWhile
      (fun character => (toDigit radix character).isSome) = Nat.toDigits radix number := by
    rw [List.takeWhile_append_of_pos (isSome_toDigit_of_mem_toDigits several within number),
      stops.takeWhile_eq_nil, List.append_nil]
  have unpadded : ¬ (!allowZeroPrefix ∧ (Nat.toDigits radix number).head? = some '0' ∧
      1 < (Nat.toDigits radix number).length) := by
    rintro ⟨-, isZero, long⟩
    rcases Nat.eq_zero_or_pos number with rfl | positive
    · rw [Nat.toDigits_zero] at long
      exact absurd long (by decide)
    · exact head?_toDigits several within positive isZero
  simp only [readNumber, whole, foldl_toDigits several within]
  rw [if_neg (by simpa using few), if_neg unpadded, if_neg (by omega), List.drop_left]

end Numbers

/-- What follows a number that was read ends the text. -/
theorem isSuffix_of_readNumber {radix maxDigits bound value : Nat} {allowZeroPrefix : Bool}
    {text rest : Text} (reads : readNumber radix maxDigits allowZeroPrefix bound text =
      some (value, rest)) : rest <:+ text := by
  simp only [readNumber] at reads
  split_ifs at reads
  cases reads
  exact List.drop_suffix _ _

theorem readSeparator_zero (separator : Char) (text : Text) :
    readSeparator separator 0 text = some text := by
  cases text <;> rfl

theorem readSeparator_succ (separator : Char) (index : Nat) (rest : Text) :
    readSeparator separator (index + 1) (separator :: rest) = some rest := by
  simp [readSeparator]

/-- No separator is read where none begins. -/
theorem readSeparator_succ_eq_none {separator : Char} {text : Text} (absent : text.head? ≠ some separator)
    (index : Nat) : readSeparator separator (index + 1) text = none := by
  cases text with
  | nil => simp [readSeparator]
  | cons letter rest =>
      have other : letter ≠ separator := by simpa using absent
      simp [readSeparator, other]

/-! ## IPv4 -/

section Octets

variable {remaining index value octet : Nat} (isOctet : octet < 256) {rest : Text}
  (stops : Stops 10 rest)

include isOctet stops

theorem readNumber_octet :
    readNumber 10 3 false 255 (Nat.toDigits 10 octet ++ rest) = some (octet, rest) :=
  readNumber_toDigits (by decide) (by decide) (by decide) (by omega) (by omega) stops

theorem readIpv4From_first :
    readIpv4From (remaining + 1) 0 value (Nat.toDigits 10 octet ++ rest) =
      readIpv4From remaining 1 (value * 256 + octet) rest := by
  rw [readIpv4From, readSeparator_zero, Option.bind_eq_bind, Option.bind_some,
    readNumber_octet isOctet stops]
  rfl

theorem readIpv4From_next :
    readIpv4From (remaining + 1) (index + 1) value ('.' :: (Nat.toDigits 10 octet ++ rest)) =
      readIpv4From remaining (index + 2) (value * 256 + octet) rest := by
  rw [readIpv4From, readSeparator_succ, Option.bind_eq_bind, Option.bind_some,
    readNumber_octet isOctet stops]
  rfl

end Octets

/-- An address before what is no digit is read back. -/
theorem readIpv4_showIpv4 (bits : BitVec 32) {rest : Text} (stops : Stops 10 rest) :
    readIpv4 (showIpv4 bits ++ rest) = some (bits.toNat, rest) := by
  have bound : bits.toNat < 4294967296 := bits.isLt
  have dot (rest : Text) : Stops 10 ('.' :: rest) := stops_cons (by decide)
  have shown : showIpv4 bits ++ rest = Nat.toDigits 10 (bits.toNat / 16777216) ++
      '.' :: (Nat.toDigits 10 (bits.toNat / 65536 % 256) ++
        '.' :: (Nat.toDigits 10 (bits.toNat / 256 % 256) ++
          '.' :: (Nat.toDigits 10 (bits.toNat % 256) ++ rest))) := by
    simp [showIpv4, octets]
  rw [shown, readIpv4, readIpv4From_first (by omega) (dot _),
    readIpv4From_next (Nat.mod_lt _ (by decide)) (dot _),
    readIpv4From_next (Nat.mod_lt _ (by decide)) (dot _),
    readIpv4From_next (Nat.mod_lt _ (by decide)) stops, readIpv4From]
  congr 2
  omega

/-- No IPv4 address is read where there is no dot. -/
theorem readIpv4_of_notMem {text : Text} (absent : '.' ∉ text) : readIpv4 text = none := by
  rw [readIpv4, readIpv4From, readSeparator_zero, Option.bind_eq_bind, Option.bind_some]
  cases reads : readNumber 10 3 false 255 text with
  | none => rfl
  | some read =>
      obtain ⟨value, rest⟩ := read
      have after : rest.head? ≠ some '.' := fun starts =>
        absent ((isSuffix_of_readNumber reads).subset (List.mem_of_head? starts))
      rw [Option.bind_eq_bind, Option.bind_some]
      dsimp only
      rw [readIpv4From, readSeparator_succ_eq_none after]
      rfl

/-- Nor where no digit is. -/
theorem readIpv4_of_stops {text : Text} (stops : Stops 10 text) : readIpv4 text = none := by
  rw [readIpv4, readIpv4From, readSeparator_zero, Option.bind_eq_bind, Option.bind_some,
    readNumber_of_stops stops]
  rfl

/-! ## Groups -/

/-- Groups from an index on, a colon before each but the first of all. -/
def groupsFrom (index : Nat) (groups : List Nat) : Text :=
  if index = 0 then showGroups groups else led ':' (groups.map (Nat.toDigits 16))

theorem groupsFrom_cons_separator (index group : Nat) (groups : List Nat) (rest : Text) :
    readSeparator ':' index (groupsFrom index (group :: groups) ++ rest) =
      some (Nat.toDigits 16 group ++ (groupsFrom (index + 1) groups ++ rest)) := by
  cases index with
  | zero =>
      rw [readSeparator_zero, groupsFrom, if_pos rfl, groupsFrom, if_neg (Nat.succ_ne_zero 0),
        showGroups, List.map_cons, intercalate_eq_led, List.append_assoc]
  | succ index =>
      rw [groupsFrom, if_neg (Nat.succ_ne_zero _), groupsFrom, if_neg (Nat.succ_ne_zero _)]
      simp [led, readSeparator_succ]

theorem groupsFrom_nil (index : Nat) : groupsFrom index [] = [] := by
  rw [groupsFrom]
  split <;> rfl

theorem notMem_groupsFrom {character : Char} (notDigit : toDigit 16 character = none)
    (notColon : character ≠ ':') (index : Nat) (groups : List Nat) :
    character ∉ groupsFrom index groups := by
  have notLed (groups : List Nat) : character ∉ led ':' (groups.map (Nat.toDigits 16)) := by
    simp [led, notColon, notMem_toDigits (by decide) (by decide) notDigit]
  rw [groupsFrom]
  split
  · cases groups with
    | nil => exact List.not_mem_nil
    | cons group groups =>
        rw [showGroups, List.map_cons, intercalate_eq_led, List.mem_append, not_or]
        exact ⟨notMem_toDigits (by decide) (by decide) notDigit group, notLed groups⟩
  · exact notLed groups

theorem isSuffix_of_readSeparator {separator : Char} {index : Nat} {text rest : Text}
    (reads : readSeparator separator index text = some rest) : rest <:+ text := by
  cases index with
  | zero =>
      rw [readSeparator_zero] at reads
      rw [Option.some.inj reads]
  | succ index =>
      by_cases starts : text.head? = some separator
      · obtain ⟨more, rfl⟩ := List.head?_eq_some_iff.mp starts
        rw [readSeparator_succ] at reads
        rw [← Option.some.inj reads]
        exact List.suffix_cons separator more
      · rw [readSeparator_succ_eq_none starts] at reads
        cases reads

theorem bind_readIpv4_of_notMem {index : Nat} {text : Text} (absent : '.' ∉ text) :
    (readSeparator ':' index text).bind readIpv4 = none := by
  rw [Option.bind_eq_none_iff]
  intro rest reads
  exact readIpv4_of_notMem fun member => absent ((isSuffix_of_readSeparator reads).subset member)

section Read

variable {remaining index : Nat} {text : Text}

theorem readGroups_of_none (unembedded : (readSeparator ':' index text).bind readIpv4 = none)
    (ends : (readSeparator ':' index text).bind (readNumber 16 4 true 65535) = none) :
    readGroups (remaining + 1) index text = ([], false, text) := by
  rw [readGroups, unembedded, ends, ite_self]

theorem readGroups_of_group (unembedded : (readSeparator ':' index text).bind readIpv4 = none)
    {group : Nat} {rest : Text}
    (reads : (readSeparator ':' index text).bind (readNumber 16 4 true 65535) =
      some (group, rest)) :
    readGroups (remaining + 1) index text =
      (group :: (readGroups remaining (index + 1) rest).1,
        (readGroups remaining (index + 1) rest).2) := by
  rw [readGroups, unembedded, reads, ite_self]

theorem readGroups_of_ipv4 {bits : Nat} {rest : Text}
    (reads : (readSeparator ':' index text).bind readIpv4 = some (bits, rest)) :
    readGroups (remaining + 2) index text = ([bits / 65536, bits % 65536], true, rest) := by
  rw [readGroups, reads, if_pos (Nat.succ_pos remaining)]

end Read

/-- Groups before what is none are read back. -/
theorem readGroups_groupsFrom {remaining : Nat} (index : Nat) {groups : List Nat} {rest : Text}
    (few : groups.length ≤ remaining) (small : ∀ group ∈ groups, group < 65536)
    (undotted : '.' ∉ rest) (ends : rest = [] ∨ ∃ more, rest = ':' :: ':' :: more) :
    readGroups remaining index (groupsFrom index groups ++ rest) = (groups, false, rest) := by
  have colon (more : Text) : Stops 16 (':' :: more) := stops_cons (by decide)
  induction remaining generalizing index groups with
  | zero =>
      obtain rfl : groups = [] := List.length_eq_zero_iff.mp (Nat.le_zero.mp few)
      rw [groupsFrom_nil]
      rfl
  | succ remaining ih =>
      have absent : '.' ∉ groupsFrom index groups ++ rest := by
        rw [List.mem_append, not_or]
        exact ⟨notMem_groupsFrom (by decide) (by decide) index groups, undotted⟩
      cases groups with
      | nil =>
          rw [groupsFrom_nil, List.nil_append] at absent ⊢
          refine readGroups_of_none (bind_readIpv4_of_notMem absent) ?_
          rcases ends with rfl | ⟨more, rfl⟩
          · cases index with
            | zero => rw [readSeparator_zero, Option.bind_some, readNumber_of_stops stops_nil]
            | succ index =>
                rw [readSeparator_succ_eq_none (by simp), Option.bind_none]
          · cases index with
            | zero => rw [readSeparator_zero, Option.bind_some, readNumber_of_stops (colon _)]
            | succ index => rw [readSeparator_succ, Option.bind_some, readNumber_of_stops (colon more)]
      | cons group groups =>
          rw [List.forall_mem_cons] at small
          have stops : Stops 16 (groupsFrom (index + 1) groups ++ rest) := by
            cases groups with
            | nil =>
                rw [groupsFrom_nil]
                rcases ends with rfl | ⟨more, rfl⟩
                · exact stops_nil
                · exact colon _
            | cons => exact colon _
          have reads : (readSeparator ':' index (groupsFrom index (group :: groups) ++ rest)).bind
              (readNumber 16 4 true 65535) = some (group, groupsFrom (index + 1) groups ++ rest) := by
            rw [groupsFrom_cons_separator, Option.bind_some]
            exact readNumber_toDigits (by decide) (by decide) (by decide) small.1
              (Nat.le_of_lt_succ small.1) stops
          rw [readGroups_of_group (bind_readIpv4_of_notMem absent) reads,
            ih (index + 1) (Nat.le_of_succ_le_succ few) small.2]

/-! ## The run left out -/

/-- Zero groups among those of an address. -/
def Zeroes.Within (zeroes : Zeroes) (groups : List Nat) : Prop :=
  ∃ left right, groups = left ++ List.replicate zeroes.length 0 ++ right ∧
    left.length = zeroes.start

/-- Zero groups that end others, or none. -/
def Zeroes.Ends (zeroes : Zeroes) (groups : List Nat) : Prop :=
  zeroes.length = 0 ∨
    ∃ left, groups = left ++ List.replicate zeroes.length 0 ∧ left.length = zeroes.start

theorem Zeroes.Within.append {zeroes : Zeroes} {groups : List Nat} (within : zeroes.Within groups)
    (more : List Nat) : zeroes.Within (groups ++ more) := by
  obtain ⟨left, right, rfl, isStart⟩ := within
  exact ⟨left, right ++ more, by rw [List.append_assoc], isStart⟩

theorem Zeroes.Ends.within {zeroes : Zeroes} {groups : List Nat} (ends : zeroes.Ends groups)
    (several : zeroes.length ≠ 0) : zeroes.Within groups := by
  obtain ⟨left, rfl, isStart⟩ := ends.resolve_left several
  exact ⟨left, [], by rw [List.append_nil], isStart⟩

/-- One more zero group. -/
theorem Zeroes.Ends.goOn {zeroes : Zeroes} {groups : List Nat} (ends : zeroes.Ends groups) :
    (zeroes.goOn groups.length).Ends (groups ++ [0]) := by
  rw [Zeroes.goOn]
  by_cases isNone : zeroes.length = 0
  · exact .inr ⟨groups, by rw [isNone]; rfl, by rw [if_pos isNone]⟩
  · obtain ⟨left, rfl, isStart⟩ := ends.resolve_left isNone
    refine .inr ⟨left, ?_, by rw [if_neg isNone, isStart]⟩
    rw [List.append_assoc, List.replicate_succ']

/-- What the loop finds are zero groups. -/
theorem within_longestFrom {before rest : List Nat} {longest current : Zeroes}
    (isLongest : longest.Within before) (isCurrent : current.Ends before) :
    (longestFrom before.length longest current rest).Within (before ++ rest) := by
  induction rest generalizing before longest current with
  | nil =>
      rw [List.append_nil]
      exact isLongest
  | cons segment rest ih =>
      have longer : before.length + 1 = (before ++ [segment]).length := by simp
      rw [longestFrom, longer, List.append_cons before segment rest]
      split
      · rename_i isZero
        subst isZero
        refine ih ?_ isCurrent.goOn
        split
        · exact isCurrent.goOn.within (Nat.succ_ne_zero _)
        · exact isLongest.append [0]
      · have anew : (⟨0, 0⟩ : Zeroes).Ends (before ++ [segment]) := .inl rfl
        exact ih (isLongest.append [segment]) anew

theorem within_zeroes (groups : List Nat) : (longestFrom 0 ⟨0, 0⟩ ⟨0, 0⟩ groups).Within groups := by
  have nothing : (⟨0, 0⟩ : Zeroes).Within [] := ⟨[], [], rfl, rfl⟩
  have ended : (⟨0, 0⟩ : Zeroes).Ends [] := .inl rfl
  exact within_longestFrom nothing ended

/-! ## IPv6 -/

theorem length_segments (bits : BitVec 128) : (segments bits).length = 8 := by
  rw [segments, List.length_map, List.length_range]

theorem segments_lt (bits : BitVec 128) : ∀ group ∈ segments bits, group < 65536 := by
  simp only [segments, List.forall_mem_map]
  exact fun _ _ => Nat.mod_lt _ (by decide)

/-- The groups are the address. -/
theorem foldl_segments (bits : BitVec 128) :
    (segments bits).foldl (fun bits group => bits * 65536 + group) 0 = bits.toNat := by
  have bound : bits.toNat < 2 ^ 128 := bits.isLt
  simp only [segments, List.range, List.range.loop, List.map_cons, List.map_nil, List.foldl_cons,
    List.foldl_nil]
  omega

theorem showGroups_eq (groups : List Nat) : showGroups groups = groupsFrom 0 groups := by
  rw [groupsFrom, if_pos rfl]

/-- Groups with zero groups left out of them are read back. -/
theorem readIpv6_of_zeroes {left right : List Nat} {length : Nat} (several : 1 < length)
    (eight : (left ++ List.replicate length 0 ++ right).length = 8)
    (small : ∀ group ∈ left ++ List.replicate length 0 ++ right, group < 65536) :
    readIpv6 (showGroups left ++ "::".toList ++ showGroups right) =
      some (left ++ List.replicate length 0 ++ right, []) := by
  rw [List.length_append, List.length_append, List.length_replicate] at eight
  rw [List.forall_mem_append, List.forall_mem_append] at small
  have undotted : '.' ∉ "::".toList ++ showGroups right := by
    rw [showGroups_eq, List.mem_append, not_or]
    exact ⟨by decide, notMem_groupsFrom (by decide) (by decide) 0 right⟩
  have head : readGroups 8 0 (showGroups left ++ ("::".toList ++ showGroups right)) =
      (left, false, "::".toList ++ showGroups right) := by
    rw [showGroups_eq left]
    exact readGroups_groupsFrom 0 (by omega) small.1.1 undotted (.inr ⟨showGroups right, rfl⟩)
  have tail : readGroups (8 - (left.length + 1)) 0 (showGroups right) = (right, false, []) := by
    have reads : readGroups (8 - (left.length + 1)) 0 (groupsFrom 0 right ++ []) =
        (right, false, []) :=
      readGroups_groupsFrom 0 (by omega) small.2 List.not_mem_nil (.inl rfl)
    rwa [List.append_nil, ← showGroups_eq] at reads
  have zeros : 8 - left.length - right.length = length := by omega
  rw [List.append_assoc, readIpv6, head]
  dsimp only
  rw [if_neg (by omega), if_neg Bool.false_ne_true]
  change some (left ++ List.replicate (8 - left.length -
    (readGroups (8 - (left.length + 1)) 0 (showGroups right)).1.length) 0 ++
      (readGroups (8 - (left.length + 1)) 0 (showGroups right)).1,
    (readGroups (8 - (left.length + 1)) 0 (showGroups right)).2.2) = _
  rw [tail, zeros]

/-- Eight groups are read back. -/
theorem readIpv6_showGroups {groups : List Nat} (eight : groups.length = 8)
    (small : ∀ group ∈ groups, group < 65536) : readIpv6 (showGroups groups) = some (groups, []) := by
  have reads : readGroups 8 0 (groupsFrom 0 groups ++ []) = (groups, false, []) :=
    readGroups_groupsFrom 0 (by omega) small List.not_mem_nil (.inl rfl)
  rw [List.append_nil, ← showGroups_eq] at reads
  rw [readIpv6, reads]
  exact if_pos eight

theorem readIpv6_showIpv6 {bits : BitVec 128} (unmapped : bits >>> 32 ≠ 0xffff) :
    readIpv6 (showIpv6 bits) = some (segments bits, []) := by
  rw [showIpv6, if_neg unmapped]
  dsimp only
  split
  · rename_i several
    obtain ⟨left, right, isGroups, isStart⟩ := within_zeroes (segments bits)
    have eight := length_segments bits
    have small := segments_lt bits
    generalize longestFrom 0 ⟨0, 0⟩ ⟨0, 0⟩ (segments bits) = zeroes at several isGroups isStart ⊢
    have isLeft : (segments bits).take zeroes.start = left := by
      rw [isGroups, List.append_assoc, List.take_left' isStart]
    have isRight : (segments bits).drop (zeroes.start + zeroes.length) = right := by
      rw [isGroups, List.drop_left' (by rw [List.length_append, List.length_replicate, isStart])]
    rw [isLeft, isRight]
    rw [isGroups] at eight small ⊢
    exact readIpv6_of_zeroes several eight small
  · exact readIpv6_showGroups (length_segments bits) (segments_lt bits)

/-- The mapped form is read back with its IPv4 address. -/
theorem readIpv6_mapped (bits : BitVec 32) :
    readIpv6 ("::ffff:".toList ++ showIpv4 bits) =
      some ([0, 0, 0, 0, 0, 65535, bits.toNat / 65536, bits.toNat % 65536], []) := by
  have head : readGroups 8 0 ("::ffff:".toList ++ showIpv4 bits) =
      ([], false, "::ffff:".toList ++ showIpv4 bits) := by
    refine readGroups_of_none ?_ ?_
    · rw [readSeparator_zero, Option.bind_some]
      exact readIpv4_of_stops (stops_cons (by decide))
    · rw [readSeparator_zero, Option.bind_some]
      exact readNumber_of_stops (stops_cons (by decide))
  have embedded : readGroups 6 1 (':' :: showIpv4 bits) =
      ([bits.toNat / 65536, bits.toNat % 65536], true, []) := by
    have reads := readIpv4_showIpv4 bits stops_nil
    rw [List.append_nil] at reads
    refine readGroups_of_ipv4 ?_
    rw [readSeparator_succ, Option.bind_some, reads]
  have tail : readGroups 7 0 ("ffff:".toList ++ showIpv4 bits) =
      ([65535, bits.toNat / 65536, bits.toNat % 65536], true, []) := by
    have unembedded : (readSeparator ':' 0 ("ffff:".toList ++ showIpv4 bits)).bind readIpv4 = none := by
      rw [readSeparator_zero, Option.bind_some]
      exact readIpv4_of_stops (stops_cons (by decide))
    have group : (readSeparator ':' 0 ("ffff:".toList ++ showIpv4 bits)).bind
        (readNumber 16 4 true 65535) = some (65535, ':' :: showIpv4 bits) := by
      have spelled : "ffff:".toList ++ showIpv4 bits =
          Nat.toDigits 16 65535 ++ ':' :: showIpv4 bits := by
        have digits : Nat.toDigits 16 65535 = "ffff".toList := by decide
        rw [digits]
        rfl
      rw [readSeparator_zero, Option.bind_some, spelled]
      exact readNumber_toDigits (by decide) (by decide) (by decide) (by decide) (by decide)
        (stops_cons (by decide))
    rw [readGroups_of_group unembedded group, embedded]
  rw [readIpv6, head]
  change some ([] ++ List.replicate (8 - 0 -
    (readGroups 7 0 ("ffff:".toList ++ showIpv4 bits)).1.length) 0 ++
      (readGroups 7 0 ("ffff:".toList ++ showIpv4 bits)).1,
    (readGroups 7 0 ("ffff:".toList ++ showIpv4 bits)).2.2) = _
  rw [tail]
  rfl

/-! ## Addresses -/

theorem toNat_of_mapped {bits : BitVec 128} (mapped : bits >>> 32 = 0xffff) :
    bits.toNat = 65535 * 4294967296 + (bits.truncate 32).toNat := by
  have high : bits.toNat / 4294967296 = 65535 := by
    have shifted := congrArg BitVec.toNat mapped
    rwa [BitVec.toNat_ushiftRight, Nat.shiftRight_eq_div_pow] at shifted
  have low : (bits.truncate 32).toNat = bits.toNat % 4294967296 := BitVec.toNat_setWidth ..
  omega

/-- An address is shown by digits, colons and dots. -/
theorem notMem_showIpv6 {character : Char} (notDigit : toDigit 16 character = none)
    (notColon : character ≠ ':') {bits : BitVec 128} (unmapped : bits >>> 32 ≠ 0xffff) :
    character ∉ showIpv6 bits := by
  have absent := notMem_groupsFrom notDigit notColon 0
  rw [showIpv6, if_neg unmapped]
  dsimp only
  split
  · simp only [showGroups_eq, List.mem_append, not_or]
    exact ⟨⟨absent _, by simp [notColon]⟩, absent _⟩
  · rw [showGroups_eq]
    exact absent _

theorem notMem_showIpv4 {character : Char} (notDigit : toDigit 10 character = none)
    (notDot : character ≠ '.') (bits : BitVec 32) : character ∉ showIpv4 bits := by
  have absent := notMem_toDigits (by decide) (by decide) notDigit
  simp [showIpv4, octets, notDot, absent]

theorem notMem_display {character : Char} (notHexadecimal : toDigit 16 character = none)
    (notDecimal : toDigit 10 character = none) (notColon : character ≠ ':')
    (notDot : character ≠ '.') (address : IpAddr) : character ∉ display address := by
  cases address with
  | v4 bits => exact notMem_showIpv4 notDecimal notDot bits
  | v6 bits =>
      by_cases mapped : bits >>> 32 = 0xffff
      · have notLetter : character ≠ 'f' := by
          rintro rfl
          exact absurd notHexadecimal (by decide)
        rw [display, showIpv6, if_pos mapped, List.mem_append, not_or]
        exact ⟨by simp [notColon, notLetter], notMem_showIpv4 notDecimal notDot _⟩
      · exact notMem_showIpv6 notHexadecimal notColon mapped

/-- What is shown is read back. -/
theorem parse_display (address : IpAddr) : parse (display address) = some address := by
  cases address with
  | v4 bits =>
      have reads := readIpv4_showIpv4 bits stops_nil
      rw [List.append_nil] at reads
      rw [display, parse, reads]
      exact congrArg (some ∘ IpAddr.v4) (BitVec.ofNat_toNat 32 bits)
  | v6 bits =>
      rw [display, parse]
      by_cases mapped : bits >>> 32 = 0xffff
      · have unread : readIpv4 (showIpv6 bits) = none := by
          rw [showIpv6, if_pos mapped]
          exact readIpv4_of_stops (stops_cons (by decide))
        have value : [0, 0, 0, 0, 0, 65535, (bits.truncate 32).toNat / 65536,
            (bits.truncate 32).toNat % 65536].foldl (fun bits group => bits * 65536 + group) 0 =
              bits.toNat := by
          have split := toNat_of_mapped mapped
          simp only [List.foldl_cons, List.foldl_nil]
          omega
        rw [unread, showIpv6, if_pos mapped, readIpv6_mapped]
        dsimp only
        rw [value, BitVec.ofNat_toNat]
        rfl
      · rw [readIpv4_of_notMem (notMem_showIpv6 (by decide) (by decide) mapped),
          readIpv6_showIpv6 mapped]
        dsimp only
        rw [foldl_segments, BitVec.ofNat_toNat]
        rfl

end Kynos.Net.IpAddr
