import Kynos.Net.Shown
import Kynos.Word.Split

/-!
# Networks

A network is made of an address and a prefix, its host bits cleared; a block of
IPv4-mapped addresses is the IPv4 block it amounts to, and a whole family is
refused. Membership is agreement on the leading bits, whichever form an address
is written in, and a network's text is read back as the network.
-/

namespace Kynos.Net

open Kynos.Word

/-! ## The source -/

/-- Why a network was refused. -/
inductive InvalidNetwork where
  | noPrefix
  | address
  | prefixDigits
  | prefixTooLong (bits : Nat)
  | everyAddress
  deriving DecidableEq, Repr

namespace Network

/-- The address and the prefix of a block, an IPv4-mapped one as its IPv4 form. -/
def block (prefixLength : Nat) : IpAddr → IpAddr × Nat
  | .v4 bits => (.v4 bits, prefixLength)
  | .v6 bits =>
      if 96 ≤ prefixLength ∧ bits >>> 32 = 0xffff then
        (.v4 (bits.truncate 32), prefixLength - 96)
      else
        (.v6 bits, prefixLength)

theorem block_within {address : IpAddr} {prefixLength : Nat}
    (within : prefixLength ≤ address.width) :
    (block prefixLength address).2 ≤ (block prefixLength address).1.width := by
  cases address with
  | v4 bits => exact within
  | v6 bits =>
      rw [block]
      split
      · exact Nat.sub_le_of_le_add within
      · exact within

/-- The block of the addresses that share an address's first bits. -/
def masked (address : IpAddr) (prefixLength : Nat) (within : prefixLength ≤ address.width) :
    Network where
  address := maskedAddress prefixLength address
  prefixLength := prefixLength
  within := by cases address <;> exact within

/-- `Network::new`. -/
def new (address : IpAddr) (prefixLength : Nat) : Except InvalidNetwork Network :=
  if within : prefixLength ≤ address.width then
    if (block prefixLength address).2 = 0 then
      .error .everyAddress
    else
      .ok (masked (block prefixLength address).1 (block prefixLength address).2 (block_within within))
  else
    .error (.prefixTooLong address.width)

/-- `Network::from_str`. -/
def fromStr (text : Text) : Except InvalidNetwork Network :=
  match splitOnce '/' text with
  | none => .error .noPrefix
  | some (address, digits) =>
      match IpAddr.parse address with
      | none => .error .address
      | some address =>
          if digits.isEmpty || !digits.all Text.isAsciiDigit ||
              (1 < digits.length && digits.head? == some '0') then
            .error .prefixDigits
          else
            let value := Nat.ofDigitChars 10 digits 0
            new address (if value ≤ 255 then value else 255)

/-- `Network::to_string`. -/
def display (network : Network) : Text :=
  network.address.display ++ '/' :: Text.decimal network.prefixLength

/-! ## Leading bits -/

/-- Addresses of one family that agree on their leading bits. -/
def SharesLeading (count : Nat) : IpAddr → IpAddr → Prop
  | .v4 first, .v4 second => ∀ index < count, first.getMsbD index = second.getMsbD index
  | .v6 first, .v6 second => ∀ index < count, first.getMsbD index = second.getMsbD index
  | _, _ => False

theorem getMsbD_mask {width count : Nat} (within : count ≤ width) (bits : BitVec width)
    (index : Nat) :
    (bits &&& BitVec.allOnes width <<< (width - count)).getMsbD index =
      (bits.getMsbD index && decide (index < count)) := by
  have bound : index + (width - count) < width ↔ index < count := by omega
  simp [BitVec.getMsbD_and, BitVec.getMsbD_shiftLeft, BitVec.getMsbD_allOnes, bound]

/-- Masks agree where the leading bits do. -/
theorem mask_eq_mask_iff {width count : Nat} (within : count ≤ width) {first second : BitVec width} :
    (first &&& BitVec.allOnes width <<< (width - count)) =
        (second &&& BitVec.allOnes width <<< (width - count)) ↔
      ∀ index < count, first.getMsbD index = second.getMsbD index := by
  constructor
  · intro same index below
    have bit := congrArg (BitVec.getMsbD · index) same
    simpa [getMsbD_mask within, below] using bit
  · intro agree
    refine BitVec.eq_of_getMsbD_eq fun index _ => ?_
    rw [getMsbD_mask within, getMsbD_mask within]
    by_cases below : index < count
    · rw [agree index below]
    · simp [below]

/-- Masked addresses are the same where the leading bits are. -/
theorem maskedAddress_eq_iff {count : Nat} {first second : IpAddr} (within : count ≤ second.width) :
    maskedAddress count first = maskedAddress count second ↔ SharesLeading count first second := by
  cases first with
  | v4 bits =>
      cases second with
      | v4 other =>
          rw [maskedAddress, maskedAddress, IpAddr.v4.injEq]
          exact mask_eq_mask_iff within
      | v6 other => simp [maskedAddress, SharesLeading]
  | v6 bits =>
      cases second with
      | v4 other => simp [maskedAddress, SharesLeading]
      | v6 other =>
          rw [maskedAddress, maskedAddress, IpAddr.v6.injEq]
          exact mask_eq_mask_iff within

theorem isV4_maskedAddress (count : Nat) (address : IpAddr) :
    (maskedAddress count address).isV4 = address.isV4 := by
  cases address <;> rfl

theorem width_maskedAddress (count : Nat) (address : IpAddr) :
    (maskedAddress count address).width = address.width := by
  cases address <;> rfl

theorem isV4_eq_of_sharesLeading {count : Nat} {first second : IpAddr}
    (shares : SharesLeading count first second) : first.isV4 = second.isV4 := by
  cases first <;> cases second <;> first | rfl | exact shares.elim

/-- Masking twice is masking once. -/
theorem maskedAddress_maskedAddress (count : Nat) (address : IpAddr) :
    maskedAddress count (maskedAddress count address) = maskedAddress count address := by
  cases address <;> simp only [maskedAddress, BitVec.and_assoc, BitVec.and_self]

/-! ## Construction -/

/-- Whether an address and a prefix amount to a whole family. -/
def WholeFamily (prefixLength : Nat) (address : IpAddr) : Prop :=
  prefixLength = 0 ∨ (address.toCanonical ≠ address ∧ prefixLength = 96)

theorem block_eq_zero_iff {prefixLength : Nat} {address : IpAddr} :
    (block prefixLength address).2 = 0 ↔ WholeFamily prefixLength address := by
  cases address with
  | v4 bits => simp [block, WholeFamily, IpAddr.toCanonical]
  | v6 bits =>
      rw [block, WholeFamily, IpAddr.toCanonical]
      by_cases mapped : bits >>> 32 = 0xffff
      · rw [if_pos mapped]
        by_cases long : 96 ≤ prefixLength
        · rw [if_pos ⟨long, mapped⟩]
          simp only [ne_eq, reduceCtorEq, not_false_eq_true, true_and]
          omega
        · rw [if_neg fun both => long both.1]
          simp only [ne_eq, reduceCtorEq, not_false_eq_true, true_and]
          omega
      · rw [if_neg mapped, if_neg fun both => mapped both.2]
        simp

section New

variable {address : IpAddr} {prefixLength : Nat} {network : Network}

/-- What is made of an address and a prefix. -/
theorem new_eq_ok_iff : new address prefixLength = .ok network ↔
    ∃ within : prefixLength ≤ address.width, ¬ WholeFamily prefixLength address ∧
      network = masked (block prefixLength address).1 (block prefixLength address).2
        (block_within within) := by
  rw [new]
  split
  · rename_i within
    split
    · rename_i whole
      exact iff_of_false nofun fun made => made.2.1 (block_eq_zero_iff.mp whole)
    · rename_i part
      rw [Except.ok.injEq, eq_comm]
      exact ⟨fun same => ⟨within, fun whole => part (block_eq_zero_iff.mpr whole), same⟩,
        fun made => made.2.2⟩
  · rename_i outside
    exact iff_of_false nofun fun made => outside made.1

theorem exists_new_iff : (∃ network, new address prefixLength = .ok network) ↔
    prefixLength ≤ address.width ∧ ¬ WholeFamily prefixLength address := by
  simp only [new_eq_ok_iff]
  exact ⟨fun ⟨_, within, part, _⟩ => ⟨within, part⟩, fun ⟨within, part⟩ => ⟨_, within, part, rfl⟩⟩

/-- Whether an address is in a block that was made. -/
theorem contains_iff (made : new address prefixLength = .ok network) (other : IpAddr) :
    network.contains other = true ↔ SharesLeading network.prefixLength other.toCanonical
      (block prefixLength address).1 := by
  obtain ⟨within, -, rfl⟩ := new_eq_ok_iff.mp made
  rw [contains, Bool.and_eq_true, beq_iff_eq, beq_iff_eq]
  change _ ∧ maskedAddress (block prefixLength address).2 _ =
    maskedAddress (block prefixLength address).2 _ ↔ _
  rw [maskedAddress_eq_iff (block_within within)]
  refine ⟨And.right, fun shares => ⟨?_, shares⟩⟩
  rw [isV4_eq_of_sharesLeading shares]
  exact (isV4_maskedAddress _ _).symm

end New

/-! ## Mapped forms -/

/-- `Ipv4Addr::to_ipv6_mapped`. -/
def toIpv6Mapped (bits : BitVec 32) : IpAddr :=
  .v6 (BitVec.ofNat 128 (0xffff00000000 + bits.toNat))

theorem toCanonical_toIpv6Mapped (bits : BitVec 32) :
    (toIpv6Mapped bits).toCanonical = .v4 bits := by
  have bound : bits.toNat < 4294967296 := bits.isLt
  have value : (BitVec.ofNat 128 (0xffff00000000 + bits.toNat)).toNat =
      0xffff00000000 + bits.toNat := by
    rw [BitVec.toNat_ofNat]
    omega
  have high : BitVec.ofNat 128 (0xffff00000000 + bits.toNat) >>> 32 = 0xffff := by
    refine BitVec.eq_of_toNat_eq ?_
    rw [BitVec.toNat_ushiftRight, value, Nat.shiftRight_eq_div_pow]
    change (0xffff00000000 + bits.toNat) / 4294967296 = 65535
    omega
  have low : (BitVec.ofNat 128 (0xffff00000000 + bits.toNat)).truncate 32 = bits := by
    refine BitVec.eq_of_toNat_eq ?_
    rw [BitVec.truncate_eq_setWidth, BitVec.toNat_setWidth, value]
    omega
  rw [toIpv6Mapped, IpAddr.toCanonical, if_pos high, low]

/-- An address is where its mapped form is. -/
theorem contains_toIpv6Mapped (network : Network) (bits : BitVec 32) :
    network.contains (toIpv6Mapped bits) = network.contains (.v4 bits) := by
  rw [contains, toCanonical_toIpv6Mapped]
  rfl

/-! ## Text -/

/-- A mask of 96 bits or more keeps what tells a mapped address. -/
theorem mask_ushiftRight {prefixLength : Nat} (long : 96 ≤ prefixLength) (bits : BitVec 128) :
    (bits &&& BitVec.allOnes 128 <<< (128 - prefixLength)) >>> 32 = bits >>> 32 := by
  refine BitVec.eq_of_getLsbD_eq fun index inside => ?_
  have kept : ¬ 32 + index < 128 - prefixLength := by omega
  by_cases within : 32 + index < 128
  · have past : 32 + index - (128 - prefixLength) < 128 := by omega
    simp only [BitVec.getLsbD_ushiftRight, BitVec.getLsbD_and, BitVec.getLsbD_shiftLeft,
      BitVec.getLsbD_allOnes, within, kept, past, decide_true, decide_false, Bool.not_false,
      Bool.and_true]
  · rw [BitVec.getLsbD_ushiftRight, BitVec.getLsbD_ushiftRight,
      BitVec.getLsbD_of_ge _ _ (by omega), BitVec.getLsbD_of_ge _ _ (by omega)]

/-- The first address of a block names the block. -/
theorem block_maskedAddress (prefixLength : Nat) (address : IpAddr) :
    block (block prefixLength address).2
        (maskedAddress (block prefixLength address).2 (block prefixLength address).1) =
      (maskedAddress (block prefixLength address).2 (block prefixLength address).1,
        (block prefixLength address).2) := by
  cases address with
  | v4 bits => rfl
  | v6 bits =>
      by_cases mapped : 96 ≤ prefixLength ∧ bits >>> 32 = 0xffff
      · rw [block, if_pos mapped]
        rfl
      · have unmapped : ¬ (96 ≤ prefixLength ∧
            (bits &&& BitVec.allOnes 128 <<< (128 - prefixLength)) >>> 32 = 0xffff) := by
          rintro ⟨long, isMapped⟩
          rw [mask_ushiftRight long] at isMapped
          exact mapped ⟨long, isMapped⟩
        rw [block, if_neg mapped, maskedAddress, block, if_neg unmapped]

theorem eq_of_address {first second : Network} (address : first.address = second.address)
    (prefixLength : first.prefixLength = second.prefixLength) : first = second := by
  cases first
  cases second
  obtain rfl := address
  obtain rfl := prefixLength
  rfl

/-- A network is made of its own address and prefix. -/
theorem new_of_made {address : IpAddr} {prefixLength : Nat} {network : Network}
    (made : new address prefixLength = .ok network) :
    new network.address network.prefixLength = .ok network := by
  obtain ⟨within, part, rfl⟩ := new_eq_ok_iff.mp made
  have same := block_maskedAddress prefixLength address
  rw [← block_eq_zero_iff] at part
  refine new_eq_ok_iff.mpr ⟨(masked _ _ _).within, ?_, eq_of_address ?_ ?_⟩
  · rw [← block_eq_zero_iff]
    change (block (block prefixLength address).2
      (maskedAddress (block prefixLength address).2 (block prefixLength address).1)).2 ≠ 0
    rw [same]
    exact part
  · change _ = maskedAddress (block (block prefixLength address).2
      (maskedAddress (block prefixLength address).2 (block prefixLength address).1)).2
        (block (block prefixLength address).2
          (maskedAddress (block prefixLength address).2 (block prefixLength address).1)).1
    rw [same]
    exact (maskedAddress_maskedAddress _ _).symm
  · change _ = (block (block prefixLength address).2
      (maskedAddress (block prefixLength address).2 (block prefixLength address).1)).2
    rw [same]
    rfl

theorem fromStr_display {network : Network}
    (made : new network.address network.prefixLength = .ok network) :
    fromStr (display network) = .ok network := by
  have absent : '/' ∉ network.address.display :=
    IpAddr.notMem_display (by decide) (by decide) (by decide) (by decide) network.address
  have halves : splitOnce '/' (display network) =
      some (network.address.display, Text.decimal network.prefixLength) :=
    splitOnce_eq_some_iff.mpr ⟨absent, rfl⟩
  have small : network.prefixLength ≤ 255 := by
    refine network.within.trans ?_
    cases network.address <;> simp [IpAddr.width]
  have unpadded : (1 < (Text.decimal network.prefixLength).length &&
      (Text.decimal network.prefixLength).head? == some '0') = false := by
    rcases Nat.eq_zero_or_pos network.prefixLength with isZero | positive
    · rw [isZero]
      rfl
    · simp [Text.decimal, IpAddr.head?_toDigits (by decide : 1 < 10) (by decide) positive]
  have nonempty : (Text.decimal network.prefixLength).isEmpty = false :=
    List.isEmpty_eq_false_iff.mpr (Text.decimal_ne_nil _)
  rw [fromStr, halves]
  dsimp only
  rw [IpAddr.parse_display]
  dsimp only
  rw [nonempty, Text.all_isAsciiDigit_decimal, unpadded, Text.ofDigitChars_decimal, if_pos small]
  exact made

/-! ## What a network is -/

/-- The form an address is read in where a block is made of it. -/
def readFor (prefixLength : Nat) (address : IpAddr) : IpAddr :=
  if 96 ≤ prefixLength then address.toCanonical else address

theorem block_fst (prefixLength : Nat) (address : IpAddr) :
    (block prefixLength address).1 = readFor prefixLength address := by
  cases address with
  | v4 bits => simp [block, readFor, IpAddr.toCanonical]
  | v6 bits =>
      rw [block, readFor, IpAddr.toCanonical]
      by_cases long : 96 ≤ prefixLength
      · rw [if_pos long]
        by_cases mapped : bits >>> 32 = 0xffff
        · rw [if_pos ⟨long, mapped⟩, if_pos mapped]
        · rw [if_neg fun both => mapped both.2, if_neg mapped]
      · rw [if_neg fun both => long both.1, if_neg long]

theorem block_snd {prefixLength : Nat} {address : IpAddr} (within : prefixLength ≤ address.width) :
    (block prefixLength address).2 + (address.width - (block prefixLength address).1.width) =
      prefixLength := by
  cases address with
  | v4 bits => simp [block]
  | v6 bits =>
      rw [block]
      split
      · rename_i mapped
        exact Nat.sub_add_cancel mapped.1
      · rw [Nat.sub_self, Nat.add_zero]

/-- A network is made of an address and a prefix within its width unless they
amount to a whole family, and holds the addresses that share the leading bits,
the address it is made of read in canonical form where the prefix holds the bits
that tell a mapped address. -/
theorem new_exact (address : IpAddr) (prefixLength : Nat) :
    ((∃ network, new address prefixLength = .ok network) ↔
      prefixLength ≤ address.width ∧ ¬ WholeFamily prefixLength address) ∧
    ∀ network, new address prefixLength = .ok network →
      network.prefixLength + (address.width - network.address.width) = prefixLength ∧
      (∀ other, network.contains other = true ↔
        other.toCanonical.isV4 = network.address.isV4 ∧
          (readFor prefixLength address).isV4 = network.address.isV4 ∧
          SharesLeading network.prefixLength other.toCanonical (readFor prefixLength address)) ∧
      (∀ bits, network.contains (toIpv6Mapped bits) = network.contains (.v4 bits)) ∧
      fromStr (display network) = .ok network := by
  refine ⟨exists_new_iff, fun network made => ⟨?_, fun other => ?_, contains_toIpv6Mapped network,
    fromStr_display (new_of_made made)⟩⟩
  · obtain ⟨within, -, rfl⟩ := new_eq_ok_iff.mp made
    have split := block_snd within
    change (block prefixLength address).2 + (address.width - (maskedAddress _ _).width) = _
    rwa [width_maskedAddress]
  · have family : (readFor prefixLength address).isV4 = network.address.isV4 := by
      obtain ⟨within, -, rfl⟩ := new_eq_ok_iff.mp made
      rw [← block_fst]
      exact (isV4_maskedAddress _ _).symm
    rw [contains_iff made, block_fst]
    refine ⟨fun shares => ⟨?_, family, shares⟩, fun both => both.2.2⟩
    rw [isV4_eq_of_sharesLeading shares, family]

/-- `::ffff:10.0.0.0/80` holds `::1`, though the canonical form of its address is
of the other family. -/
theorem contains_short_mapped :
    ∃ network, new (.v6 0xffff0a000000) 80 = .ok network ∧
      ¬ (network.contains (.v6 1) = true ↔
        (IpAddr.v6 1).toCanonical.isV4 = network.address.isV4 ∧
          (IpAddr.v6 0xffff0a000000).toCanonical.isV4 = network.address.isV4 ∧
          SharesLeading network.prefixLength (IpAddr.v6 1).toCanonical
            (IpAddr.v6 0xffff0a000000).toCanonical) := by
  refine ⟨_, rfl, ?_⟩
  intro same
  exact absurd (same.mp (by decide +kernel)).2.1 (by decide +kernel)

end Network

end Kynos.Net
