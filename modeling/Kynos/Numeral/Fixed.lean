import Mathlib.Algebra.Ring.Nat
import Mathlib.Tactic.Common
import Mathlib.Tactic.Ring

/-!
# Decimal numerals of a fixed width

A number below `10 ^ width` has exactly one numeral of `width` digits: its
decimal spelling padded with zeros. Reading the digits recovers the number.
-/

namespace Kynos.Numeral

/-- The digits of a number, padded with zeros to a width. -/
def fixed (width number : Nat) : List Char :=
  List.replicate (width - (Nat.toDigits 10 number).length) '0' ++ Nat.toDigits 10 number

theorem digit_lt {digit : Char} (isDigit : digit.isDigit = true) : digit.toNat - '0'.toNat < 10 := by
  rw [Char.isDigit_iff_toNat] at isDigit
  have zero : '0'.toNat = 48 := rfl
  have nine : '9'.toNat = 57 := rfl
  omega

theorem ofDigitChars_cons_zero (digit : Char) (rest : List Char) :
    Nat.ofDigitChars 10 (digit :: rest) 0 =
      10 ^ rest.length * (digit.toNat - '0'.toNat) + Nat.ofDigitChars 10 rest 0 := by
  rw [Nat.ofDigitChars_cons, Nat.mul_zero, Nat.zero_add, Nat.ofDigitChars_eq_ofDigitChars_zero]

/-- A numeral's value is below the power of its length. -/
theorem ofDigitChars_lt {numeral : List Char} (digits : ∀ digit ∈ numeral, digit.isDigit = true) :
    Nat.ofDigitChars 10 numeral 0 < 10 ^ numeral.length := by
  induction numeral with
  | nil => simp
  | cons digit rest ih =>
      have first := digit_lt (digits digit List.mem_cons_self)
      have others := ih fun other member => digits other (List.mem_cons_of_mem _ member)
      calc Nat.ofDigitChars 10 (digit :: rest) 0
          = 10 ^ rest.length * (digit.toNat - '0'.toNat) + Nat.ofDigitChars 10 rest 0 :=
            ofDigitChars_cons_zero digit rest
        _ < 10 ^ rest.length * (digit.toNat - '0'.toNat + 1) := by
            rw [Nat.mul_add, Nat.mul_one]
            exact Nat.add_lt_add_left others _
        _ ≤ 10 ^ rest.length * 10 := Nat.mul_le_mul_left _ first
        _ = 10 ^ (digit :: rest).length := (Nat.pow_succ ..).symm

/-- Numerals of one length and one value are the same. -/
theorem eq_of_ofDigitChars_eq {numeral other : List Char}
    (digits : ∀ digit ∈ numeral, digit.isDigit = true)
    (otherDigits : ∀ digit ∈ other, digit.isDigit = true) (lengths : numeral.length = other.length)
    (values : Nat.ofDigitChars 10 numeral 0 = Nat.ofDigitChars 10 other 0) : numeral = other := by
  induction numeral generalizing other with
  | nil => exact (List.length_eq_zero_iff.mp lengths.symm).symm
  | cons digit rest ih =>
      cases other with
      | nil => cases lengths
      | cons digit' rest' =>
          rw [List.length_cons, List.length_cons, Nat.add_right_cancel_iff] at lengths
          rw [ofDigitChars_cons_zero, ofDigitChars_cons_zero, lengths] at values
          have digits' := fun letter member => digits letter (List.mem_cons_of_mem digit member)
          have otherDigits' := fun letter member =>
            otherDigits letter (List.mem_cons_of_mem digit' member)
          have below := ofDigitChars_lt digits'
          have otherBelow := ofDigitChars_lt otherDigits'
          rw [lengths] at below
          have first := digits digit List.mem_cons_self
          have otherFirst := otherDigits digit' List.mem_cons_self
          rw [Char.isDigit_iff_toNat] at first otherFirst
          have zero : '0'.toNat = 48 := rfl
          have heads : digit.toNat - '0'.toNat = digit'.toNat - '0'.toNat := by
            have positive : 0 < 10 ^ rest'.length := Nat.pow_pos (by decide)
            have quotient := congrArg (· / 10 ^ rest'.length) values
            simpa only [Nat.mul_add_div positive, Nat.div_eq_of_lt below,
              Nat.div_eq_of_lt otherBelow, Nat.add_zero] using quotient
          rw [heads, Nat.add_left_cancel_iff] at values
          have same : digit = digit' := by
            apply Char.toNat_inj.mp
            omega
          rw [same, ih digits' otherDigits' lengths values]

variable {width number : Nat}

theorem isDigit_of_mem_fixed {digit : Char} (member : digit ∈ fixed width number) :
    digit.isDigit = true := by
  rw [fixed, List.mem_append, List.mem_replicate] at member
  rcases member with ⟨-, rfl⟩ | member
  · rfl
  · exact Nat.isDigit_of_mem_toDigits (by decide) (by decide) member

theorem length_fixed (positive : 0 < width) (fits : number < 10 ^ width) :
    (fixed width number).length = width := by
  have short := (Nat.length_toDigits_le_iff (by decide) positive).mpr fits
  rw [fixed, List.length_append, List.length_replicate]
  omega

theorem ofDigitChars_fixed : Nat.ofDigitChars 10 (fixed width number) 0 = number := by
  rw [fixed, Nat.ofDigitChars_append, Nat.ofDigitChars_replicate_zero, Nat.mul_zero,
    Nat.ofDigitChars_ten_toDigits]

/-- A numeral is the fixed-width spelling of its value. -/
theorem eq_fixed {numeral : List Char} (digits : ∀ digit ∈ numeral, digit.isDigit = true)
    (nonempty : 0 < numeral.length) :
    numeral = fixed numeral.length (Nat.ofDigitChars 10 numeral 0) :=
  eq_of_ofDigitChars_eq digits (fun _ member => isDigit_of_mem_fixed member)
    (length_fixed nonempty (ofDigitChars_lt digits)).symm ofDigitChars_fixed.symm

/-!
## Numbers as octets, the most significant first

A number below `256 ^ width` is read back from its `width` octets.
-/

/-- The last `width` octets of a number. -/
def toBigEndian : (width number : Nat) → List UInt8
  | 0, _ => []
  | width + 1, number => toBigEndian width (number / 256) ++ [UInt8.ofNat number]

/-- The number octets are read as. -/
def ofBigEndian (octets : List UInt8) : Nat :=
  octets.foldl (fun number octet => number * 256 + octet.toNat) 0

@[simp]
theorem length_toBigEndian (width number : Nat) : (toBigEndian width number).length = width := by
  induction width generalizing number with
  | zero => rfl
  | succ width ih => simp [toBigEndian, ih]

theorem ofBigEndian_concat (octets : List UInt8) (octet : UInt8) :
    ofBigEndian (octets ++ [octet]) = ofBigEndian octets * 256 + octet.toNat := by
  simp [ofBigEndian]

theorem ofBigEndian_toBigEndian {width number : Nat} (below : number < 256 ^ width) :
    ofBigEndian (toBigEndian width number) = number := by
  induction width generalizing number with
  | zero =>
      obtain rfl : number = 0 := by simpa using below
      rfl
  | succ width ih =>
      have quotient : number / 256 < 256 ^ width :=
        Nat.div_lt_of_lt_mul (by rwa [Nat.mul_comm, ← Nat.pow_succ])
      have rest : (UInt8.ofNat number).toNat = number % 256 := UInt8.toNat_ofNat'
      rw [toBigEndian, ofBigEndian_concat, ih quotient, rest, Nat.div_add_mod']

end Kynos.Numeral
