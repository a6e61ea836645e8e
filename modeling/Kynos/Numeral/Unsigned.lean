import Mathlib.Algebra.Ring.Nat
import Mathlib.Order.Defs.LinearOrder
import Mathlib.Order.Lattice
import Mathlib.Order.MinMax
import Mathlib.Tactic.Common

/-!
# Unsigned machine integers and durations

The checked and saturating operations of unsigned machine integers, over
natural numbers. An integer of the machine is a natural number at most the
bound; every operation names the bound it is checked against. A span of time is
in whole nanoseconds, as Rust's `Duration` holds it: at most `u64::MAX` seconds
and a fraction of a second below them. Milliseconds are read off by flooring.
-/

namespace Kynos.Numeral

/-- The greatest 64-bit unsigned integer. -/
def u64Max : Nat := 18446744073709551615

/-- The greatest 128-bit unsigned integer. -/
def u128Max : Nat := 340282366920938463463374607431768211455

theorem u64Max_eq : u64Max = 2 ^ 64 - 1 := rfl

theorem u128Max_eq : u128Max = 2 ^ 128 - 1 := rfl

/-- The product, unless it is past `bound`. -/
def checkedMul (bound a b : Nat) : Option Nat :=
  if a * b ≤ bound then some (a * b) else none

/-- The sum, unless it is past `bound`. -/
def checkedAdd (bound a b : Nat) : Option Nat :=
  if a + b ≤ bound then some (a + b) else none

/-- The sum, held at `bound`. -/
def saturatingAdd (bound a b : Nat) : Nat :=
  min (a + b) bound

/-- The product, held at `bound`. -/
def saturatingMul (bound a b : Nat) : Nat :=
  min (a * b) bound

theorem saturatingAdd_eq_of_le {bound a b : Nat} (fits : a + b ≤ bound) :
    saturatingAdd bound a b = a + b :=
  min_eq_left fits

theorem saturatingAdd_le (bound a b : Nat) : saturatingAdd bound a b ≤ bound :=
  min_le_right _ _

theorem saturatingAdd_mono {bound a b c d : Nat} (left : a ≤ c) (right : b ≤ d) :
    saturatingAdd bound a b ≤ saturatingAdd bound c d :=
  min_le_min (Nat.add_le_add left right) le_rfl

theorem saturatingMul_mono {bound a b c d : Nat} (left : a ≤ c) (right : b ≤ d) :
    saturatingMul bound a b ≤ saturatingMul bound c d :=
  min_le_min (Nat.mul_le_mul left right) le_rfl

/-!
## Saturating decimal numerals

A machine reads a decimal numeral one digit at a time into a bounded integer.
Reading with saturation yields the numeral's value held at the bound, for
numerals of every length: an overflow is never undone by a later digit.
-/

/-- One digit onto a bounded accumulator; an overflow sends it to the bound. -/
def saturatingStep (bound value : Nat) (digit : Char) : Nat :=
  ((checkedMul bound value 10).bind
    fun value => checkedAdd bound value (digit.toNat - '0'.toNat)).getD bound

/-- The digits of a numeral onto a bounded accumulator. -/
def saturatingRead (bound : Nat) (numeral : List Char) : Nat :=
  numeral.foldl (saturatingStep bound) 0

/-- Holding the accumulator at the bound before a digit or after it is the
same. -/
theorem saturatingStep_min (bound value : Nat) (digit : Char) :
    saturatingStep bound (min value bound) digit =
      min (10 * value + (digit.toNat - '0'.toNat)) bound := by
  simp only [saturatingStep, checkedMul, checkedAdd]
  generalize digit.toNat - '0'.toNat = units
  split
  · simp only [Option.bind_some]
    split
    · simp only [Option.getD_some]
      omega
    · simp only [Option.getD_none]
      omega
  · simp only [Option.bind_none, Option.getD_none]
    omega

theorem foldl_saturatingStep (bound : Nat) (numeral : List Char) (value : Nat) :
    numeral.foldl (saturatingStep bound) (min value bound) =
      min (Nat.ofDigitChars 10 numeral value) bound := by
  induction numeral generalizing value with
  | nil => simp
  | cons digit rest ih =>
      rw [List.foldl_cons, saturatingStep_min, ih, Nat.ofDigitChars_cons]

/-- A numeral of any length reads as its value held at the bound. -/
theorem saturatingRead_eq (bound : Nat) (numeral : List Char) :
    saturatingRead bound numeral = min (Nat.ofDigitChars 10 numeral 0) bound := by
  have start : min 0 bound = 0 := Nat.zero_min bound
  rw [← foldl_saturatingStep, start, saturatingRead]

end Kynos.Numeral

namespace Kynos.Numeral

/-- `Duration`, in nanoseconds. -/
abbrev Duration := Nat

namespace Duration

/-- `Duration::MAX`. -/
def max : Duration := u64Max * 1000000000 + 999999999

theorem max_eq : max = 18446744073709551615999999999 := rfl

/-- `Duration::as_millis`. -/
def asMillis (duration : Duration) : Nat := duration / 1000000

/-- Whole seconds, rounded up: `whole_seconds`. -/
def wholeSeconds (duration : Duration) : Nat :=
  Numeral.saturatingAdd u64Max (duration / 1000000000)
    (if duration % 1000000000 > 0 then 1 else 0)

/-- `Duration::from_millis`. -/
def fromMillis (millis : Nat) : Duration := millis * 1000000

/-- `Duration::saturating_sub`. -/
def saturatingSub (duration other : Duration) : Duration := duration - other

/-- `Duration::saturating_add`. -/
def saturatingAdd (duration other : Duration) : Duration :=
  Numeral.saturatingAdd max duration other

/-- `Duration::saturating_mul`. -/
def saturatingMul (duration : Duration) (factor : Nat) : Duration :=
  Numeral.saturatingMul max duration factor

@[simp]
theorem asMillis_fromMillis (millis : Nat) : asMillis (fromMillis millis) = millis :=
  Nat.mul_div_cancel millis (by decide)

/-- Whole seconds are the seconds rounded up, held at the bound. -/
theorem wholeSeconds_eq (duration : Nat) :
    wholeSeconds duration = min u64Max ((duration + 999999999) / 1000000000) := by
  have rounded : duration / 1000000000 + (if duration % 1000000000 > 0 then 1 else 0) =
      (duration + 999999999) / 1000000000 := by
    split <;> omega
  rw [wholeSeconds, Numeral.saturatingAdd, min_comm]
  exact congrArg _ rounded

theorem asMillis_mono {duration other : Duration} (le : duration ≤ other) :
    asMillis duration ≤ asMillis other :=
  Nat.div_le_div_right le

/-- A sum that fits is not held at the bound. -/
theorem add_fromMillis_le_saturatingAdd {duration : Duration} {past millis : Nat}
    (le : past ≤ millis) (fits : duration + past * 1000000 ≤ max) :
    duration + past * 1000000 ≤ saturatingAdd duration (fromMillis millis) := by
  rw [saturatingAdd, fromMillis, Numeral.saturatingAdd, le_min_iff]
  exact ⟨Nat.add_le_add_left (Nat.mul_le_mul_right _ le) _, fits⟩

end Duration

end Kynos.Numeral
