import Kynos.Text.Str
import Mathlib.Algebra.Ring.Nat

/-!
# Weights

The `q` parameter of RFC 9110 section 12.4.2, in thousandths.
-/

namespace Kynos.Http.Quality

open Kynos.Word

/-- The value of a decimal digit. -/
def digitValue (digit : Char) : Nat :=
  digit.toNat - '0'.toNat

/-- The weight a text states; `none` when it is not a qvalue. -/
def parse (value : Text) : Option Nat :=
  let (whole, fraction) := (splitOnce '.' value).getD (value, [])
  if fraction.length > 3 || !fraction.all Text.isAsciiDigit then
    none
  else if whole = ['0'] then
    some (List.zipWith (fun digit place => digitValue digit * place) fraction [100, 10, 1]).sum
  else if whole = ['1'] then
    if fraction.all (· = '0') then some 1000 else none
  else
    none

/-- The weight of an element whose earlier parameters state `quality`. -/
def weightFrom (quality : Nat) : List Text → Option Nat
  | [] => some quality
  | parameter :: rest =>
      match splitOnce '=' (Text.trim parameter) with
      | none => none
      | some (name, value) =>
          if Text.eqIgnoreAsciiCase (Text.trim name) ['q'] then
            match parse (Text.trim value) with
            | none => none
            | some quality => weightFrom quality rest
          else
            weightFrom quality rest

/-- The weight a list element's parameters state: the last `q`'s, or `1` where
none is `q`; `none` when a parameter has no `=` or a `q` is not a qvalue. -/
def weight (parameters : List Text) : Option Nat :=
  weightFrom 1000 parameters

/-! ## The qvalues -/

/-- A qvalue and its thousandths: `0` or `1`, bare or followed by a point and at
most three digits, which are zeros after `1`. -/
inductive IsQvalue : Text → Nat → Prop where
  | bareZero : IsQvalue ['0'] 0
  | bareOne : IsQvalue ['1'] 1000
  | zero {digits : Text} (short : digits.length ≤ 3)
      (decimal : ∀ digit ∈ digits, Text.isAsciiDigit digit = true) :
      IsQvalue ('0' :: '.' :: digits) (Nat.ofDigitChars 10 digits 0 * 10 ^ (3 - digits.length))
  | one {digits : Text} (short : digits.length ≤ 3) (zeros : ∀ digit ∈ digits, digit = '0') :
      IsQvalue ('1' :: '.' :: digits) 1000

/-- At most three digits after the point, by place. -/
theorem sum_places {digits : Text} (short : digits.length ≤ 3) :
    (List.zipWith (fun digit place => digitValue digit * place) digits [100, 10, 1]).sum =
      Nat.ofDigitChars 10 digits 0 * 10 ^ (3 - digits.length) := by
  match digits with
  | [] => rfl
  | [first] =>
      simp [digitValue, Nat.ofDigitChars]
  | [first, second] =>
      simp [digitValue, Nat.ofDigitChars]
      omega
  | [first, second, third] =>
      simp [digitValue, Nat.ofDigitChars]
      omega
  | _ :: _ :: _ :: _ :: _ =>
      simp only [List.length_cons] at short
      omega

theorem parse_bare {value : Text} (bare : splitOnce '.' value = none) {quality : Nat} :
    parse value = some quality ↔ value = ['0'] ∧ quality = 0 ∨ value = ['1'] ∧ quality = 1000 := by
  have reads : parse value =
      if value = ['0'] then some 0 else if value = ['1'] then some 1000 else none := by
    simp [parse, bare]
  rw [reads]
  split_ifs with isZero isOne
  · simp only [isZero, Option.some.injEq, true_and, List.cons.injEq, Char.reduceEq, false_and, or_false]
    exact eq_comm
  · simp only [isOne, Option.some.injEq, true_and, List.cons.injEq, Char.reduceEq, false_and, false_or]
    exact eq_comm
  · simp [isZero, isOne]

theorem parse_pointed {value whole fraction : Text}
    (pointed : splitOnce '.' value = some (whole, fraction)) {quality : Nat} :
    parse value = some quality ↔
      fraction.length ≤ 3 ∧ (∀ digit ∈ fraction, Text.isAsciiDigit digit = true) ∧
        (whole = ['0'] ∧ quality = Nat.ofDigitChars 10 fraction 0 * 10 ^ (3 - fraction.length) ∨
          whole = ['1'] ∧ (∀ digit ∈ fraction, digit = '0') ∧ quality = 1000) := by
  simp only [parse, pointed, Option.getD_some]
  by_cases refused : fraction.length > 3 || !fraction.all Text.isAsciiDigit
  · rw [if_pos refused]
    simp only [Bool.or_eq_true, decide_eq_true_eq, Bool.not_eq_true', List.all_eq_false] at refused
    refine iff_of_false (by simp) ?_
    rintro ⟨short, decimal, -⟩
    rcases refused with long | ⟨digit, member, notDigit⟩
    · omega
    · exact notDigit (decimal digit member)
  · rw [if_neg refused]
    simp only [Bool.or_eq_true, decide_eq_true_eq, Bool.not_eq_true', not_or, Nat.not_lt,
      Bool.not_eq_false, List.all_eq_true] at refused
    obtain ⟨short, decimal⟩ := refused
    by_cases isZero : whole = ['0']
    · subst whole
      rw [if_pos rfl, sum_places short, Option.some.injEq]
      constructor
      · rintro rfl
        exact ⟨short, decimal, .inl ⟨rfl, rfl⟩⟩
      · rintro ⟨-, -, ⟨-, rfl⟩ | ⟨isOne, -⟩⟩
        · rfl
        · cases isOne
    · by_cases isOne : whole = ['1']
      · subst whole
        rw [if_neg (by decide), if_pos rfl, Option.ite_none_right_eq_some, List.all_eq_true]
        constructor
        · rintro ⟨zeros, isOne⟩
          exact ⟨short, decimal, .inr ⟨rfl, by simpa using zeros, (Option.some.inj isOne).symm⟩⟩
        · rintro ⟨-, -, ⟨isZero, -⟩ | ⟨-, zeros, rfl⟩⟩
          · cases isZero
          · exact ⟨by simpa using zeros, rfl⟩
      · simp [isZero, isOne]

theorem parse_eq_some_iff {value : Text} {quality : Nat} :
    parse value = some quality ↔ IsQvalue value quality := by
  cases cut : splitOnce '.' value with
  | none =>
      have noPoint : '.' ∉ value := splitOnce_eq_none_iff.mp cut
      rw [parse_bare cut]
      constructor
      · rintro (⟨rfl, rfl⟩ | ⟨rfl, rfl⟩)
        · exact .bareZero
        · exact .bareOne
      · intro isQvalue
        cases isQvalue with
        | bareZero => simp
        | bareOne => simp
        | zero => simp at noPoint
        | one => simp at noPoint
  | some pieces =>
      obtain ⟨whole, fraction⟩ := pieces
      obtain ⟨-, rfl⟩ := splitOnce_eq_some_iff.mp cut
      rw [parse_pointed cut]
      constructor
      · rintro ⟨short, decimal, ⟨rfl, rfl⟩ | ⟨rfl, zeros, rfl⟩⟩
        · exact .zero short decimal
        · exact .one short zeros
      · intro isQvalue
        generalize written : whole ++ '.' :: fraction = value at isQvalue cut
        cases isQvalue with
        | bareZero => simp [splitOnce] at cut
        | bareOne => simp [splitOnce] at cut
        | zero short decimal =>
            simp only [splitOnce, Char.reduceEq, if_false, if_true, Option.map_some,
              Option.some.injEq, Prod.mk.injEq] at cut
            obtain ⟨rfl, rfl⟩ := cut
            exact ⟨short, decimal, .inl ⟨rfl, rfl⟩⟩
        | one short zeros =>
            simp only [splitOnce, Char.reduceEq, if_false, if_true, Option.map_some,
              Option.some.injEq, Prod.mk.injEq] at cut
            obtain ⟨rfl, rfl⟩ := cut
            refine ⟨short, fun digit member => ?_, .inr ⟨rfl, zeros, rfl⟩⟩
            rw [zeros digit member]
            rfl

end Kynos.Http.Quality
