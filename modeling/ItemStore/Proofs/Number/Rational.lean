import ItemStore.Number.Order
import Mathlib.Algebra.Order.Field.Power
import Mathlib.Data.Rat.Cast.Order
import Mathlib.Tactic.MkIffOfInductiveProp
import Mathlib.Tactic.NormNum
import Mathlib.Tactic.Positivity
import Mathlib.Tactic.Ring

/-!
Decimal numbers as rational ones. The limits on what can be stored are limits on the value: its
magnitude lies between powers of ten, and it is an integer of so many digits times a power of ten.
-/

namespace ItemStore

def HasDigits (count : Nat) (value : ℚ) : Prop :=
  ∃ coefficient exponent : ℤ, |coefficient| < 10 ^ count ∧ value = coefficient * 10 ^ exponent

/-- What the limits allow: zero, and the values of at most 38 significant digits whose magnitude is
from `1E-130` to below `1E+126`. -/
def Storable (value : ℚ) : Prop :=
  value = 0 ∨ HasDigits 38 value ∧ 10 ^ (-130 : ℤ) ≤ |value| ∧ |value| < 10 ^ (126 : ℤ)

@[mk_iff]
inductive Judged (value : ℚ) : Option NumberError → Prop
  | storable (within : Storable value) : Judged value none
  | overflow (large : 10 ^ (126 : ℤ) ≤ |value|) : Judged value (some .overflow)
  | underflow (nonzero : 0 < |value|) (small : |value| < 10 ^ (-130 : ℤ)) :
      Judged value (some .underflow)
  | tooPrecise (atLeast : 10 ^ (-130 : ℤ) ≤ |value|) (below : |value| < 10 ^ (126 : ℤ))
      (long : ¬HasDigits 38 value) : Judged value (some .tooPrecise)

theorem Storable.hasDigits {value : ℚ} (storable : Storable value) : HasDigits 38 value := by
  rcases storable with rfl | ⟨few, _, _⟩
  · exact ⟨0, 0, by norm_num, by simp⟩
  · exact few

theorem Storable.abs_lt {value : ℚ} (storable : Storable value) : |value| < 10 ^ (126 : ℤ) := by
  rcases storable with rfl | ⟨_, _, below⟩
  · rw [abs_zero]
    positivity
  · exact below

theorem Storable.le_abs {value : ℚ} (storable : Storable value) (nonzero : 0 < |value|) :
    10 ^ (-130 : ℤ) ≤ |value| := by
  rcases storable with rfl | ⟨_, atLeast, _⟩
  · exact absurd abs_zero nonzero.ne'
  · exact atLeast

theorem Judged.unique {value : ℚ} {first second : Option NumberError}
    (left : Judged value first) (right : Judged value second) : first = second := by
  have apart : (10 : ℚ) ^ (-130 : ℤ) < 10 ^ (126 : ℤ) :=
    zpow_lt_zpow_right₀ (by norm_num) (by decide)
  cases left with
  | storable within =>
      cases right with
      | storable _ => rfl
      | overflow large => exact absurd within.abs_lt large.not_gt
      | underflow nonzero small => exact absurd small (within.le_abs nonzero).not_gt
      | tooPrecise _ _ long => exact absurd within.hasDigits long
  | overflow large =>
      cases right with
      | storable within => exact absurd within.abs_lt large.not_gt
      | overflow _ => rfl
      | underflow _ small => exact absurd (small.trans apart) large.not_gt
      | tooPrecise _ below _ => exact absurd below large.not_gt
  | underflow nonzero small =>
      cases right with
      | storable within => exact absurd small (within.le_abs nonzero).not_gt
      | overflow large => exact absurd (small.trans apart) large.not_gt
      | underflow _ _ => rfl
      | tooPrecise atLeast _ _ => exact absurd small atLeast.not_gt
  | tooPrecise atLeast below long =>
      cases right with
      | storable within => exact absurd within.hasDigits long
      | overflow large => exact absurd below large.not_gt
      | underflow _ small => exact absurd small atLeast.not_gt
      | tooPrecise _ _ _ => rfl

namespace Decimal

def toRat (number : Decimal) : ℚ :=
  number.coefficient * 10 ^ number.exponent

theorem toRat_ofScaled (coefficient exponent : Int) :
    (ofScaled coefficient exponent).toRat = coefficient * 10 ^ exponent := by
  fun_induction ofScaled with
  | case1 exponent => simp [toRat]
  | case2 coefficient exponent _ divisible ih =>
      have tens : coefficient = coefficient / 10 * 10 := by omega
      calc (ofScaled (coefficient / 10) (exponent + 1)).toRat
          = (coefficient / 10 : ℤ) * (10 ^ exponent * 10) := by
            rw [ih, zpow_add_one₀ (by norm_num)]
        _ = (coefficient / 10 * 10 : ℤ) * 10 ^ exponent := by
            push_cast
            ring
        _ = coefficient * 10 ^ exponent := by rw [← tens]
  | case3 coefficient exponent _ _ => rfl

theorem toRat_eq_coefficientAt (number : Decimal) {exponent : Int}
    (below : exponent ≤ number.exponent) :
    number.toRat = number.coefficientAt exponent * 10 ^ exponent := by
  have split : number.exponent = ((number.exponent - exponent).toNat : ℤ) + exponent := by omega
  calc number.toRat
      = number.coefficient * (10 ^ (number.exponent - exponent).toNat * 10 ^ exponent) := by
        rw [← zpow_natCast, ← zpow_add₀ (by norm_num), ← split, toRat]
    _ = number.coefficientAt exponent * 10 ^ exponent := by
        rw [coefficientAt, Nat.pow_eq]
        push_cast
        ring

/-- Different numbers are different rationals, since no coefficient ends in a zero. -/
theorem toRat_injective : Function.Injective toRat := by
  intro a b same
  rw [a.toRat_eq_coefficientAt (Int.min_le_left a.exponent b.exponent),
    b.toRat_eq_coefficientAt (Int.min_le_right a.exponent b.exponent)] at same
  have coefficients := Int.cast_injective (mul_right_cancel₀ (by positivity) same)
  refine Std.LawfulEqOrd.eq_of_compare (?_ : compare a b = .eq)
  rw [compare_eq_at a b (Int.min_le_left _ _) (Int.min_le_right _ _), coefficients]
  exact Std.ReflOrd.compare_self

theorem toRat_eq_zero_iff {number : Decimal} : number.toRat = 0 ↔ number.coefficient = 0 := by
  simp [toRat, zpow_ne_zero]

theorem abs_toRat_lt_iff {number : Decimal} (nonzero : number.coefficient ≠ 0) (power : ℤ) :
    |number.toRat| < 10 ^ power ↔ number.leadingExponent < power := by
  have one : (1 : ℚ) ≤ number.coefficient.natAbs := by exact_mod_cast Int.natAbs_pos.mpr nonzero
  have magnitude : |number.toRat| = number.coefficient.natAbs * 10 ^ number.exponent := by
    rw [toRat, abs_mul, abs_of_pos (show (0 : ℚ) < 10 ^ number.exponent by positivity),
      Nat.cast_natAbs, Int.cast_abs]
  by_cases above : power ≤ number.exponent
  · have large : (10 : ℚ) ^ power ≤ number.coefficient.natAbs * 10 ^ number.exponent :=
      calc (10 : ℚ) ^ power ≤ 10 ^ number.exponent := zpow_le_zpow_right₀ (by norm_num) above
        _ ≤ number.coefficient.natAbs * 10 ^ number.exponent :=
            le_mul_of_one_le_left (by positivity) one
    have begun : 0 < number.digits.length := Nat.length_toDigits_pos
    rw [magnitude, leadingExponent]
    exact iff_of_false (not_lt.mpr large) (by omega)
  · have split : power = ((power - number.exponent).toNat : ℤ) + number.exponent := by omega
    calc |number.toRat| < 10 ^ power
        ↔ (number.coefficient.natAbs : ℚ) < 10 ^ (power - number.exponent).toNat := by
          rw [magnitude, split, zpow_add₀ (by norm_num), zpow_natCast, ← split]
          exact mul_lt_mul_iff_left₀ (by positivity)
      _ ↔ number.coefficient.natAbs < 10 ^ (power - number.exponent).toNat := by norm_cast
      _ ↔ number.digits.length ≤ (power - number.exponent).toNat :=
          (Nat.length_toDigits_le_iff (by decide) (by omega)).symm
      _ ↔ number.leadingExponent < power := by
          rw [leadingExponent]
          omega

theorem abs_coefficient_ofScaled_le (coefficient exponent : Int) :
    |(ofScaled coefficient exponent).coefficient| ≤ |coefficient| := by
  fun_induction ofScaled with
  | case1 exponent => exact le_refl _
  | case2 coefficient exponent _ divisible ih =>
      refine ih.trans ?_
      simp only [Int.abs_eq_natAbs]
      omega
  | case3 coefficient exponent _ _ => exact le_refl _

theorem hasDigits_toRat_iff (number : Decimal) {count : Nat} (positive : 0 < count) :
    HasDigits count number.toRat ↔ number.digits.length ≤ count := by
  have own : number.digits.length ≤ count ↔ |number.coefficient| < 10 ^ count := by
    rw [digits, Nat.length_toDigits_le_iff (by decide) positive, Int.abs_eq_natAbs]
    exact_mod_cast Iff.rfl
  rw [own]
  constructor
  · rintro ⟨coefficient, exponent, few, same⟩
    have scaled : number = ofScaled coefficient exponent :=
      toRat_injective (same.trans (toRat_ofScaled coefficient exponent).symm)
    rw [scaled]
    exact (abs_coefficient_ofScaled_le coefficient exponent).trans_lt few
  · intro few
    exact ⟨number.coefficient, number.exponent, few, rfl⟩

/-- The check of a number against the limits is one of its value. -/
theorem judged_limitError? (number : Decimal) : Judged number.toRat number.limitError? := by
  rw [limitError?]
  by_cases zero : number.coefficient = 0
  · rw [if_pos zero]
    exact .storable (Or.inl (toRat_eq_zero_iff.mpr zero))
  have below := abs_toRat_lt_iff zero 126
  have small := abs_toRat_lt_iff zero (-130)
  have few := hasDigits_toRat_iff number (show 0 < 38 by decide)
  rw [if_neg zero]
  by_cases high : maxLeadingExponent < number.leadingExponent
  · rw [if_pos high]
    exact .overflow (not_lt.mp (mt below.mp (Int.not_lt.mpr high)))
  rw [if_neg high]
  by_cases low : number.leadingExponent < minLeadingExponent
  · rw [if_pos low]
    exact .underflow (abs_pos.mpr (mt toRat_eq_zero_iff.mp zero)) (small.mpr low)
  rw [if_neg low]
  have within : |number.toRat| < 10 ^ (126 : ℤ) :=
    below.mpr (Int.lt_add_one_of_le (Int.not_lt.mp high))
  have enough : 10 ^ (-130 : ℤ) ≤ |number.toRat| := not_lt.mp (mt small.mp low)
  by_cases long : maxDigits < number.digits.length
  · rw [if_pos long]
    exact .tooPrecise enough within (mt few.mp (Nat.not_le.mpr long))
  · rw [if_neg long]
    exact .storable (Or.inr ⟨few.mpr (Nat.not_lt.mp long), enough, within⟩)

theorem limitError?_eq_iff {number : Decimal} {verdict : Option NumberError} :
    number.limitError? = verdict ↔ Judged number.toRat verdict := by
  constructor
  · rintro rfl
    exact number.judged_limitError?
  · exact number.judged_limitError?.unique

end Decimal
end ItemStore
