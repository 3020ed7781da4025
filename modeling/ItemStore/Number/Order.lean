import ItemStore.Number.Range

/-!
The order of decimal numbers does not depend on the power of ten at which they are compared, and
numbers that compare as equal are the same.
-/

namespace ItemStore

namespace Decimal

theorem coefficientAt_split (number : Decimal) {low middle : Int} (lower : low ≤ middle)
    (upper : middle ≤ number.exponent) :
    number.coefficientAt low =
      number.coefficientAt middle * Nat.pow 10 (middle - low).toNat := by
  have split : (number.exponent - low).toNat =
      (number.exponent - middle).toNat + (middle - low).toNat := by omega
  simp only [coefficientAt, Nat.pow_eq, split, Nat.pow_add, Int.natCast_mul, Int.mul_assoc]

theorem compare_mul_right (a b : Int) {factor : Int} (positive : 0 < factor) :
    compare (a * factor) (b * factor) = compare a b := by
  have less : a * factor < b * factor ↔ a < b := Int.mul_lt_mul_right positive
  have equal : a * factor = b * factor ↔ a = b := Int.mul_eq_mul_right_iff (by omega)
  simp only [compare, compareOfLessAndEq, less, equal]

theorem compare_eq_at (a b : Decimal) {exponent : Int} (left : exponent ≤ a.exponent)
    (right : exponent ≤ b.exponent) :
    compare a b = compare (a.coefficientAt exponent) (b.coefficientAt exponent) := by
  have positive : (0 : Int) < Nat.pow 10 (min a.exponent b.exponent - exponent).toNat :=
    Int.natCast_pos.mpr (Nat.pow_pos (by decide))
  rw [a.coefficientAt_split (Int.le_min.mpr ⟨left, right⟩) (Int.min_le_left _ _),
    b.coefficientAt_split (Int.le_min.mpr ⟨left, right⟩) (Int.min_le_right _ _),
    compare_mul_right _ _ positive]
  rfl

instance : Std.TransOrd Decimal where
  eq_swap {a b} := by
    have left : min a.exponent b.exponent ≤ a.exponent := by omega
    have right : min a.exponent b.exponent ≤ b.exponent := by omega
    rw [compare_eq_at a b left right, compare_eq_at b a right left]
    exact Std.OrientedOrd.eq_swap
  isLE_trans {a b c} first second := by
    have low : ∃ exponent, exponent ≤ a.exponent ∧ exponent ≤ b.exponent ∧
        exponent ≤ c.exponent :=
      ⟨min a.exponent (min b.exponent c.exponent), by omega, by omega, by omega⟩
    obtain ⟨exponent, belowA, belowB, belowC⟩ := low
    rw [compare_eq_at a b belowA belowB] at first
    rw [compare_eq_at b c belowB belowC] at second
    rw [compare_eq_at a c belowA belowC]
    exact Std.TransOrd.isLE_trans first second

/-- A number that has the same coefficient at a power of ten below its own is zero, since the
coefficient of any other ends in no zero. -/
theorem exponent_le_of_coefficientAt_eq {a b : Decimal}
    (same : a.coefficientAt a.exponent = b.coefficientAt a.exponent) :
    b.exponent ≤ a.exponent := by
  by_cases above : b.exponent ≤ a.exponent
  · exact above
  · have scaled : (b.exponent - a.exponent).toNat = (b.exponent - a.exponent).toNat - 1 + 1 := by
      omega
    have multiple : a.coefficient =
        b.coefficient * Nat.pow 10 ((b.exponent - a.exponent).toNat - 1) * 10 := by
      have plain : a.coefficientAt a.exponent = a.coefficient := by simp [coefficientAt]
      rw [← plain, same, coefficientAt, Nat.pow_eq, scaled, Nat.pow_succ, Int.natCast_mul,
        Int.mul_assoc]
      rfl
    have zeroA := a.normal (by omega)
    have zeroB : b.coefficient = 0 := by
      have vanishes : b.coefficient * Nat.pow 10 ((b.exponent - a.exponent).toNat - 1) = 0 := by
        omega
      have nonzero : (Nat.pow 10 ((b.exponent - a.exponent).toNat - 1) : Int) ≠ 0 :=
        Int.natCast_ne_zero.mpr (Nat.ne_of_gt (Nat.pow_pos (by decide)))
      exact (Int.mul_eq_zero.mp vanishes).resolve_right nonzero
    have zeroExponent := (b.normal (by omega)).2
    omega

theorem eq_of_compare_eq {a b : Decimal} (same : compare a b = .eq) : a = b := by
  have coefficients : a.coefficientAt (min a.exponent b.exponent) =
      b.coefficientAt (min a.exponent b.exponent) := Std.LawfulEqOrd.eq_of_compare same
  have exponents : a.exponent = b.exponent := by
    rcases Int.le_total a.exponent b.exponent with lower | lower
    · rw [Int.min_eq_left lower] at coefficients
      exact Int.le_antisymm lower (exponent_le_of_coefficientAt_eq coefficients)
    · rw [Int.min_eq_right lower] at coefficients
      exact Int.le_antisymm (exponent_le_of_coefficientAt_eq coefficients.symm) lower
  obtain ⟨coefficientA, exponentA, _⟩ := a
  obtain ⟨coefficientB, exponentB, _⟩ := b
  subst exponents
  simp [coefficientAt] at coefficients
  subst coefficients
  rfl

instance : Std.LawfulEqOrd Decimal where
  compare_self := Std.ReflOrd.compare_self
  eq_of_compare := eq_of_compare_eq

end Decimal

namespace Number

instance : Std.TransOrd Number :=
  inferInstanceAs (Std.TransCmp (compareOn Number.value))

instance : Std.LawfulEqOrd Number where
  compare_self := Std.ReflOrd.compare_self
  eq_of_compare {a b} same := by
    obtain ⟨valueA, _⟩ := a
    obtain ⟨valueB, _⟩ := b
    have equal : valueA = valueB := Std.LawfulEqOrd.eq_of_compare (α := Decimal) same
    subst equal
    rfl

end Number
end ItemStore
