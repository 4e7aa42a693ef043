import BilingualLogic.Decimal.Basic
import Mathlib.Data.Rat.Cast.Order
import Mathlib.Tactic.NormNum

/-!
The number that a decimal stands for: two decimals are equal if they stand for one number.
-/

namespace BilingualLogic.Decimal

def toRat (a : Decimal) : ℚ := a.coefficient / (10 : ℚ) ^ a.scale

theorem coefficientAt_eq (a : Decimal) {k : Nat} (h : a.scale ≤ k) :
    (a.coefficientAt k : ℚ) = a.toRat * (10 : ℚ) ^ k := by
  have hs : (10 : ℚ) ^ a.scale ≠ 0 := pow_ne_zero _ (by norm_num)
  obtain ⟨d, rfl⟩ := Nat.exists_eq_add_of_le h
  unfold coefficientAt toRat tenPow
  rw [Nat.add_sub_cancel_left, pow_add]
  push_cast
  rw [← mul_assoc, div_mul_cancel₀ _ hs]
  norm_cast

theorem beq_iff (a b : Decimal) : (a == b) = true ↔ a.toRat = b.toRat := by
  have hk : (10 : ℚ) ^ max a.scale b.scale ≠ 0 := pow_ne_zero _ (by norm_num)
  calc (a == b) = true
      ↔ a.coefficientAt (max a.scale b.scale) = b.coefficientAt (max a.scale b.scale) := by
        change ((compare _ _ == Ordering.eq) = true) ↔ _
        rw [beq_iff_eq, Int.compare_eq_eq]
    _ ↔ (a.coefficientAt (max a.scale b.scale) : ℚ) = b.coefficientAt (max a.scale b.scale) := Int.cast_inj.symm
    _ ↔ a.toRat = b.toRat := by
      rw [coefficientAt_eq a (Nat.le_max_left _ _), coefficientAt_eq b (Nat.le_max_right _ _)]
      exact mul_left_inj' hk

end BilingualLogic.Decimal
