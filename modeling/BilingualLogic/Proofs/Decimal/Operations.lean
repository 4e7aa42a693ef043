import BilingualLogic.Formula
import BilingualLogic.Proofs.Decimal.Value
import Mathlib.Tactic.Ring

/-!
Operations on decimals depend on the numbers only, not on the zeros at their ends. The number of decimals that an
operation may keep differs with these zeros, but then the result has no more decimals than either allows.
-/

namespace BilingualLogic

theorem tenPow_add (m n : Nat) : tenPow (m + n) = tenPow m * tenPow n := Nat.pow_add 10 m n

namespace Decimal

/-- Two results that are both missing or the same number. -/
def SameNumber (r r' : Option Decimal) : Prop := Option.Rel (fun a b => a.toRat = b.toRat) r r'

namespace SameNumber

variable {r r' r'' : Option Decimal}

theorem refl (r : Option Decimal) : SameNumber r r := by
  cases r with
  | none => exact .none
  | some a => exact .some rfl

theorem symm (h : SameNumber r r') : SameNumber r' r := by
  cases h with
  | none => exact .none
  | some h => exact .some h.symm

theorem trans (h : SameNumber r r') (h' : SameNumber r' r'') : SameNumber r r'' := by
  cases h with
  | none => exact h'
  | some h =>
    cases h' with
    | some h' => exact .some (h.trans h')

end SameNumber

variable {a a' b b' : Decimal} {negative : Bool} {num den p q c : Nat} {n n' : Int}

section Rounding

theorem roundEven_mul_right (hc : 0 < c) : roundEven (num * c) (den * c) = roundEven num den := by
  have hlt (x y : Nat) : x * c < y * c ↔ x < y := Nat.mul_lt_mul_right hc
  unfold roundEven
  dsimp only
  rw [Nat.mul_div_mul_right _ _ hc, Nat.mul_mod_mul_right, ← Nat.mul_assoc]
  simp only [gt_iff_lt, hlt]

theorem roundEven_mul_left (hden : 0 < den) (m : Nat) : roundEven (den * m) den = m := by
  unfold roundEven
  rw [Nat.mul_mod_right, Nat.mul_div_cancel_left _ hden]
  exact if_pos (by omega)

theorem fit_mul_right (hc : 0 < c) (hp : p ≤ 28) : fit negative (num * c) (den * c) p hp = fit negative num den p hp := by
  have hround (p : Nat) : roundEven (num * c * tenPow p) (den * c) = roundEven (num * tenPow p) den := by
    rw [Nat.mul_right_comm, roundEven_mul_right hc]
  induction p with
  | zero =>
    unfold fit
    simp only [hround]
  | succ p ih =>
    rw [fit, fit]
    simp only [hround, ih]

/-- More decimals than the number has change nothing. -/
theorem fit_of_dvd (hden : 0 < den) (h : den ∣ num * tenPow p) (hpq : p ≤ q) (hq : q ≤ 28) :
    SameNumber (fit negative num den p (hpq.trans hq)) (fit negative num den q hq) := by
  obtain ⟨m, hm⟩ := h
  induction hpq with
  | refl => exact .refl _
  | @step q hpq ih =>
    obtain ⟨d, hd⟩ := Nat.exists_eq_add_of_le (Nat.le_succ_of_le hpq)
    have hlonger : num * tenPow (q + 1) = den * (m * tenPow d) := by
      rw [← Nat.succ_eq_add_one, hd, tenPow_add, ← Nat.mul_assoc, hm, Nat.mul_assoc]
    have hshort : roundEven (num * tenPow p) den = m := by rw [hm, roundEven_mul_left hden]
    have hlong : roundEven (num * tenPow (q + 1)) den = m * tenPow d := by rw [hlonger, roundEven_mul_left hden]
    by_cases hroom : m * tenPow d < twoPow 96
    · have hroom' : m < twoPow 96 := Nat.lt_of_le_of_lt (Nat.le_mul_of_pos_right m (tenPow_pos d)) hroom
      unfold fit
      simp only [hshort, hlong]
      rw [dif_pos hroom', dif_pos hroom]
      have hpow : (10 : ℚ) ^ d ≠ 0 := pow_ne_zero _ (by norm_num)
      have hscale : (m : ℚ) / 10 ^ p = (m * tenPow d : Nat) / 10 ^ (q + 1) := by
        rw [← Nat.succ_eq_add_one, hd, pow_add, tenPow, Nat.pow_eq]
        push_cast
        rw [mul_div_mul_right _ _ hpow]
      refine .some ?_
      simp only [toRat]
      cases negative with
      | false => simpa using hscale
      | true => simpa [neg_div] using hscale
    · have hnext : fit negative num den (q + 1) hq = fit negative num den q (Nat.le_of_succ_le hq) := by
        rw [fit]
        simp only [hlong]
        exact dif_neg hroom
      rw [hnext]
      exact ih _

theorem mul_natCast_neg (hc : 0 < c) : n * c < 0 ↔ n < 0 := by
  have h := mul_lt_mul_iff_of_pos_right (b := n) (c := 0) (Int.natCast_pos.mpr hc)
  rwa [zero_mul] at h

theorem fitInt_mul_right (hc : 0 < c) (hp : p ≤ 28) : fitInt (n * c) (den * c) p hp = fitInt n den p hp := by
  unfold fitInt
  rw [decide_eq_decide.mpr (mul_natCast_neg hc), Int.natAbs_mul, Int.natAbs_natCast, fit_mul_right hc]

/-- One ratio, rounded to as many decimals or, where the number has no more, to fewer. -/
theorem fitInt_same {den' : Nat} (hden : 0 < den) (hden' : 0 < den') (h : n * den' = n' * den) (hpq : p ≤ q)
    (hq : q ≤ 28) (hexact : p = q ∨ den ∣ n.natAbs * tenPow p) :
    SameNumber (fitInt n den p (hpq.trans hq)) (fitInt n' den' q hq) := by
  rw [← fitInt_mul_right (n := n') hden hq, ← h, Nat.mul_comm den', fitInt_mul_right hden' hq]
  rcases hexact with rfl | hdvd
  · exact .refl _
  · exact fit_of_dvd hden hdvd hpq hq

end Rounding

section Operations

theorem coefficientAt_mul (h : a.toRat = a'.toRat) {k k' : Nat} (hk : a.scale ≤ k) (hk' : a'.scale ≤ k') :
    a.coefficientAt k * tenPow k' = a'.coefficientAt k' * tenPow k := by
  have hrat : ((a.coefficientAt k * tenPow k' : Int) : ℚ) = (a'.coefficientAt k' * tenPow k : Int) := by
    simp only [tenPow, Nat.pow_eq]
    push_cast
    rw [coefficientAt_eq a hk, coefficientAt_eq a' hk', h, mul_right_comm]
  exact_mod_cast hrat

theorem coefficient_mul (h : a.toRat = a'.toRat) :
    a.coefficient * tenPow a'.scale = a'.coefficient * tenPow a.scale := by
  have hself (a : Decimal) : a.coefficientAt a.scale = a.coefficient := by
    rw [coefficientAt, Nat.sub_self]
    exact mul_one a.coefficient
  simpa only [hself] using coefficientAt_mul h (Nat.le_refl _) (Nat.le_refl _)

theorem neg_same (h : a.toRat = a'.toRat) : a.neg.toRat = a'.neg.toRat := by
  have hneg (a : Decimal) : a.neg.toRat = -a.toRat := by
    simp [neg, toRat, neg_div]
  rw [hneg, hneg, h]

variable (ha : a.toRat = a'.toRat) (hb : b.toRat = b'.toRat)

include ha hb

theorem add_same : SameNumber (a.add b) (a'.add b') := by
  have ordered {a a' b b' : Decimal} (ha : a.toRat = a'.toRat) (hb : b.toRat = b'.toRat)
      (hk : max a.scale b.scale ≤ max a'.scale b'.scale) : SameNumber (a.add b) (a'.add b') := by
    refine fitInt_same (tenPow_pos _) (tenPow_pos _) ?_ hk _ (.inr (Nat.dvd_mul_left _ _))
    rw [Int.add_mul, Int.add_mul, coefficientAt_mul ha (Nat.le_max_left ..) (Nat.le_max_left ..),
      coefficientAt_mul hb (Nat.le_max_right ..) (Nat.le_max_right ..)]
  rcases Nat.le_total (max a.scale b.scale) (max a'.scale b'.scale) with hk | hk
  · exact ordered ha hb hk
  · exact (ordered ha.symm hb.symm hk).symm

theorem sub_same : SameNumber (a.sub b) (a'.sub b') := add_same ha (neg_same hb)

theorem mul_same : SameNumber (a.mul b) (a'.mul b') := by
  have ordered {a a' b b' : Decimal} (ha : a.toRat = a'.toRat) (hb : b.toRat = b'.toRat)
      (hk : a.scale + b.scale ≤ a'.scale + b'.scale) : SameNumber (a.mul b) (a'.mul b') := by
    refine fitInt_same (tenPow_pos _) (tenPow_pos _) ?_ (by omega) _ ?_
    · rw [tenPow_add, tenPow_add]
      push_cast
      rw [mul_mul_mul_comm, coefficient_mul ha, coefficient_mul hb, mul_mul_mul_comm]
    · by_cases hexact : a.scale + b.scale ≤ 28
      · rw [Nat.min_eq_right hexact]
        exact .inr (Nat.dvd_mul_left _ _)
      · left
        omega
  rcases Nat.le_total (a.scale + b.scale) (a'.scale + b'.scale) with hk | hk
  · exact ordered ha hb hk
  · exact (ordered ha.symm hb.symm hk).symm

omit ha in
theorem coefficient_eq_zero : b.coefficient = 0 ↔ b'.coefficient = 0 := by
  have hzero (b : Decimal) : b.coefficient = 0 ↔ b.toRat = 0 := by
    simp [toRat]
  rw [hzero, hzero, hb]

theorem div_same : SameNumber (a.div b) (a'.div b') := by
  unfold div
  by_cases hzero : b.coefficient = 0
  · rw [if_pos hzero, if_pos ((coefficient_eq_zero hb).mp hzero)]
    exact .none
  · rw [if_neg hzero, if_neg fun h => hzero ((coefficient_eq_zero hb).mpr h)]
    dsimp only
    -- both quotients are written with the coefficients that both pairs have at the decimals of the two together
    have scaled (n m : Int) {c : Nat} (hc : 0 < c) :
        fit (decide (n < 0) != decide (m < 0)) n.natAbs m.natAbs 28 (Nat.le_refl 28) =
          fit (decide (n * (c : Int) < 0) != decide (m * (c : Int) < 0)) (n * (c : Int)).natAbs (m * (c : Int)).natAbs 28
            (Nat.le_refl 28) := by
      rw [decide_eq_decide.mpr (mul_natCast_neg hc), decide_eq_decide.mpr (mul_natCast_neg hc), Int.natAbs_mul,
        Int.natAbs_mul, Int.natAbs_natCast, fit_mul_right hc]
    rw [scaled _ _ (tenPow_pos (max a'.scale b'.scale)),
      coefficientAt_mul ha (Nat.le_max_left ..) (Nat.le_max_left ..),
      coefficientAt_mul hb (Nat.le_max_right ..) (Nat.le_max_right ..), ← scaled _ _ (tenPow_pos (max a.scale b.scale))]
    exact .refl _

theorem rem_same : SameNumber (a.rem b) (a'.rem b') := by
  unfold rem
  by_cases hzero : b.coefficient = 0
  · rw [if_pos hzero, if_pos ((coefficient_eq_zero hb).mp hzero)]
    exact .none
  · rw [if_neg hzero, if_neg fun h => hzero ((coefficient_eq_zero hb).mpr h)]
    refine fitInt_same (tenPow_pos _) (tenPow_pos _) ?_ (Nat.le_refl 28) _ (.inl rfl)
    have scaled (n m : Int) {c : Nat} (hc : 0 < c) : n.tmod m * c = (n * c).tmod (m * c) := by
      rw [Int.mul_comm n, Int.mul_comm m, Int.mul_tmod_mul_of_pos _ _ (Int.natCast_pos.mpr hc), Int.mul_comm]
    rw [scaled _ _ (tenPow_pos _), scaled _ _ (tenPow_pos _),
      coefficientAt_mul ha (Nat.le_max_left ..) (Nat.le_max_left ..),
      coefficientAt_mul hb (Nat.le_max_right ..) (Nat.le_max_right ..)]

end Operations

theorem order_eq (a b : Decimal) : a.order b = compare a.toRat b.toRat := by
  have hk : (0 : ℚ) < 10 ^ max a.scale b.scale := pow_pos (by norm_num) _
  have hlt {a b : Decimal} {k : Nat} (hk : (0 : ℚ) < 10 ^ k) (ha : a.scale ≤ k) (hb : b.scale ≤ k)
      (h : a.toRat < b.toRat) : a.coefficientAt k < b.coefficientAt k := by
    rw [← Int.cast_lt (R := ℚ), coefficientAt_eq a ha, coefficientAt_eq b hb]
    exact mul_lt_mul_of_pos_right h hk
  have hleft := Nat.le_max_left a.scale b.scale
  have hright := Nat.le_max_right a.scale b.scale
  unfold order
  rcases lt_trichotomy a.toRat b.toRat with h | h | h
  · rw [compare_lt_iff_lt.mpr h]
    exact Int.compare_eq_lt.mpr (hlt hk hleft hright h)
  · rw [compare_eq_iff_eq.mpr h]
    exact beq_iff_eq.mp ((beq_iff a b).mpr h)
  · rw [compare_gt_iff_gt.mpr h]
    exact Int.compare_eq_gt.mpr (hlt hk hright hleft h)

end Decimal

theorem Operation.apply_same (op : Operation) {a a' b b' : Decimal} (ha : a.toRat = a'.toRat)
    (hb : b.toRat = b'.toRat) : Decimal.SameNumber (op.apply a b) (op.apply a' b') := by
  cases op with
  | add => exact Decimal.add_same ha hb
  | sub => exact Decimal.sub_same ha hb
  | mul => exact Decimal.mul_same ha hb
  | div => exact Decimal.div_same ha hb
  | rem => exact Decimal.rem_same ha hb

end BilingualLogic
