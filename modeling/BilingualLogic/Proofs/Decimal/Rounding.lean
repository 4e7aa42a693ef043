import BilingualLogic.Proofs.Decimal.Text
import BilingualLogic.Proofs.Decimal.Value
import Mathlib.Algebra.Order.Archimedean.Basic
import Mathlib.Algebra.Order.Field.Power
import Mathlib.Algebra.Order.Floor.Semifield
import Mathlib.Tactic.FieldSimp
import Mathlib.Tactic.GCongr
import Mathlib.Tactic.Linarith
import Mathlib.Tactic.Positivity
import Mathlib.Tactic.Ring

/-!
Decimals as roundings of numbers. A decimal in range stands for the number with 28 decimals that is nearest; powers of
ten are multiplied and divided by with that precision.
-/

namespace BilingualLogic.Decimal

def signed (negative : Bool) (x : ℚ) : ℚ := if negative then -x else x

/-- Zero, and the numbers from `10 ^ -28` on that are below `2 ^ 96`, of either sign. -/
def InRange (x : ℚ) : Prop := x = 0 ∨ 1 / 10 ^ 28 ≤ |x| ∧ |x| < 2 ^ 96

/-- The number with 28 decimals that is nearest, of two the one farther from zero. -/
def nearest (x : ℚ) : ℚ := signed (decide (x < 0)) (⌊|x| * 10 ^ 28 + 1 / 2⌋₊ / 10 ^ 28)

/-- The result is the number as a decimal: there is one exactly if the number is in range. -/
def Holds (result : Option Decimal) (x : ℚ) : Prop :=
  (InRange x → ∃ a, result = some a ∧ a.toRat = nearest x) ∧ (¬ InRange x → result = none)

variable {negative : Bool} {x : ℚ} {a b : Decimal} {m s k : Nat}

theorem abs_signed (hx : 0 ≤ x) : |signed negative x| = x := by
  unfold signed
  split
  · rw [abs_neg, abs_of_nonneg hx]
  · exact abs_of_nonneg hx

theorem signed_eq_zero : signed negative x = 0 ↔ x = 0 := by
  unfold signed
  split
  · exact neg_eq_zero
  · exact Iff.rfl

theorem signed_natAbs (n : Int) : signed (decide (n < 0)) (n.natAbs : ℚ) = n := by
  rw [Nat.cast_natAbs]
  by_cases hneg : n < 0
  · simp [signed, hneg, abs_of_neg]
  · simp [signed, hneg, abs_of_nonneg (Int.not_lt.mp hneg)]

theorem nearest_signed (hx : 0 ≤ x) : nearest (signed negative x) = signed negative (⌊x * 10 ^ 28 + 1 / 2⌋₊ / 10 ^ 28) := by
  rw [nearest, abs_signed hx]
  cases negative with
  | false =>
    have hneg : ¬ signed false x < 0 := not_lt.mpr hx
    rw [decide_eq_false hneg]
  | true =>
    rcases hx.eq_or_lt with rfl | hpos
    · norm_num [signed]
    · have hneg : signed true x < 0 := neg_lt_zero.mpr hpos
      rw [decide_eq_true hneg]

theorem floor_half (m k : Nat) : ⌊(m : ℚ) / 10 ^ (k + 1) + 1 / 2⌋₊ = (m / tenPow k + 5) / 10 := by
  have hpow : (10 : ℚ) ^ k ≠ 0 := by positivity
  have hsum : (m : ℚ) / 10 ^ (k + 1) + 1 / 2 = ((m + 5 * tenPow k : Nat) : ℚ) / (tenPow k * 10 : Nat) := by
    simp only [tenPow]
    push_cast
    rw [Nat.pow_eq]
    push_cast
    field_simp
    ring
  rw [hsum, Nat.floor_div_eq_div, ← Nat.div_div_eq_div_mul, Nat.add_mul_div_right _ _ (tenPow_pos k)]

theorem shorten_eq (m : Nat) {k : Nat} (hk : k ≠ 0) : shorten m k = ⌊(m : ℚ) / 10 ^ k + 1 / 2⌋₊ := by
  obtain ⟨k, rfl⟩ := Nat.exists_eq_succ_of_ne_zero hk
  rw [shorten, ← floor_half]

/-- A number with at most 28 decimals is not rounded. -/
theorem nearest_exact (hs : s ≤ 28) : nearest (signed negative (m / 10 ^ s)) = signed negative (m / 10 ^ s) := by
  obtain ⟨d, hd⟩ := Nat.exists_eq_add_of_le hs
  have hpow : (10 : ℚ) ^ s ≠ 0 := by positivity
  have hpow' : (10 : ℚ) ^ d ≠ 0 := by positivity
  have hfloor : ⌊(m : ℚ) / 10 ^ s * 10 ^ 28 + 1 / 2⌋₊ = m * 10 ^ d := by
    have hwhole : (m : ℚ) / 10 ^ s * 10 ^ 28 = (m * 10 ^ d : Nat) := by
      rw [hd, pow_add]
      push_cast
      field_simp
    rw [hwhole, add_comm, Nat.floor_add_natCast (by norm_num)]
    norm_num
  rw [nearest_signed (by positivity), hfloor, hd, pow_add]
  push_cast
  rw [mul_div_mul_right _ _ hpow']

theorem ofMagnitude_eq (negative : Bool) (hm : m < twoPow 96) (hs : s ≤ 28) :
    ∃ a, ofMagnitude negative m s = some a ∧ a.toRat = signed negative (m / 10 ^ s) := by
  refine ⟨_, dif_pos ⟨hm, hs⟩, ?_⟩
  cases negative with
  | false => simp [toRat, signed]
  | true => simp [toRat, signed, neg_div]

theorem inRange_signed (hx : 0 < x) : InRange (signed negative x) ↔ 1 / 10 ^ 28 ≤ x ∧ x < 2 ^ 96 := by
  rw [InRange, abs_signed hx.le, signed_eq_zero]
  exact or_iff_right hx.ne'

theorem inRange_exact (hm : m < twoPow 96) (hs : s ≤ 28) : InRange (signed negative (m / 10 ^ s)) := by
  have hpow : (0 : ℚ) < 10 ^ s := by positivity
  rcases Nat.eq_zero_or_pos m with rfl | hpos
  · left
    rw [signed_eq_zero]
    simp
  · have hone : (1 : ℚ) ≤ m := by exact_mod_cast hpos
    have hlt : (m : ℚ) < 2 ^ 96 := by exact_mod_cast hm
    rw [inRange_signed (by positivity), div_lt_iff₀ hpow]
    constructor
    · calc (1 : ℚ) / 10 ^ 28
          ≤ 1 / 10 ^ s := by
            gcongr
            norm_num
        _ ≤ m / 10 ^ s := by gcongr
    · calc (m : ℚ) < 2 ^ 96 := hlt
        _ ≤ 2 ^ 96 * 10 ^ s := le_mul_of_one_le_right (by positivity) (one_le_pow₀ (by norm_num))

theorem holds_exact (negative : Bool) (hm : m < twoPow 96) (hs : s ≤ 28) :
    Holds (ofMagnitude negative m s) (signed negative (m / 10 ^ s)) := by
  refine ⟨fun _ => ?_, fun hout => absurd (inRange_exact hm hs) hout⟩
  rw [nearest_exact hs]
  exact ofMagnitude_eq negative hm hs

theorem ofMagnitude_fields (h : ofMagnitude negative m s = some a) :
    a.coefficient.natAbs = m ∧ a.scale = s ∧ (0 < m → decide (a.coefficient < 0) = negative) := by
  unfold ofMagnitude at h
  split at h
  · cases h
    cases negative with
    | false => simp
    | true => simp
  · cases h

theorem shorten_scaled (m : Nat) {s : Nat} (hs : 28 < s) :
    shorten m (s - 28) = ⌊(m : ℚ) / 10 ^ s * 10 ^ 28 + 1 / 2⌋₊ := by
  rw [shorten_eq m (by omega)]
  congr 2
  rw [div_mul_eq_mul_div, div_eq_div_iff (by positivity) (by positivity), mul_assoc, ← pow_add]
  congr 2
  omega

theorem shorten_lt (hm : m < twoPow 96) (k : Nat) : shorten m k < twoPow 96 := by
  cases k with
  | zero => exact hm
  | succ k =>
    have hdiv : m / tenPow k ≤ m := Nat.div_le_self _ _
    rw [shorten]
    omega

theorem holds_shortened (hm : m < twoPow 96) (hs : 28 < s) (hin : InRange (signed negative (m / 10 ^ s))) :
    Holds (ofMagnitude negative (shorten m (s - 28)) 28) (signed negative (m / 10 ^ s)) := by
  refine ⟨fun _ => ?_, fun hout => absurd hin hout⟩
  obtain ⟨a, ha, hvalue⟩ := ofMagnitude_eq negative (shorten_lt hm (s - 28)) (Nat.le_refl 28)
  exact ⟨a, ha, by rw [hvalue, nearest_signed (by positivity), shorten_scaled m hs]⟩

theorem holds_none_of_small (hpos : 0 < x) (hx : x < 1 / 10 ^ 28) : Holds none (signed negative x) :=
  ⟨fun hin => absurd ((inRange_signed hpos).mp hin).1 (not_le.mpr hx), fun _ => rfl⟩

theorem holds_none_of_large (hx : 2 ^ 96 ≤ x) : Holds none (signed negative x) :=
  have hpos : 0 < x := lt_of_lt_of_le (by positivity) hx
  ⟨fun hin => absurd ((inRange_signed hpos).mp hin).2 (not_lt.mpr hx), fun _ => rfl⟩

/-- Division by a power of ten, for magnitudes with one digit before the point. -/
theorem scaleDown_holds (ha : ofMagnitude negative m s = some a) (hleast : 10 ^ s ≤ m) (hmost : m < 10 ^ (s + 1)) :
    Holds (a.scaleDown k) (signed negative (m / 10 ^ s / 10 ^ k)) := by
  obtain ⟨rfl, rfl, hsign⟩ := ofMagnitude_fields ha
  have hpos : 0 < a.coefficient.natAbs := (Nat.pow_pos (by decide)).trans_le hleast
  have hlt := a.coefficient_lt
  have hscale := a.scale_le
  rw [div_div, ← pow_add, scaleDown, hsign hpos]
  generalize a.coefficient.natAbs = m at *
  generalize a.scale = s at *
  have hm : (0 : ℚ) < m := by exact_mod_cast hpos
  have hleast' : (10 : ℚ) ^ s ≤ m := by exact_mod_cast hleast
  have hmost' : (m : ℚ) < 10 ^ (s + 1) := by exact_mod_cast hmost
  have hlt' : (m : ℚ) < 2 ^ 96 := by exact_mod_cast hlt
  split
  · next hk =>
    refine holds_none_of_small (by positivity) ?_
    calc (m : ℚ) / 10 ^ (s + k) < 10 ^ (s + 1) / 10 ^ (s + k) := by gcongr
      _ = 1 / 10 ^ (k - 1) := by
        rw [div_eq_div_iff (by positivity) (by positivity), one_mul, ← pow_add]
        congr 1
        omega
      _ ≤ 1 / 10 ^ 28 := by
        gcongr
        · norm_num
        · omega
  · next hk =>
    split
    · next hs => exact holds_exact negative hlt hs
    · next hs =>
      refine holds_shortened hlt (by omega) ((inRange_signed (by positivity)).mpr ⟨?_, ?_⟩)
      · calc (1 : ℚ) / 10 ^ 28 ≤ 1 / 10 ^ k := by
              gcongr
              · norm_num
              · omega
          _ = 10 ^ s / 10 ^ (s + k) := by
            rw [pow_add]
            field_simp
          _ ≤ m / 10 ^ (s + k) := by gcongr
      · exact (div_le_self hm.le (one_le_pow₀ (by norm_num))).trans_lt hlt'

theorem roundEven_exact {den : Nat} (hden : 0 < den) (m : Nat) : roundEven (m * den) den = m := by
  simp [roundEven, Nat.mul_div_cancel m hden, hden]

/-- An integer is fitted exactly, with some number of decimals. -/
theorem fit_holds {den places : Nat} (hden : 0 < den) (hplaces : places ≤ 28) (m : Nat) :
    Holds (fit negative (m * den) den places hplaces) (signed negative m) := by
  induction places with
  | zero =>
    have hround : roundEven (m * den * tenPow 0) den = m := by
      rw [tenPow, Nat.pow_eq, pow_zero, mul_one, roundEven_exact hden]
    unfold fit
    simp only [hround]
    split
    · next hm =>
      have hexact := holds_exact negative hm (Nat.zero_le 28)
      rw [ofMagnitude, dif_pos ⟨hm, Nat.zero_le 28⟩, pow_zero, div_one] at hexact
      exact hexact
    · next hm =>
      refine holds_none_of_large ?_
      exact_mod_cast Nat.not_lt.mp hm
  | succ places ih =>
    have hround : roundEven (m * den * tenPow (places + 1)) den = m * tenPow (places + 1) := by
      rw [Nat.mul_right_comm, roundEven_exact hden]
    have hvalue : ((m * tenPow (places + 1) : Nat) : ℚ) / 10 ^ (places + 1) = m := by
      simp [tenPow]
    unfold fit
    simp only [hround]
    split
    · next hm =>
      have hexact := holds_exact negative hm hplaces
      rw [ofMagnitude, dif_pos ⟨hm, hplaces⟩, hvalue] at hexact
      exact hexact
    · exact ih (Nat.le_of_succ_le hplaces)

/-- A product with a power of ten that clears all decimals is exact before it is fitted. -/
theorem mul_tenPow_holds (hten : tenPow k < twoPow 96) (hsign : decide (a.coefficient < 0) = negative) (hk : a.scale ≤ k) :
    Holds (a.mul ⟨tenPow k, 0, hten, Nat.zero_le 28⟩) (signed negative (a.coefficient.natAbs / 10 ^ a.scale * 10 ^ k)) := by
  obtain ⟨d, hd⟩ := Nat.exists_eq_add_of_le hk
  have hscale : tenPow k = tenPow d * tenPow a.scale := by
    rw [hd, Nat.add_comm]
    exact Nat.pow_add 10 d a.scale
  have hproduct : (a.coefficient * (tenPow k : Int)).natAbs = a.coefficient.natAbs * tenPow d * tenPow a.scale := by
    rw [Int.natAbs_mul, Int.natAbs_natCast, hscale, mul_assoc]
  have hneg : decide (a.coefficient * (tenPow k : Int) < 0) = negative := by
    have hten' : (0 : Int) < tenPow k := by exact_mod_cast tenPow_pos k
    have hiff := Int.mul_lt_mul_right hten' (b := a.coefficient) (c := 0)
    rw [zero_mul] at hiff
    rw [← hsign]
    exact decide_eq_decide.mpr hiff
  have hvalue : (a.coefficient.natAbs : ℚ) / 10 ^ a.scale * 10 ^ k = (a.coefficient.natAbs * tenPow d : Nat) := by
    rw [hd, pow_add]
    push_cast
    simp only [tenPow]
    field_simp
    norm_cast
  rw [hvalue]
  simp only [mul, fitInt, hproduct, hneg]
  exact fit_holds (tenPow_pos a.scale) _ _

/-- Multiplication by a power of ten, for magnitudes with one digit before the point. -/
theorem scaleUp_holds (ha : ofMagnitude negative m s = some a) (hleast : 10 ^ s ≤ m) :
    Holds (a.scaleUp k) (signed negative (m / 10 ^ s * 10 ^ k)) := by
  obtain ⟨rfl, rfl, hsign⟩ := ofMagnitude_fields ha
  have hpos : 0 < a.coefficient.natAbs := (Nat.pow_pos (by decide)).trans_le hleast
  have hleast' : (10 : ℚ) ^ a.scale ≤ a.coefficient.natAbs := by exact_mod_cast hleast
  rw [scaleUp]
  split
  · next hk =>
    obtain ⟨d, hd⟩ := Nat.exists_eq_add_of_le hk
    have hvalue : (a.coefficient.natAbs : ℚ) / 10 ^ a.scale * 10 ^ k = a.coefficient.natAbs / 10 ^ (a.scale - k) := by
      rw [hd, Nat.add_sub_cancel_left, pow_add]
      field_simp
    rw [hvalue, hsign hpos]
    have hscale := a.scale_le
    exact holds_exact negative a.coefficient_lt (by omega)
  · next hk =>
    split
    · next hbig =>
      refine holds_none_of_large ?_
      calc (2 : ℚ) ^ 96 ≤ 1 * 10 ^ 29 := by norm_num
        _ ≤ (a.coefficient.natAbs : ℚ) / 10 ^ a.scale * 10 ^ k := by
          gcongr
          · exact (one_le_div (by positivity)).mpr hleast'
          · norm_num
          · omega
    · next hsmall =>
      have hten : tenPow k < twoPow 96 :=
        lt_of_le_of_lt (Nat.pow_le_pow_right (by decide) (Nat.not_lt.mp hsmall)) (by decide)
      have hpower : ofInt? (tenPow k) = some ⟨tenPow k, 0, hten, by omega⟩ := dif_pos hten
      rw [hpower]
      exact mul_tenPow_holds hten (hsign hpos) (Nat.le_of_not_le hk)

end BilingualLogic.Decimal
