import BilingualLogic.Double.Shortest
import BilingualLogic.Proofs.Decimal.Denotation
import Mathlib.Algebra.Order.Field.Power
import Mathlib.Data.List.TakeWhile
import Mathlib.Data.Rat.Cast.Order
import Mathlib.Tactic.FieldSimp
import Mathlib.Tactic.GCongr
import Mathlib.Tactic.NormNum
import Mathlib.Tactic.Positivity
import Mathlib.Tactic.Ring

/-!
Bounds on doubles: a rounded number is one of the format, and the shortest digits of such a number are not zero and at
most nineteen.
-/

namespace BilingualLogic

namespace Double

theorem power_pos (e : Int) : 0 < (power e).1 ∧ 0 < (power e).2 := ⟨twoPow_pos _, twoPow_pos _⟩

theorem power_eq (e : Int) : ((power e).1 : ℚ) = 2 ^ e * (power e).2 := by
  simp only [power, twoPow]
  cases e with
  | ofNat n => simp
  | negSucc n =>
    have hpow : (2 : ℚ) ^ (n + 1) ≠ 0 := by positivity
    simp [zpow_negSucc, hpow]

theorem powerTen_pos (k : Int) : 0 < (powerTen k).1 ∧ 0 < (powerTen k).2 := ⟨tenPow_pos _, tenPow_pos _⟩

theorem powerTen_eq (k : Int) : ((powerTen k).1 : ℚ) = 10 ^ k * (powerTen k).2 := by
  simp only [powerTen, tenPow]
  cases k with
  | ofNat n => simp
  | negSucc n =>
    have hpow : (10 : ℚ) ^ (n + 1) ≠ 0 := by positivity
    simp [zpow_negSucc, hpow]

variable {num den : Nat} {e : Int}

theorem div_lt_binaryLog (num den : Nat) : (num : ℚ) / den < 2 ^ (binaryLog num den + 1) := by
  rcases Nat.eq_zero_or_pos den with rfl | hden
  · rw [Nat.cast_zero, div_zero]
    positivity
  have hden' : (0 : ℚ) < den := by exact_mod_cast hden
  rw [binaryLog]
  split
  · next hlt =>
    -- the number is below the power of two that the bits suggest
    generalize (num.log2 : Int) - den.log2 = e at hlt
    have hpos : (0 : ℚ) < (power e).2 := by exact_mod_cast (power_pos e).2
    have hlt' : (num : ℚ) * (power e).2 < den * (power e).1 := by exact_mod_cast hlt
    rw [power_eq, ← mul_assoc] at hlt'
    rw [sub_add_cancel, div_lt_iff₀ hden', mul_comm]
    exact lt_of_mul_lt_mul_right hlt' hpos.le
  · have hnum : (num : ℚ) < 2 ^ ((num.log2 : Int) + 1) := by exact_mod_cast Nat.lt_log2_self
    have hlog : (2 : ℚ) ^ (den.log2 : Int) ≤ den := by exact_mod_cast Nat.log2_self_le hden.ne'
    rw [div_lt_iff₀ hden']
    calc (num : ℚ) < 2 ^ ((num.log2 : Int) + 1) := hnum
      _ = 2 ^ ((num.log2 : Int) - den.log2 + 1) * 2 ^ (den.log2 : Int) := by
        rw [← zpow_add₀ (by norm_num)]
        congr 1
        omega
      _ ≤ 2 ^ ((num.log2 : Int) - den.log2 + 1) * den := by gcongr

theorem scaled_le {m : Nat} (h : (num : ℚ) / den < 2 ^ e * m) : scaled num den e ≤ m := by
  have hpos : (0 : ℚ) < (power e).2 := by exact_mod_cast (power_pos e).2
  have hq : num * (power e).2 / (den * (power e).1) < m := by
    rcases Nat.eq_zero_or_pos den with rfl | hden
    · rw [Nat.zero_mul, Nat.div_zero, Nat.pos_iff_ne_zero]
      rintro rfl
      simp at h
    have hden' : (0 : ℚ) < den := by exact_mod_cast hden
    rw [Nat.div_lt_iff_lt_mul (Nat.mul_pos hden (power_pos e).1)]
    have hcast : (num : ℚ) * (power e).2 < m * (den * (power e).1) := by
      rw [power_eq]
      calc (num : ℚ) * (power e).2 = num / den * (den * (power e).2) := by field_simp
        _ < 2 ^ e * m * (den * (power e).2) := by gcongr
        _ = m * (den * (2 ^ e * (power e).2)) := by ring
    exact_mod_cast hcast
  simp only [scaled]
  split
  · omega
  · split
    · omega
    · split <;> omega

/-- The number is one of the format: it has at most 53 bits, and none of them stands below the least. -/
structure Regular (a : Double) : Prop where
  significand_lt : a.significand < twoPow 53
  least_le : -1074 ≤ a.exponent

theorem zero_regular : zero.Regular := ⟨twoPow_pos 53, le_refl _⟩

theorem nearest_regular {a : Double} (h : nearest num den = some a) : a.Regular := by
  rw [nearest] at h
  split at h
  · cases h
    exact zero_regular
  · have hm : scaled num den (max (binaryLog num den - 52) (-1074)) ≤ twoPow 53 := by
      refine scaled_le ((div_lt_binaryLog num den).trans_le ?_)
      calc (2 : ℚ) ^ (binaryLog num den + 1) ≤ 2 ^ (max (binaryLog num den - 52) (-1074) + 53) :=
            zpow_le_zpow_right₀ (by norm_num) (by omega)
        _ = 2 ^ max (binaryLog num den - 52) (-1074) * (twoPow 53 : Nat) := by
          rw [zpow_add₀ (by norm_num)]
          norm_num [twoPow]
    have hleast : -1074 ≤ max (binaryLog num den - 52) (-1074) := le_max_right _ _
    dsimp only at h
    split at h
    · split at h
      · cases h
      · cases h
        exact ⟨show twoPow 52 < twoPow 53 by decide, hleast.trans (Int.le_add_of_nonneg_right (by decide))⟩
    · next hne =>
      split at h
      · cases h
      · cases h
        exact ⟨lt_of_le_of_ne hm hne, hleast⟩

theorem ofNat_regular {n : Nat} {a : Double} (h : ofNat n = some a) : a.Regular := by
  rw [ofNat] at h
  exact nearest_regular h

theorem mul_regular {a b c : Double} (h : a.mul b = some c) : c.Regular := by
  rw [mul] at h
  exact nearest_regular h

theorem div_regular {a b c : Double} (h : a.div b = some c) : c.Regular := by
  rw [div] at h
  exact nearest_regular h

theorem le_shiftUp (limit k : Nat) : k ≤ shiftUp num den limit k := by
  induction limit generalizing k with
  | zero => exact Nat.le_refl k
  | succ limit ih =>
    rw [shiftUp]
    split
    · exact Nat.le_refl k
    · exact (Nat.le_succ k).trans (ih (k + 1))

theorem mul_lt_of_shiftUp {limit k : Nat} (h : num * tenPow (k - 1) < den) :
    num * tenPow (shiftUp num den limit k - 1) < den := by
  induction limit generalizing k with
  | zero => exact h
  | succ limit ih =>
    rw [shiftUp]
    split
    · exact h
    · next hlt => exact ih (Nat.not_le.mp hlt)

theorem length_toString (n : Nat) : (toString n).length = (Nat.toDigits 10 n).length := by
  rw [← String.length_toList, ← Nat.toList_repr]
  rfl

theorem lt_tenPow_length (n : Nat) : n < tenPow (toString n).length := by
  rw [length_toString]
  exact (Nat.length_toDigits_le_iff (by decide) (List.length_pos_iff.mpr Nat.toDigits_ne_nil)).mp (Nat.le_refl _)

theorem div_lt_decimalLog (hden : 0 < den) : (num : ℚ) / den < 10 ^ (decimalLog num den + 1) := by
  have hden' : (0 : ℚ) < den := by exact_mod_cast hden
  rw [div_lt_iff₀ hden', decimalLog]
  split
  · have hlt := (Nat.div_lt_iff_lt_mul hden).mp (lt_tenPow_length (num / den))
    rw [sub_add_cancel, zpow_natCast]
    exact_mod_cast hlt
  · next hlt =>
    have hone : 1 ≤ shiftUp num den 400 1 := le_shiftUp 400 1
    have hshift : num * tenPow (shiftUp num den 400 1 - 1) < den :=
      mul_lt_of_shiftUp (by simpa [tenPow] using hlt)
    generalize shiftUp num den 400 1 = k at hone hshift
    have hcast : (num : ℚ) * 10 ^ (k - 1) < den := by exact_mod_cast hshift
    have hexp : -(k : Int) + 1 = -((k - 1 : Nat) : Int) := by omega
    rw [hexp, zpow_neg, zpow_natCast, ← div_eq_inv_mul, lt_div_iff₀ (by positivity)]
    exact hcast

variable {a : Double} {k : Int} {d : Nat}

theorem readsBack_zero (ha : a.significand ≠ 0) (k : Int) : a.readsBack 0 k = false := by
  have hlow : 0 < (4 * a.significand - if a.significand = twoPow 52 ∧ a.exponent > -1074 then 1 else 2)
      * (power (a.exponent - 2)).1 * (powerTen k).2 := by
    refine Nat.mul_pos (Nat.mul_pos ?_ (power_pos _).1) (powerTen_pos k).2
    split <;> omega
  simp only [readsBack, Nat.zero_mul]
  split
  · simp only [Bool.and_eq_false_iff, decide_eq_false_iff_not]
    exact Or.inl (Nat.not_le.mpr hlow)
  · simp

theorem numerator_div_denominator_lt (a : Double) :
    (a.numerator : ℚ) / a.denominator < 10 ^ (decimalLog a.numerator a.denominator + 1) :=
  div_lt_decimalLog (power_pos _).2

/-- The point of the grid `10 ^ k` that is next to the double and not above it. -/
def floorOn (a : Double) (k : Int) : Nat := a.numerator * (powerTen k).2 / (a.denominator * (powerTen k).1)

theorem onGrid_some (h : a.onGrid k = some d) :
    a.readsBack d k = true ∧ (d = a.floorOn k ∨ d = a.floorOn k + 1) := by
  simp only [onGrid] at h
  split at h
  · cases h
  · next hfloor _ =>
    cases h
    exact ⟨hfloor, Or.inl rfl⟩
  · next _ hceil =>
    cases h
    exact ⟨hceil, Or.inr rfl⟩
  · next hfloor hceil =>
    split_ifs at h
    · cases h
      exact ⟨hfloor, Or.inl rfl⟩
    · cases h
      exact ⟨hceil, Or.inr rfl⟩
    · cases h
      exact ⟨hfloor, Or.inl rfl⟩
    · cases h
      exact ⟨hceil, Or.inr rfl⟩

theorem onGrid_pos (ha : a.significand ≠ 0) (h : a.onGrid k = some d) : 0 < d := by
  rw [Nat.pos_iff_ne_zero]
  rintro rfl
  have hback := (onGrid_some h).1
  rw [readsBack_zero ha k] at hback
  cases hback

theorem onGrid_le {n : Nat} (h : a.onGrid (decimalLog a.numerator a.denominator - n) = some d) : d ≤ 10 ^ (n + 1) := by
  have hle : d ≤ a.floorOn (decimalLog a.numerator a.denominator - n) + 1 := by
    rcases (onGrid_some h).2 with rfl | rfl
    · exact Nat.le_succ _
    · exact Nat.le_refl _
  have hden : 0 < a.denominator := (power_pos _).2
  have hten := powerTen_pos (decimalLog a.numerator a.denominator - n)
  refine hle.trans (Nat.succ_le_of_lt ?_)
  rw [floorOn, Nat.div_lt_iff_lt_mul (Nat.mul_pos hden hten.1)]
  have hlt := a.numerator_div_denominator_lt
  have hden' : (0 : ℚ) < a.denominator := by exact_mod_cast hden
  have hten' : (0 : ℚ) < (powerTen (decimalLog a.numerator a.denominator - n)).2 := by exact_mod_cast hten.2
  have hcast : (a.numerator : ℚ) * (powerTen (decimalLog a.numerator a.denominator - n)).2 <
      10 ^ (n + 1) * (a.denominator * (powerTen (decimalLog a.numerator a.denominator - n)).1) := by
    rw [powerTen_eq]
    generalize ((powerTen (decimalLog a.numerator a.denominator - n)).2 : ℚ) = p at hten'
    generalize decimalLog a.numerator a.denominator = top at hlt
    rw [div_lt_iff₀ hden'] at hlt
    calc (a.numerator : ℚ) * p < 10 ^ (top + 1) * a.denominator * p := by gcongr
      _ = 10 ^ ((n + 1 : Nat) : Int) * 10 ^ (top - n) * a.denominator * p := by
        rw [← zpow_add₀ (by norm_num)]
        congr 3
        push_cast
        ring
      _ = 10 ^ (n + 1) * (a.denominator * (10 ^ (top - n) * p)) := by
        rw [zpow_natCast]
        ring
  exact_mod_cast hcast

theorem search_bounds (ha : a.significand ≠ 0) (hbits : a.significand < twoPow 53) (fuel n : Nat) (hn : fuel + n ≤ 18) :
    0 < (a.search (decimalLog a.numerator a.denominator) fuel n).1 ∧
      (a.search (decimalLog a.numerator a.denominator) fuel n).1 ≤ 10 ^ 18 := by
  induction fuel generalizing n with
  | zero => exact ⟨Nat.pos_of_ne_zero ha, (Nat.le_of_lt hbits).trans (by decide)⟩
  | succ fuel ih =>
    simp only [search]
    split
    · next hgrid =>
      refine ⟨onGrid_pos ha hgrid, (onGrid_le hgrid).trans ?_⟩
      exact Nat.pow_le_pow_right (by decide) (by omega)
    · exact ih (n + 1) (by omega)

theorem exists_zeros (ds : List Char) :
    ∃ j, ds = (ds.reverse.dropWhile (· == '0')).reverse ++ List.replicate j '0' := by
  refine ⟨(ds.reverse.takeWhile (· == '0')).reverse.length, ?_⟩
  have hzeros : ∀ c ∈ (ds.reverse.takeWhile (· == '0')).reverse, c = '0' := by
    intro c hc
    simpa using List.mem_takeWhile_imp (List.mem_reverse.mp hc)
  rw [← List.eq_replicate_of_mem hzeros, ← List.reverse_append, List.takeWhile_append_dropWhile, List.reverse_reverse]

theorem value_of_zeros {d j : Nat} {kept : List Char} (h : Nat.toDigits 10 d = kept ++ List.replicate j '0') :
    d = 10 ^ j * Nat.ofDigitChars 10 kept 0 := by
  conv_lhs => rw [← Nat.ofDigitChars_ten_toDigits (n := d), h]
  rw [Nat.ofDigitChars_append, Nat.ofDigitChars_replicate_zero]

theorem significant_kept {d : Nat} (hpos : 0 < d) (hle : d ≤ 10 ^ 18) :
    Decimal.Significant ((toString d).toList.reverse.dropWhile (· == '0')).reverse := by
  have htext : (toString d).toList = Nat.toDigits 10 d := Nat.toList_repr
  obtain ⟨j, hj⟩ := exists_zeros (Nat.toDigits 10 d)
  rw [htext]
  generalize ((Nat.toDigits 10 d).reverse.dropWhile (· == '0')).reverse = kept at hj
  have hlength : (Nat.toDigits 10 d).length = kept.length + j := by rw [hj, List.length_append, List.length_replicate]
  have hvalue := value_of_zeros hj
  refine ⟨fun c hc => Decimal.isDigit_toDigits (n := d) (by simp [hj, hc]), ?_, ?_⟩
  · by_contra hlt
    have hkept : 1 < kept.length := by
      by_contra hshort
      have hzero : kept.length - 1 = 0 := by omega
      rw [hzero, pow_zero, Nat.not_le, Nat.lt_one_iff] at hlt
      rw [hlt, Nat.mul_zero] at hvalue
      omega
    have hsmall : d < 10 ^ (kept.length + j - 1) := by
      calc d = 10 ^ j * Nat.ofDigitChars 10 kept 0 := hvalue
        _ < 10 ^ j * 10 ^ (kept.length - 1) := Nat.mul_lt_mul_of_pos_left (Nat.not_le.mp hlt) (by positivity)
        _ = 10 ^ (kept.length + j - 1) := by
          rw [← pow_add]
          congr 1
          omega
    have hdigits := (Nat.length_toDigits_le_iff (by decide) (by omega)).mpr hsmall
    omega
  · have hdigits : (Nat.toDigits 10 d).length ≤ 19 :=
      (Nat.length_toDigits_le_iff (by decide) (by decide)).mpr (hle.trans_lt (by decide))
    omega

/-- The number that the shortest digits show. -/
def shown (a : Double) : ℚ :=
  if a.isZero then 0 else Nat.ofDigitChars 10 a.shortest.1 0 * 10 ^ a.shortest.2

theorem significant_shortest (ha : a.significand ≠ 0) (hregular : a.Regular) :
    Decimal.Significant a.shortest.1 := by
  obtain ⟨hpos, hle⟩ := search_bounds ha hregular.significand_lt 18 0 (by decide)
  exact significant_kept hpos hle

end Double
end BilingualLogic
