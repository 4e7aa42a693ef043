import BilingualLogic.Proofs.Double.Bounds
import Mathlib.Algebra.Order.Ring.Abs
import Mathlib.Data.Nat.Cast.Order.Field
import Mathlib.Tactic.Linarith

/-!
The shortest digits show the double: the number that they show is at most half a unit of the last place away from it,
and no number with fewer digits reads back as the double. The search for them goes down from the first digit of the
number, and within sixteen digits more a grid is finer than the numbers that read back are apart.
-/

namespace BilingualLogic.Double

variable {a : Double} {k : Int} {d : Nat}

/-- The number that the double is. -/
def value (a : Double) : ℚ := a.significand * 2 ^ a.exponent

theorem numerator_eq (a : Double) : (a.numerator : ℚ) = a.value * a.denominator := by
  rw [numerator, denominator, value, Nat.cast_mul, power_eq, mul_assoc]

theorem unit_eq (a : Double) : (2 : ℚ) ^ a.exponent = 4 * 2 ^ (a.exponent - 2) := by
  rw [show (4 : ℚ) = 2 ^ (2 : Int) by norm_num, ← zpow_add₀ (by norm_num)]
  congr 1
  omega

/-- How far the numbers that are nearest to the double reach below it, in quarters of a unit of the last place. -/
def below (a : Double) : Nat := if a.significand = twoPow 52 ∧ a.exponent > -1074 then 1 else 2

theorem below_bounds (a : Double) : 0 < a.below ∧ a.below ≤ 2 := by
  rw [below]
  split <;> omega

/-- Half way down to the double below. -/
def low (a : Double) : ℚ := a.value - a.below * 2 ^ (a.exponent - 2)

/-- Half way up to the double above. -/
def high (a : Double) : ℚ := a.value + 2 * 2 ^ (a.exponent - 2)

theorem low_lt (a : Double) : a.low < a.value := by
  have hbelow := a.below_bounds.1
  rw [low, sub_lt_self_iff]
  positivity

theorem lt_high (a : Double) : a.value < a.high := by
  rw [high, lt_add_iff_pos_right]
  positivity

/-- The number is nearest to the double: the two bounds themselves belong to the even significands. -/
def Within (a : Double) (x : ℚ) : Prop :=
  if a.significand % 2 = 0 then a.low ≤ x ∧ x ≤ a.high else a.low < x ∧ x < a.high

namespace Within

variable {x y : ℚ}

theorem bounds (h : a.Within x) : a.low ≤ x ∧ x ≤ a.high := by
  rw [Within] at h
  split at h
  · exact h
  · exact ⟨h.1.le, h.2.le⟩

theorem of_lt (hlow : a.low < x) (hhigh : x < a.high) : a.Within x := by
  rw [Within]
  split
  · exact ⟨hlow.le, hhigh.le⟩
  · exact ⟨hlow, hhigh⟩

/-- What lies between a number that is nearest to the double and the double is nearest to it as well. -/
theorem above (h : a.Within x) (hx : x ≤ y) (hy : y ≤ a.value) : a.Within y := by
  have hhigh := hy.trans_lt a.lt_high
  rw [Within] at h ⊢
  split_ifs at h ⊢
  · exact ⟨h.1.trans hx, hhigh.le⟩
  · exact ⟨h.1.trans_le hx, hhigh⟩

theorem under (h : a.Within x) (hx : y ≤ x) (hy : a.value ≤ y) : a.Within y := by
  have hlow := a.low_lt.trans_le hy
  rw [Within] at h ⊢
  split_ifs at h ⊢
  · exact ⟨hlow.le, hx.trans h.2⟩
  · exact ⟨hlow, hx.trans_lt h.2⟩

end Within

theorem readsBack_iff (ha : a.significand ≠ 0) : a.readsBack d k = true ↔ a.Within (d * 10 ^ k) := by
  have hhalf : (0 : ℚ) < (power (a.exponent - 2)).2 := by exact_mod_cast (power_pos _).2
  have hten : (0 : ℚ) < (powerTen k).2 := by exact_mod_cast (powerTen_pos k).2
  have hpos : (0 : ℚ) < (power (a.exponent - 2)).2 * (powerTen k).2 := mul_pos hhalf hten
  have hbelow : a.below ≤ 4 * a.significand := a.below_bounds.2.trans (by omega)
  have hx : ((d * (powerTen k).1 * (power (a.exponent - 2)).2 : Nat) : ℚ) =
      d * 10 ^ k * ((power (a.exponent - 2)).2 * (powerTen k).2) := by
    push_cast
    rw [powerTen_eq]
    ring
  have hlow : (((4 * a.significand - a.below) * (power (a.exponent - 2)).1 * (powerTen k).2 : Nat) : ℚ) =
      a.low * ((power (a.exponent - 2)).2 * (powerTen k).2) := by
    rw [low, value, unit_eq]
    push_cast [Nat.cast_sub hbelow]
    rw [power_eq]
    ring
  have hhigh : (((4 * a.significand + 2) * (power (a.exponent - 2)).1 * (powerTen k).2 : Nat) : ℚ) =
      a.high * ((power (a.exponent - 2)).2 * (powerTen k).2) := by
    rw [high, value, unit_eq]
    push_cast
    rw [power_eq]
    ring
  have hdef : a.readsBack d k = if a.significand % 2 = 0 then
      decide ((4 * a.significand - a.below) * (power (a.exponent - 2)).1 * (powerTen k).2 ≤
        d * (powerTen k).1 * (power (a.exponent - 2)).2) &&
      decide (d * (powerTen k).1 * (power (a.exponent - 2)).2 ≤
        (4 * a.significand + 2) * (power (a.exponent - 2)).1 * (powerTen k).2)
    else
      decide ((4 * a.significand - a.below) * (power (a.exponent - 2)).1 * (powerTen k).2 <
        d * (powerTen k).1 * (power (a.exponent - 2)).2) &&
      decide (d * (powerTen k).1 * (power (a.exponent - 2)).2 <
        (4 * a.significand + 2) * (power (a.exponent - 2)).1 * (powerTen k).2) := rfl
  rw [hdef, Within]
  split
  · rw [Bool.and_eq_true, decide_eq_true_eq, decide_eq_true_eq, ← Nat.cast_le (α := ℚ), ← Nat.cast_le (α := ℚ), hx, hlow,
      hhigh, mul_le_mul_iff_of_pos_right hpos, mul_le_mul_iff_of_pos_right hpos]
  · rw [Bool.and_eq_true, decide_eq_true_eq, decide_eq_true_eq, ← Nat.cast_lt (α := ℚ), ← Nat.cast_lt (α := ℚ), hx, hlow,
      hhigh, mul_lt_mul_iff_of_pos_right hpos, mul_lt_mul_iff_of_pos_right hpos]

theorem near_of_readsBack (ha : a.significand ≠ 0) (h : a.readsBack d k = true) :
    |(d : ℚ) * 10 ^ k - a.value| ≤ 2 ^ a.exponent / 2 := by
  have hbelow : (a.below : ℚ) * 2 ^ (a.exponent - 2) ≤ 2 * 2 ^ (a.exponent - 2) := by
    gcongr
    exact_mod_cast a.below_bounds.2
  obtain ⟨hlow, hhigh⟩ := ((readsBack_iff ha).mp h).bounds
  rw [low] at hlow
  rw [high] at hhigh
  rw [abs_le, unit_eq]
  exact ⟨by linarith, by linarith⟩

theorem floorOn_bounds (a : Double) (k : Int) :
    (a.floorOn k : ℚ) * 10 ^ k ≤ a.value ∧ a.value < (a.floorOn k + 1) * 10 ^ k := by
  have hden : (0 : ℚ) < a.denominator * (powerTen k).2 := by
    exact_mod_cast Nat.mul_pos (power_pos _).2 (powerTen_pos k).2
  have hpos : 0 < a.denominator * (powerTen k).1 := Nat.mul_pos (power_pos _).2 (powerTen_pos k).1
  have hscaled (m : Nat) : ((m * (a.denominator * (powerTen k).1) : Nat) : ℚ) =
      m * 10 ^ k * (a.denominator * (powerTen k).2) := by
    push_cast
    rw [powerTen_eq]
    ring
  have hvalue : ((a.numerator * (powerTen k).2 : Nat) : ℚ) = a.value * (a.denominator * (powerTen k).2) := by
    push_cast
    rw [numerator_eq]
    ring
  constructor
  · have hle := Nat.div_mul_le_self (a.numerator * (powerTen k).2) (a.denominator * (powerTen k).1)
    rw [← floorOn, ← Nat.cast_le (α := ℚ), hscaled, hvalue] at hle
    exact le_of_mul_le_mul_right hle hden
  · have hlt : a.numerator * (powerTen k).2 < (a.floorOn k + 1) * (a.denominator * (powerTen k).1) :=
      (Nat.div_lt_iff_lt_mul hpos).mp (Nat.lt_succ_self (a.floorOn k))
    rw [← Nat.cast_lt (α := ℚ), hscaled, hvalue] at hlt
    exact_mod_cast lt_of_mul_lt_mul_right hlt hden.le

theorem not_readsBack_of_onGrid (h : a.onGrid k = none) :
    a.readsBack (a.floorOn k) k = false ∧ a.readsBack (a.floorOn k + 1) k = false := by
  simp only [onGrid] at h
  split at h
  · next hback hback' => exact ⟨hback, hback'⟩
  · cases h
  · cases h
  · split_ifs at h

/-- A grid on which neither neighbour of the double reads back has no point that does. -/
theorem not_within_of_onGrid (ha : a.significand ≠ 0) (h : a.onGrid k = none) (d : Nat) : ¬ a.Within (d * 10 ^ k) := by
  have hline : (0 : ℚ) < 10 ^ k := by positivity
  obtain ⟨hfloor, hceil⟩ := a.floorOn_bounds k
  obtain ⟨hback, hback'⟩ := not_readsBack_of_onGrid h
  rw [Bool.eq_false_iff, ne_eq, readsBack_iff ha] at hback hback'
  intro hd
  rcases Nat.lt_or_ge (a.floorOn k) d with hlt | hge
  · have hcast : ((a.floorOn k + 1 : Nat) : ℚ) ≤ d := by exact_mod_cast hlt
    refine hback' (hd.under (by gcongr) ?_)
    push_cast
    exact hceil.le
  · have hcast : (d : ℚ) ≤ a.floorOn k := by exact_mod_cast hge
    exact hback (hd.above (by gcongr) hfloor)

/-- A grid has points that read back if its lines are nearer to each other than the bounds of what reads back. -/
theorem width_le_of_onGrid (ha : a.significand ≠ 0) (h : a.onGrid k = none) : a.high - a.low ≤ 10 ^ k := by
  obtain ⟨hfloor, hceil⟩ := a.floorOn_bounds k
  have hlow := a.low_lt
  have hhigh := a.lt_high
  by_contra hwide
  rw [not_le] at hwide
  rcases lt_or_ge a.low (a.floorOn k * 10 ^ k) with hlt | hge
  · exact not_within_of_onGrid ha h (a.floorOn k) (.of_lt hlt (by linarith))
  · refine not_within_of_onGrid ha h (a.floorOn k + 1) (.of_lt ?_ ?_)
    · push_cast
      linarith
    · push_cast
      linarith

section FirstDigit

variable {num den : Nat}

theorem tenPow_le_of_length {n : Nat} (hn : 0 < n) : tenPow ((Nat.toDigits 10 n).length - 1) ≤ n := by
  by_contra hlt
  rw [Nat.not_le] at hlt
  rcases Nat.eq_zero_or_pos ((Nat.toDigits 10 n).length - 1) with hone | hmore
  · rw [hone] at hlt
    exact absurd hn (Nat.not_lt.mpr (Nat.le_of_lt_succ hlt))
  · have hle := (Nat.length_toDigits_le_iff (by decide) hmore).mpr hlt
    omega

theorem le_mul_shiftUp {limit k : Nat} (h : den ≤ num * tenPow (k + limit)) :
    den ≤ num * tenPow (shiftUp num den limit k) := by
  induction limit generalizing k with
  | zero => exact h
  | succ limit ih =>
    rw [shiftUp]
    split
    · assumption
    · exact ih (by rwa [Nat.add_right_comm])

theorem decimalLog_le (hden : 0 < den) (h : den ≤ num * tenPow 401) : (10 : ℚ) ^ decimalLog num den ≤ num / den := by
  have hden' : (0 : ℚ) < den := by exact_mod_cast hden
  rw [decimalLog]
  split
  · next hge =>
    have hquotient : 0 < num / den := Nat.div_pos hge hden
    have hlength : 0 < (Nat.toDigits 10 (num / den)).length := List.length_pos_iff.mpr Nat.toDigits_ne_nil
    have hfirst := tenPow_le_of_length hquotient
    rw [length_toString]
    generalize (Nat.toDigits 10 (num / den)).length = digits at hlength hfirst
    have hexponent : (digits : Int) - 1 = (digits - 1 : Nat) := by omega
    calc (10 : ℚ) ^ ((digits : Int) - 1) = (tenPow (digits - 1) : Nat) := by
          rw [hexponent, zpow_natCast, tenPow]
          norm_cast
      _ ≤ (num / den : Nat) := by exact_mod_cast hfirst
      _ ≤ num / den := Nat.cast_div_le
  · have hshift : den ≤ num * tenPow (shiftUp num den 400 1) := le_mul_shiftUp h
    generalize shiftUp num den 400 1 = k at hshift
    have hcast : (den : ℚ) ≤ num * 10 ^ k := by exact_mod_cast hshift
    rw [zpow_neg, zpow_natCast, inv_le_iff_one_le_mul₀ (by positivity), div_mul_eq_mul_div, one_le_div hden']
    exact hcast

end FirstDigit

theorem value_eq (a : Double) : a.value = a.numerator / a.denominator := by
  have hden : (a.denominator : ℚ) ≠ 0 := by exact_mod_cast (power_pos _).2.ne'
  rw [numerator_eq, mul_div_cancel_right₀ _ hden]

theorem twoPow_le_tenPow {n m : Nat} (h : n ≤ 3 * m) : twoPow n ≤ tenPow m :=
  calc 2 ^ n ≤ 2 ^ (3 * m) := Nat.pow_le_pow_right (by decide) h
    _ = 8 ^ m := pow_mul 2 3 m
    _ ≤ 10 ^ m := Nat.pow_le_pow_left (by decide) m

theorem decimalLog_le_value (ha : a.significand ≠ 0) (hregular : a.Regular) :
    (10 : ℚ) ^ decimalLog a.numerator a.denominator ≤ a.value := by
  rw [value_eq]
  refine decimalLog_le (power_pos _).2 ?_
  have hnum : 0 < a.numerator := Nat.mul_pos (Nat.pos_of_ne_zero ha) (power_pos _).1
  have hleast := hregular.least_le
  calc a.denominator ≤ tenPow 401 := twoPow_le_tenPow (by omega)
    _ ≤ a.numerator * tenPow 401 := Nat.le_mul_of_pos_left (tenPow 401) hnum

theorem value_lt_width (hregular : a.Regular) : a.value < (a.high - a.low) * 10 ^ 16 := by
  have hlt : 4 * a.significand < (a.below + 2) * 10 ^ 16 := by
    have hbits := hregular.significand_lt
    rw [below]
    split
    · next hpower =>
      rw [hpower.1]
      decide
    · have hmost : 4 * twoPow 53 < 4 * 10 ^ 16 := by decide
      omega
  have hcast : (4 : ℚ) * a.significand < (a.below + 2) * 10 ^ 16 := by exact_mod_cast hlt
  calc a.value = 4 * a.significand * 2 ^ (a.exponent - 2) := by
        rw [value, unit_eq]
        ring
    _ < (a.below + 2) * 10 ^ 16 * 2 ^ (a.exponent - 2) := by gcongr
    _ = (a.high - a.low) * 10 ^ 16 := by
      rw [high, low]
      ring

theorem onGrid_ne_none (ha : a.significand ≠ 0) (hregular : a.Regular) :
    a.onGrid (decimalLog a.numerator a.denominator - (16 : Nat)) ≠ none := by
  intro hnone
  have hwidth := width_le_of_onGrid ha hnone
  rw [zpow_sub₀ (by norm_num), zpow_natCast, le_div_iff₀ (by positivity)] at hwidth
  exact absurd (hwidth.trans (decimalLog_le_value ha hregular)) (not_le.mpr (value_lt_width hregular))

/-- The search stops at the first grid with a point that reads back, if it comes to one. -/
theorem search_spec {top : Int} {m : Nat} (hgrid : a.onGrid (top - m) ≠ none) (fuel n : Nat) (hn : n ≤ m)
    (hfuel : m < fuel + n) : ∃ (last d : Nat), a.search top fuel n = (d, top - last) ∧ a.onGrid (top - last) = some d ∧
      ∀ i, n ≤ i → i < last → a.onGrid (top - i) = none := by
  induction fuel generalizing n with
  | zero => omega
  | succ fuel ih =>
    simp only [search]
    split
    · next d hfound => exact ⟨n, d, rfl, hfound, fun i hni hin => absurd hni (Nat.not_le.mpr hin)⟩
    · next hnone =>
      have hne : n ≠ m := by
        rintro rfl
        exact hgrid hnone
      obtain ⟨last, d, hsearch, hfound, hbefore⟩ := ih (n + 1) (by omega) (by omega)
      refine ⟨last, d, hsearch, hfound, fun i hni hi => ?_⟩
      rcases Nat.eq_or_lt_of_le hni with rfl | hlt
      · exact hnone
      · exact hbefore i hlt hi

theorem shown_eq_search (ha : a.significand ≠ 0) :
    a.shown = (a.search (decimalLog a.numerator a.denominator) 18 0).1 *
      10 ^ (a.search (decimalLog a.numerator a.denominator) 18 0).2 := by
  have hzero : a.isZero = false := by simpa [isZero] using ha
  have htext (d : Nat) : (toString d).toList = Nat.toDigits 10 d := Nat.toList_repr
  simp only [shown, hzero, shortest, Bool.false_eq_true, if_false, htext]
  generalize (a.search (decimalLog a.numerator a.denominator) 18 0).1 = d
  generalize (a.search (decimalLog a.numerator a.denominator) 18 0).2 = k
  obtain ⟨j, hj⟩ := exists_zeros (Nat.toDigits 10 d)
  generalize ((Nat.toDigits 10 d).reverse.dropWhile (· == '0')).reverse = kept at hj
  have hlength : (Nat.toDigits 10 d).length - kept.length = j := by simp [hj]
  rw [hlength]
  conv_rhs => rw [value_of_zeros hj]
  push_cast
  rw [zpow_add₀ (by norm_num), zpow_natCast]
  ring

/-- The number that the shortest digits show is at most half a unit of the last place away from the double. -/
theorem shown_near (hregular : a.Regular) : |a.shown - a.value| ≤ 2 ^ a.exponent / 2 := by
  by_cases ha : a.significand = 0
  · have hzero : a.isZero = true := by simpa [isZero] using ha
    rw [shown, hzero, if_pos rfl, value, ha, Nat.cast_zero, zero_mul, sub_zero, abs_zero]
    positivity
  · obtain ⟨last, d, hsearch, hfound, -⟩ := search_spec (onGrid_ne_none ha hregular) 18 0 (by decide) (by decide)
    rw [shown_eq_search ha, hsearch]
    exact near_of_readsBack ha (onGrid_some hfound).1

theorem length_kept_le {n : Nat} (h : d ≤ 10 ^ (n + 1)) :
    ((toString d).toList.reverse.dropWhile (· == '0')).reverse.length ≤ n + 1 := by
  have htext : (toString d).toList = Nat.toDigits 10 d := Nat.toList_repr
  have hkept (ds : List Char) : (ds.reverse.dropWhile (· == '0')).length ≤ ds.length :=
    (List.dropWhile_suffix _).length_le.trans_eq List.length_reverse
  rw [htext, List.length_reverse]
  rcases h.lt_or_eq with hlt | rfl
  · exact (hkept _).trans ((Nat.length_toDigits_le_iff (by decide) (Nat.succ_pos n)).mpr hlt)
  · -- one digit more, but the last one is a zero
    have hlast : Nat.toDigits 10 (10 ^ (n + 1)) = Nat.toDigits 10 (10 ^ n) ++ ['0'] := by
      rw [Nat.toDigits_of_base_le (by decide) (Nat.le_self_pow (Nat.succ_ne_zero n) 10), pow_succ,
        Nat.mul_div_cancel _ (by decide), Nat.mul_mod_left]
      rfl
    rw [hlast, List.reverse_append, List.reverse_singleton, List.singleton_append, List.dropWhile_cons_of_pos rfl]
    exact (hkept _).trans ((Nat.length_toDigits_le_iff (by decide) (Nat.succ_pos n)).mpr
      (Nat.pow_lt_pow_right (by decide) (Nat.lt_succ_self n)))

/-- The grid on which a number stands is known from its first digit and the number of its digits. -/
theorem grid_of_digits {top : Int} (hover : (10 : ℚ) ^ top < d * 10 ^ k) (hless : (d : ℚ) * 10 ^ k < 10 ^ (top + 1)) :
    k = top - ((Nat.toDigits 10 d).length - 1 : Nat) := by
  have hdigits : 0 < (Nat.toDigits 10 d).length := List.length_pos_iff.mpr Nat.toDigits_ne_nil
  have hpos : 0 < d := by
    rw [Nat.pos_iff_ne_zero]
    rintro rfl
    rw [Nat.cast_zero, zero_mul] at hover
    exact absurd hover (not_lt.mpr (by positivity))
  have hmost : (d : ℚ) < 10 ^ (Nat.toDigits 10 d).length := by
    exact_mod_cast (Nat.length_toDigits_le_iff (by decide) hdigits).mp (Nat.le_refl _)
  have hleast : (10 : ℚ) ^ ((Nat.toDigits 10 d).length - 1) ≤ d := by exact_mod_cast tenPow_le_of_length hpos
  generalize (Nat.toDigits 10 d).length = digits at hdigits hmost hleast ⊢
  have hup : top < digits + k := by
    rw [← zpow_lt_zpow_iff_right₀ (by norm_num : (1 : ℚ) < 10)]
    calc (10 : ℚ) ^ top < d * 10 ^ k := hover
      _ ≤ 10 ^ digits * 10 ^ k := by gcongr
      _ = 10 ^ (digits + k) := by rw [zpow_add₀ (by norm_num), zpow_natCast]
  have hdown : (digits - 1 : Nat) + k < top + 1 := by
    rw [← zpow_lt_zpow_iff_right₀ (by norm_num : (1 : ℚ) < 10)]
    calc (10 : ℚ) ^ ((digits - 1 : Nat) + k) = 10 ^ (digits - 1) * 10 ^ k := by
          rw [zpow_add₀ (by norm_num), zpow_natCast]
      _ ≤ d * 10 ^ k := by gcongr
      _ < 10 ^ (top + 1) := hless
  omega

/-- No number with fewer digits than the shortest ones reads back as the double. -/
theorem shortest_length_le (ha : a.significand ≠ 0) (hregular : a.Regular) (h : a.readsBack d k = true) :
    a.shortest.1.length ≤ (Nat.toDigits 10 d).length := by
  obtain ⟨last, found, hsearch, hfound, hbefore⟩ := search_spec (onGrid_ne_none ha hregular) 18 0 (by decide) (by decide)
  have hshort : a.shortest.1.length ≤ last + 1 := by
    rw [shortest, hsearch]
    exact length_kept_le (onGrid_le hfound)
  have hlow := decimalLog_le_value ha hregular
  have hhigh : a.value < 10 ^ (decimalLog a.numerator a.denominator + 1) := value_eq a ▸ a.numerator_div_denominator_lt
  generalize decimalLog a.numerator a.denominator = top at hbefore hlow hhigh
  rw [readsBack_iff ha] at h
  by_contra hfewer
  have hdigits : 0 < (Nat.toDigits 10 d).length := List.length_pos_iff.mpr Nat.toDigits_ne_nil
  -- neither power of ten around the double is nearest to it, so what reads back lies between them
  have hpower (j : Nat) : ¬ a.Within (10 ^ (top + j)) := by
    have hgrid := not_within_of_onGrid ha (hbefore 0 (Nat.le_refl 0) (by omega)) (10 ^ j)
    rwa [Nat.cast_zero, sub_zero, Nat.cast_pow, Nat.cast_ofNat, ← zpow_natCast, ← zpow_add₀ (by norm_num), add_comm] at hgrid
  have hover : (10 : ℚ) ^ top < d * 10 ^ k := by
    by_contra hle
    exact hpower 0 (by simpa using h.above (not_lt.mp hle) hlow)
  have hless : (d : ℚ) * 10 ^ k < 10 ^ (top + 1) := by
    by_contra hle
    exact hpower 1 (by simpa using h.under (not_lt.mp hle) hhigh.le)
  rw [grid_of_digits hover hless] at h
  exact not_within_of_onGrid ha (hbefore _ (Nat.zero_le _) (by omega)) d h

end BilingualLogic.Double
