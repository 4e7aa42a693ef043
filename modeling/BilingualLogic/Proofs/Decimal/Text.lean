import BilingualLogic.Decimal.Numeral
import Mathlib.Tactic.ByContra

/-!
The text of a number denotes the number: its digits are read one by one, and there is room for all of them.
-/

namespace BilingualLogic.Decimal

/-- A numeral of digits before the point and decimals behind it, if there are any. -/
def plainForm (negative : Bool) (ds fs : List Char) : List Char :=
  (if negative then ['-'] else []) ++ (ds ++ if fs.isEmpty then [] else '.' :: fs)

theorem digit?_of_isDigit {c : Char} (h : c.isDigit = true) : digit? c = some (c.toNat - '0'.toNat) := by
  simp only [Char.isDigit, ge_iff_le, Bool.and_eq_true, decide_eq_true_eq] at h
  exact if_pos h

theorem le_ofDigitChars (ds : List Char) (m : Nat) : m ≤ Nat.ofDigitChars 10 ds m := by
  rw [Nat.ofDigitChars_eq_ofDigitChars_zero]
  have hpos : 0 < 10 ^ ds.length := Nat.pow_pos (by decide)
  have := Nat.le_mul_of_pos_left m hpos
  omega

theorem whole_digits {ds : List Char} (hds : ∀ c ∈ ds, c.isDigit = true) (cs : List Char) {m : Nat} {seen : Bool}
    (hseen : seen = true ∨ ds ≠ []) (hm : Nat.ofDigitChars 10 ds m < twoPow 96) :
    whole m seen (ds ++ cs) = whole (Nat.ofDigitChars 10 ds m) true cs := by
  induction ds generalizing m seen with
  | nil =>
    rcases hseen with rfl | h
    · rfl
    · exact absurd rfl h
  | cons d ds ih =>
    have hd := digit?_of_isDigit (hds d (by simp))
    rw [Nat.ofDigitChars_cons] at hm ⊢
    have hle := le_ofDigitChars ds (10 * m + (d.toNat - '0'.toNat))
    have hstep : m * 10 + (d.toNat - '0'.toNat) = 10 * m + (d.toNat - '0'.toNat) := by omega
    rw [List.cons_append, whole, hd]
    dsimp only
    rw [hstep, if_pos (by omega)]
    exact ih (fun c hc => hds c (by simp [hc])) (Or.inl rfl) hm

theorem decimals_digits {fs : List Char} (hfs : ∀ c ∈ fs, c.isDigit = true) {m s : Nat} {seen : Bool}
    (hseen : seen = true ∨ fs ≠ []) (hm : Nat.ofDigitChars 10 fs m < twoPow 96) (hs : s + fs.length ≤ 28) :
    decimals m s seen fs = some (Nat.ofDigitChars 10 fs m, s + fs.length) := by
  induction fs generalizing m s seen with
  | nil =>
    rcases hseen with rfl | h
    · rfl
    · exact absurd rfl h
  | cons d fs ih =>
    have hd := digit?_of_isDigit (hfs d (by simp))
    rw [Nat.ofDigitChars_cons] at hm ⊢
    have hle := le_ofDigitChars fs (10 * m + (d.toNat - '0'.toNat))
    have hstep : m * 10 + (d.toNat - '0'.toNat) = 10 * m + (d.toNat - '0'.toNat) := by omega
    simp only [List.length_cons] at hs ⊢
    rw [decimals, hd]
    dsimp only
    rw [hstep, if_pos ⟨by omega, by omega⟩, ih (fun c hc => hfs c (by simp [hc])) (Or.inl rfl) hm (by omega)]
    congr 2
    omega

theorem plain?_minus {cs : List Char} {m k : Nat} (h : whole 0 false cs = some (m, k)) :
    plain? ('-' :: cs) = ofMagnitude true m k := by
  simp only [plain?, h]

theorem plain?_unsigned {c : Char} {cs : List Char} (hm : c ≠ '-') (hp : c ≠ '+') {m k : Nat}
    (h : whole 0 false (c :: cs) = some (m, k)) : plain? (c :: cs) = ofMagnitude false m k := by
  unfold plain?
  split
  next negative rest hsign =>
    split at hsign
    · next heq => exact absurd (List.cons.inj heq).1 hm
    · next heq => exact absurd (List.cons.inj heq).1 hp
    · cases hsign
      rw [h]

theorem plain?_plainForm {negative : Bool} {ds fs : List Char} (hne : ds ≠ []) (hds : ∀ c ∈ ds, c.isDigit = true)
    (hfs : ∀ c ∈ fs, c.isDigit = true) (hm : Nat.ofDigitChars 10 (ds ++ fs) 0 < twoPow 96) (hs : fs.length ≤ 28) :
    plain? (plainForm negative ds fs) = ofMagnitude negative (Nat.ofDigitChars 10 (ds ++ fs) 0) fs.length := by
  rw [Nat.ofDigitChars_append] at hm ⊢
  have hle := le_ofDigitChars fs (Nat.ofDigitChars 10 ds 0)
  have hwhole : whole 0 false (ds ++ if fs.isEmpty then [] else '.' :: fs) =
      some (Nat.ofDigitChars 10 fs (Nat.ofDigitChars 10 ds 0), fs.length) := by
    rw [whole_digits hds _ (Or.inr hne) (by omega)]
    cases fs with
    | nil => rfl
    | cons f fs =>
      have hdot : digit? '.' = none := rfl
      simp only [List.isEmpty_cons, Bool.false_eq_true, if_false, whole, hdot, if_true]
      rw [decimals_digits hfs (Or.inr (by simp)) hm (by omega), Nat.zero_add]
  cases negative with
  | true => exact plain?_minus hwhole
  | false =>
    obtain ⟨d, ds', rfl⟩ := List.exists_cons_of_ne_nil hne
    have hd := hds d (by simp)
    refine plain?_unsigned ?_ ?_ hwhole
    · rintro rfl
      exact absurd hd (by decide)
    · rintro rfl
      exact absurd hd (by decide)

theorem isDigit_toDigits {n : Nat} {c : Char} (h : c ∈ Nat.toDigits 10 n) : c.isDigit = true :=
  Nat.isDigit_of_mem_toDigits (by decide) (by decide) h

theorem isDigit_padded {k : Nat} {ds : List Char} (h : ∀ c ∈ ds, c.isDigit = true) :
    ∀ c ∈ padded k ds, c.isDigit = true := by
  intro c hc
  rcases List.mem_append.mp hc with hc | hc
  · rw [List.eq_of_mem_replicate hc]
    rfl
  · exact h c hc

theorem padded_length {k n : Nat} (h : n < tenPow (k + 1)) : (padded (k + 1) (Nat.toDigits 10 n)).length = k + 1 := by
  have hlen := (Nat.length_toDigits_le_iff (b := 10) (by decide) (Nat.succ_pos k)).mpr h
  simp only [padded, List.length_append, List.length_replicate]
  omega

theorem ofDigitChars_padded (k n : Nat) : Nat.ofDigitChars 10 (padded k (Nat.toDigits 10 n)) 0 = n := by
  rw [padded, Nat.ofDigitChars_append, Nat.ofDigitChars_replicate_zero]
  simp [Nat.ofDigitChars_ten_toDigits]

/-- The decimals that the text of a number shows. -/
def shownDecimals (a : Decimal) : List Char :=
  if a.normalize.scale = 0 then []
  else padded a.normalize.scale (Nat.toDigits 10 (a.normalize.coefficient.natAbs % tenPow a.normalize.scale))

def shownWhole (a : Decimal) : List Char :=
  Nat.toDigits 10 (a.normalize.coefficient.natAbs / tenPow a.normalize.scale)

theorem text_toList (a : Decimal) : a.text.toList =
    plainForm (decide (a.normalize.coefficient < 0)) a.shownWhole a.shownDecimals := by
  have htext : a.text =
      let sign := if a.normalize.coefficient < 0 then "-" else ""
      let whole := toString (a.normalize.coefficient.natAbs / tenPow a.normalize.scale)
      if a.normalize.scale = 0 then sign ++ whole
      else sign ++ whole ++ "." ++ String.ofList (padded a.normalize.scale
        (toString (a.normalize.coefficient.natAbs % tenPow a.normalize.scale)).toList) := rfl
  have hsign : (if a.normalize.coefficient < 0 then "-" else "").toList =
      if decide (a.normalize.coefficient < 0) then ['-'] else [] := by
    simp only [decide_eq_true_eq]
    split <;> rfl
  rw [htext, plainForm, ← hsign, shownWhole, shownDecimals]
  by_cases hs : a.normalize.scale = 0
  · simp [hs, Nat.toList_repr]
  · obtain ⟨k, hk⟩ := Nat.exists_eq_succ_of_ne_zero hs
    have hne : padded a.normalize.scale
        (Nat.toDigits 10 (a.normalize.coefficient.natAbs % tenPow a.normalize.scale)) ≠ [] := by
      rw [hk, ← List.length_pos_iff, padded_length (Nat.mod_lt _ (tenPow_pos _))]
      omega
    simp only [if_neg hs, List.isEmpty_eq_false_iff.mpr hne]
    simp [Nat.toList_repr]

theorem shownWhole_ne_nil (a : Decimal) : a.shownWhole ≠ [] := Nat.toDigits_ne_nil

theorem isDigit_shownWhole (a : Decimal) : ∀ c ∈ a.shownWhole, c.isDigit = true := fun _ => isDigit_toDigits

theorem isDigit_shownDecimals (a : Decimal) : ∀ c ∈ a.shownDecimals, c.isDigit = true := by
  unfold shownDecimals
  split
  · simp
  · exact isDigit_padded fun _ => isDigit_toDigits

theorem shownDecimals_length (a : Decimal) : a.shownDecimals.length = a.normalize.scale := by
  unfold shownDecimals
  split
  · next h => rw [h, List.length_nil]
  · next h =>
    obtain ⟨k, hk⟩ := Nat.exists_eq_succ_of_ne_zero h
    rw [hk]
    exact padded_length (Nat.mod_lt _ (tenPow_pos _))

theorem shown_value (a : Decimal) :
    Nat.ofDigitChars 10 (a.shownWhole ++ a.shownDecimals) 0 = a.normalize.coefficient.natAbs := by
  have hlen := a.shownDecimals_length
  rw [Nat.ofDigitChars_append, shownWhole, Nat.ofDigitChars_ten_toDigits, Nat.ofDigitChars_eq_ofDigitChars_zero, hlen]
  unfold shownDecimals
  have hdiv := Nat.div_add_mod a.normalize.coefficient.natAbs (tenPow a.normalize.scale)
  split
  · next h =>
    simp [h, tenPow]
  · rw [ofDigitChars_padded]
    exact hdiv

theorem ofMagnitude_natAbs (a : Decimal) :
    ofMagnitude (decide (a.coefficient < 0)) a.coefficient.natAbs a.scale = some a := by
  obtain ⟨c, s, hc, hs⟩ := a
  rw [ofMagnitude, dif_pos ⟨hc, hs⟩]
  by_cases hneg : c < 0
  · simp only [hneg, decide_true, if_true]
    congr 2
    omega
  · simp only [hneg, decide_false, Bool.false_eq_true, if_false]
    congr 2
    omega

theorem plain?_text (a : Decimal) : plain? a.text.toList = some a.normalize := by
  have hval := a.shown_value
  have hlt := a.normalize.coefficient_lt
  have hle := a.normalize.scale_le
  have hlen := a.shownDecimals_length
  rw [text_toList, plain?_plainForm a.shownWhole_ne_nil a.isDigit_shownWhole a.isDigit_shownDecimals (by omega)
    (by omega), hval, hlen, ofMagnitude_natAbs]

theorem ofNumeral?_text (a : Decimal) : ofNumeral? a.text = some a.normalize := by
  rw [ofNumeral?, plain?_text]

theorem strip_value (c : Int) (s : Nat) : (strip c s).1 * tenPow (s - (strip c s).2) = c := by
  induction s generalizing c with
  | zero => simp [strip, tenPow]
  | succ s ih =>
    rw [strip]
    split
    · next hmod =>
      have hle := strip_scale_le (c / 10) s
      have hsub : s + 1 - (strip (c / 10) s).2 = (s - (strip (c / 10) s).2) + 1 := by omega
      have hpow (k : Nat) : (tenPow (k + 1) : Int) = tenPow k * 10 := by
        simp [tenPow, Nat.pow_succ]
      rw [hsub, hpow, ← Int.mul_assoc, ih]
      omega
    · simp [tenPow]

theorem strip_strip (c : Int) (s : Nat) : strip (strip c s).1 (strip c s).2 = strip c s := by
  induction s generalizing c with
  | zero => simp [strip]
  | succ s ih =>
    by_cases hc : c % 10 = 0
    · have hstrip : strip c (s + 1) = strip (c / 10) s := by rw [strip, if_pos hc]
      rw [hstrip, ih]
    · have hstrip : strip c (s + 1) = (c, s + 1) := by rw [strip, if_neg hc]
      rw [hstrip, hstrip]

theorem strip_mul_tenPow (c : Int) (s k : Nat) : strip (c * tenPow k) (s + k) = strip c s := by
  induction k with
  | zero => simp [tenPow]
  | succ k ih =>
    have hpow : (tenPow (k + 1) : Int) = tenPow k * 10 := by simp [tenPow, Nat.pow_succ]
    rw [hpow, ← Int.mul_assoc, ← Nat.add_assoc, strip, if_pos (by omega), Int.mul_ediv_cancel _ (by decide), ih]

theorem normalize_normalize (a : Decimal) : a.normalize.normalize = a.normalize := by
  have h := strip_strip a.coefficient a.scale
  simp only [normalize, mk.injEq]
  exact Prod.ext_iff.mp h

theorem beq_normalize (a : Decimal) : (a == a.normalize) = true := by
  have hle := strip_scale_le a.coefficient a.scale
  have hmax : max a.scale a.normalize.scale = a.scale := Nat.max_eq_left hle
  have hleft : a.coefficientAt a.scale = a.coefficient := by simp [coefficientAt, tenPow]
  have hright : a.normalize.coefficientAt a.scale = a.coefficient := strip_value a.coefficient a.scale
  change (a.order a.normalize == .eq) = true
  rw [order, hmax, hleft, hright]
  simp [compare, compareOfLessAndEq]

theorem normalize_nonneg {a : Decimal} (h : 0 ≤ a.coefficient) : 0 ≤ a.normalize.coefficient := by
  have hvalue := strip_value a.coefficient a.scale
  change 0 ≤ (strip a.coefficient a.scale).1
  by_contra hneg
  have hpos : (0 : Int) < tenPow (a.scale - (strip a.coefficient a.scale).2) := by
    exact_mod_cast tenPow_pos _
  have := Int.mul_neg_of_neg_of_pos (Int.not_le.mp hneg) hpos
  omega

theorem ofMagnitude_nonneg {m k : Nat} {a : Decimal} (h : ofMagnitude false m k = some a) : 0 ≤ a.coefficient := by
  unfold ofMagnitude at h
  split at h
  · cases h
    simp
  · cases h

theorem fit_nonneg {num den places : Nat} {hp : places ≤ 28} {a : Decimal} (h : fit false num den places hp = some a) :
    0 ≤ a.coefficient := by
  induction places with
  | zero =>
    unfold fit at h
    simp only [Bool.false_eq_true, if_false] at h
    split at h
    · cases h
      simp
    · cases h
  | succ places ih =>
    unfold fit at h
    simp only [Bool.false_eq_true, if_false] at h
    split at h
    · cases h
      simp
    · exact ih h

theorem plain?_nonneg {cs : List Char} {a : Decimal} (hcs : ∀ ds, cs ≠ '-' :: ds) (h : plain? cs = some a) :
    0 ≤ a.coefficient := by
  unfold plain? at h
  split at h
  next negative rest hsign =>
    obtain rfl : negative = false := by
      split at hsign
      · exact absurd rfl (hcs _)
      · cases hsign
        rfl
      · cases hsign
        rfl
    split at h
    · exact ofMagnitude_nonneg h
    · cases h

theorem scaleDown_nonneg {a b : Decimal} {k : Nat} (ha : 0 ≤ a.coefficient) (h : a.scaleDown k = some b) :
    0 ≤ b.coefficient := by
  have hneg : decide (a.coefficient < 0) = false := by simpa using ha
  simp only [scaleDown, hneg] at h
  split at h
  · cases h
  · split at h
    · exact ofMagnitude_nonneg h
    · exact ofMagnitude_nonneg h

theorem scaleUp_nonneg {a b : Decimal} {k : Nat} (ha : 0 ≤ a.coefficient) (h : a.scaleUp k = some b) :
    0 ≤ b.coefficient := by
  have hneg : decide (a.coefficient < 0) = false := by simpa using ha
  simp only [scaleUp, hneg] at h
  split at h
  · exact ofMagnitude_nonneg h
  · split at h
    · cases h
    · split at h
      · next power hpower =>
        unfold ofInt? at hpower
        split at hpower
        · cases hpower
          have hprod : ¬ a.coefficient * (tenPow k : Int) < 0 :=
            Int.not_lt.mpr (Int.mul_nonneg ha (Int.natCast_nonneg _))
          simp only [mul, fitInt, hprod, decide_false] at h
          exact fit_nonneg h
        · cases hpower
      · cases h

theorem scientific?_nonneg {cs : List Char} {a : Decimal} (hcs : ∀ ds, cs ≠ '-' :: ds) (h : scientific? cs = some a) :
    0 ≤ a.coefficient := by
  unfold scientific? at h
  dsimp only at h
  have hfront : ∀ ds, cs.takeWhile (fun c => ! (c == 'e' || c == 'E')) ≠ '-' :: ds := by
    intro ds hds
    cases cs with
    | nil => cases hds
    | cons c cs =>
      rw [List.takeWhile_cons] at hds
      split at hds
      · obtain ⟨rfl, -⟩ := List.cons.inj hds
        exact hcs cs rfl
      · cases hds
  split at h
  · next hplain =>
    obtain ⟨k, -, hk⟩ := Option.bind_eq_some_iff.mp h
    exact scaleDown_nonneg (plain?_nonneg hfront hplain) hk
  · next hplain =>
    obtain ⟨k, -, hk⟩ := Option.bind_eq_some_iff.mp h
    exact scaleUp_nonneg (plain?_nonneg hfront hplain) hk
  · cases h

theorem strip_neg (c : Int) (s : Nat) : strip (-c) s = (-(strip c s).1, (strip c s).2) := by
  induction s generalizing c with
  | zero => rfl
  | succ s ih =>
    have hmod : -c % 10 = 0 ↔ c % 10 = 0 := by omega
    rw [strip, strip]
    by_cases h : c % 10 = 0
    · have hdiv : -c / 10 = -(c / 10) := by omega
      rw [if_pos (hmod.mpr h), if_pos h, hdiv, ih]
    · rw [if_neg (hmod.not.mpr h), if_neg h]

theorem text_of_neg {a : Decimal} (h : a.coefficient < 0) : a.text.toList = '-' :: a.neg.text.toList := by
  have hvalue := strip_value a.coefficient a.scale
  have hpos : (0 : Int) < tenPow (a.scale - a.normalize.scale) := by exact_mod_cast tenPow_pos _
  have hneg : a.normalize.coefficient < 0 := by
    by_contra hnonneg
    have := Int.mul_nonneg (Int.not_lt.mp hnonneg) (Int.le_of_lt hpos)
    change a.normalize.coefficient * tenPow (a.scale - a.normalize.scale) = a.coefficient at hvalue
    omega
  have hstrip := strip_neg a.coefficient a.scale
  have hcoefficient : a.neg.normalize.coefficient = -a.normalize.coefficient := congrArg Prod.fst hstrip
  have hscale : a.neg.normalize.scale = a.normalize.scale := by
    change (strip (-a.coefficient) a.scale).2 = _
    rw [hstrip]
    rfl
  have hwhole : a.neg.shownWhole = a.shownWhole := by
    rw [shownWhole, shownWhole, hcoefficient, hscale, Int.natAbs_neg]
  have hdecimals : a.neg.shownDecimals = a.shownDecimals := by
    rw [shownDecimals, shownDecimals, hcoefficient, hscale, Int.natAbs_neg]
  have hsign : ¬ -a.normalize.coefficient < 0 := by omega
  rw [text_toList, text_toList, hwhole, hdecimals, hcoefficient, decide_eq_true hneg, decide_eq_false hsign]
  rfl

theorem ofNumeral?_nonneg {text : String} {a : Decimal} (htext : ∀ ds, text.toList ≠ '-' :: ds)
    (h : ofNumeral? text = some a) : 0 ≤ a.coefficient := by
  unfold ofNumeral? at h
  split at h
  · next hplain =>
    cases h
    exact plain?_nonneg htext hplain
  · exact scientific?_nonneg htext h

end BilingualLogic.Decimal
