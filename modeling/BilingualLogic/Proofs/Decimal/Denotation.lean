import BilingualLogic.Proofs.Decimal.Rounding

/-!
The numbers that numerals denote. A numeral is read as the decimal of its number, if that is in the range of decimals,
and otherwise it is not read.
-/

namespace BilingualLogic.Decimal

/-- Digits of a number that is not zero, the first of which is not zero either. -/
structure Significant (ds : List Char) : Prop where
  isDigit : ∀ c ∈ ds, c.isDigit = true
  leading : 10 ^ (ds.length - 1) ≤ Nat.ofDigitChars 10 ds 0
  length_le : ds.length ≤ 19

/-- The characters are a numeral for the number. -/
inductive Denotes : List Char → ℚ → Prop
  | plain (negative : Bool) (ds fs : List Char) : ds ≠ [] → (∀ c ∈ ds, c.isDigit = true) →
      (∀ c ∈ fs, c.isDigit = true) → Nat.ofDigitChars 10 (ds ++ fs) 0 < twoPow 96 → fs.length ≤ 28 →
    Denotes (plainForm negative ds fs) (signed negative (Nat.ofDigitChars 10 (ds ++ fs) 0 / 10 ^ fs.length))
  | scientific (negative : Bool) {d : Char} {fs : List Char} (e : Int) : Significant (d :: fs) →
    Denotes (plainForm negative [d] fs ++ 'e' :: (if e < 0 then '-' else '+') :: Nat.toDigits 10 e.natAbs)
      (signed negative (Nat.ofDigitChars 10 (d :: fs) 0 / 10 ^ fs.length * 10 ^ e))

section Reading

variable {cs : List Char} {m s : Nat} {seen : Bool}

theorem decimals_eq_none {c : Char} (hc : c ∈ cs) (hd : digit? c = none) (hu : c ≠ '_') :
    decimals m s seen cs = none := by
  induction cs generalizing m s seen with
  | nil => cases hc
  | cons x cs ih =>
    rw [decimals]
    rcases List.mem_cons.mp hc with rfl | hc
    · simp [hd, hu]
    · split
      · split
        · exact ih hc
        · next d _ _ =>
          have hall : cs.all (fun c => (digit? c).isSome || c == '_') = false := by
            rw [List.all_eq_false]
            exact ⟨c, hc, by simp [hd, hu]⟩
          rw [hall]
          rfl
      · split
        · exact ih hc
        · rfl

theorem whole_eq_none {c : Char} (hc : c ∈ cs) (hd : digit? c = none) (hp : c ≠ '.') (hu : c ≠ '_') :
    whole m seen cs = none := by
  induction cs generalizing m seen with
  | nil => cases hc
  | cons x cs ih =>
    rw [whole]
    rcases List.mem_cons.mp hc with rfl | hc
    · simp [hd, hp, hu]
    · split
      · split
        · exact ih hc
        · rfl
      · split
        · exact decimals_eq_none hc hd hu
        · split
          · exact ih hc
          · rfl

theorem plain?_eq_none {c : Char} (hc : c ∈ cs) (hd : digit? c = none) (hother : c ∉ ['.', '_', '-', '+']) :
    plain? cs = none := by
  simp only [List.mem_cons, List.not_mem_nil, or_false, not_or] at hother
  obtain ⟨hp, hu, hminus, hplus⟩ := hother
  unfold plain?
  split
  next negative rest hsign =>
    have hrest : c ∈ rest := by
      split at hsign
      · cases hsign
        exact (List.mem_cons.mp hc).resolve_left hminus
      · cases hsign
        exact (List.mem_cons.mp hc).resolve_left hplus
      · cases hsign
        exact hc
    rw [whole_eq_none hrest hd hp hu]

theorem exponent_digits {ds : List Char} (hds : ∀ c ∈ ds, c.isDigit = true) (m : Nat) (hm : m < twoPow 32) :
    ds.foldl (fun n c => match n, digit? c with
      | some n, some d => if n * 10 + d < twoPow 32 then some (n * 10 + d) else none
      | _, _ => none) (some m) =
    if Nat.ofDigitChars 10 ds m < twoPow 32 then some (Nat.ofDigitChars 10 ds m) else none := by
  induction ds generalizing m with
  | nil => exact (if_pos hm).symm
  | cons d ds ih =>
    have hd := digit?_of_isDigit (hds d (by simp))
    have hstep : m * 10 + (d.toNat - '0'.toNat) = 10 * m + (d.toNat - '0'.toNat) := by omega
    rw [List.foldl_cons, hd, Nat.ofDigitChars_cons]
    simp only [hstep]
    split
    · next hlt => exact ih (fun c hc => hds c (by simp [hc])) _ hlt
    · next hge =>
      have hle := le_ofDigitChars ds (10 * m + (d.toNat - '0'.toNat))
      rw [if_neg (by omega)]
      clear ih hds hle
      induction ds with
      | nil => rfl
      | cons c cs ih => exact ih

theorem exponent?_toDigits (n : Nat) :
    exponent? (Nat.toDigits 10 n) = (if n < twoPow 32 then some n else none) ∧
      exponent? ('+' :: Nat.toDigits 10 n) = if n < twoPow 32 then some n else none := by
  have hvalue := exponent_digits (fun c => isDigit_toDigits (n := n) (c := c)) 0 (by decide)
  rw [Nat.ofDigitChars_ten_toDigits] at hvalue
  have hne : (Nat.toDigits 10 n).isEmpty = false := by simp
  constructor
  · unfold exponent?
    split
    · next cs hcs =>
      have hplus : '+'.isDigit = true := isDigit_toDigits (n := n) (by simp [hcs])
      exact absurd hplus (by decide)
    · simp only [hne]
      exact hvalue
  · simp only [exponent?, hne]
    exact hvalue

/-- Exponents that are too large to be read are too large for decimals in any case. -/
theorem exponent_bind {f : Nat → Option Decimal} (hf : ∀ n, twoPow 32 ≤ n → f n = none) (n : Nat) :
    (if n < twoPow 32 then some n else none).bind f = f n := by
  split
  · rfl
  · next hn => exact (hf n (Nat.not_lt.mp hn)).symm

theorem scaleDown_eq_none {a : Decimal} {n : Nat} (hn : twoPow 32 ≤ n) : a.scaleDown n = none := by
  have hlt : 28 < twoPow 32 := by decide
  exact if_pos (by omega)

theorem scaleUp_eq_none {a : Decimal} {n : Nat} (hn : twoPow 32 ≤ n) : a.scaleUp n = none := by
  have hlt : 28 < twoPow 32 := by decide
  have hscale := a.scale_le
  rw [scaleUp, if_neg (by omega), if_pos (by omega)]

theorem mem_plainForm {negative : Bool} {ds fs : List Char} (hds : ∀ c ∈ ds, c.isDigit = true)
    (hfs : ∀ c ∈ fs, c.isDigit = true) {c : Char} (hc : c ∈ plainForm negative ds fs) :
    c.isDigit = true ∨ c = '-' ∨ c = '.' := by
  rw [plainForm] at hc
  rcases List.mem_append.mp hc with hc | hc
  · split at hc
    · exact Or.inr (Or.inl (List.mem_singleton.mp hc))
    · cases hc
  · rcases List.mem_append.mp hc with hc | hc
    · exact Or.inl (hds c hc)
    · split at hc
      · cases hc
      · rcases List.mem_cons.mp hc with rfl | hc
        · exact Or.inr (Or.inr rfl)
        · exact Or.inl (hfs c hc)

theorem ofNumeral?_scientific {negative : Bool} {ds fs : List Char} (hds : ∀ c ∈ ds, c.isDigit = true)
    (hfs : ∀ c ∈ fs, c.isDigit = true) {a : Decimal} (ha : plain? (plainForm negative ds fs) = some a) (e : Int) :
    ofNumeral? (String.ofList (plainForm negative ds fs
      ++ 'e' :: (if e < 0 then '-' else '+') :: Nat.toDigits 10 e.natAbs)) =
    if e < 0 then a.scaleDown e.natAbs else a.scaleUp e.natAbs := by
  have hfront : ∀ c ∈ plainForm negative ds fs, (! (c == 'e' || c == 'E')) = true := by
    intro c hc
    rcases mem_plainForm hds hfs hc with hc | rfl | rfl
    · rw [Bool.not_eq_true', Bool.or_eq_false_iff, beq_eq_false_iff_ne, beq_eq_false_iff_ne]
      constructor
      · rintro rfl
        exact absurd hc (by decide)
      · rintro rfl
        exact absurd hc (by decide)
    · rfl
    · rfl
  have htake (cs : List Char) : ('e' :: cs).takeWhile (fun c => ! (c == 'e' || c == 'E')) = [] := rfl
  have hdrop (cs : List Char) : ('e' :: cs).dropWhile (fun c => ! (c == 'e' || c == 'E')) = 'e' :: cs := rfl
  obtain ⟨hdown, hup⟩ := exponent?_toDigits e.natAbs
  rw [ofNumeral?, String.toList_ofList, plain?_eq_none (c := 'e') (by simp) rfl (by decide)]
  simp only [scientific?]
  rw [List.takeWhile_append_of_pos hfront, List.dropWhile_append_of_pos hfront, htake, hdrop, List.append_nil, ha]
  by_cases hneg : e < 0
  · simp only [hneg, if_true]
    rw [hdown, exponent_bind fun n => scaleDown_eq_none]
  · simp only [hneg, if_false]
    change (exponent? ('+' :: Nat.toDigits 10 e.natAbs)).bind a.scaleUp = _
    rw [hup, exponent_bind fun n => scaleUp_eq_none]

end Reading

section Denotation

variable {w : List Char} {x : ℚ}

theorem ofDigitChars_lt {ds : List Char} (hds : ∀ c ∈ ds, c.isDigit = true) :
    Nat.ofDigitChars 10 ds 0 < 10 ^ ds.length := by
  induction ds with
  | nil => decide
  | cons d ds ih =>
    have hd := hds d (by simp)
    have hrest := ih fun c hc => hds c (by simp [hc])
    simp only [Char.isDigit, ge_iff_le, Bool.and_eq_true, decide_eq_true_eq] at hd
    have hle : d.toNat ≤ 57 := hd.2
    have hdigit : d.toNat - '0'.toNat ≤ 9 := by
      change d.toNat - 48 ≤ 9
      omega
    have hmul := Nat.mul_le_mul_left (10 ^ ds.length) hdigit
    rw [Nat.ofDigitChars_cons, Nat.mul_zero, Nat.zero_add, Nat.ofDigitChars_eq_ofDigitChars_zero, List.length_cons,
      Nat.pow_succ]
    omega

theorem Significant.ne_nil {ds : List Char} (h : Significant ds) : ds ≠ [] := by
  rintro rfl
  exact absurd h.leading (by decide)

theorem Significant.lt {ds : List Char} (h : Significant ds) : Nat.ofDigitChars 10 ds 0 < twoPow 96 :=
  calc Nat.ofDigitChars 10 ds 0 < 10 ^ ds.length := ofDigitChars_lt h.isDigit
    _ ≤ 10 ^ 19 := Nat.pow_le_pow_right (by decide) h.length_le
    _ < twoPow 96 := by decide

/-- A numeral is read as the decimal of the number that it denotes. -/
theorem Denotes.holds (h : Denotes w x) : Holds (ofNumeral? (String.ofList w)) x := by
  cases h with
  | plain negative ds fs hne hds hfs hm hs =>
    have hexact := holds_exact negative hm hs
    have hplain : plain? (plainForm negative ds fs) = _ := plain?_plainForm hne hds hfs hm hs
    obtain ⟨a, ha, -⟩ := ofMagnitude_eq negative hm hs
    rw [ha] at hexact hplain
    rw [ofNumeral?, String.toList_ofList, hplain]
    exact hexact
  | @scientific negative d fs e hdigits =>
    obtain ⟨hd, hfs⟩ := List.forall_mem_cons.mp hdigits.isDigit
    have hds : ∀ c ∈ [d], c.isDigit = true := by simpa using hd
    have hlength := hdigits.length_le
    rw [List.length_cons] at hlength
    have hplain : plain? (plainForm negative [d] fs) = ofMagnitude negative (Nat.ofDigitChars 10 ([d] ++ fs) 0) fs.length :=
      plain?_plainForm (by simp) hds hfs hdigits.lt (by omega)
    obtain ⟨a, ha, -⟩ := ofMagnitude_eq negative hdigits.lt (by omega : fs.length ≤ 28)
    rw [List.singleton_append, ha] at hplain
    rw [ofNumeral?_scientific hds hfs hplain]
    split
    · next hneg =>
      have hpow : (10 : ℚ) ^ e = 1 / 10 ^ e.natAbs := by
        rw [one_div, ← zpow_natCast, ← zpow_neg]
        congr 1
        omega
      rw [hpow, mul_one_div]
      exact scaleDown_holds ha (by simpa using hdigits.leading) (by simpa using ofDigitChars_lt hdigits.isDigit)
    · next hneg =>
      have hpow : (10 : ℚ) ^ e = 10 ^ e.natAbs := by
        rw [← zpow_natCast]
        congr 1
        omega
      rw [hpow]
      exact scaleUp_holds ha (by simpa using hdigits.leading)

end Denotation

end BilingualLogic.Decimal
