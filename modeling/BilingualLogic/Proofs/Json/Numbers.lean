import BilingualLogic.Json.Reader
import BilingualLogic.Json.Writer
import BilingualLogic.Proofs.Double.Bounds

/-!
The numbers of JSON texts: what is read are integers of at most 64 bits and doubles, and what is written for them are
numerals for their values.
-/

namespace BilingualLogic.Json

open Decimal

section Writing

variable {negative : Bool} {ds : List Char} {k : Int}

theorem isDigit_replicate_zero (n : Nat) : ∀ c ∈ List.replicate n '0', c.isDigit = true := by
  intro c hc
  rw [List.eq_of_mem_replicate hc]
  rfl

theorem denotes_split (hds : Significant ds) (hpos : 0 < ds.length + k) (hlt : (ds.length + k).toNat < ds.length) :
    Denotes ((if negative then ['-'] else [])
      ++ (ds.take (ds.length + k).toNat ++ '.' :: ds.drop (ds.length + k).toNat))
      (signed negative (Nat.ofDigitChars 10 ds 0 * 10 ^ k)) := by
  generalize hp : (ds.length + k).toNat = p at hlt
  have hlength : (ds.drop p).length = ds.length - p := List.length_drop
  have hfraction : (ds.drop p).isEmpty = false := by
    rw [List.isEmpty_eq_false_iff, ← List.length_pos_iff]
    omega
  have hfront : ds.take p ≠ [] := by
    rw [← List.length_pos_iff, List.length_take]
    omega
  have hlimit := hds.length_le
  have hplain := Denotes.plain negative (ds.take p) (ds.drop p) hfront
    (fun c hc => hds.isDigit c (List.mem_of_mem_take hc)) (fun c hc => hds.isDigit c (List.mem_of_mem_drop hc))
    (by rw [List.take_append_drop]; exact hds.lt) (by omega)
  have hvalue : (Nat.ofDigitChars 10 ds 0 : ℚ) / 10 ^ (ds.drop p).length = Nat.ofDigitChars 10 ds 0 * 10 ^ k := by
    have hk : k = -((ds.drop p).length : Int) := by omega
    rw [hk, zpow_neg, zpow_natCast, div_eq_mul_inv]
  rw [List.take_append_drop, hvalue] at hplain
  simpa [plainForm, hfraction] using hplain

theorem denotes_padded (hds : Significant ds) (hle : ds.length ≤ (ds.length + k).toNat) (hmost : ds.length + k ≤ 16) :
    Denotes ((if negative then ['-'] else [])
      ++ (ds ++ List.replicate ((ds.length + k).toNat - ds.length) '0' ++ ['.', '0']))
      (signed negative (Nat.ofDigitChars 10 ds 0 * 10 ^ k)) := by
  have hne := List.length_pos_iff.mpr hds.ne_nil
  obtain ⟨z, rfl⟩ : ∃ z : Nat, k = z := Int.eq_ofNat_of_zero_le (by omega)
  have hz : ((ds.length : Int) + z).toNat - ds.length = z := by omega
  have hvalue : Nat.ofDigitChars 10 (ds ++ List.replicate z '0' ++ ['0']) 0 = Nat.ofDigitChars 10 ds 0 * 10 ^ (z + 1) := by
    rw [List.append_assoc, show List.replicate z '0' ++ ['0'] = List.replicate (z + 1) '0' from List.replicate_succ'.symm,
      Nat.ofDigitChars_append, Nat.ofDigitChars_replicate_zero, mul_comm]
  have hsmall : Nat.ofDigitChars 10 (ds ++ List.replicate z '0' ++ ['0']) 0 < twoPow 96 := by
    rw [hvalue]
    calc Nat.ofDigitChars 10 ds 0 * 10 ^ (z + 1) < 10 ^ ds.length * 10 ^ (z + 1) :=
          Nat.mul_lt_mul_of_pos_right (ofDigitChars_lt hds.isDigit) (by positivity)
      _ = 10 ^ (ds.length + (z + 1)) := (pow_add 10 _ _).symm
      _ ≤ 10 ^ 17 := Nat.pow_le_pow_right (by decide) (by omega)
      _ < twoPow 96 := by decide
  have hdigits : ∀ c ∈ ds ++ List.replicate z '0', c.isDigit = true := by
    intro c hc
    rcases List.mem_append.mp hc with hc | hc
    · exact hds.isDigit c hc
    · exact isDigit_replicate_zero z c hc
  have hplain := Denotes.plain negative (ds ++ List.replicate z '0') ['0']
    (by simp [hds.ne_nil]) hdigits (isDigit_replicate_zero 1) hsmall (by decide)
  have hquotient : ((Nat.ofDigitChars 10 ds 0 * 10 ^ (z + 1) : Nat) : ℚ) / 10 ^ ['0'].length
      = Nat.ofDigitChars 10 ds 0 * 10 ^ (z : Int) := by
    rw [zpow_natCast, List.length_singleton]
    push_cast
    rw [pow_succ]
    field_simp
  rw [hvalue, hquotient] at hplain
  rw [hz]
  simpa [plainForm] using hplain

theorem denotes_fraction (hds : Significant ds) (hmost : ds.length + k ≤ 0) (hleast : -5 < ds.length + k) :
    Denotes ((if negative then ['-'] else [])
      ++ ('0' :: '.' :: (List.replicate (-(ds.length + k)).toNat '0' ++ ds)))
      (signed negative (Nat.ofDigitChars 10 ds 0 * 10 ^ k)) := by
  obtain ⟨z, hz⟩ : ∃ z : Nat, -(ds.length + k) = z := Int.eq_ofNat_of_zero_le (by omega)
  have hvalue : Nat.ofDigitChars 10 (['0'] ++ (List.replicate z '0' ++ ds)) 0 = Nat.ofDigitChars 10 ds 0 := by
    rw [← List.append_assoc, show ['0'] ++ List.replicate z '0' = List.replicate (z + 1) '0' from rfl,
      Nat.ofDigitChars_append, Nat.ofDigitChars_replicate_zero, Nat.mul_zero]
  have hdigits : ∀ c ∈ List.replicate z '0' ++ ds, c.isDigit = true := by
    intro c hc
    rcases List.mem_append.mp hc with hc | hc
    · exact isDigit_replicate_zero z c hc
    · exact hds.isDigit c hc
  have hlimit := hds.length_le
  have hplain := Denotes.plain negative ['0'] (List.replicate z '0' ++ ds) (by simp)
    (isDigit_replicate_zero 1) hdigits (by rw [hvalue]; exact hds.lt) (by simp; omega)
  have hquotient : (Nat.ofDigitChars 10 ds 0 : ℚ) / 10 ^ (List.replicate z '0' ++ ds).length
      = Nat.ofDigitChars 10 ds 0 * 10 ^ k := by
    have hk : k = -((List.replicate z '0' ++ ds).length : Int) := by
      rw [List.length_append, List.length_replicate]
      omega
    rw [hk, zpow_neg, zpow_natCast, div_eq_mul_inv]
  rw [hvalue, hquotient] at hplain
  rw [hz, Int.toNat_natCast]
  simpa [plainForm, hds.ne_nil] using hplain

theorem denotes_exponent (hds : Significant ds) :
    Denotes ((if negative then ['-'] else [])
      ++ (ds.take 1 ++ (if (ds.drop 1).isEmpty then [] else '.' :: ds.drop 1)
        ++ 'e' :: (if ds.length + k - 1 < 0 then '-' else '+') :: Nat.toDigits 10 (ds.length + k - 1).natAbs))
      (signed negative (Nat.ofDigitChars 10 ds 0 * 10 ^ k)) := by
  obtain ⟨d, fs, rfl⟩ := List.exists_cons_of_ne_nil hds.ne_nil
  have hscientific := Denotes.scientific negative ((d :: fs).length + k - 1) hds
  have hvalue : (Nat.ofDigitChars 10 (d :: fs) 0 : ℚ) / 10 ^ fs.length * 10 ^ (((d :: fs).length : Int) + k - 1)
      = Nat.ofDigitChars 10 (d :: fs) 0 * 10 ^ k := by
    have hk : ((d :: fs).length : Int) + k - 1 = fs.length + k := by
      rw [List.length_cons]
      push_cast
      ring
    rw [hk, zpow_add₀ (by norm_num), zpow_natCast]
    field_simp
  rw [hvalue] at hscientific
  simpa [plainForm, List.append_assoc] using hscientific

/-- What is written for a double is a numeral for the number that its shortest digits show. -/
theorem denotes_real (negative : Bool) {a : Double} (hregular : a.Regular) :
    Denotes (scalarText (.real negative a)).toList (signed negative a.shown) := by
  have hsign : (scalarText (.real negative a)).toList = (if negative then ['-'] else []) ++ (realText a).toList := by
    rw [scalarText, String.toList_append]
    cases negative <;> rfl
  have hpositive (e : Int) : (if e < 0 then "-" else "+").toList = [if e < 0 then '-' else '+'] := by
    split <;> rfl
  have hnat (n : Nat) : (toString n).toList = Nat.toDigits 10 n := Nat.toList_repr
  rw [hsign]
  cases hzero : a.isZero with
  | true =>
    have hplain := Denotes.plain negative ['0'] ['0'] (by simp) (isDigit_replicate_zero 1)
      (isDigit_replicate_zero 1) (by decide) (by decide)
    simpa [realText, Double.shown, hzero, plainForm, Nat.ofDigitChars] using hplain
  | false =>
    have hds := Double.significant_shortest (by simpa [Double.isZero] using hzero) hregular
    simp only [Double.shown, realText, hzero, Bool.false_eq_true, if_false]
    generalize a.shortest.1 = ds at hds
    generalize a.shortest.2 = k
    by_cases hpoint : 0 < (ds.length : Int) + k ∧ (ds.length : Int) + k ≤ 16
    · rw [if_pos hpoint]
      by_cases hlt : ((ds.length : Int) + k).toNat < ds.length
      · rw [if_pos hlt, String.toList_ofList]
        exact denotes_split hds hpoint.1 hlt
      · rw [if_neg hlt, String.toList_append, String.toList_ofList]
        exact denotes_padded hds (Nat.not_lt.mp hlt) hpoint.2
    · rw [if_neg hpoint]
      by_cases hsmall : -5 < (ds.length : Int) + k ∧ (ds.length : Int) + k ≤ 0
      · rw [if_pos hsmall]
        simpa using denotes_fraction hds hsmall.2 hsmall.1
      · have hexponent : Denotes _ (signed negative (Nat.ofDigitChars 10 ds 0 * 10 ^ k)) := denotes_exponent hds
        rw [if_neg hsmall]
        simp only [String.toList_append, hpositive, hnat, String.toList_ofList]
        cases hrest : ds.drop 1 with
        | nil => simpa [hrest] using hexponent
        | cons d fs => simpa [hrest] using hexponent

theorem toList_integer (n : Int) :
    (scalarText (.integer n)).toList = plainForm (decide (n < 0)) (Nat.toDigits 10 n.natAbs) [] := by
  rw [scalarText, plainForm]
  cases n with
  | ofNat m =>
    change (Nat.repr m).toList = _
    simp
  | negSucc m =>
    change ("-" ++ Nat.repr (m + 1)).toList = _
    simp

theorem denotes_integer {n : Int} (hn : n.natAbs < twoPow 96) : Denotes (scalarText (.integer n)).toList n := by
  have hplain := Denotes.plain (decide (n < 0)) (Nat.toDigits 10 n.natAbs) [] (by simp)
    (fun c => isDigit_toDigits) (by simp) (by rw [List.append_nil, Nat.ofDigitChars_ten_toDigits]; exact hn) (by decide)
  have hvalue : signed (decide (n < 0)) ((n.natAbs : ℚ) / 10 ^ ([] : List Char).length) = n := by
    rw [List.length_nil, pow_zero, div_one, signed_natAbs]
  rw [List.append_nil, Nat.ofDigitChars_ten_toDigits, hvalue] at hplain
  rw [toList_integer]
  exact hplain

end Writing

/-- All numbers in the value are integers of at most 64 bits, or doubles of the format. -/
inductive Sized : Json → Prop
  | null : Sized .null
  | bool (b : Bool) : Sized (.bool b)
  | integer {n : Int} : n.natAbs < twoPow 64 → Sized (.integer n)
  | real (negative : Bool) {a : Double} : a.Regular → Sized (.real negative a)
  | string (s : String) : Sized (.string s)
  | array {items : List Json} : (∀ v ∈ items, Sized v) → Sized (.array items)
  | object {members : List (String × Json)} : (∀ m ∈ members, Sized m.2) → Sized (.object members)

section Reading

variable {a b : Double} {v : Json} {cs rest : List Char}

theorem scaleReal_regular {fuel : Nat} {k : Int} (ha : a.Regular) (h : scaleReal fuel a k = some b) : b.Regular := by
  induction fuel generalizing a k with
  | zero =>
    cases h
    exact ha
  | succ fuel ih =>
    rw [scaleReal] at h
    split at h
    · obtain ⟨power, -, hscaled⟩ := Option.bind_eq_some_iff.mp h
      split at hscaled
      · exact Double.mul_regular hscaled
      · exact Double.div_regular hscaled
    · split at h
      · cases h
        exact ha
      · split at h
        · cases h
        · obtain ⟨power, -, hrest⟩ := Option.bind_eq_some_iff.mp h
          obtain ⟨quotient, hdiv, hscaled⟩ := Option.bind_eq_some_iff.mp hrest
          exact ih (Double.div_regular hdiv) hscaled

theorem Numeral.toReal?_regular {n : Numeral} (h : n.toReal? = some b) : b.Regular := by
  unfold Numeral.toReal? at h
  obtain ⟨a, ha, hscaled⟩ := Option.bind_eq_some_iff.mp h
  have hregular := Double.ofNat_regular ha
  cases hexponent : n.exponent with
  | none =>
    rw [hexponent] at hscaled
    exact scaleReal_regular hregular hscaled
  | some exponent =>
    obtain ⟨down, ds⟩ := exponent
    rw [hexponent] at hscaled
    by_cases hlarge : twoPow 31 ≤ parseDigits ds
    · simp only [ge_iff_le, hlarge, if_true] at hscaled
      obtain ⟨-, hzero⟩ := Option.ite_none_right_eq_some.mp hscaled
      cases hzero
      exact Double.zero_regular
    · simp only [ge_iff_le, hlarge, if_false] at hscaled
      exact scaleReal_regular hregular hscaled

theorem Numeral.value?_sized {n : Numeral} (h : n.value? = some v) : Sized v := by
  have hsmall : twoPow 63 < twoPow 64 := by decide
  have hreal (h : n.toReal?.map (Json.real n.negative ·) = some v) : Sized v := by
    obtain ⟨b, hb, rfl⟩ := Option.map_eq_some_iff.mp h
    exact .real n.negative (Numeral.toReal?_regular hb)
  simp only [Numeral.value?] at h
  cases hneg : n.negative with
  | true =>
    simp only [hneg, if_true, Bool.and_eq_true, decide_eq_true_eq] at h
    split at h
    · next hfits =>
      cases h
      exact .integer (by omega)
    · exact hreal (by rw [hneg]; exact h)
  | false =>
    simp only [hneg, Bool.false_eq_true, if_false, Bool.and_eq_true, decide_eq_true_eq] at h
    split at h
    · next hfits =>
      cases h
      exact .integer (by omega)
    · exact hreal (by rw [hneg]; exact h)

theorem literal?_eq {name : List Char} {u : Json} (h : literal? name u cs = some (v, rest)) : v = u := by
  obtain ⟨-, hvalue⟩ := Option.ite_none_right_eq_some.mp h
  cases hvalue
  rfl

/-- What each of the three readers yields with this fuel is sized. -/
structure ReadsSized (fuel : Nat) : Prop where
  value : ∀ {depth cs v rest}, value? fuel depth cs = some (v, rest) → Sized v
  items : ∀ {depth done cs v rest}, (∀ u ∈ done, Sized u) → items fuel depth done cs = some (v, rest) → Sized v
  members : ∀ {depth done cs v rest}, (∀ m ∈ done, Sized m.2) → members fuel depth done cs = some (v, rest) → Sized v

theorem value?_sized {fuel depth : Nat} (ih : ReadsSized fuel) (h : value? (fuel + 1) depth cs = some (v, rest)) :
    Sized v := by
  rw [value?] at h
  split at h
  · cases h
  · obtain ⟨⟨s, cs⟩, -, hvalue⟩ := Option.map_eq_some_iff.mp h
    cases hvalue
    exact .string s
  · split at h
    · cases h
    · split at h
      · cases h
        exact .array (by simp)
      · exact ih.items (by simp) h
  · split at h
    · cases h
    · split at h
      · cases h
        exact .object (by simp)
      · exact ih.members (by simp) h
  · rw [literal?_eq h]
    exact .null
  · rw [literal?_eq h]
    exact .bool true
  · rw [literal?_eq h]
    exact .bool false
  · split at h
    · obtain ⟨u, hu, hvalue⟩ := Option.map_eq_some_iff.mp h
      cases hvalue
      exact Numeral.value?_sized hu
    · cases h

theorem items_sized {fuel depth : Nat} {done : List Json} (ih : ReadsSized fuel) (hdone : ∀ u ∈ done, Sized u)
    (h : items (fuel + 1) depth done cs = some (v, rest)) : Sized v := by
  rw [items] at h
  split at h
  · cases h
  · next u cs' hvalue =>
    have hmore : ∀ w ∈ u :: done, Sized w := List.forall_mem_cons.mpr ⟨ih.value hvalue, hdone⟩
    split at h
    · exact ih.items hmore h
    · cases h
      exact .array fun w hw => hmore w (List.mem_reverse.mp hw)
    · cases h

theorem members_sized {fuel depth : Nat} {done : List (String × Json)} (ih : ReadsSized fuel)
    (hdone : ∀ m ∈ done, Sized m.2) (h : members (fuel + 1) depth done cs = some (v, rest)) : Sized v := by
  rw [members] at h
  split at h
  · split at h
    · cases h
    · next key cs' hkey =>
      split at h
      · split at h
        · cases h
        · next u cs' hvalue =>
          have hmore : ∀ m ∈ (key, u) :: done, Sized m.2 := List.forall_mem_cons.mpr ⟨ih.value hvalue, hdone⟩
          split at h
          · exact ih.members hmore h
          · cases h
            exact .object fun m hm => hmore m (List.mem_reverse.mp hm)
          · cases h
      · cases h
  · cases h

theorem reads_sized (fuel : Nat) : ReadsSized fuel := by
  induction fuel with
  | zero =>
    constructor
    · intro depth cs v rest h
      cases h
    · intro depth done cs v rest _ h
      cases h
    · intro depth done cs v rest _ h
      cases h
  | succ fuel ih => exact ⟨value?_sized ih, items_sized ih, members_sized ih⟩

theorem parse?_sized {depth : Nat} {text : String} (h : parse? depth text = some v) : Sized v := by
  rw [parse?] at h
  split at h
  · next u rest hvalue =>
    obtain ⟨-, hu⟩ := Option.ite_none_right_eq_some.mp h
    cases hu
    exact (reads_sized _).value hvalue
  · cases h

end Reading

end BilingualLogic.Json
