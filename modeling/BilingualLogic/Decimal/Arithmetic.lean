import BilingualLogic.Decimal.Basic

/-!
The four operations and the remainder on decimals. The exact result is rounded half to even to as many decimals
as the operation may keep and the coefficient has room for; a result too large for no decimals at all is an
overflow, which is `none`, as is division by zero.
-/

namespace BilingualLogic.Decimal

/-- `num / den` rounded to the nearest integer, a half to the even one. -/
def roundEven (num den : Nat) : Nat :=
  let q := num / den
  let r := num % den
  if 2 * r < den then q
  else if 2 * r > den then q + 1
  else if q % 2 = 0 then q else q + 1

/-- The number `± num / den` with as many decimals, at most `places`, as fit. -/
def fit (negative : Bool) (num den : Nat) (places : Nat) (h : places ≤ 28) : Option Decimal :=
  let m := roundEven (num * tenPow places) den
  if hm : m < twoPow 96 then
    some ⟨if negative then -m else m, places, by split <;> simpa using hm, h⟩
  else match places, h with
    | 0, _ => none
    | s + 1, h => fit negative num den s (Nat.le_of_succ_le h)

def fitInt (n : Int) (den places : Nat) (h : places ≤ 28) : Option Decimal :=
  fit (n < 0) n.natAbs den places h

theorem max_scale_le (a b : Decimal) : max a.scale b.scale ≤ 28 :=
  Nat.max_le.2 ⟨a.scale_le, b.scale_le⟩

def add (a b : Decimal) : Option Decimal :=
  let k := max a.scale b.scale
  fitInt (a.coefficientAt k + b.coefficientAt k) (tenPow k) k (max_scale_le a b)

def sub (a b : Decimal) : Option Decimal := a.add b.neg

def mul (a b : Decimal) : Option Decimal :=
  fitInt (a.coefficient * b.coefficient) (tenPow (a.scale + b.scale)) (min 28 (a.scale + b.scale))
    (Nat.min_le_left ..)

def div (a b : Decimal) : Option Decimal :=
  if b.coefficient = 0 then none
  else
    let k := max a.scale b.scale
    let num := a.coefficientAt k
    let den := b.coefficientAt k
    fit (decide (num < 0) != decide (den < 0)) num.natAbs den.natAbs 28 (Nat.le_refl _)

/-- What is left after division with the quotient cut off toward zero; it has the sign of the dividend. -/
def rem (a b : Decimal) : Option Decimal :=
  if b.coefficient = 0 then none
  else
    let k := max a.scale b.scale
    fitInt ((a.coefficientAt k).tmod (b.coefficientAt k)) (tenPow k) 28 (Nat.le_refl _)

end BilingualLogic.Decimal
