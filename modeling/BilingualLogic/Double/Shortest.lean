import BilingualLogic.Double.Basic

/-!
Shortest digits: of the decimal numbers that read back as a given double, the nearest of those with the fewest digits.
-/

namespace BilingualLogic.Double

/-- The least `k` up to `limit` with `num * 10 ^ k ≥ den`, counted from `k`. -/
def shiftUp (num den : Nat) : Nat → Nat → Nat
  | 0, k => k
  | limit + 1, k => if num * tenPow k ≥ den then k else shiftUp num den limit (k + 1)

/-- The exponent of the largest power of ten that is at most the number, which is not zero. -/
def decimalLog (num den : Nat) : Int :=
  if num ≥ den then (toString (num / den)).length - 1 else -(shiftUp num den 400 1 : Int)

/-- `10 ^ k` as a fraction of natural numbers. -/
def powerTen (k : Int) : Nat × Nat := (tenPow k.toNat, tenPow (-k).toNat)

/-- Whether `digits * 10 ^ k` is nearer to `a` than to any other double, or as near with `a` even. -/
def readsBack (a : Double) (digits : Nat) (k : Int) : Bool :=
  let (p, q) := powerTen k
  let below := if a.significand = twoPow 52 ∧ a.exponent > -1074 then 1 else 2
  let (two, half) := power (a.exponent - 2)
  let x := digits * p * half
  let low := (4 * a.significand - below) * two * q
  let high := (4 * a.significand + 2) * two * q
  if a.significand % 2 = 0 then low ≤ x && x ≤ high else low < x && x < high

/-- The point of the grid `10 ^ k` that is nearest to `a` among its two neighbours that read back, if one does. -/
def onGrid (a : Double) (k : Int) : Option Nat :=
  let (p, q) := powerTen k
  let num := a.numerator * q
  let den := a.denominator * p
  let d := num / den
  let r := num % den
  match a.readsBack d k, a.readsBack (d + 1) k with
  | false, false => none
  | true, false => some d
  | false, true => some (d + 1)
  | true, true =>
    if 2 * r < den then some d
    else if 2 * r > den then some (d + 1)
    else if d % 2 = 0 then some d else some (d + 1)

def search (a : Double) (top : Int) : Nat → Nat → Nat × Int
  | 0, _ => (a.significand, 0)
  | fuel + 1, n =>
    let k := top - n
    match a.onGrid k with
    | some d => (d, k)
    | none => search a top fuel (n + 1)

/-- The shortest digits of a number that is not zero, and the power of ten of the last one. -/
def shortest (a : Double) : List Char × Int :=
  let (d, k) := a.search (decimalLog a.numerator a.denominator) 18 0
  let digits := (toString d).toList
  let kept := (digits.reverse.dropWhile (· == '0')).reverse
  (kept, k + (digits.length - kept.length : Nat))

end BilingualLogic.Double
