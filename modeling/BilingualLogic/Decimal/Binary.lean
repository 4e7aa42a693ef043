import BilingualLogic.Decimal.Basic
import BilingualLogic.Double.Basic

/-!
Decimals in double precision: the whole part and the fraction are converted apart, and their sum is rounded to the
decimals of the number.
-/

namespace BilingualLogic.Decimal

/-- The magnitude in double precision. -/
def toDouble? (a : Decimal) : Option Double := do
  let m := a.coefficient.natAbs
  if a.scale = 0 then Double.ofNat m
  else
    let p := tenPow a.scale
    let fraction ← (← Double.ofNat (m % p)).div (← Double.ofNat p)
    let whole ← Double.ofNat (m / p)
    if fraction.isZero then some whole
    else
      let unit ← Double.powerOfTen a.scale
      (← (← (← whole.add fraction).mul unit).roundHalfUp).div unit

end BilingualLogic.Decimal
