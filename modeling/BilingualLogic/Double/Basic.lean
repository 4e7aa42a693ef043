import BilingualLogic.Power

/-!
Double precision: the non-negative numbers `significand * 2 ^ exponent` of the binary format with 53 bits, and their
arithmetic, every operation rounded to the nearest such number, a half to the even significand. An infinite result is
`none`.
-/

namespace BilingualLogic

/-- A non-negative number of the 64-bit binary format, in the form that `nearest` gives it. -/
structure Double where
  significand : Nat
  exponent : Int
deriving DecidableEq, Repr

namespace Double

def zero : Double := ⟨0, -1074⟩

instance : Inhabited Double := ⟨zero⟩

/-- `2 ^ e` as a fraction of natural numbers. -/
def power (e : Int) : Nat × Nat := (twoPow e.toNat, twoPow (-e).toNat)

/-- `num / den` in units of `2 ^ e`, rounded to the nearest integer, a half to the even one. -/
def scaled (num den : Nat) (e : Int) : Nat :=
  let num := num * (power e).2
  let den := den * (power e).1
  let q := num / den
  let r := num % den
  if 2 * r < den then q
  else if 2 * r > den then q + 1
  else if q % 2 = 0 then q else q + 1

/-- The exponent of the largest power of two that is at most `num / den`. -/
def binaryLog (num den : Nat) : Int :=
  let e : Int := num.log2 - den.log2
  if num * (power e).2 < den * (power e).1 then e - 1 else e

/-- The number nearest to `num / den`. -/
def nearest (num den : Nat) : Option Double :=
  if num = 0 then some zero
  else
    let e := max (binaryLog num den - 52) (-1074)
    let m := scaled num den e
    let d : Double := if m = twoPow 53 then ⟨twoPow 52, e + 1⟩ else ⟨m, e⟩
    if d.exponent > 971 then none else some d

def numerator (a : Double) : Nat := a.significand * (power a.exponent).1

def denominator (a : Double) : Nat := (power a.exponent).2

def isZero (a : Double) : Bool := a.significand == 0

def ofNat (n : Nat) : Option Double := nearest n 1

def add (a b : Double) : Option Double :=
  nearest (a.numerator * b.denominator + b.numerator * a.denominator) (a.denominator * b.denominator)

def mul (a b : Double) : Option Double :=
  nearest (a.numerator * b.numerator) (a.denominator * b.denominator)

/-- Division; `b` is not zero. -/
def div (a b : Double) : Option Double :=
  nearest (a.numerator * b.denominator) (a.denominator * b.numerator)

/-- The nearest integer, a half upward. -/
def roundHalfUp (a : Double) : Option Double :=
  nearest ((2 * a.numerator + a.denominator) / (2 * a.denominator)) 1

/-- `10 ^ n` by repeated squaring, every product rounded. The fuel `k` bounds the number of squarings. -/
def powerOfTen (n : Nat) : Option Double :=
  go 64 n ⟨5 * twoPow 50, -49⟩ ⟨twoPow 52, -52⟩
where
  go : Nat → Nat → Double → Double → Option Double
    | 0, _, _, r => some r
    | k + 1, n, a, r => do
      let r ← if n % 2 = 1 then r.mul a else some r
      if n / 2 = 0 then some r else go k (n / 2) (← a.mul a) r

end Double
end BilingualLogic
