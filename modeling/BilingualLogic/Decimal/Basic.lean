import BilingualLogic.Power

/-!
Decimal numbers of bounded size: an integer coefficient of at most 96 bits and the number of its decimals.
Equality and order are those of the numbers; `text` writes the shortest plain form.
-/

namespace BilingualLogic

/-- The number `coefficient / 10 ^ scale`. -/
structure Decimal where
  coefficient : Int
  scale : Nat
  coefficient_lt : coefficient.natAbs < twoPow 96
  scale_le : scale ≤ 28

namespace Decimal

def ofInt? (n : Int) : Option Decimal :=
  if h : n.natAbs < twoPow 96 then some ⟨n, 0, h, by omega⟩ else none

def zero : Decimal := ⟨0, 0, twoPow_pos 96, by omega⟩

instance : Inhabited Decimal := ⟨zero⟩

/-- The coefficient that `a` has with `k` decimals, for `k` at least its own number of decimals. -/
def coefficientAt (a : Decimal) (k : Nat) : Int := a.coefficient * tenPow (k - a.scale)

/-- Order of the numbers, whatever their numbers of decimals. -/
def order (a b : Decimal) : Ordering :=
  let k := max a.scale b.scale
  compare (a.coefficientAt k) (b.coefficientAt k)

/-- Equality of the numbers: `1.50` is `1.5`. -/
instance : BEq Decimal := ⟨fun a b => a.order b == .eq⟩

/-- Drops trailing zeros: the coefficient and the number of decimals that remain. -/
def strip : Int → Nat → Int × Nat
  | c, 0 => (c, 0)
  | c, s + 1 => if c % 10 = 0 then strip (c / 10) s else (c, s + 1)

theorem strip_scale_le (c : Int) (s : Nat) : (strip c s).2 ≤ s := by
  induction s generalizing c with
  | zero => simp [strip]
  | succ s ih =>
    unfold strip
    split
    · exact Nat.le_succ_of_le (ih _)
    · exact Nat.le_refl _

theorem strip_natAbs_le (c : Int) (s : Nat) : (strip c s).1.natAbs ≤ c.natAbs := by
  induction s generalizing c with
  | zero => simp [strip]
  | succ s ih =>
    unfold strip
    split
    · exact Nat.le_trans (ih _) (by omega)
    · exact Nat.le_refl _

/-- The same number without trailing zeros. -/
def normalize (a : Decimal) : Decimal where
  coefficient := (strip a.coefficient a.scale).1
  scale := (strip a.coefficient a.scale).2
  coefficient_lt := Nat.lt_of_le_of_lt (strip_natAbs_le ..) a.coefficient_lt
  scale_le := Nat.le_trans (strip_scale_le ..) a.scale_le

def neg (a : Decimal) : Decimal := { a with
  coefficient := -a.coefficient
  coefficient_lt := by simpa using a.coefficient_lt }

/-- The integer that the number is, if it has no fraction. -/
def toInt? (a : Decimal) : Option Int :=
  if a.coefficient % tenPow a.scale = 0 then some (a.coefficient / tenPow a.scale) else none

/-- `digits` with zeros put in front, `width` of them and more if needed. -/
def padded (width : Nat) (digits : List Char) : List Char :=
  List.replicate (width - digits.length) '0' ++ digits

/-- Digits before the point, then the decimals if there are any, without trailing zeros and exponent. -/
def text (a : Decimal) : String :=
  let (c, s) := strip a.coefficient a.scale
  let sign := if c < 0 then "-" else ""
  let whole := toString (c.natAbs / tenPow s)
  if s = 0 then sign ++ whole
  else sign ++ whole ++ "." ++ String.ofList (padded s (toString (c.natAbs % tenPow s)).toList)

end Decimal
end BilingualLogic
