import BilingualLogic.Json.Basic

/-!
JSON numerals. An integer that fits 64 bits, signed or unsigned, is itself. Any other number becomes a double: the
leading digits that fit 64 bits are converted, then multiplied or divided by a power of ten, every step rounded.
-/

namespace BilingualLogic.Json

def isDigit (c : Char) : Bool := '0' ≤ c && c ≤ '9'

def digitValue (c : Char) : Nat := c.toNat - '0'.toNat

def parseDigits (cs : List Char) : Nat := cs.foldl (fun n c => n * 10 + digitValue c) 0

/-- The parts of a numeral, as written. -/
structure Numeral where
  negative : Bool
  whole : List Char
  decimals : Option (List Char)
  exponent : Option (Bool × List Char)

/-- Splits a numeral off the front of the text: no leading zeros, and digits wherever a part is announced. -/
def Numeral.scan (cs : List Char) : Option (Numeral × List Char) := do
  let (negative, cs) := match cs with
    | '-' :: cs => (true, cs)
    | cs => (false, cs)
  let whole := cs.takeWhile isDigit
  let cs := cs.dropWhile isDigit
  if whole.isEmpty || (whole.length > 1 && whole.head? == some '0') then none
  let (decimals, cs) ← match cs with
    | '.' :: cs =>
      let ds := cs.takeWhile isDigit
      if ds.isEmpty then none else some (some ds, cs.dropWhile isDigit)
    | cs => some (none, cs)
  let (exponent, cs) ← match cs with
    | c :: cs =>
      if c = 'e' ∨ c = 'E' then
        let (down, cs) := match cs with
          | '-' :: cs => (true, cs)
          | '+' :: cs => (false, cs)
          | cs => (false, cs)
        let ds := cs.takeWhile isDigit
        if ds.isEmpty then none else some (some (down, ds), cs.dropWhile isDigit)
      else some (none, c :: cs)
    | [] => some (none, [])
  some (⟨negative, whole, decimals, exponent⟩, cs)

/-- The leading digits below `2 ^ 64` as a number, and how many digits are left over. -/
def leading (n : Nat) : List Char → Nat × Nat
  | [] => (n, 0)
  | c :: cs =>
    let m := n * 10 + digitValue c
    if m < twoPow 64 then leading m cs else (n, cs.length + 1)

/-- `a * 10 ^ k` or `a / 10 ^ -k`, one rounded step for powers up to 308; `none` beyond the double range. -/
def scaleReal : Nat → Double → Int → Option Double
  | 0, a, _ => some a
  | fuel + 1, a, k =>
    if k.natAbs ≤ 308 then do
      let power ← Double.ofNat (tenPow k.natAbs)
      if k ≥ 0 then a.mul power else a.div power
    else if a.isZero then some a
    else if k ≥ 0 then none
    else do scaleReal fuel (← a.div (← Double.ofNat (tenPow 308))) (k + 308)

/-- The double that the numeral denotes, if it is in range. -/
def Numeral.toReal? (n : Numeral) : Option Double := do
  let (significand, left) := leading 0 n.whole
  let (significand, shift) :=
    match n.decimals with
    | none => (significand, (left : Int))
    | some ds =>
      if left = 0 then
        let (s, dropped) := leading significand ds
        (s, -((ds.length - dropped : Nat) : Int))
      else
        let (s, dropped) := leading significand ds
        (s, (left : Int) - ((ds.length - dropped : Nat) : Int))
  let a ← Double.ofNat significand
  match n.exponent with
  | none => scaleReal 4 a shift
  | some (down, ds) =>
    let e := parseDigits ds
    if e ≥ twoPow 31 then if significand = 0 ∨ down then some Double.zero else none
    else scaleReal 4 a (if down then shift - e else shift + e)

/-- The value that the numeral denotes, if it is in range. -/
def Numeral.value? (n : Numeral) : Option Json :=
  let whole := parseDigits n.whole
  let fits : Bool := if n.negative then 0 < whole && whole ≤ twoPow 63 else whole < twoPow 64
  if n.decimals.isNone && n.exponent.isNone && fits then
    some (integer (if n.negative then -whole else whole))
  else n.toReal?.map (real n.negative ·)

end BilingualLogic.Json
