import BilingualLogic.Decimal.Arithmetic
import BilingualLogic.Text.Blank

/-!
Numerals: the texts that denote decimals. The plain form has digits with at most one point among them and may have
`_` after a digit; decimals that the coefficient has no room for are rounded half up. The scientific form puts an
exponent behind a plain form.
-/

namespace BilingualLogic.Decimal

def digit? (c : Char) : Option Nat :=
  if '0' ≤ c ∧ c ≤ '9' then some (c.toNat - '0'.toNat) else none

/-- A magnitude with its number of decimals, if both are in bounds. -/
def ofMagnitude (negative : Bool) (m s : Nat) : Option Decimal :=
  if h : m < twoPow 96 ∧ s ≤ 28 then
    some ⟨if negative then -m else m, s, by split <;> simpa using h.1, h.2⟩
  else none

/-- Rounds the magnitude `m` by the first digit `d` that found no room. -/
def roundUp (m s d : Nat) : Option (Nat × Nat) :=
  if d < 5 then some (m, s)
  else if m + 1 < twoPow 96 then some (m + 1, s)
  else if s = 0 then none
  else some ((m + 5) / 10, s - 1)

/-- Reads the digits after the point, from the magnitude `m` with `s` decimals. -/
def decimals (m s : Nat) (seen : Bool) : List Char → Option (Nat × Nat)
  | [] => if seen then some (m, s) else none
  | c :: cs =>
    match digit? c with
    | some d =>
      if s < 28 ∧ m * 10 + d < twoPow 96 then decimals (m * 10 + d) (s + 1) true cs
      else if cs.all fun c => (digit? c).isSome || c == '_' then roundUp m s d
      else none
    | none => if c = '_' ∧ seen then decimals m s seen cs else none

/-- Reads the digits before the point, and those after it if there is one. -/
def whole (m : Nat) (seen : Bool) : List Char → Option (Nat × Nat)
  | [] => if seen then some (m, 0) else none
  | c :: cs =>
    match digit? c with
    | some d => if m * 10 + d < twoPow 96 then whole (m * 10 + d) true cs else none
    | none =>
      if c = '.' then decimals m 0 seen cs
      else if c = '_' ∧ seen then whole m seen cs
      else none

/-- Reads the plain form: a sign at most, then digits with a point at most. -/
def plain? (cs : List Char) : Option Decimal :=
  let (negative, cs) := match cs with
    | '-' :: cs => (true, cs)
    | '+' :: cs => (false, cs)
    | cs => (false, cs)
  match whole 0 false cs with
  | some (m, s) => ofMagnitude negative m s
  | none => none

/-- Reads an unsigned exponent of at most 32 bits. -/
def exponent? (cs : List Char) : Option Nat :=
  let cs := match cs with
    | '+' :: cs => cs
    | cs => cs
  if cs.isEmpty then none
  else
    let value := cs.foldl (fun n c => match n, digit? c with
      | some n, some d => if n * 10 + d < twoPow 32 then some (n * 10 + d) else none
      | _, _ => none) (some 0)
    value

/-- Divides the magnitude by ten `n` times; the last digit dropped rounds half up. -/
def shorten (m : Nat) : Nat → Nat
  | 0 => m
  | n + 1 => (m / tenPow n + 5) / 10

/-- `a / 10 ^ k`, rounded if that needs more than 28 decimals. -/
def scaleDown (a : Decimal) (k : Nat) : Option Decimal :=
  if k > 28 then none
  else if a.scale + k ≤ 28 then ofMagnitude (a.coefficient < 0) a.coefficient.natAbs (a.scale + k)
  else ofMagnitude (a.coefficient < 0) (shorten a.coefficient.natAbs (a.scale + k - 28)) 28

/-- `a * 10 ^ k`. -/
def scaleUp (a : Decimal) (k : Nat) : Option Decimal :=
  if k ≤ a.scale then ofMagnitude (a.coefficient < 0) a.coefficient.natAbs (a.scale - k)
  else if k > 28 then none
  else match ofInt? (tenPow k) with
    | some power => a.mul power
    | none => none

/-- Reads the scientific form: a plain form, `e` or `E`, and an exponent. -/
def scientific? (cs : List Char) : Option Decimal :=
  let isMark := fun c => c == 'e' || c == 'E'
  match cs.dropWhile (! isMark ·), plain? (cs.takeWhile (! isMark ·)) with
  | _ :: '-' :: e, some a => (exponent? e).bind a.scaleDown
  | _ :: e, some a => (exponent? e).bind a.scaleUp
  | _, _ => none

/-- The number that a numeral denotes: the plain form first, then the scientific one. -/
def ofNumeral? (text : String) : Option Decimal :=
  match plain? text.toList with
  | some a => some a
  | none => scientific? text.toList

/-- The number that a text denotes when blanks around it are left aside. -/
def ofText? (text : String) : Option Decimal :=
  ofNumeral? (Text.trim text)

end BilingualLogic.Decimal
