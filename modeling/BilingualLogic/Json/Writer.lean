import BilingualLogic.Json.Basic
import BilingualLogic.Double.Shortest

/-!
JSON texts of values: a compact form without blanks, and one with a line per item and two blanks per level.
-/

namespace BilingualLogic.Json

def hexDigit (n : Nat) : Char := "0123456789abcdef".toList.getD n '0'

/-- A character inside a string: the quote, the backslash and control characters are escaped. -/
def escaped (c : Char) : List Char :=
  match c with
  | '"' => ['\\', '"']
  | '\\' => ['\\', '\\']
  | '\n' => ['\\', 'n']
  | '\r' => ['\\', 'r']
  | '\t' => ['\\', 't']
  | c =>
    if c = Char.ofNat 8 then ['\\', 'b']
    else if c = Char.ofNat 12 then ['\\', 'f']
    else if c.toNat < 32 then ['\\', 'u', '0', '0', hexDigit (c.toNat / 16), hexDigit (c.toNat % 16)]
    else [c]

def quoted (s : String) : String :=
  "\"" ++ String.ofList (s.toList.flatMap escaped) ++ "\""

/-- A double: positional from `1e-5` up to `1e16`, with one decimal at least; otherwise with a signed exponent. -/
def realText (a : Double) : String :=
  if a.isZero then "0.0"
  else
    let (digits, k) := a.shortest
    let n := digits.length
    let point : Int := n + k
    if 0 < point ∧ point ≤ 16 then
      let p := point.toNat
      if p < n then String.ofList (digits.take p ++ '.' :: digits.drop p)
      else String.ofList (digits ++ List.replicate (p - n) '0') ++ ".0"
    else if -5 < point ∧ point ≤ 0 then
      "0." ++ String.ofList (List.replicate (-point).toNat '0' ++ digits)
    else
      let fraction := match digits.drop 1 with
        | [] => ""
        | more => "." ++ String.ofList more
      let e := point - 1
      String.ofList (digits.take 1) ++ fraction ++ "e" ++ (if e < 0 then "-" else "+") ++ toString e.natAbs

def scalarText : Json → String
  | null => "null"
  | bool b => if b then "true" else "false"
  | integer n => toString n
  | real negative a => (if negative then "-" else "") ++ realText a
  | string s => quoted s
  | array _ => "[]"
  | object _ => "\x7b\x7d"

/-- The compact form. -/
def compact : Json → String
  | array items => "[" ++ ",".intercalate (items.map compact) ++ "]"
  | object members => "\x7b" ++ ",".intercalate (members.map fun m => quoted m.1 ++ ":" ++ m.2.compact) ++ "\x7d"
  | scalar => scalarText scalar
termination_by v => sizeOf v
decreasing_by
  · decreasing_tactic
  · rename_i h
    have := List.sizeOf_lt_of_mem h
    cases m
    simp at *
    omega

def newline (level : Nat) : String := "\n" ++ String.ofList (List.replicate (2 * level) ' ')

/-- The form with a line per item, for a value that stands `level` levels deep. -/
def prettyAt (level : Nat) : Json → String
  | array [] => "[]"
  | array items =>
    let line := newline (level + 1)
    "[" ++ line ++ ("," ++ line).intercalate (items.map (prettyAt (level + 1))) ++ newline level ++ "]"
  | object [] => "\x7b\x7d"
  | object members =>
    let line := newline (level + 1)
    "\x7b" ++ line
      ++ ("," ++ line).intercalate (members.map fun m => quoted m.1 ++ ": " ++ m.2.prettyAt (level + 1))
      ++ newline level ++ "\x7d"
  | scalar => scalarText scalar
termination_by v => sizeOf v
decreasing_by
  · decreasing_tactic
  · rename_i h
    have := List.sizeOf_lt_of_mem h
    cases m
    simp at *
    omega

def pretty (v : Json) : String := v.prettyAt 0

end BilingualLogic.Json
