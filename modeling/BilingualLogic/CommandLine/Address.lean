import BilingualLogic.Decimal.Numeral

/-!
Addresses that a server listens on: four bytes in decimal, or groups of hexadecimal digits in brackets, where two
colons stand for groups of zeros.
-/

namespace BilingualLogic.CommandLine.Address

/-- A number below 256 without leading zeros. -/
def isByte (text : String) : Bool :=
  let cs := text.toList
  1 ≤ cs.length && cs.length ≤ 3 && cs.all (Decimal.digit? · |>.isSome) && (cs.length == 1 || cs.head? != some '0')
    && decide (cs.foldl (fun n c => n * 10 + (Decimal.digit? c).getD 0) 0 < 256)

def isDotted (host : String) : Bool :=
  let parts := host.splitOn "."
  parts.length == 4 && parts.all isByte

def isHexDigit (c : Char) : Bool :=
  (Decimal.digit? c).isSome || ('a' ≤ c && c ≤ 'f') || ('A' ≤ c && c ≤ 'F')

def isGroup (text : String) : Bool :=
  let cs := text.toList
  1 ≤ cs.length && cs.length ≤ 4 && cs.all isHexDigit

def groups (text : String) : List String := if text.isEmpty then [] else text.splitOn ":"

def isGrouped (text : String) : Bool :=
  match text.splitOn "::" with
  | [all] => (groups all).length == 8 && (groups all).all isGroup
  | [front, back] =>
    let given := groups front ++ groups back
    decide (given.length < 8) && given.all isGroup
  | _ => false

def isBracketed (host : String) : Bool :=
  match host.toList with
  | '[' :: cs => cs.getLast? == some ']' && isGrouped (String.ofList cs.dropLast)
  | _ => false

def isHost (host : String) : Bool := isDotted host || isBracketed host

end BilingualLogic.CommandLine.Address
