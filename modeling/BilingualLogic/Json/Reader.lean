import BilingualLogic.Json.Numeral

/-!
Reading JSON texts, strictly by the standard. `depth` bounds the nesting of arrays and objects; the fuel of the mutual
functions is the length of the text, of which every call takes a character.
-/

namespace BilingualLogic.Json

def isSpace (c : Char) : Bool := c == ' ' || c == '\n' || c == '\r' || c == '\t'

def skipSpace (cs : List Char) : List Char := cs.dropWhile isSpace

def hexValue? (c : Char) : Option Nat :=
  if isDigit c then some (digitValue c)
  else if 'a' ≤ c ∧ c ≤ 'f' then some (c.toNat - 'a'.toNat + 10)
  else if 'A' ≤ c ∧ c ≤ 'F' then some (c.toNat - 'A'.toNat + 10)
  else none

def hex4? (a b c d : Char) : Option Nat := do
  some ((((← hexValue? a) * 16 + (← hexValue? b)) * 16 + (← hexValue? c)) * 16 + (← hexValue? d))

def simpleEscape? : Char → Option Char
  | '"' => some '"'
  | '\\' => some '\\'
  | '/' => some '/'
  | 'b' => some (Char.ofNat 8)
  | 'f' => some (Char.ofNat 12)
  | 'n' => some '\n'
  | 'r' => some '\r'
  | 't' => some '\t'
  | _ => none

/-- The character of a pair of surrogates. -/
def ofSurrogates (high low : Nat) : Char := Char.ofNat (0x10000 + (high - 0xD800) * 0x400 + (low - 0xDC00))

/-- Reads a string behind its opening quote; `done` holds what is read so far, backwards. -/
def stringRest (done : List Char) : List Char → Option (String × List Char)
  | [] => none
  | '"' :: cs => some (String.ofList done.reverse, cs)
  | '\\' :: 'u' :: a :: b :: c :: d :: '\\' :: 'u' :: e :: f :: g :: h :: cs =>
    match hex4? a b c d, hex4? e f g h with
    | some n, some m =>
      if 0xD800 ≤ n ∧ n < 0xDC00 then
        if 0xDC00 ≤ m ∧ m < 0xE000 then stringRest (ofSurrogates n m :: done) cs else none
      else if (0xDC00 ≤ n ∧ n < 0xE000) ∨ (0xDC00 ≤ m ∧ m < 0xE000) then none
      else if 0xD800 ≤ m ∧ m < 0xDC00 then
        stringRest (Char.ofNat n :: done) ('\\' :: 'u' :: e :: f :: g :: h :: cs)
      else stringRest (Char.ofNat m :: Char.ofNat n :: done) cs
    | _, _ => none
  | '\\' :: 'u' :: a :: b :: c :: d :: cs =>
    match hex4? a b c d with
    | some n => if 0xD800 ≤ n ∧ n < 0xE000 then none else stringRest (Char.ofNat n :: done) cs
    | none => none
  | '\\' :: c :: cs =>
    match simpleEscape? c with
    | some c => stringRest (c :: done) cs
    | none => none
  | c :: cs => if c.toNat < 32 then none else stringRest (c :: done) cs
termination_by cs => cs.length

/-- Reads what is behind a literal name. -/
def literal? (name : List Char) (value : Json) (cs : List Char) : Option (Json × List Char) :=
  if name.isPrefixOf cs then some (value, cs.drop name.length) else none

mutual

/-- Reads a value off the front of the text, in which at most `depth` more levels may open. -/
def value? : Nat → Nat → List Char → Option (Json × List Char)
  | 0, _, _ => none
  | fuel + 1, depth, cs =>
    match skipSpace cs with
    | [] => none
    | '"' :: cs => (stringRest [] cs).map fun (s, cs) => (string s, cs)
    | '[' :: cs =>
      match depth with
      | 0 => none
      | depth + 1 =>
        match skipSpace cs with
        | ']' :: cs => some (array [], cs)
        | cs => items fuel depth [] cs
    | '\x7b' :: cs =>
      match depth with
      | 0 => none
      | depth + 1 =>
        match skipSpace cs with
        | '\x7d' :: cs => some (object [], cs)
        | cs => members fuel depth [] cs
    | 'n' :: cs => literal? "ull".toList null cs
    | 't' :: cs => literal? "rue".toList (bool true) cs
    | 'f' :: cs => literal? "alse".toList (bool false) cs
    | cs =>
      match Numeral.scan cs with
      | some (n, cs) => n.value?.map (·, cs)
      | none => none

/-- Reads the items of an array up to its end. -/
def items : Nat → Nat → List Json → List Char → Option (Json × List Char)
  | 0, _, _, _ => none
  | fuel + 1, depth, done, cs =>
    match value? fuel depth cs with
    | none => none
    | some (v, cs) =>
      match skipSpace cs with
      | ',' :: cs => items fuel depth (v :: done) cs
      | ']' :: cs => some (array (v :: done).reverse, cs)
      | _ => none

/-- Reads the members of an object up to its end. -/
def members : Nat → Nat → List (String × Json) → List Char → Option (Json × List Char)
  | 0, _, _, _ => none
  | fuel + 1, depth, done, cs =>
    match skipSpace cs with
    | '"' :: cs =>
      match stringRest [] cs with
      | none => none
      | some (key, cs) =>
        match skipSpace cs with
        | ':' :: cs =>
          match value? fuel depth cs with
          | none => none
          | some (v, cs) =>
            match skipSpace cs with
            | ',' :: cs => members fuel depth ((key, v) :: done) cs
            | '\x7d' :: cs => some (object ((key, v) :: done).reverse, cs)
            | _ => none
        | _ => none
    | _ => none

end

/-- Reads a text that holds one value and blanks around it. -/
def parse? (depth : Nat) (text : String) : Option Json :=
  let cs := text.toList
  match value? (cs.length + 1) depth cs with
  | some (v, rest) => if (skipSpace rest).isEmpty then some v else none
  | none => none

end BilingualLogic.Json
