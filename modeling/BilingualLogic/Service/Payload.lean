import BilingualLogic.Json.Reader

/-!
Payloads of requests: JSON objects with fields of given kinds. Reading goes from left to right and stops at the first
thing that is wrong, either the form of the text or the kind of a value. Unknown fields are passed over; an array
stands for the values of the fields in order.
-/

namespace BilingualLogic.Payload

open Json

inductive Kind where
  /-- A string, which must be there. -/
  | text
  /-- A string, `null`, or nothing. -/
  | optionalText
  /-- A natural number of 64 bits, `null`, or nothing. -/
  | optionalSize
deriving DecidableEq

def Kind.isRequired (k : Kind) : Bool := k == .text

inductive Fault where
  | malformed
  | mistyped
deriving DecidableEq

abbrev Fields := List (String × Kind)

abbrev Values := List (String × Json)

/-- What is wrong where a value of another kind is wanted. -/
def unwanted (cs : List Char) : Fault :=
  match cs with
  | '[' :: _ => .mistyped
  | '\x7b' :: _ => .mistyped
  | _ => if (value? 1 0 cs).isSome then .mistyped else .malformed

def readNull (cs : List Char) : Except Fault (Json × List Char) :=
  match literal? "null".toList .null cs with
  | some r => .ok r
  | none => .error .malformed

def readText (cs : List Char) : Except Fault (Json × List Char) :=
  match cs with
  | '"' :: cs =>
    match stringRest [] cs with
    | some (s, cs) => .ok (.string s, cs)
    | none => .error .malformed
  | cs => .error (unwanted cs)

def readSize (cs : List Char) : Except Fault (Json × List Char) :=
  match value? 1 0 cs with
  | some (.integer n, rest) => if n < 0 then .error .mistyped else .ok (.integer n, rest)
  | _ => .error (unwanted cs)

/-- Reads a value of the kind, in front of which there are no blanks. -/
def readKind : Kind → List Char → Except Fault (Json × List Char)
  | .text, cs => readText cs
  | .optionalText, 'n' :: cs => readNull ('n' :: cs)
  | .optionalText, cs => readText cs
  | .optionalSize, 'n' :: cs => readNull ('n' :: cs)
  | .optionalSize, cs => readSize cs

/-- The values, unless one that is required is missing. -/
def complete (fields : Fields) (values : Values) : Except Fault Values :=
  if fields.all fun (name, kind) => ! kind.isRequired || (values.lookup name).isSome then .ok values
  else .error .mistyped

/-- Reads the members of an object; the fuel is the length of the text. -/
def readMembers (fields : Fields) : Nat → Values → List Char → Except Fault Values
  | 0, _, _ => .error .malformed
  | fuel + 1, values, cs =>
    match skipSpace cs with
    | '"' :: cs =>
      match stringRest [] cs with
      | none => .error .malformed
      | some (key, cs) =>
        let kind := fields.lookup key
        if kind.isSome && (values.lookup key).isSome then .error .mistyped
        else
          match skipSpace cs with
          | ':' :: cs =>
            let read : Except Fault (Values × List Char) := match kind with
              | some kind => do
                let (v, rest) ← readKind kind (skipSpace cs)
                .ok ((key, v) :: values, rest)
              | none =>
                match value? (cs.length + 1) cs.length cs with
                | some (_, rest) => .ok (values, rest)
                | none => .error .malformed
            match read with
            | .error e => .error e
            | .ok (values, cs) =>
              match skipSpace cs with
              | ',' :: cs => readMembers fields fuel values cs
              | '\x7d' :: _ => complete fields values
              | _ => .error .malformed
          | _ => .error .malformed
    | _ => .error .malformed

/-- Reads the items of an array as the values of the fields in order. -/
def readItems (all : Fields) (values : Values) : Bool → Fields → List Char → Except Fault Values
  | _, [], cs =>
    match skipSpace cs with
    | ']' :: _ => complete all values
    | _ => .error .malformed
  | first, (name, kind) :: fields, cs =>
    match skipSpace cs with
    | ']' :: _ => complete all values
    | cs =>
      let item : Except Fault (List Char) :=
        if first then .ok cs
        else match cs with
          | ',' :: cs =>
            match skipSpace cs with
            | ']' :: _ => .error .malformed
            | cs => .ok cs
          | _ => .error .malformed
      match item with
      | .error e => .error e
      | .ok cs =>
        match readKind kind cs with
        | .error e => .error e
        | .ok (v, cs) => readItems all ((name, v) :: values) false fields cs

def read (fields : Fields) (text : String) : Except Fault Values :=
  let cs := skipSpace text.toList
  match cs with
  | '\x7b' :: cs =>
    match skipSpace cs with
    | '\x7d' :: _ => complete fields []
    | cs => readMembers fields (cs.length + 1) [] cs
  | '[' :: cs => readItems fields [] true fields cs
  | cs => .error (unwanted cs)

def text (values : Values) (name : String) : Option String :=
  match values.lookup name with
  | some (.string s) => some s
  | _ => none

def size (values : Values) (name : String) : Option Nat :=
  match values.lookup name with
  | some (.integer n) => some n.toNat
  | _ => none

end BilingualLogic.Payload
