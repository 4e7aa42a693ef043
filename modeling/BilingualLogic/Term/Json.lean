import BilingualLogic.Decimal.Binary
import BilingualLogic.Json.Basic
import BilingualLogic.Term

/-!
Terms as JSON values: numbers, strings, booleans and arrays; a variable and a pattern become the strings that show
them.
-/

namespace BilingualLogic

/-- An integer if the number is one of 64 bits, else a double. -/
def Decimal.toJson (n : Decimal) : Json :=
  let real := match n.toDouble? with
    | some a => Json.real (n.coefficient < 0) a
    | none => .string n.text
  match n.toInt? with
  | some i => if -(twoPow 63) ≤ i ∧ i < twoPow 63 then .integer i else real
  | none => real

def Value.toJson : Value → Json
  | number n => n.toJson
  | text s => .string s
  | atom s => .string s
  | boolean b => .bool b

def Term.toJson : Term → Json
  | var name => .string ("?" ++ name)
  | const v => v.toJson
  | list items => .array (items.map Term.toJson)
  | pattern items rest => .string ((pattern items rest).render .latin)

end BilingualLogic
