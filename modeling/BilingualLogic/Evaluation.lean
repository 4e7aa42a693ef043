import BilingualLogic.Source.Reading
import BilingualLogic.Unification

/-!
The value of a formula under a substitution. A text in a formula stands for the number that it denotes, or else for
the value of the formula that it holds. What cannot be evaluated has no value.
-/

namespace BilingualLogic.Formula

/-- How deep texts that hold formulas may stand in one another. -/
def maxTextNesting : Nat := 16

/-- The value of a formula, given what its texts stand for that denote no number. -/
def valueBy (s : Substitution) (ofText : String → Option Decimal) : Formula → Option Decimal
  | .term t =>
    match s.walk t with
    | .const (.text content) =>
      match Decimal.ofText? content with
      | some x => some x
      | none => ofText content
    | .const v => v.number?
    | _ => none
  | .negate a => (valueBy s ofText a).map Decimal.neg
  | .binary op a b =>
    match valueBy s ofText a, valueBy s ofText b with
    | some x, some y => op.apply x y
    | _, _ => none

/-- The value of a text that holds a formula, in which `n - 1` more such texts may stand in one another. -/
def textValue (s : Substitution) : Nat → String → Option Decimal
  | 0, _ => none
  | n + 1, content =>
    match Formula.parse content with
    | .ok e => valueBy s (textValue s n) e
    | .error _ => none

def value (e : Formula) (s : Substitution) : Option Decimal := valueBy s (textValue s maxTextNesting) e

end BilingualLogic.Formula

namespace BilingualLogic

/-- Whether the comparison holds; it does not if a side has no value. -/
def Comparison.holds (op : Comparison) (a b : Formula) (s : Substitution) : Bool :=
  match a.value s, b.value s with
  | some x, some y => op.admits (x.order y)
  | _, _ => false

/-- Unifies a term with the value of a formula. -/
def Formula.unifyValue (effort : Nat) (result : Term) (e : Formula) (s : Substitution) :
    Bounded (Option Substitution) :=
  match e.value s with
  | some x => unify effort result (.number x.normalize) s
  | none => some none

end BilingualLogic
