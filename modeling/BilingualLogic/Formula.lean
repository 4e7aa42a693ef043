import BilingualLogic.Term

/-!
Arithmetic formulas and comparisons, and how they are written: with the parentheses that precedence asks for.
-/

namespace BilingualLogic

inductive Operation where
  | add | sub | mul | div | rem
deriving DecidableEq, Repr

namespace Operation

def symbol : Operation → String
  | add => "+"
  | sub => "-"
  | mul => "*"
  | div => "/"
  | rem => "%"

def precedence : Operation → Nat
  | add => 1
  | sub => 1
  | _ => 2

def apply : Operation → Decimal → Decimal → Option Decimal
  | add => Decimal.add
  | sub => Decimal.sub
  | mul => Decimal.mul
  | div => Decimal.div
  | rem => Decimal.rem

end Operation

inductive Comparison where
  | gt | lt | ge | le | eq | ne
deriving DecidableEq, Repr

namespace Comparison

def symbol : Comparison → String
  | gt => ">"
  | lt => "<"
  | ge => ">="
  | le => "<="
  | eq => "=="
  | ne => "!="

/-- Whether the comparison holds of two numbers that stand in the given order. -/
def admits : Comparison → Ordering → Bool
  | gt, o => o == .gt
  | lt, o => o == .lt
  | ge, o => o != .lt
  | le, o => o != .gt
  | eq, o => o == .eq
  | ne, o => o != .eq

end Comparison

inductive Formula where
  | term (term : Term)
  | negate (operand : Formula)
  | binary (op : Operation) (left right : Formula)
deriving Inhabited

namespace Formula

def addVars (seen : List String) : Formula → List String
  | term t => t.addVars seen
  | negate a => a.addVars seen
  | binary _ a b => b.addVars (a.addVars seen)

def mapTerms (f : Term → Term) : Formula → Formula
  | term t => term (f t)
  | negate a => negate (a.mapTerms f)
  | binary op a b => binary op (a.mapTerms f) (b.mapTerms f)

def same : Formula → Formula → Bool
  | term t, term u => t == u
  | negate a, negate b => a.same b
  | binary op a b, binary op' a' b' => op == op' && a.same a' && b.same b'
  | _, _ => false

instance : BEq Formula := ⟨same⟩

/-- The formula inside one of the given precedence, with parentheses if it binds less. -/
def renderIn (v : Vocabulary) (outer : Nat) : Formula → String
  | term t => t.render v
  | negate a => "-" ++ a.renderIn v 3
  | binary op a b =>
    let p := op.precedence
    let text := a.renderIn v p ++ " " ++ op.symbol ++ " " ++ b.renderIn v (p + 1)
    if p < outer then "(" ++ text ++ ")" else text

def render (v : Vocabulary) (e : Formula) : String := e.renderIn v 0

end Formula
end BilingualLogic
