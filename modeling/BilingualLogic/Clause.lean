import BilingualLogic.Goal

/-!
Clauses: a head and the goals that prove it. A clause without goals is a fact, any other a rule.
-/

namespace BilingualLogic

structure Clause where
  head : Predicate
  body : List Goal
deriving Inhabited

namespace Clause

def isFact (c : Clause) : Bool := c.body.isEmpty

def mapTerms (f : Term → Term) (c : Clause) : Clause := ⟨c.head.mapTerms f, Goal.mapTermsAll f c.body⟩

/-- The name of a variable in the copy of a clause with the given number. -/
def renamed (n : Nat) (name : String) : String := name ++ "#" ++ toString n

/-- The copy of the clause with the given number: all its variables are renamed. -/
def rename (n : Nat) (c : Clause) : Clause := c.mapTerms (·.bindVars fun name => .var (renamed n name))

def same (c d : Clause) : Bool := c.head == d.head && Goal.sameAll c.body d.body

def render (v : Vocabulary) (c : Clause) : String :=
  if c.isFact then Keyword.fact.spelling v ++ " " ++ c.head.render v ++ ";"
  else Keyword.rule.spelling v ++ " " ++ c.head.render v ++ " :- " ++ Goal.renderAll v c.body ++ ";"

end Clause
end BilingualLogic
