import BilingualLogic.Formula

/-!
Predicates and goals, and how they are written in either vocabulary.
-/

namespace BilingualLogic

/-- A predicate applied to its arguments. -/
structure Predicate where
  name : String
  arguments : List Term
deriving Inhabited

/-- A predicate is identified by its name and the number of its arguments. -/
structure Key where
  name : String
  arity : Nat
deriving DecidableEq, Repr

def Key.text (k : Key) : String := k.name ++ "/" ++ toString k.arity

namespace Predicate

def key (p : Predicate) : Key := ⟨p.name, p.arguments.length⟩

def addVars (seen : List String) (p : Predicate) : List String := Term.addVarsAll seen p.arguments

def mapTerms (f : Term → Term) (p : Predicate) : Predicate := ⟨p.name, p.arguments.map f⟩

instance : BEq Predicate := ⟨fun p q => p.name == q.name && Term.sameAll p.arguments q.arguments⟩

def render (v : Vocabulary) (p : Predicate) : String :=
  if p.arguments.isEmpty then p.name else p.name ++ "(" ++ Term.renderAll v p.arguments ++ ")"

end Predicate

/-- How the instances of a template are collected: all of them, or without repetitions. -/
inductive Collection where
  | findAll | bagOf | setOf
deriving DecidableEq, Repr

def Collection.keyword : Collection → Keyword
  | findAll => .findAll
  | bagOf => .bagOf
  | setOf => .setOf

inductive Goal where
  | call (predicate : Predicate)
  | cut
  | not (goals : List Goal)
  | unify (left right : Term)
  | is (result : Term) (formula : Formula)
  | compare (op : Comparison) (left right : Formula)
  | collect (kind : Collection) (template : Term) (goals : List Goal) (result : Term)
  | assert (head : Predicate) (body : List Goal)
  | retract (head : Predicate) (body : List Goal)

namespace Goal

instance : Inhabited Goal := ⟨cut⟩

mutual

def addVars (seen : List String) : Goal → List String
  | call p => p.addVars seen
  | cut => seen
  | not goals => addVarsAll seen goals
  | unify a b => b.addVars (a.addVars seen)
  | is a e => e.addVars (a.addVars seen)
  | compare _ a b => b.addVars (a.addVars seen)
  | collect _ t goals r => r.addVars (addVarsAll (t.addVars seen) goals)
  | assert head body => addVarsAll (head.addVars seen) body
  | retract head body => addVarsAll (head.addVars seen) body

def addVarsAll (seen : List String) : List Goal → List String
  | [] => seen
  | g :: gs => addVarsAll (g.addVars seen) gs

end

mutual

/-- Replaces every term, those of nested goals too. -/
def mapTerms (f : Term → Term) : Goal → Goal
  | call p => call (p.mapTerms f)
  | cut => cut
  | not goals => not (mapTermsAll f goals)
  | unify a b => unify (f a) (f b)
  | is a e => is (f a) (e.mapTerms f)
  | compare op a b => compare op (a.mapTerms f) (b.mapTerms f)
  | collect kind t goals r => collect kind (f t) (mapTermsAll f goals) (f r)
  | assert head body => assert (head.mapTerms f) (mapTermsAll f body)
  | retract head body => retract (head.mapTerms f) (mapTermsAll f body)

def mapTermsAll (f : Term → Term) : List Goal → List Goal
  | [] => []
  | g :: gs => g.mapTerms f :: mapTermsAll f gs

end

mutual

/-- The same goal, where numbers count as the same if they are equal. -/
def same : Goal → Goal → Bool
  | call p, call q => p == q
  | cut, cut => true
  | not as, not bs => sameAll as bs
  | unify a b, unify a' b' => a == a' && b == b'
  | is a e, is a' e' => a == a' && e == e'
  | compare op a b, compare op' a' b' => op == op' && a == a' && b == b'
  | collect kind t as r, collect kind' t' bs r' => kind == kind' && t == t' && sameAll as bs && r == r'
  | assert head as, assert head' bs => head == head' && sameAll as bs
  | retract head as, retract head' bs => head == head' && sameAll as bs
  | _, _ => false

def sameAll : List Goal → List Goal → Bool
  | [], [] => true
  | a :: as, b :: bs => a.same b && sameAll as bs
  | _, _ => false

end

/-- What stands between the goals of a conjunction. -/
def separator : Vocabulary → String
  | .latin => ", "
  | .arabic => "، "

mutual

def render (v : Vocabulary) : Goal → String
  | call p => p.render v
  | cut => Keyword.cut.spelling v
  | not goals => Keyword.not.spelling v ++ " " ++ renderNested v goals
  | unify a b => a.render v ++ " = " ++ b.render v
  | is a e => a.render v ++ " " ++ Keyword.is.spelling v ++ " " ++ e.render v
  | compare op a b => a.render v ++ " " ++ op.symbol ++ " " ++ b.render v
  | collect kind t goals r =>
    kind.keyword.spelling v ++ "(" ++ t.render v ++ ", " ++ renderNested v goals ++ ", " ++ r.render v ++ ")"
  | assert head body => Keyword.assert.spelling v ++ " " ++ renderClause v head body
  | retract head body => Keyword.retract.spelling v ++ " " ++ renderClause v head body

/-- The goals of a negation or collection: a single call stands bare. -/
def renderNested (v : Vocabulary) : List Goal → String
  | [call p] => p.render v
  | goals => "(" ++ renderAll v goals ++ ")"

/-- The goals as a conjunction. -/
def renderAll (v : Vocabulary) : List Goal → String
  | [] => ""
  | [g] => g.render v
  | g :: gs => g.render v ++ separator v ++ renderAll v gs

/-- The clause that an assertion or retraction names. -/
def renderClause (v : Vocabulary) (head : Predicate) : List Goal → String
  | [] => head.render v
  | body => "(" ++ head.render v ++ " :- " ++ renderAll v body ++ ")"

end

/-- Variables of the goals that a solution may report, in the order in which they appear. -/
def reportedVars (goals : List Goal) : List String :=
  (addVarsAll [] goals).filter (! Term.isHidden ·)

end Goal
end BilingualLogic
