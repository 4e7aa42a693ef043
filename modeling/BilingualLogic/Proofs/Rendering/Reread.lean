import BilingualLogic.Program
import BilingualLogic.Proofs.Grammar.Lexical
import BilingualLogic.Proofs.Term.WellFormed

/-!
What becomes of a program that is written out and read again. Numbers come back without trailing zeros, and variables
that are shown without their names get the names that reading gives, in the order in which they stand.
-/

namespace BilingualLogic

/-- A word that stands for a variable that is shown with its name. -/
structure VisibleName (x : String) : Prop where
  ne_nil : x.toList ≠ []
  isNameChar : ∀ c ∈ x.toList, Language.isNameChar c = true
  isHidden : Term.isHidden x = false

namespace Term

/-- The terms that there is a source for. -/
inductive Readable : Term → Prop
  | anonymous {x : String} : isHidden x = true → Readable (.var x)
  | var {x : String} : VisibleName x → Readable (.var x)
  | number (a : Decimal) : Readable (.const (.number a))
  | text (content : String) : Readable (.const (.text content))
  | boolean (b : Bool) : Readable (.const (.boolean b))
  | atom {name : String} : Language.isName name.toList = true → name ≠ "_" → Readable (.const (.atom name))
  | list {as : List Term} : (∀ a ∈ as, Readable a) → Readable (.list as)
  | pattern {as : List Term} {r : Term} : as ≠ [] → (∀ a ∈ as, Readable a) → r.isTail = true → Readable r →
    Readable (.pattern as r)

mutual

/-- The term as it is read again, when so many anonymous variables were read before; and how many there are then. -/
def reread (n : Nat) : Term → Term × Nat
  | .var x => if isHidden x then (.var ("_G" ++ toString n), n + 1) else (.var x, n)
  | .const (.number a) => (.number a.normalize, n)
  | .const v => (.const v, n)
  | .list as => (.list (rereadAll n as).1, (rereadAll n as).2)
  | .pattern as r =>
    (.pattern (rereadAll n as).1 (r.reread (rereadAll n as).2).1, (r.reread (rereadAll n as).2).2)

def rereadAll (n : Nat) : List Term → List Term × Nat
  | [] => ([], n)
  | a :: as => ((a.reread n).1 :: (rereadAll (a.reread n).2 as).1, (rereadAll (a.reread n).2 as).2)

end

end Term

namespace Predicate

structure Readable (p : Predicate) : Prop where
  name : Language.isName p.name.toList = true
  arguments : ∀ t ∈ p.arguments, t.Readable

def reread (n : Nat) (p : Predicate) : Predicate × Nat :=
  (⟨p.name, (Term.rereadAll n p.arguments).1⟩, (Term.rereadAll n p.arguments).2)

def depth (p : Predicate) : Nat := Term.depthAll p.arguments

end Predicate

namespace Formula

inductive Readable : Formula → Prop
  | number {a : Decimal} : 0 ≤ a.coefficient → Readable (.term (.const (.number a)))
  | var {x : String} : VisibleName x → Readable (.term (.var x))
  | text (content : String) : Readable (.term (.const (.text content)))
  | negate {e : Formula} : Readable e → Readable (.negate e)
  | binary (op : Operation) {a b : Formula} : Readable a → Readable b → Readable (.binary op a b)

/-- There are no anonymous variables in formulas. -/
def reread (e : Formula) : Formula := e.mapTerms fun t => (t.reread 0).1

/-- How deep parentheses stand in one another where the formula stands in one of the given precedence. -/
def levels (outer : Nat) : Formula → Nat
  | .term _ => 0
  | .negate e => e.levels 3
  | .binary op a b =>
    let inner := max (a.levels op.precedence) (b.levels (op.precedence + 1))
    if op.precedence < outer then inner + 1 else inner

def depth (e : Formula) : Nat := 1 + e.levels 0

end Formula

namespace Goal

/-- The goals that there is a source for; a call of a truth value has no arguments. -/
inductive Readable : Goal → Prop
  | call {p : Predicate} : p.Readable → Readable (.call p)
  | truth {name : String} : name ∈ Keyword.true.allSpellings ++ Keyword.false.allSpellings → Readable (.call ⟨name, []⟩)
  | cut : Readable .cut
  | not {goals : List Goal} : goals ≠ [] → (∀ g ∈ goals, Readable g) → Readable (.not goals)
  | unify {a b : Term} : a.Readable → b.Readable → Readable (.unify a b)
  | is {a : Term} {e : Formula} : a.Readable → e.Readable → Readable (.is a e)
  | compare (op : Comparison) {a b : Formula} : a.Readable → b.Readable → Readable (.compare op a b)
  | collect (kind : Collection) {t r : Term} {goals : List Goal} : t.Readable → goals ≠ [] →
    (∀ g ∈ goals, Readable g) → r.Readable → Readable (.collect kind t goals r)
  | assert {head : Predicate} {body : List Goal} : head.Readable → (∀ g ∈ body, Readable g) →
    Readable (.assert head body)
  | retract {head : Predicate} {body : List Goal} : head.Readable → (∀ g ∈ body, Readable g) →
    Readable (.retract head body)

mutual

def reread (n : Nat) : Goal → Goal × Nat
  | .call p => (.call (p.reread n).1, (p.reread n).2)
  | .cut => (.cut, n)
  | .not goals => (.not (rereadAll n goals).1, (rereadAll n goals).2)
  | .unify a b => (.unify (a.reread n).1 (b.reread (a.reread n).2).1, (b.reread (a.reread n).2).2)
  | .is a e => (.is (a.reread n).1 e.reread, (a.reread n).2)
  | .compare op a b => (.compare op a.reread b.reread, n)
  | .collect kind t goals r =>
    let t' := t.reread n
    let goals' := rereadAll t'.2 goals
    (.collect kind t'.1 goals'.1 (r.reread goals'.2).1, (r.reread goals'.2).2)
  | .assert head body =>
    (.assert (head.reread n).1 (rereadAll (head.reread n).2 body).1, (rereadAll (head.reread n).2 body).2)
  | .retract head body =>
    (.retract (head.reread n).1 (rereadAll (head.reread n).2 body).1, (rereadAll (head.reread n).2 body).2)

def rereadAll (n : Nat) : List Goal → List Goal × Nat
  | [] => ([], n)
  | g :: gs => ((g.reread n).1 :: (rereadAll (g.reread n).2 gs).1, (rereadAll (g.reread n).2 gs).2)

end

/-- Whether goals are written without parentheses where they are negated or collected. -/
def isBare : List Goal → Bool
  | [.call _] => true
  | _ => false

mutual

/-- How deep the written goal is nested, as reading counts it. -/
def depth : Goal → Nat
  | .call p => p.depth
  | .cut => 0
  | .not goals => depthNested goals
  | .unify a b => max a.depth b.depth
  | .is a e => max a.depth e.depth
  | .compare _ a b => max a.depth b.depth
  | .collect _ t goals r => max t.depth (max (depthNested goals) r.depth)
  | .assert head body => max head.depth (depthBody body)
  | .retract head body => max head.depth (depthBody body)

def depthNested (goals : List Goal) : Nat := max (if isBare goals then 1 else 2) (1 + depthAll goals)

def depthBody : List Goal → Nat
  | [] => 0
  | body => max 2 (1 + depthAll body)

def depthAll : List Goal → Nat
  | [] => 0
  | g :: gs => max g.depth (depthAll gs)

end

end Goal

namespace StatementForm

/-- The statements that there is a source for. -/
inductive Readable : StatementForm → Prop
  | fact {head : Predicate} : head.Readable → Readable (.fact head)
  | rule {head : Predicate} {body : List Goal} : head.Readable → body ≠ [] → (∀ g ∈ body, g.Readable) →
    Readable (.rule head body)
  | query {goals : List Goal} : goals ≠ [] → (∀ g ∈ goals, g.Readable) → Readable (.query goals)
  | assert {head : Predicate} {body : List Goal} : head.Readable → (∀ g ∈ body, g.Readable) →
    Readable (.directive (.assert head body))
  | retract {head : Predicate} {body : List Goal} : head.Readable → (∀ g ∈ body, g.Readable) →
    Readable (.directive (.retract head body))

def reread (n : Nat) : StatementForm → StatementForm × Nat
  | .fact head => (.fact (head.reread n).1, (head.reread n).2)
  | .rule head body =>
    (.rule (head.reread n).1 (Goal.rereadAll (head.reread n).2 body).1, (Goal.rereadAll (head.reread n).2 body).2)
  | .query goals => (.query (Goal.rereadAll n goals).1, (Goal.rereadAll n goals).2)
  | .directive g => (.directive (g.reread n).1, (g.reread n).2)

def rereadAll (n : Nat) : List StatementForm → List StatementForm
  | [] => []
  | f :: fs => (f.reread n).1 :: rereadAll (f.reread n).2 fs

def depth : StatementForm → Nat
  | .fact head => head.depth
  | .rule head body => max head.depth (max 1 (Goal.depthAll body))
  | .query goals => max 1 (Goal.depthAll goals)
  | .directive g => g.depth

end StatementForm

end BilingualLogic
