import BilingualLogic.Formula
import BilingualLogic.Goal
import BilingualLogic.Text.Position

/-!
The parts of a program as they stand in its source: numbers by their digits, anonymous variables without names, and
wherever nesting counts the place in the text.
-/

namespace BilingualLogic.Source

open Text

inductive Term where
  | anonymous (span : Span)
  | var (span : Span) (name : String)
  | number (span : Span) (numeral : String)
  | text (span : Span) (content : String)
  | boolean (span : Span) (value : Bool)
  | list (span : Span) (items : List Term) (rest : Option Term)
  | atom (span : Span) (name : String)

structure Predicate where
  name : String
  arguments : List Term

/-- A formula; `group` stands for a whole one, that of a goal or one in parentheses. -/
inductive Formula where
  | number (span : Span) (numeral : String)
  | var (name : String)
  | text (content : String)
  | negate (operand : Formula)
  | binary (op : Operation) (left right : Formula)
  | group (span : Span) (inner : Formula)

/-- Operands that stand in a chain with operators between them belong together from the left. -/
def Formula.chain (first : Formula) (more : List (Operation × Formula)) : Formula :=
  more.foldl (fun left (op, right) => .binary op left right) first

/-- How the goals of a negation or a collection stand: together in parentheses, or one of them bare. -/
structure Scope where
  span : Span
  grouped : Bool

inductive Goal where
  | call (predicate : Predicate)
  | cut
  | not (scope : Scope) (goals : List Goal)
  | unify (left right : Term)
  | is (result : Term) (formula : Formula)
  | compare (op : Comparison) (left right : Formula)
  | collect (kind : Collection) (template : Term) (scope : Scope) (goals : List Goal) (result : Term)
  /-- Without a body the goals are empty. -/
  | assert (head : Predicate) (span : Span) (body : List Goal)
  | retract (head : Predicate) (span : Span) (body : List Goal)

/-- A conjunction and its place. -/
structure Body where
  span : Span
  goals : List Goal

inductive StatementForm where
  | fact (head : Predicate)
  | rule (head : Predicate) (body : Body)
  | query (body : Body)
  | directive (goal : Goal)

structure Statement where
  span : Span
  form : StatementForm

end BilingualLogic.Source
