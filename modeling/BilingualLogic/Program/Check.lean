import BilingualLogic.Error
import BilingualLogic.Store

/-!
What a program is checked for before it is loaded. It may not define predicates that are built in, nor have goals of a
form that no search could satisfy. A call to a predicate that nothing defines gets a warning.
-/

namespace BilingualLogic

/-- A call to a predicate without clauses, in the line of its statement. -/
structure Warning where
  key : Key
  line : Nat

def Warning.text (w : Warning) : String :=
  "Predicate '" ++ w.key.text ++ "' is called (line " ++ toString w.line
    ++ ") but never defined; the call will always fail"

/-- The keyword of a predicate on lists, if the name and the number of arguments are those of one. -/
def Predicate.listKeyword? (p : Predicate) : Option Keyword :=
  (Keyword.ofSpelling? p.name).filter fun k => k.listArity? == some p.arguments.length

/-- Whether a call has a meaning of its own, whatever the clauses. -/
def Predicate.isBuiltin (p : Predicate) : Bool :=
  p.listKeyword?.isSome || match Keyword.ofSpelling? p.name, p.arguments.length with
    | some .cut, 0 | some .true, 0 | some .false, 0 | some .unify, 2 => true
    | _, _ => false

namespace Goal

mutual

/-- The goal and the goals in it, those in front first. -/
def subgoals : Goal → List Goal
  | not goals => not goals :: allSubgoals goals
  | collect kind t goals r => collect kind t goals r :: allSubgoals goals
  | assert head body => assert head body :: allSubgoals body
  | retract head body => retract head body :: allSubgoals body
  | g => [g]

def allSubgoals : List Goal → List Goal
  | [] => []
  | g :: gs => subgoals g ++ allSubgoals gs

end

mutual

/-- The heads of the clauses that the goal may assert. -/
def assertedHeads : Goal → List Predicate
  | assert head body => head :: allAssertedHeads body
  | not goals => allAssertedHeads goals
  | collect _ _ goals _ => allAssertedHeads goals
  | _ => []

def allAssertedHeads : List Goal → List Predicate
  | [] => []
  | g :: gs => assertedHeads g ++ allAssertedHeads gs

end

/-- What is wrong with the form of a goal. -/
def fault? : Goal → Option CheckFault
  | is (.var _) _ => none
  | is (.const (.number _)) _ => none
  | is found _ => some (.resultOfIs found)
  | collect _ _ _ (.const v) => some (.resultOfCollection (.const v))
  | _ => none

end Goal

namespace Statement

/-- The heads of the clauses that the statement defines or may assert. -/
def heads (s : Statement) : List Predicate :=
  match s.form with
  | .fact head => [head]
  | .rule head body => head :: Goal.allAssertedHeads body
  | .query goals => Goal.allAssertedHeads goals
  | .directive goal => goal.assertedHeads

def goals (s : Statement) : List Goal :=
  match s.form with
  | .fact _ => []
  | .rule _ body => body
  | .query goals => goals
  | .directive goal => [goal]

def headFaults (s : Statement) : List CheckFault :=
  s.heads.filterMap fun head => head.listKeyword?.map (.definesBuiltin head)

def goalFaults (s : Statement) : List CheckFault := (Goal.allSubgoals s.goals).filterMap Goal.fault?

/-- The predicates that a rule or a query calls. -/
def calls (s : Statement) : List Predicate :=
  match s.form with
  | .rule .. | .query _ => (Goal.allSubgoals s.goals).filterMap fun
    | .call p => some p
    | _ => none
  | _ => []

end Statement

namespace Program

def faults (p : Program) : List Error :=
  let located (s : Statement) (f : CheckFault) : Error := .check f ⟨p.source, s.span⟩
  p.statements.flatMap (fun s => s.headFaults.map (located s))
    ++ p.statements.flatMap (fun s => s.goalFaults.map (located s))

/-- Warns once of every predicate that is called and not known. -/
def warnCalls (known : List Key) : List (Predicate × Nat) → List Warning
  | [] => []
  | (p, line) :: rest =>
    if p.isBuiltin || known.contains p.key then warnCalls known rest
    else ⟨p.key, line⟩ :: warnCalls (p.key :: known) rest

def warnings (p : Program) (store : Store) : List Warning :=
  let known := store.keys ++ (p.statements.flatMap Statement.heads).map (·.key)
  warnCalls known (p.statements.flatMap fun s => s.calls.map (·, s.span.start.line))

/-- The warnings of a program that may be loaded beside the given clauses, or what is wrong with it. -/
def check (p : Program) (store : Store) : Except Error (List Warning) :=
  match p.faults with
  | [] => .ok (p.warnings store)
  | [e] => .error e
  | es => .error (.many es)

end Program
end BilingualLogic
