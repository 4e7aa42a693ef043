import BilingualLogic.Search
import BilingualLogic.Term.Json

/-!
Solutions: what an answer says about the variables of a query. A query is a search with the variables it reports; its
solutions are drawn from it one by one.
-/

namespace BilingualLogic

/-- Variables and their values, in the order of the variables in the query. -/
structure Solution where
  bindings : List (String × Term)

namespace Solution

/-- The variables that a substitution gives a value. -/
def project (vars : List String) (s : Substitution) : Solution where
  bindings := vars.filterMap fun x =>
    match s.resolve (.var x) with
    | .var _ => none
    | t => some (x, t)

def get? (s : Solution) (x : String) : Option Term := s.bindings.lookup x

def text (s : Solution) : String :=
  if s.bindings.isEmpty then "true"
  else ", ".intercalate (s.bindings.map fun (x, t) => "?" ++ x ++ " = " ++ t.render .latin)

/-- The values by variable, in the order of the variables in the query. -/
def toJson (s : Solution) : Json := .object (s.bindings.map fun (x, t) => (x, t.toJson))

/-- The values by variable, in the order of the names. -/
def toSortedJson (s : Solution) : Json := .sortedObject (s.bindings.map fun (x, t) => (x, t.toJson))

end Solution

/-- A query that is being answered. -/
structure Query where
  vars : List String
  search : Search

namespace Query

def start (goals : List Goal) : Query := ⟨Goal.reportedVars goals, .start goals ∅ 0⟩

/-- Draws the next solution. -/
def next (limits : Limits) (effort : Nat) (w : World) (q : Query) : Bounded (Option Solution × World × Query) :=
  (Search.next limits effort w q.search).map fun (answer, w, search) =>
    (answer.map (Solution.project q.vars), w, { q with search })

/-- Draws solutions up to a number of them; `done` holds those so far, backwards. -/
def take (limits : Limits) (effort : Nat) (done : List Solution) :
    Nat → World → Query → Bounded (List Solution × World × Query)
  | 0, w, q => some (done.reverse, w, q)
  | n + 1, w, q =>
    match q.next limits effort w with
    | none => none
    | some (none, w, q) => some (done.reverse, w, q)
    | some (some s, w, q) => take limits effort (s :: done) n w q

/-- Draws all solutions; there are fewer of them than the effort. -/
def all (limits : Limits) (effort : Nat) (w : World) (q : Query) : Bounded (List Solution × World × Query) :=
  match q.take limits effort [] effort w with
  | none => none
  | some (solutions, w, q) => if solutions.length < effort then some (solutions, w, q) else none

/-- Draws all solutions, or says which limit ended the search. -/
def collect (limits : Limits) (effort : Nat) (w : World) (q : Query) : Bounded (Except Error (List Solution) × World) :=
  (q.all limits effort w).map fun (solutions, w, q) =>
    match q.search.error with
    | some e => (.error e, w)
    | none => (.ok solutions, w)

end Query
end BilingualLogic
