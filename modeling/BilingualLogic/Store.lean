import BilingualLogic.Clause
import BilingualLogic.Unification

/-!
The store of clauses. A table holds the clauses of one predicate in the order in which they were added, and tables
stand in the order in which their predicates were first defined; a table that lost all its clauses keeps its place.
Clauses are numbered by a counter that only grows, so a search can ask for the next clause after the one it tried last
whatever was added or removed meanwhile.
-/

namespace BilingualLogic

structure StoredClause where
  id : Nat
  clause : Clause

structure Table where
  key : Key
  clauses : List StoredClause

structure Store where
  tables : List Table
  nextId : Nat

/-- How many facts and rules there are of a predicate. -/
structure Summary where
  key : Key
  facts : Nat
  rules : Nat

namespace Store

def empty : Store := ⟨[], 0⟩

instance : EmptyCollection Store := ⟨empty⟩

instance : Inhabited Store := ⟨empty⟩

/-- Puts a clause behind those of its predicate. -/
def insert (c : StoredClause) : List Table → List Table
  | [] => [⟨c.clause.head.key, [c]⟩]
  | t :: ts => if t.key = c.clause.head.key then ⟨t.key, t.clauses ++ [c]⟩ :: ts else t :: insert c ts

def add (s : Store) (c : Clause) : Store := ⟨insert ⟨s.nextId, c⟩ s.tables, s.nextId + 1⟩

def storedClauses (s : Store) (k : Key) : List StoredClause :=
  match s.tables.find? (·.key = k) with
  | some t => t.clauses
  | none => []

def clauses (s : Store) (k : Key) : List Clause := (s.storedClauses k).map (·.clause)

/-- The clauses of a predicate after the one with the given number, which need not be there any more. -/
def clausesAfter (s : Store) (k : Key) : Option Nat → List StoredClause
  | none => s.storedClauses k
  | some id => (s.storedClauses k).dropWhile (·.id ≤ id)

def nextClause (s : Store) (k : Key) (after : Option Nat) : Option StoredClause := (s.clausesAfter k after).head?

def contains (s : Store) (k : Key) : Bool := ! (s.storedClauses k).isEmpty

def replaceClauses (s : Store) (k : Key) (clauses : List StoredClause) : Store :=
  ⟨s.tables.map fun t => if t.key = k then ⟨k, clauses⟩ else t, s.nextId⟩

/-- The list without the first clause that satisfies the test, if there is one. -/
def removeFirst (p : StoredClause → Bounded Bool) : List StoredClause → Bounded (Option (List StoredClause))
  | [] => some none
  | c :: cs =>
    match p c with
    | none => none
    | some true => some (some cs)
    | some false => (removeFirst p cs).map (·.map (c :: ·))

/-- Whether the head of a clause, its variables renamed, unifies with a pattern. -/
def headUnifies (effort : Nat) (pattern : Predicate) (c : StoredClause) : Bounded Bool :=
  ((c.clause.rename c.id).head.unify effort pattern ∅).map (·.isSome)

/-- Removes the first clause whose head unifies with the pattern, and says whether there was one. -/
def retractHead (effort : Nat) (s : Store) (pattern : Predicate) : Bounded (Bool × Store) :=
  (removeFirst (headUnifies effort pattern) (s.storedClauses pattern.key)).map fun
    | some clauses => (true, s.replaceClauses pattern.key clauses)
    | none => (false, s)

/-- Removes the first clause that is the given one, and says whether there was one. -/
def retractClause (s : Store) (c : Clause) : Bool × Store :=
  match removeFirst (fun d => some (d.clause.same c)) (s.storedClauses c.head.key) with
  | some (some clauses) => (true, s.replaceClauses c.head.key clauses)
  | _ => (false, s)

/-- Whether a fact unifies with the pattern. -/
def hasFact (effort : Nat) (s : Store) (pattern : Predicate) : Bounded Bool :=
  (removeFirst (headUnifies effort pattern) ((s.storedClauses pattern.key).filter (·.clause.isFact))).map (·.isSome)

/-- The tables that hold clauses. -/
def defined (s : Store) : List Table := s.tables.filter (! ·.clauses.isEmpty)

/-- The predicates that have clauses. -/
def keys (s : Store) : List Key := s.defined.map (·.key)

/-- The clauses of a name with any number of arguments, those of one predicate together. -/
def clausesNamed (s : Store) (name : String) : List Clause :=
  (s.defined.filter (·.key.name = name)).flatMap fun t => t.clauses.map (·.clause)

def summary (s : Store) : List Summary :=
  s.defined.map fun t =>
    let facts := (t.clauses.filter (·.clause.isFact)).length
    ⟨t.key, facts, t.clauses.length - facts⟩

def size (s : Store) : Nat := (s.tables.flatMap (·.clauses)).length

def clear (s : Store) : Store := ⟨[], s.nextId⟩

/-- Removes the tables of a name, and counts the clauses that were in them. -/
def clearNamed (s : Store) (name : String) : Nat × Store :=
  let (named, others) := s.tables.partition (·.key.name = name)
  ((named.flatMap (·.clauses)).length, ⟨others, s.nextId⟩)

end Store
end BilingualLogic
