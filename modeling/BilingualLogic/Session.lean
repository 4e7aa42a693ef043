import BilingualLogic.Program.Check
import BilingualLogic.Solution
import BilingualLogic.Text.Blank

/-!
Sessions: clauses with the sources they were loaded from. Loading a source adds its facts and rules in order, answers
its queries where they stand and carries out its directives in between.
-/

namespace BilingualLogic

/-- The answer to a query of a source. -/
structure QueryResult where
  query : String
  line : Nat
  vars : List String
  solutions : List Solution
  stopped : Option Error

/-- Whether a directive of a source succeeded. -/
structure DirectiveResult where
  directive : String
  line : Nat
  succeeded : Bool

/-- What came of loading a source. -/
structure Response where
  source : String
  results : List QueryResult
  directives : List DirectiveResult
  warnings : List Warning

structure Session where
  limits : Limits
  world : World
  sources : List (String × String)

namespace Text

def dropBytes : Nat → List Char → List Char
  | n, c :: cs => if n = 0 then c :: cs else dropBytes (n - c.utf8Size) cs
  | _, [] => []

def takeBytes : Nat → List Char → List Char
  | n, c :: cs => if n = 0 then [] else c :: takeBytes (n - c.utf8Size) cs
  | _, [] => []

/-- The text of a span, without blanks around it. -/
def Span.excerpt (s : Span) (text : String) : String :=
  trim (String.ofList (takeBytes (s.stop - s.start.offset) (dropBytes s.start.offset text.toList)))

end Text

namespace Session

def start (limits : Limits) : Session := ⟨limits, ⟨∅, 0⟩, []⟩

def store (s : Session) : Store := s.world.store

def withStore (s : Session) (store : Store) : Session := { s with world := { s.world with store } }

def add (s : Session) (c : Clause) : Session := s.withStore (s.store.add c)

/-- Removes all clauses and forgets the sources. -/
def clear (s : Session) : Session := { s.withStore s.store.clear with sources := [] }

def recordSource (id code : String) : List (String × String) → List (String × String)
  | [] => [(id, code)]
  | (k, c) :: rest => if k = id then (id, code) :: rest else (k, c) :: recordSource id code rest

/-- Carries out a statement of a source with the given text. -/
def execute (effort : Nat) (code : String) (s : Session) (r : Response) (st : Statement) :
    Bounded (Session × Response) :=
  let line := st.span.start.line
  match st.form with
  | .fact head => some (s.add ⟨head, []⟩, r)
  | .rule head body => some (s.add ⟨head, body⟩, r)
  | .query goals =>
    let q := Query.start goals
    (q.collect s.limits effort s.world).map fun (answer, world) =>
      let (solutions, stopped) := match answer with
        | .ok solutions => (solutions, none)
        | .error e => ([], some e)
      let result := ⟨st.span.excerpt code, line, q.vars, solutions, stopped⟩
      ({ s with world }, { r with results := result :: r.results })
  | .directive goal =>
    ((Query.start [goal]).next s.limits effort s.world).map fun (answer, world, _) =>
      let result := ⟨st.span.excerpt code, line, answer.isSome⟩
      ({ s with world }, { r with directives := result :: r.directives })

def executeAll (effort : Nat) (code : String) : Session → Response → List Statement → Bounded (Session × Response)
  | s, r, [] => some (s, { r with results := r.results.reverse, directives := r.directives.reverse })
  | s, r, st :: rest =>
    match execute effort code s r st with
    | none => none
    | some (s, r) => executeAll effort code s r rest

/-- Parses, checks and carries out a source. A source that is rejected changes nothing. -/
def load (effort : Nat) (s : Session) (id code : String) : Bounded (Except Error (Session × Response)) :=
  match Program.parse s.limits id code with
  | .error e => some (.error e)
  | .ok p =>
    match p.check s.store with
    | .error e => some (.error e)
    | .ok warnings =>
      let s := { s with sources := recordSource id code s.sources }
      (executeAll effort code s ⟨id, [], [], warnings⟩ p.statements).map .ok

/-- Loads sources one after the other, up to the first that is rejected. -/
def loadAll (effort : Nat) (done : List Response) :
    Session → List (String × String) → Bounded (Except Error (Session × List Response))
  | s, [] => some (.ok (s, done.reverse))
  | s, (id, code) :: rest =>
    match s.load effort id code with
    | none => none
    | some (.error e) => some (.error e)
    | some (.ok (s, r)) => loadAll effort (r :: done) s rest

/-- Whether the goals have no answer; a search that a limit ended shows nothing. -/
def refutes (effort : Nat) (s : Session) (goals : List Goal) : Bounded (Except Error Bool × Session) :=
  ((Query.start goals).next s.limits effort s.world).map fun (answer, world, q) =>
    (match q.search.error with
      | some e => .error e
      | none => .ok answer.isNone, { s with world })

/-- The instances of a template, one for every answer to the goals. -/
def instances (effort : Nat) (s : Session) (kind : Collection) (template : Term) (goals : List Goal) :
    Bounded (Except Error (List Term) × Session) :=
  (Search.gather s.limits effort s.world (.start goals ∅ 0) template []).map fun (terms, world, search) =>
    (match search.error with
      | some e => .error e
      | none => .ok (kind.arrange terms), { s with world })

def sourceIds (s : Session) : List String := (s.sources.map Prod.fst).mergeSort (· ≤ ·)

end Session
end BilingualLogic
