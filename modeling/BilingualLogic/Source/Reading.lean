import BilingualLogic.Error
import BilingualLogic.Grammar.Language
import BilingualLogic.Limits

/-!
From the parts of a source to programs: numerals become numbers, anonymous variables get names that are used once, and
nesting is held to a limit. `parse`, `parseQuery`, `parseTerm` and `parseFormula` read texts.
-/

namespace BilingualLogic

open Text

namespace Source

/-- What reading a source needs to know of it. -/
structure Context where
  source : String
  maxDepth : Nat

/-- Reading yields a value or an error; the state counts the anonymous variables. -/
abbrev Reading (α : Type) := Context → Nat → Except Error (α × Nat)

namespace Reading

instance : Monad Reading where
  pure x := fun _ n => .ok (x, n)
  bind m f := fun c n =>
    match m c n with
    | .ok (x, n) => f x c n
    | .error e => .error e

theorem bind_apply {α β : Type} (m : Reading α) (f : α → Reading β) (c : Context) (n : Nat) :
    (m >>= f) c n = (m c n).bind fun r => f r.1 c r.2 := by
  simp only [bind]
  cases m c n <;> rfl

/-- The name of the next anonymous variable. -/
def fresh : Reading String := fun _ n => .ok ("_G" ++ toString n, n + 1)

def checkDepth (depth : Nat) (span : Span) : Reading Unit := fun c n =>
  if depth > c.maxDepth then .error (.limit (.termDepth c.maxDepth depth ⟨c.source, span⟩))
  else .ok ((), n)

def fail {α : Type} (fault : ReadingFault) (span : Span) : Reading α :=
  fun c _ => .error (.reading fault ⟨c.source, span⟩)

end Reading

/-- Arabic digits stand for the ASCII ones. -/
def asciiDigit (c : Char) : Char :=
  if '٠' ≤ c ∧ c ≤ '٩' then Char.ofNat (c.toNat - '٠'.toNat + '0'.toNat) else c

def readNumber (span : Span) (numeral : String) : Reading Decimal :=
  match Decimal.ofNumeral? (numeral.map asciiDigit) with
  | some n => pure n
  | none => Reading.fail (.numberOutOfRange numeral) span

mutual

/-- The term, in a place that is `depth` levels deep. -/
def Term.read (depth : Nat) : Term → Reading BilingualLogic.Term
  | .anonymous span => do
    Reading.checkDepth (depth + 1) span
    pure (.var (← Reading.fresh))
  | .var span name => do
    Reading.checkDepth (depth + 1) span
    pure (.var name)
  | .number span numeral => do
    Reading.checkDepth (depth + 1) span
    pure (.number (← readNumber span numeral))
  | .text span content => do
    Reading.checkDepth (depth + 1) span
    pure (.text content)
  | .boolean span value => do
    Reading.checkDepth (depth + 1) span
    pure (.const (.boolean value))
  | .atom span name => do
    Reading.checkDepth (depth + 1) span
    pure (.atom name)
  | .list span items none => do
    Reading.checkDepth (depth + 1) span
    pure (.list (← Term.readAll (depth + 1) items))
  | .list span items (some rest) => do
    Reading.checkDepth (depth + 1) span
    let items ← Term.readAll (depth + 1) items
    pure (.cons items (← rest.read (depth + 1)))

def Term.readAll (depth : Nat) : List Term → Reading (List BilingualLogic.Term)
  | [] => pure []
  | t :: ts => do
    let t ← t.read depth
    pure (t :: (← Term.readAll depth ts))

end

def Predicate.read (depth : Nat) (p : Predicate) : Reading BilingualLogic.Predicate := do
  pure ⟨p.name, ← Term.readAll depth p.arguments⟩

def Formula.read (depth : Nat) : Formula → Reading BilingualLogic.Formula
  | .number span numeral => do pure (.term (.number (← readNumber span numeral)))
  | .var name => pure (.term (.var name))
  | .text content => pure (.term (.text content))
  | .negate e => do pure (.negate (← e.read depth))
  | .binary op a b => do
    let a ← a.read depth
    pure (.binary op a (← b.read depth))
  | .group span e => do
    Reading.checkDepth (depth + 1) span
    e.read (depth + 1)

/-- The depth at which the goals of a body stand, as seen from a goal `depth` levels deep. -/
def Scope.check (depth : Nat) (s : Scope) : Reading Unit :=
  Reading.checkDepth (if s.grouped then depth + 2 else depth + 1) s.span

mutual

/-- The goal, in a place that is `depth` levels deep. -/
def Goal.read (depth : Nat) : Goal → Reading BilingualLogic.Goal
  | .call p => do pure (.call (← p.read depth))
  | .cut => pure .cut
  | .not scope goals => do
    scope.check depth
    pure (.not (← Goal.readAll (depth + 1) goals))
  | .unify a b => do
    let a ← a.read depth
    pure (.unify a (← b.read depth))
  | .is a e => do
    let a ← a.read depth
    pure (.is a (← e.read depth))
  | .compare op a b => do
    let a ← a.read depth
    pure (.compare op a (← b.read depth))
  | .collect kind template scope goals result => do
    let template ← template.read depth
    scope.check depth
    let goals ← Goal.readAll (depth + 1) goals
    pure (.collect kind template goals (← result.read depth))
  | .assert head span body => do
    let head ← head.read depth
    pure (.assert head (← Goal.readBody depth span body))
  | .retract head span body => do
    let head ← head.read depth
    pure (.retract head (← Goal.readBody depth span body))

/-- The body of a clause that a goal names, if it has one. -/
def Goal.readBody (depth : Nat) (span : Span) : List Goal → Reading (List BilingualLogic.Goal)
  | [] => pure []
  | g :: gs => do
    Reading.checkDepth (depth + 2) span
    let g ← g.read (depth + 1)
    pure (g :: (← Goal.readAll (depth + 1) gs))

def Goal.readAll (depth : Nat) : List Goal → Reading (List BilingualLogic.Goal)
  | [] => pure []
  | g :: gs => do
    let g ← g.read depth
    pure (g :: (← Goal.readAll depth gs))

end

/-- The goals of a rule or a query. -/
def Body.read (b : Body) : Reading (List BilingualLogic.Goal) := do
  Reading.checkDepth 1 b.span
  Goal.readAll 0 b.goals

def Statement.read (s : Statement) : Reading BilingualLogic.Statement :=
  match s.form with
  | .fact head => do pure ⟨.fact (← head.read 0), s.span⟩
  | .rule head body => do
    let head ← head.read 0
    pure ⟨.rule head (← body.read), s.span⟩
  | .query body => do pure ⟨.query (← body.read), s.span⟩
  | .directive goal => do pure ⟨.directive (← goal.read 0), s.span⟩

/-- Reads statements, of which a source may have very many, in order. -/
def readStatements (c : Context) : Nat → List BilingualLogic.Statement → List Statement →
    Except Error (List BilingualLogic.Statement)
  | _, done, [] => .ok done.reverse
  | n, done, s :: rest =>
    match s.read c n with
    | .ok (s, n) => readStatements c n (s :: done) rest
    | .error e => .error e

/-- How deep rules nest before a character is taken: at most once through all of them. -/
def ruleDepth : Nat := Rule.all.length + 1

/-- Parses a text by a rule of the grammar. -/
def parseRule (r : Rule) (source text : String) : Except Error (Language.Result r) :=
  match Language.grammar.parse ruleDepth r text with
  | .ok x => .ok x
  | .error a =>
    .error (.reading (.expected (Rule.ordered a.tried.toList)) ⟨source, ⟨a.best, a.best.offset⟩⟩)

end Source

/-- The program that a source text holds. -/
def Program.parse (limits : Limits) (source text : String) : Except Error Program :=
  if text.utf8ByteSize > limits.maxFileSize then
    .error (.limit (.fileSize limits.maxFileSize text.utf8ByteSize))
  else do
    let statements ← Source.parseRule .program source text
    let statements ← Source.readStatements ⟨source, limits.maxTermDepth⟩ 0 [] statements
    .ok ⟨source, statements⟩

/-- Reads a text of its own under the default limits. -/
def Source.parseAlone {α : Type} (r : Rule) (source text : String) (read : Language.Result r → Source.Reading α) :
    Except Error α := do
  let x ← Source.parseRule r source text
  let (x, _) ← read x ⟨source, ({} : Limits).maxTermDepth⟩ 0
  .ok x

/-- The goals of a query that stands alone. -/
def Goal.parseQuery (text : String) : Except Error (List Goal) :=
  Source.parseAlone .queryInput "<query>" text fun b => b.read

def Term.parse (text : String) : Except Error Term :=
  Source.parseAlone .termInput "<term>" text fun t => t.read 0

def Formula.parse (text : String) : Except Error Formula :=
  Source.parseAlone .formula "<formula>" text fun e => e.read 0

end BilingualLogic
