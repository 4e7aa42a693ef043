import BilingualLogic.Proofs.Tree.Trace
import BilingualLogic.Source.Reading

/-!
Programs from trees. Every rule is taken apart by the rules of its parts; where a part that is needed is not there, or
one stands where it cannot be used, the tree is at fault. A part of another kind is passed over.
-/

namespace BilingualLogic

open Text

/-- What can be wrong where a program is made from the tree of its text. -/
inductive Fault where
  /-- The tree is none that its grammar yields. -/
  | grammar (message : String)
  /-- The text is at fault. -/
  | input (e : Error)

/-- Building yields a value or a fault; the state counts the anonymous variables. -/
abbrev Building := ReaderT Source.Context (StateT Nat (Except Fault))

namespace Tree

abbrev Node := BilingualLogic.Node Rule

/-- The errors of reading are those of the text. -/
def ofReading {α : Type} (m : Source.Reading α) : Building α := fun c n => (m c n).mapError .input

def broken {α : Type} (message : String) : Building α := throw (.grammar message)

def required {α : Type} (message : String) : Option α → Building α
  | some x => pure x
  | none => broken message

/-- The last two of what was found. -/
def lastTwo {α : Type} (message : String) (found : List α) : Building (α × α) :=
  match found.reverse with
  | right :: left :: _ => pure (left, right)
  | _ => broken message

def checkDepth (depth : Nat) (span : Span) : Building Unit := ofReading (Source.Reading.checkDepth depth span)

/-- Makes sure that what was read as a keyword is that keyword by the table. -/
def expectKeyword (n : Node) (expected : Keyword) : Building Unit :=
  match Keyword.ofSpelling? n.text with
  | some found =>
    if found = expected then pure ()
    else broken ("'" ++ n.text ++ "' matched as '" ++ expected.name ++ "' but the keyword table maps it to " ++ found.name)
  | none => broken ("'" ++ n.text ++ "' matched as '" ++ expected.name ++ "' but the keyword table maps it to None")

def keywordOf (n : Node) : Building Keyword :=
  required ("'" ++ n.text ++ "' is not in the keyword table") (Keyword.ofSpelling? n.text)

section Terms

/-- Behind a backslash stands a character with a meaning of its own. -/
def unescape : List Char → List Char
  | '\\' :: c :: cs => Language.unescaped c :: unescape cs
  | c :: cs => c :: unescape cs
  | [] => []

/-- The text between the quotes; between guillemets nothing is escaped. -/
def unquote (literal : String) : String :=
  let content := literal.toList.tail.dropLast
  String.ofList (if literal.toList.head? = some '«' then content else unescape content)

def number (n : Node) : Building Decimal := ofReading (Source.readNumber n.span n.text)

def variableName (n : Node) : Building String :=
  required "variable missing variable_name" ((n.children.find? (·.rule = .varName)).map Node.text)

def boolean (n : Node) : Building Bool :=
  match n.children with
  | [] => broken "empty boolean"
  | inner :: _ =>
    match inner.rule with
    | .keyword .true => do
      expectKeyword inner .true
      pure true
    | .keyword .false => do
      expectKeyword inner .false
      pure false
    | other => broken ("expected a boolean keyword, found " ++ other.label)

mutual

def term (depth : Nat) : Node → Building Term
  | .mk _ span _ children => do
    checkDepth (depth + 1) span
    match children with
    | [] => broken "empty term"
    | inner :: _ =>
      match inner.rule with
      | .anonymous => do pure (.var (← ofReading Source.Reading.fresh))
      | .var => do pure (.var (← variableName inner))
      | .number => do pure (.number (← number inner))
      | .string => pure (.text (unquote inner.text))
      | .boolean => do pure (.const (.boolean (← boolean inner)))
      | .list => list depth inner
      | .atom => pure (.atom inner.text)
      | other => broken ("unexpected " ++ other.label ++ " in term")

def list (depth : Nat) : Node → Building Term
  | .mk _ _ _ children => do
    let (items, rest) ← listItems (depth + 1) [] none children
    match rest with
    | some rest => pure (.cons items rest)
    | none => pure (.list items)

def listItems (depth : Nat) (items : List Term) (rest : Option Term) : List Node → Building (List Term × Option Term)
  | [] => pure (items, rest)
  | n :: ns =>
    match n.rule with
    | .term => do
      let t ← term depth n
      listItems depth (items ++ [t]) rest ns
    | .listTail => do
      let t ← listTail depth n
      listItems depth items (some t) ns
    | _ => listItems depth items rest ns

def listTail (depth : Nat) : Node → Building Term
  | .mk _ _ _ children =>
    match children with
    | [] => broken "empty list tail"
    | t :: _ => term depth t

end

/-- A name and arguments, as found so far. -/
def predicatePart (depth : Nat) (found : Option String × List Term) (n : Node) : Building (Option String × List Term) :=
  match n.rule with
  | .name => pure (some n.text, found.2)
  | .term => do pure (found.1, found.2 ++ [← term depth n])
  | _ => pure found

def predicate (depth : Nat) (n : Node) : Building Predicate := do
  let (name, arguments) ← n.children.foldlM (predicatePart depth) (none, [])
  pure ⟨← required "predicate missing name" name, arguments⟩

end Terms

section Formulas

def additive : String → Operation
  | "+" => .add
  | _ => .sub

def multiplicative : String → Operation
  | "*" | "×" => .mul
  | "/" | "÷" => .div
  | _ => .rem

/-- An operand behind what stands before it: either both a formula and an operation, or nothing. -/
def combine : Option Formula → Option Operation → Formula → Building Formula
  | none, none, right => pure right
  | some left, some op, right => pure (.binary op left right)
  | _, _, _ => broken "operator and operand out of order"

def negateTimes : Nat → Formula → Formula
  | 0, e => e
  | n + 1, e => negateTimes n (.negate e)

mutual

def arithmetic (depth : Nat) : Node → Building Formula
  | .mk _ span _ children => do
    checkDepth (depth + 1) span
    required "empty arithmetic" (← products depth none none children)

def products (depth : Nat) (result : Option Formula) (pending : Option Operation) :
    List Node → Building (Option Formula)
  | [] => pure result
  | n :: ns =>
    match n.rule with
    | .product => do
      let operand ← product depth n
      let whole ← combine result pending operand
      products depth (some whole) none ns
    | .additiveOperator => products depth result (some (additive n.text)) ns
    | _ => products depth result pending ns

def product (depth : Nat) : Node → Building Formula
  | .mk _ _ _ children => do
    required "empty arithmetic_product" (← factors depth none none children)

def factors (depth : Nat) (result : Option Formula) (pending : Option Operation) :
    List Node → Building (Option Formula)
  | [] => pure result
  | n :: ns =>
    match n.rule with
    | .unary => do
      let operand ← unary depth n
      let whole ← combine result pending operand
      factors depth (some whole) none ns
    | .multiplicativeOperator => factors depth result (some (multiplicative n.text)) ns
    | _ => factors depth result pending ns

def unary (depth : Nat) : Node → Building Formula
  | .mk _ _ _ children => do
    let (negations, operand) ← signs depth 0 none children
    pure (negateTimes negations (← required "arithmetic_unary missing operand" operand))

def signs (depth : Nat) (negations : Nat) (operand : Option Formula) : List Node → Building (Nat × Option Formula)
  | [] => pure (negations, operand)
  | n :: ns =>
    match n.rule with
    | .negate => signs depth (negations + 1) operand ns
    | .primary => do
      let e ← primary depth n
      signs depth negations (some e) ns
    | _ => signs depth negations operand ns

def primary (depth : Nat) : Node → Building Formula
  | .mk _ _ _ children =>
    match children with
    | [] => broken "empty arithmetic_primary"
    | inner :: _ =>
      match inner.rule with
      | .number => do pure (.term (.number (← number inner)))
      | .var => do pure (.term (.var (← variableName inner)))
      | .string => pure (.term (.text (unquote inner.text)))
      | .arithmetic => arithmetic (depth + 1) inner
      | other => broken ("unexpected " ++ other.label ++ " in arithmetic")

end

end Formulas

section Goals

def unifiedPart (depth : Nat) (terms : List Term) (n : Node) : Building (List Term) :=
  match n.rule with
  | .keyword .unify => do
    expectKeyword n .unify
    pure terms
  | .term => do pure (terms ++ [← term depth n])
  | _ => pure terms

def isPart (depth : Nat) (found : Option Term × Option Formula) (n : Node) : Building (Option Term × Option Formula) :=
  match n.rule with
  | .term => do pure (some (← term depth n), found.2)
  | .keyword .is => do
    expectKeyword n .is
    pure found
  | .arithmetic => do pure (found.1, some (← arithmetic depth n))
  | _ => pure found

def comparisonOf : String → Comparison
  | ">" => .gt
  | "<" => .lt
  | ">=" | "≥" => .ge
  | "<=" | "≤" => .le
  | "==" => .eq
  | _ => .ne

def comparedPart (depth : Nat) (found : List Formula × Option Comparison) (n : Node) :
    Building (List Formula × Option Comparison) :=
  match n.rule with
  | .arithmetic => do pure (found.1 ++ [← arithmetic depth n], found.2)
  | .comparisonOperator => pure (found.1, some (comparisonOf n.text))
  | _ => pure found

/-- A truth value called as a goal. -/
def truth (children : List Node) : Building Goal :=
  match children with
  | [] => broken "empty boolean goal"
  | n :: _ => do
    match ← keywordOf n with
    | .true | .false => pure (.call ⟨n.text, []⟩)
    | other => broken ("'" ++ n.text ++ "' matched as a boolean goal but is the keyword '" ++ other.name ++ "'")

/-- The collection that a keyword stands for. -/
def collectionOf : Option Keyword → Building Collection
  | some .findAll => pure .findAll
  | some .bagOf => pure .bagOf
  | some .setOf => pure .setOf
  | other => broken ("collect keyword resolved to " ++ (other.map Keyword.name).getD "None")

mutual

def body (depth : Nat) : Node → Building (List Goal)
  | .mk _ span _ children => do
    checkDepth (depth + 1) span
    let goals ← conjuncts depth [] children
    if goals.isEmpty then broken "body without goals" else pure goals

def conjuncts (depth : Nat) (goals : List Goal) : List Node → Building (List Goal)
  | [] => pure goals
  | n :: ns =>
    match n.rule with
    | .goal => do
      let g ← goal depth n
      conjuncts depth (goals ++ [g]) ns
    | .keyword .and => do
      expectKeyword n .and
      conjuncts depth goals ns
    | _ => conjuncts depth goals ns

def goal (depth : Nat) : Node → Building Goal
  | .mk _ _ _ children => firstGoal depth children

def firstGoal (depth : Nat) : List Node → Building Goal
  | [] => broken "empty goal"
  | inner :: _ => goalForm depth inner

def goalForm (depth : Nat) : Node → Building Goal
  | .mk rule _ _ children =>
    match rule with
    | .cut => do
      children.forM (expectKeyword · .cut)
      pure .cut
    | .negation => do
      pure (.not (← required "negation missing goal" (← negated depth none children)))
    | .collect => do
      let (keyword, terms, goals) ← collected depth (none, [], none) children
      let goals ← required "collect missing goal" goals
      let (template, result) ← lastTwo "collect needs a template and a result" terms
      pure (.collect (← collectionOf keyword) template goals result)
    | .assertGoal => do
      let (head, body) ← clauseTarget depth .assert (none, []) children
      pure (.assert (← required "assert missing predicate" head) body)
    | .retractGoal => do
      let (head, body) ← clauseTarget depth .retract (none, []) children
      pure (.retract (← required "retract missing predicate" head) body)
    | .unifyCall | .unifyGoal => do
      let (left, right) ← lastTwo "unification needs two terms" (← children.foldlM (unifiedPart depth) [])
      pure (.unify left right)
    | .isGoal => do
      let (result, formula) ← children.foldlM (isPart depth) (none, none)
      let result ← required "is_goal missing term" result
      pure (.is result (← required "is_goal missing arithmetic" formula))
    | .comparison => do
      let (operands, operator) ← children.foldlM (comparedPart depth) ([], none)
      let operator ← required "comparison missing operator" operator
      let (left, right) ← lastTwo "comparison needs two operands" operands
      pure (.compare operator left right)
    | .trueGoal | .falseGoal => truth children
    | .call =>
      match children with
      | [] => broken "call missing predicate"
      | p :: _ => do pure (.call (← predicate depth p))
    | other => broken ("unexpected " ++ other.label ++ " in goal")

/-- The goals of a group in parentheses or of a single goal. -/
def scopeGoals (depth : Nat) : Node → Building (List Goal)
  | .mk rule span _ children =>
    match rule with
    | .nested =>
      match children with
      | [] => broken "nested missing body"
      | b :: _ => body (depth + 1) b
    | _ => do
      checkDepth (depth + 1) span
      pure [← firstGoal (depth + 1) children]

def negated (depth : Nat) (goals : Option (List Goal)) : List Node → Building (Option (List Goal))
  | [] => pure goals
  | n :: ns =>
    match n.rule with
    | .keyword .not => do
      expectKeyword n .not
      negated depth goals ns
    | .keyword .query => do
      expectKeyword n .query
      negated depth goals ns
    | .nested | .goal => do
      let gs ← scopeGoals depth n
      negated depth (some gs) ns
    | _ => negated depth goals ns

def collected (depth : Nat) (found : Option Keyword × List Term × Option (List Goal)) :
    List Node → Building (Option Keyword × List Term × Option (List Goal))
  | [] => pure found
  | n :: ns =>
    match n.rule with
    | .keyword .findAll | .keyword .bagOf | .keyword .setOf => do
      let k ← keywordOf n
      collected depth (some k, found.2) ns
    | .keyword .query => do
      expectKeyword n .query
      collected depth found ns
    | .term => do
      let t ← term depth n
      collected depth (found.1, found.2.1 ++ [t], found.2.2) ns
    | .nested | .goal => do
      let gs ← scopeGoals depth n
      collected depth (found.1, found.2.1, some gs) ns
    | _ => collected depth found ns

/-- The clause that an assertion or a retraction names, bare or in parentheses. -/
def clauseTarget (depth : Nat) (k : Keyword) (found : Option Predicate × List Goal) :
    List Node → Building (Option Predicate × List Goal)
  | [] => pure found
  | n :: ns =>
    match n.rule with
    | .keyword .assert | .keyword .retract => do
      expectKeyword n k
      clauseTarget depth k found ns
    | .predicate => do
      let head ← predicate depth n
      clauseTarget depth k (some head, found.2) ns
    | .clauseForm => do
      let found ← clauseForm depth found n
      clauseTarget depth k found ns
    | _ => clauseTarget depth k found ns

def clauseForm (depth : Nat) (found : Option Predicate × List Goal) : Node → Building (Option Predicate × List Goal)
  | .mk _ _ _ children => clauseParts depth found children

def clauseParts (depth : Nat) (found : Option Predicate × List Goal) :
    List Node → Building (Option Predicate × List Goal)
  | [] => pure found
  | n :: ns =>
    match n.rule with
    | .predicate => do
      let head ← predicate depth n
      clauseParts depth (some head, found.2) ns
    | .keyword .implies => do
      expectKeyword n .implies
      clauseParts depth found ns
    | .body => do
      let gs ← body (depth + 1) n
      clauseParts depth (found.1, gs) ns
    | _ => clauseParts depth found ns

end

end Goals

section Statements

def factPart (head : Option Predicate) (n : Node) : Building (Option Predicate) :=
  match n.rule with
  | .keyword .fact => do
    expectKeyword n .fact
    pure head
  | .predicate => do pure (some (← predicate 0 n))
  | _ => pure head

def rulePart (found : Option Predicate × Option (List Goal)) (n : Node) :
    Building (Option Predicate × Option (List Goal)) :=
  match n.rule with
  | .keyword .rule => do
    expectKeyword n .rule
    pure found
  | .keyword .implies => do
    expectKeyword n .implies
    pure found
  | .predicate => do pure (some (← predicate 0 n), found.2)
  | .body => do pure (found.1, some (← body 0 n))
  | _ => pure found

def queryPart (goals : Option (List Goal)) (n : Node) : Building (Option (List Goal)) :=
  match n.rule with
  | .keyword .query => do
    expectKeyword n .query
    pure goals
  | .body => do pure (some (← body 0 n))
  | _ => pure goals

def statementForm (n : Node) : Building StatementForm :=
  match n.rule with
  | .factDeclaration => do
    let head ← n.children.foldlM factPart none
    pure (.fact (← required "fact_declaration missing predicate" head))
  | .ruleDeclaration => do
    let (head, goals) ← n.children.foldlM rulePart (none, none)
    let head ← required "rule_declaration missing head" head
    pure (.rule head (← required "rule_declaration missing body" goals))
  | .queryDeclaration => do
    let goals ← n.children.foldlM queryPart none
    pure (.query (← required "query_declaration missing body" goals))
  | .directive =>
    match n.children with
    | [] => broken "empty directive"
    | inner :: _ => do pure (.directive (← goalForm 0 inner))
  | other => broken ("unexpected " ++ other.label ++ " at statement level")

def statement (n : Node) : Building Statement := do
  pure ⟨← statementForm n, n.span⟩

/-- All that stands in a program but the end of the text is a statement. -/
def statementPart (done : List Statement) (n : Node) : Building (List Statement) :=
  match n.rule with
  | .endOfText => pure done
  | _ => do pure (done ++ [← statement n])

def programPart (done : List Statement) (n : Node) : Building (List Statement) :=
  match n.rule with
  | .program => n.children.foldlM statementPart done
  | _ => pure done

/-- The goals of a query that stands alone: the first body. -/
def queryGoals : List Node → Building (List Goal)
  | [] => broken "query_input missing body"
  | n :: ns =>
    match n.rule with
    | .keyword .query => do
      expectKeyword n .query
      queryGoals ns
    | .body => body 0 n
    | _ => queryGoals ns

/-- The first of the parts that has a kind. -/
def find (r : Rule) (message : String) (n : Node) : Building Node := required message (n.children.find? (·.rule = r))

end Statements

/-- The trees that a text has by a rule. -/
def read (r : Rule) (source text : String) : Except Fault (List Node) :=
  match (Language.grammar.traced text).parse Source.ruleDepth r text with
  | .ok n => .ok [n]
  | .error a =>
    .error (.input (.reading (.expected (Rule.ordered a.tried.toList)) ⟨source, ⟨a.best, a.best.offset⟩⟩))

/-- The program that a source text holds. -/
def parseProgram (limits : Limits) (source text : String) : Except Fault Program :=
  if text.utf8ByteSize > limits.maxFileSize then
    .error (.input (.limit (.fileSize limits.maxFileSize text.utf8ByteSize)))
  else do
    let trees ← read .program source text
    let (statements, _) ← trees.foldlM programPart [] ⟨source, limits.maxTermDepth⟩ 0
    .ok ⟨source, statements⟩

/-- Builds from the first tree of a text of its own, under the default limits. -/
def parseAlone {α : Type} (r : Rule) (source text : String) (build : Node → Building α) : Except Fault α := do
  match ← read r source text with
  | [] => .error (.grammar ("No parse result for " ++ r.label))
  | n :: _ =>
    let (x, _) ← build n ⟨source, ({} : Limits).maxTermDepth⟩ 0
    .ok x

def parseQuery (text : String) : Except Fault (List Goal) :=
  parseAlone .queryInput "<query>" text fun n => queryGoals n.children

def parseTerm (text : String) : Except Fault Term :=
  parseAlone .termInput "<term>" text fun n => do term 0 (← find .term "term_input missing term" n)

def parseFormula (text : String) : Except Fault Formula :=
  parseAlone .formula "<formula>" text fun n => do arithmetic 0 (← find .arithmetic "formula missing arithmetic" n)

end Tree
end BilingualLogic
