import BilingualLogic.Grammar.Blank
import BilingualLogic.Grammar.Peg
import BilingualLogic.Grammar.Rule
import BilingualLogic.Source
import BilingualLogic.Unicode.Letter
import BilingualLogic.Unicode.Mark
import BilingualLogic.Unicode.Number

/-!
The grammar of the language: for every rule what it reads and what it yields. Keywords are read by the spellings of
the keyword table, in the order of the table.
-/

namespace BilingualLogic.Language

open Text Unicode

/-- What a rule yields. -/
abbrev Result : Rule → Type
  | .keyword _ | .number | .string | .var | .varName | .atom | .name => String
  | .boolean => Bool
  | .listTail | .term | .termInput => Source.Term
  | .list => List Source.Term × Option Source.Term
  | .predicate => Source.Predicate
  | .additiveOperator | .multiplicativeOperator => Operation
  | .arithmetic | .product | .unary | .primary | .formula => Source.Formula
  | .comparisonOperator => Comparison
  | .body | .nested | .queryInput => Source.Body
  | .clauseForm => Source.Predicate × Option Source.Body
  | .negation | .collect | .assertGoal | .retractGoal | .unifyCall | .isGoal | .comparison | .unifyGoal
  | .trueGoal | .falseGoal | .call | .goal => Source.Goal
  | .factDeclaration | .ruleDeclaration | .queryDeclaration | .directive => Source.Statement
  | .program => List Source.Statement
  | .endOfText | .reserved | .anonymous | .negate | .cut => Unit

abbrev Expr (α : Type) := Peg Rule Result α

def call (r : Rule) : Expr (Result r) := .rule r

def keyword (k : Keyword) : Expr String := call (.keyword k)

/-- Characters of a name. -/
def isNameChar (c : Char) : Bool := isLetter c || isMark c || isNumber c || c == '_'

def nameChar : Expr Char := .char isNameChar

/-- A letter or `_`, then any characters of names. -/
def identifier : Expr String :=
  (fun c cs => String.ofList (c :: cs)) <$> .char (fun c => isLetter c || c == '_') <*> .many nameChar

def isDigit (c : Char) : Bool := ('0' ≤ c && c ≤ '9') || ('٠' ≤ c && c ≤ '٩')

def digits : Expr (List Char) := Peg.many1 (.char isDigit)

/-- The characters of both parts. -/
def append (first second : Expr (List Char)) : Expr (List Char) := (· ++ ·) <$> first <*> second

def optional (e : Expr (List Char)) : Expr (List Char) := (·.getD []) <$> .option e

def chars (texts : List String) : Expr (List Char) := String.toList <$> .oneOf texts

def numeral : Expr String :=
  String.ofList <$> append (optional (chars ["-"])) (append digits
    (append (optional (append (chars ["."]) digits))
      (optional (append (chars ["e", "E"]) (append (optional (chars ["+", "-"])) digits)))))

/-- The character that stands behind a backslash. -/
def unescaped : Char → Char
  | 'n' => '\n'
  | 't' => '\t'
  | 'r' => '\r'
  | c => c

/-- A text between two quotes of one kind, where a backslash takes the next character along. -/
def quoted (quote : Char) : Expr String :=
  .token quote.toString
    *> (String.ofList <$> .many ((unescaped <$> (.token "\\" *> .char fun _ => true)) <|> .char (· != quote)))
    <* .token quote.toString

/-- A text between guillemets, where nothing is escaped. -/
def guillemets : Expr String :=
  .token "«" *> (String.ofList <$> .many (.char (· != '»'))) <* .token "»"

def separator : Expr String := .oneOf [",", "،"]

def conjunction : Expr String := separator <|> keyword .and

def implies : Expr String := .token ":-" <|> keyword .implies

def terminator : Expr String := .oneOf [";", "؛", "."]

/-- The keywords that are no names. -/
def reservedKeywords : List Keyword := Keyword.all.filter (! ·.namesPredicate)

def operation : List (String × Operation) :=
  [("+", .add), ("-", .sub), ("*", .mul), ("/", .div), ("%", .rem), ("×", .mul), ("÷", .div)]

def comparison : List (String × Comparison) :=
  [(">=", .ge), ("<=", .le), ("==", .eq), ("!=", .ne), ("≥", .ge), ("≤", .le), ("≠", .ne), (">", .gt), ("<", .lt)]

/-- Reads the first of the symbols that stands here and yields its meaning. -/
def oneOfSymbols {α : Type} (table : List (String × α)) (other : α) : Expr α :=
  (fun text => (table.lookup text).getD other) <$> .oneOf (table.map Prod.fst)

def placed {α : Type} (e : Expr (Span → α)) : Expr α := .placed e

/-- The goals of a negation or a collection. -/
def scope : Expr (Source.Scope × List Source.Goal) :=
  (fun (b : Source.Body) => (⟨b.span, true⟩, b.goals)) <$> call .nested
    <|> placed ((fun (g : Source.Goal) s => (⟨s, false⟩, [g])) <$> call .goal)

/-- The clause that an assertion or a retraction names. -/
def clauseTarget (build : Source.Predicate → Span → List Source.Goal → Source.Goal) (k : Keyword) : Expr Source.Goal :=
  keyword k *> ((fun (t : Source.Predicate × Option Source.Body) =>
      match t with
      | (head, some body) => build head body.span body.goals
      | (head, none) => build head default []) <$> call .clauseForm
    <|> (fun (head : Source.Predicate) => build head default []) <$> call .predicate)

def statement : Expr Source.Statement :=
  (call .factDeclaration <|> call .ruleDeclaration <|> call .queryDeclaration <|> call .directive)
    <* .option terminator

def kind : Rule → RuleKind
  | .keyword _ | .reserved | .number | .string | .anonymous | .varName | .atom | .name => .atomic
  | .var => .compound
  | _ => .plain

def body : (r : Rule) → Expr (Result r)
  | .endOfText => .finish
  | .keyword k => .oneOf k.allSpellings <* .unless nameChar
  | .reserved =>
    (fun _ => ()) <$> reservedKeywords.tail.foldl (fun e k => e <|> keyword k) (keyword .fact)
  | .number => numeral
  | .string => quoted '"' <|> quoted '\'' <|> guillemets
  | .boolean => (fun _ => true) <$> keyword .true <|> (fun _ => false) <$> keyword .false
  | .anonymous => (fun _ => ()) <$> (.oneOf ["?_", "_"] <* .unless nameChar)
  | .var => .token "?" *> call .varName
  | .varName => String.ofList <$> Peg.many1 nameChar
  | .atom => .unless (call .reserved) *> identifier
  | .name => .unless (call .reserved) *> identifier
  | .listTail => .token "|" *> call .term
  | .list =>
    .token "["
      *> ((fun o => o.getD ([], none)) <$> .option (Prod.mk <$> Peg.separated (call .term) separator
        <*> .option (call .listTail)))
      <* .token "]"
  | .term => placed
      ((fun _ s => Source.Term.anonymous s) <$> call .anonymous
        <|> (fun name s => Source.Term.var s name) <$> call .var
        <|> (fun text s => Source.Term.number s text) <$> call .number
        <|> (fun content s => Source.Term.text s content) <$> call .string
        <|> (fun value s => Source.Term.boolean s value) <$> call .boolean
        <|> (fun (items, rest) s => Source.Term.list s items rest) <$> call .list
        <|> (fun name s => Source.Term.atom s name) <$> call .atom)
  | .predicate =>
    (fun name arguments => Source.Predicate.mk name ((arguments.bind id).getD []))
      <$> call .name
      <*> .option (.token "(" *> .option (Peg.separated (call .term) separator) <* .token ")")
  | .additiveOperator => oneOfSymbols (operation.take 2) .sub
  | .multiplicativeOperator => oneOfSymbols (operation.drop 2) .rem
  | .negate => (fun _ => ()) <$> .token "-"
  | .arithmetic => placed
      ((fun first more s => Source.Formula.group s (.chain first more)) <$> call .product
        <*> .many (Prod.mk <$> call .additiveOperator <*> call .product))
  | .product =>
    Source.Formula.chain <$> call .unary <*> .many (Prod.mk <$> call .multiplicativeOperator <*> call .unary)
  | .unary => (fun signs e => signs.foldl (fun e _ => Source.Formula.negate e) e) <$> .many (call .negate) <*> call .primary
  | .primary =>
    placed ((fun text s => Source.Formula.number s text) <$> call .number)
      <|> Source.Formula.var <$> call .var
      <|> Source.Formula.text <$> call .string
      <|> .token "(" *> call .arithmetic <* .token ")"
  | .comparisonOperator => oneOfSymbols comparison .ne
  | .body => placed ((fun goals s => Source.Body.mk s goals) <$> Peg.separated (call .goal) conjunction)
  | .nested => .token "(" *> call .body <* .token ")"
  | .cut => (fun _ => ()) <$> (keyword .cut <|> .token "!")
  | .negation =>
    (fun (s, goals) => Source.Goal.not s goals)
      <$> ((keyword .not <|> .token "\\+") *> .option (keyword .query) *> scope)
  | .collect =>
    (fun kind template (s, goals) result => Source.Goal.collect kind template s goals result)
      <$> ((fun _ => Collection.findAll) <$> keyword .findAll
        <|> (fun _ => Collection.bagOf) <$> keyword .bagOf
        <|> (fun _ => Collection.setOf) <$> keyword .setOf)
      <*> (.token "(" *> call .term)
      <*> (separator *> .option (keyword .query) *> scope)
      <*> (separator *> call .term <* .token ")")
  | .clauseForm =>
    Prod.mk <$> (.token "(" *> call .predicate) <*> (.option (implies *> call .body) <* .token ")")
  | .assertGoal => clauseTarget Source.Goal.assert .assert
  | .retractGoal => clauseTarget Source.Goal.retract .retract
  | .unifyCall =>
    Source.Goal.unify <$> (keyword .unify *> .token "(" *> call .term)
      <*> (separator *> call .term <* .token ")")
  | .isGoal => Source.Goal.is <$> call .term <*> (keyword .is *> call .arithmetic)
  | .comparison =>
    (fun left op right => Source.Goal.compare op left right)
      <$> call .arithmetic <*> call .comparisonOperator <*> call .arithmetic
  | .unifyGoal =>
    Source.Goal.unify <$> call .term <*> (.token "=" *> .unless (.token "=") *> call .term)
  | .trueGoal => (fun text => Source.Goal.call ⟨text, []⟩) <$> keyword .true
  | .falseGoal => (fun text => Source.Goal.call ⟨text, []⟩) <$> keyword .false
  | .call => Source.Goal.call <$> call .predicate
  | .goal =>
    (fun _ => Source.Goal.cut) <$> call .cut
      <|> call .negation
      <|> call .collect
      <|> call .assertGoal
      <|> call .retractGoal
      <|> call .unifyCall
      <|> call .isGoal
      <|> call .comparison
      <|> call .unifyGoal
      <|> call .trueGoal
      <|> call .falseGoal
      <|> call .call
  | .factDeclaration => placed
      ((fun head s => Source.Statement.mk s (.fact head)) <$> (keyword .fact *> call .predicate))
  | .ruleDeclaration => placed
      ((fun head b s => Source.Statement.mk s (.rule head b))
        <$> (keyword .rule *> call .predicate) <*> (implies *> call .body))
  | .queryDeclaration => placed
      ((fun b s => Source.Statement.mk s (.query b)) <$> (keyword .query *> call .body))
  | .directive => placed
      ((fun goal s => Source.Statement.mk s (.directive goal)) <$> (call .assertGoal <|> call .retractGoal))
  | .program => .pure () *> .many statement <* call .endOfText
  | .queryInput =>
    .pure () *> .option (keyword .query) *> call .body <* .option terminator <* call .endOfText
  | .termInput => .pure () *> call .term <* call .endOfText
  | .formula => .pure () *> call .arithmetic <* call .endOfText

def grammar : Grammar where
  Rule := Rule
  Result := Result
  kind := kind
  body := body
  skip c := Blank.skip c.rest c.position

end BilingualLogic.Language
