import BilingualLogic.Report.Table
import BilingualLogic.Session

/-!
What is shown of sessions: solutions, responses, summaries, clauses and the keyword table as text, errors for a
terminal, and responses as JSON.
-/

namespace BilingualLogic.Report

/-- A row for every solution and a column for every variable; without variables only whether there is a solution. -/
def solutions (vars : List String) (found : List Solution) : String :=
  if found.isEmpty then "false\n"
  else if vars.isEmpty then "true\n"
  else
    let header := vars.map fun x => Cell.mk ("?" ++ x) .left
    let rows := found.map fun s => vars.map fun x =>
      Cell.mk (match s.get? x with
        | some t => t.render .latin
        | none => "_") .left
    table header rows ++ "\n" ++ toString found.length ++ " solution(s)\n"

def queryResult (r : QueryResult) : String :=
  r.query ++ "  (line " ++ toString r.line ++ ")\n" ++ solutions r.vars r.solutions
    ++ match r.stopped with
      | some e => "stopped: " ++ e.message ++ "\n"
      | none => ""

def directiveResult (r : DirectiveResult) : String :=
  (if r.succeeded then "✓ " else "× ") ++ r.directive ++ "\n"

/-- Lines with an empty one behind them, if there are any. -/
def paragraph (lines : List String) : String := if lines.isEmpty then "" else String.join lines ++ "\n"

def response (r : Response) : String :=
  paragraph (r.warnings.map fun w => "warning: " ++ w.text ++ "\n")
    ++ String.join (r.results.map fun q => queryResult q ++ "\n")
    ++ paragraph (r.directives.map directiveResult)

def summary (files : Nat) (predicates : List Summary) : String :=
  let title := "Workspace contains " ++ toString files ++ " files, " ++ toString predicates.length ++ " predicates\n\n"
  if predicates.isEmpty then title
  else
    title ++ table (["Predicate", "Arity", "Facts", "Rules"].map (Cell.mk · .left))
      (predicates.map fun p =>
        Cell.mk p.key.name .left :: [p.key.arity, p.facts, p.rules].map fun n => Cell.mk (toString n) .right)
      ++ "\n"

def clauses (name : String) (found : List Clause) (v : Vocabulary) : String :=
  name ++ " (" ++ toString found.length ++ " clauses):\n"
    ++ String.join (found.map fun c => "  " ++ c.render v ++ "\n")

def keywords : String :=
  table (["Keyword", "Latin", "Arabic"].map (Cell.mk · .left))
    (Keyword.all.map fun k =>
      [k.name, ", ".intercalate (k.spellings .latin), ", ".intercalate (k.spellings .arabic)].map (Cell.mk · .left))
    ++ "\n"

/-- A fault with its place, as a terminal shows it. -/
def locatedError (kind message : String) (suggestion : Option String) (place : Place) : String :=
  "Error: " ++ kind ++ ": " ++ message ++ " (file " ++ place.text ++ ")\n"
    ++ match suggestion with
      | some s => "Help: " ++ s ++ "\n"
      | none => ""

mutual

/-- An error, as a terminal shows it. -/
def error : Error → String
  | .reading fault place => locatedError "Parse error" fault.message fault.suggestion place
  | .check fault place => locatedError "Semantic error" fault.message fault.suggestion place
  | .table fault => "Engine error: " ++ fault.message
  | .limit e =>
    "Resource limit exceeded: " ++ e.name ++ "\n  Limit: " ++ e.limitText ++ "\n  Actual: " ++ e.actualText
      ++ "\n  " ++ e.advice
  | .many es => "Multiple errors occurred:\n\n" ++ errors es

def errors : List Error → String
  | [] => ""
  | e :: es => error e ++ "\n\n" ++ errors es

end

/-- A member that is left out where there is no value. -/
def optional (key : String) : Option Json → List (String × Json)
  | some v => [(key, v)]
  | none => []

def strings (texts : List String) : Json := .array (texts.map .string)

def queryJson (r : QueryResult) : Json :=
  .object ([("query", .string r.query), ("line", .integer r.line), ("variables", strings r.vars),
    ("solutions", .array (r.solutions.map Solution.toJson))]
    ++ optional "error" (r.stopped.map fun e => .string e.message))

def directiveJson (r : DirectiveResult) : Json :=
  .object [("directive", .string r.directive), ("line", .integer r.line), ("succeeded", .bool r.succeeded)]

def responseJson (r : Response) : Json :=
  .object ([("source_id", .string r.source), ("results", .array (r.results.map queryJson)),
    ("directives", .array (r.directives.map directiveJson))]
    ++ (if r.warnings.isEmpty then [] else [("warnings", strings (r.warnings.map Warning.text))]))

def summaryJson (s : Summary) : Json :=
  .object [("name", .string s.key.name), ("arity", .integer s.key.arity), ("facts", .integer s.facts),
    ("rules", .integer s.rules)]

/-- Every spelling of the keyword table with its keyword and vocabulary. -/
def keywordRows : Json :=
  .array (Keyword.table.map fun row => .object [
    ("keyword", .string (match row.keyword with
      | .findAll => "find_all"
      | .bagOf => "bag_of"
      | .setOf => "set_of"
      | k => k.name)),
    ("vocabulary", .string (match row.vocabulary with
      | .latin => "latin"
      | .arabic => "arabic")),
    ("spelling", .string row.text)])

end BilingualLogic.Report
