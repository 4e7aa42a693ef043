import BilingualLogic.Error
import BilingualLogic.Json.Reader
import BilingualLogic.Store
import BilingualLogic.Term.Json
import BilingualLogic.Unicode.Alphabetic
import BilingualLogic.Unicode.Number

/-!
Tables of facts in JSON: an object from names of predicates to rows of arguments. `toSource` writes such a table as
facts of the language, `ofStore` makes one of the facts without variables that a store holds.
-/

namespace BilingualLogic.FactTable

open Unicode

/-- Arrays and objects may nest so deep in a text that holds a table. -/
def maxNesting : Nat := 127

def escaped : Char → List Char
  | '"' => ['\\', '"']
  | '\\' => ['\\', '\\']
  | c => [c]

mutual

/-- A JSON value as a term. -/
def termText : Json → Except TableFault String
  | .string s => .ok ("\"" ++ String.ofList (s.toList.flatMap escaped) ++ "\"")
  | .integer n => .ok (Json.scalarText (.integer n))
  | .real negative a => .ok (Json.scalarText (.real negative a))
  | .bool b => .ok (if b then "true" else "false")
  | .array items =>
    match termTexts items with
    | .ok texts => .ok ("[" ++ ", ".intercalate texts ++ "]")
    | .error e => .error e
  | .null => .error .null
  | .object _ => .error .nestedObject

def termTexts : List Json → Except TableFault (List String)
  | [] => .ok []
  | v :: vs =>
    match termText v with
    | .error e => .error e
    | .ok text =>
      match termTexts vs with
      | .error e => .error e
      | .ok texts => .ok (text :: texts)

end

def isNameStart (c : Char) : Bool := isAlphabetic c || c == '_'

def isNameRest (c : Char) : Bool := isAlphabetic c || isNumber c || c == '_'

/-- What is wrong with a name, if it cannot name a predicate. -/
def nameFault? (name : String) : Option TableFault :=
  let wellFormed := match name.toList with
    | [] => false
    | c :: cs => isNameStart c && cs.all isNameRest
  if ! wellFormed then some (.invalidName name)
  else if (Keyword.ofSpelling? name).any (! ·.namesPredicate) then some (.reservedName name)
  else none

/-- A row as a fact; a row that is no array is a single argument. -/
def factText (name : String) (row : Json) : Except TableFault String := do
  let texts ← match row with
    | .array items => termTexts items
    | v => termTexts [v]
  .ok ("fact " ++ name ++ (if texts.isEmpty then "" else "(" ++ ", ".intercalate texts ++ ")") ++ ";\n")

def factTexts (name : String) : List Json → Except TableFault String
  | [] => .ok ""
  | row :: rows => do
    let text ← factText name row
    .ok (text ++ (← factTexts name rows))

/-- The facts of the rows of one name after the other. -/
def memberTexts : List (String × Json) → Except TableFault String
  | [] => .ok ""
  | (name, rows) :: rest =>
    match nameFault? name, rows with
    | some fault, _ => .error fault
    | none, .array rows => do
      let text ← factTexts name rows
      .ok (text ++ (← memberTexts rest))
    | none, v => .error (.notRows name v)

mutual

/-- Puts the members of all objects in the order of their keys, the last of several with one key. -/
def sorted : Json → Json
  | .array items => .array (sortedAll items)
  | .object members => .sortedObject (sortedMembers members)
  | v => v

def sortedAll : List Json → List Json
  | [] => []
  | v :: vs => sorted v :: sortedAll vs

def sortedMembers : List (String × Json) → List (String × Json)
  | [] => []
  | (k, v) :: ms => (k, sorted v) :: sortedMembers ms

end

/-- The facts of a table, in the order of the names. -/
def toSource (text : String) : Except TableFault String :=
  match (Json.parse? maxNesting text).map sorted with
  | none => .error .notJson
  | some (.object members) => memberTexts members
  | some _ => .error .notAnObject

/-- Adds rows to those of a name. -/
def addRows (name : String) (rows : List Json) : List (String × List Json) → List (String × List Json)
  | [] => [(name, rows)]
  | (k, old) :: rest => if k = name then (k, old ++ rows) :: rest else (k, old) :: addRows name rows rest

/-- The facts of a table that have no variables, as rows. -/
def rows (t : Table) : List Json :=
  t.clauses.filterMap fun c =>
    if c.clause.isFact && Term.groundAll c.clause.head.arguments then
      some (.array (c.clause.head.arguments.map Term.toJson))
    else none

/-- The table of the facts of a store, by name and in the order of the store. -/
def ofStore (s : Store) : Json :=
  let members := s.defined.foldl (fun members t =>
    match rows t with
    | [] => members
    | new => addRows t.key.name new members) []
  .sortedObject (members.map fun (name, rows) => (name, .array rows))

end BilingualLogic.FactTable
