import BilingualLogic.Decimal.Arithmetic
import BilingualLogic.Grammar.Rule
import BilingualLogic.Json.Writer
import BilingualLogic.Program

/-!
What can be wrong with a program or a query, and how it is said. A goal that fails is no error.
-/

namespace BilingualLogic

/-- Where in which source something is wrong. -/
structure Place where
  source : String
  span : Text.Span

inductive ReadingFault where
  /-- None of the rules reads the text from here on. -/
  | expected (rules : List Rule)
  | numberOutOfRange (numeral : String)

inductive CheckFault where
  | definesBuiltin (head : Predicate) (builtin : Keyword)
  | resultOfIs (found : Term)
  | resultOfCollection (found : Term)

inductive TableFault where
  | notJson
  | notAnObject
  | notRows (name : String) (found : Json)
  | null
  | nestedObject
  | invalidName (name : String)
  | reservedName (name : String)

inductive Excess where
  | fileSize (limit actual : Nat)
  | termDepth (limit actual : Nat) (place : Place)
  | inferences (limit actual : Nat)
  | listLength (limit actual : Nat)

inductive Error where
  | reading (fault : ReadingFault) (place : Place)
  | check (fault : CheckFault) (place : Place)
  | table (fault : TableFault)
  | limit (excess : Excess)
  | many (errors : List Error)

/-- `A`, `A or B`, or `A, B, or C`. -/
def enumeration : List String → String
  | [] => ""
  | [a] => a
  | [a, b] => a ++ " or " ++ b
  | names => ", ".intercalate names.dropLast ++ ", or " ++ names.getLastD ""

namespace ReadingFault

def message : ReadingFault → String
  | expected rules => "expected " ++ enumeration (rules.map Rule.label)
  | numberOutOfRange numeral => "Number '" ++ numeral ++ "' is out of range"

def suggestion : ReadingFault → Option String
  | expected _ => none
  | numberOutOfRange _ => some "Numbers must fit in 96 bits with at most 28 decimal places"

end ReadingFault

namespace CheckFault

def message : CheckFault → String
  | definesBuiltin head _ => "Cannot define clauses for builtin predicate '" ++ head.key.text ++ "'"
  | resultOfIs found =>
    "The left side of 'is' must be a variable or a number, found '" ++ found.render .latin ++ "'"
  | resultOfCollection found =>
    "The result of an aggregation must be a variable or a list, found '" ++ found.render .latin ++ "'"

def suggestion : CheckFault → Option String
  | definesBuiltin head builtin =>
    some ("'" ++ head.name ++ "' is the builtin '" ++ builtin.name ++ "'; choose another predicate name")
  | resultOfIs _ => some "Write the result variable first, as in '?X is 2 + 3'"
  | resultOfCollection _ => none

end CheckFault

def TableFault.message : TableFault → String
  | notJson => "Invalid JSON: the text does not hold one value"
  | notAnObject => "Expected a JSON object mapping predicate names to rows"
  | notRows name found => "Expected an array of rows for '" ++ name ++ "', got " ++ found.compact
  | null => "null has no Bayan representation"
  | nestedObject => "Nested objects have no Bayan representation"
  | invalidName name => "'" ++ name ++ "' is not a valid predicate name"
  | reservedName name => "'" ++ name ++ "' is a reserved keyword and cannot name a predicate"

/-- Hundredths of a number, with a point. -/
def hundredths (n : Nat) : String :=
  toString (n / 100) ++ "." ++ String.ofList (Decimal.padded 2 (toString (n % 100)).toList)

/-- Source, line and column. -/
def Place.text (p : Place) : String :=
  p.source ++ ":" ++ toString p.span.start.line ++ ":" ++ toString p.span.start.column

namespace Excess

def name : Excess → String
  | fileSize .. => "max_file_size_bytes"
  | termDepth .. => "max_term_depth"
  | inferences .. => "max_inferences"
  | listLength .. => "max_list_length"

def limitText : Excess → String
  | fileSize limit _ => toString limit ++ " bytes (" ++ toString (limit / 1048576) ++ " MB)"
  | termDepth limit .. | inferences limit _ | listLength limit _ => toString limit

def actualText : Excess → String
  | fileSize _ actual =>
    toString actual ++ " bytes (" ++ hundredths (Decimal.roundEven (actual * 100) 1048576) ++ " MB)"
  | termDepth _ actual _ | inferences _ actual | listLength _ actual => toString actual

def advice : Excess → String
  | fileSize .. => "Reduce file size or split the program into multiple files"
  | termDepth _ _ place => "Simplify the nesting at " ++ place.text
  | inferences .. =>
    "The query may not terminate. Add a base case or a cut, or raise the inference limit."
  | listLength .. => "Build shorter lists, or raise the list length limit."

def message (e : Excess) : String :=
  "Resource limit exceeded: " ++ e.name ++ " (limit: " ++ e.limitText ++ ", actual: " ++ e.actualText ++ "). "
    ++ e.advice

end Excess

/-- A fault with its suggestion and its place. -/
def located (kind message : String) (suggestion : Option String) (place : Place) : String :=
  kind ++ ": " ++ message ++ (match suggestion with
    | some s => " (suggestion: " ++ s ++ ")"
    | none => "") ++ " at " ++ place.text

namespace Error

mutual

def message : Error → String
  | reading fault place => located "Parse error" fault.message fault.suggestion place
  | check fault place => located "Semantic error" fault.message fault.suggestion place
  | table fault => "Engine error: " ++ fault.message
  | limit excess => excess.message
  | many errors => "Multiple errors:\n" ++ numbered 1 errors

/-- The messages with their numbers, a line each. -/
def numbered (n : Nat) : List Error → String
  | [] => ""
  | [e] => "  " ++ toString n ++ ". " ++ e.message
  | e :: es => "  " ++ toString n ++ ". " ++ e.message ++ "\n" ++ numbered (n + 1) es

end

end Error
end BilingualLogic
