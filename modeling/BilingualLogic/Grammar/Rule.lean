import BilingualLogic.Keyword

/-!
The rules of the grammar that an error message may name, in the order in which it names them.
-/

namespace BilingualLogic

inductive Rule where
  | endOfText
  | keyword (k : Keyword)
  | reserved
  | number | string | boolean | anonymous | var | varName | atom | name
  | listTail | list | term | predicate
  | additiveOperator | multiplicativeOperator | negate
  | arithmetic | product | unary | primary
  | comparisonOperator
  | body | nested
  | cut | negation | collect | clauseForm | assertGoal | retractGoal | unifyCall | isGoal | comparison | unifyGoal
  | trueGoal | falseGoal | call | goal
  | factDeclaration | ruleDeclaration | queryDeclaration | directive
  | program | queryInput | termInput | formula
deriving DecidableEq, Repr

namespace Rule

def all : List Rule :=
  [endOfText] ++ Keyword.all.map keyword ++
  [reserved, number, string, boolean, anonymous, var, varName, atom, name, listTail, list, term, predicate,
    additiveOperator, multiplicativeOperator, negate, arithmetic, product, unary, primary, comparisonOperator,
    body, nested, cut, negation, collect, clauseForm, assertGoal, retractGoal, unifyCall, isGoal, comparison,
    unifyGoal, trueGoal, falseGoal, call, goal, factDeclaration, ruleDeclaration, queryDeclaration, directive,
    program, queryInput, termInput, formula]

theorem mem_all (r : Rule) : r ∈ all := by
  cases r with
  | keyword k => cases k <;> decide
  | _ => decide

/-- The name that error messages use. -/
def label : Rule → String
  | endOfText => "EOI"
  | keyword k => "kw_" ++ k.name
  | reserved => "reserved"
  | number => "number"
  | string => "string"
  | boolean => "boolean"
  | anonymous => "anonymous"
  | var => "variable"
  | varName => "variable_name"
  | atom => "atom"
  | name => "name"
  | listTail => "list_tail"
  | list => "list"
  | term => "term"
  | predicate => "predicate"
  | additiveOperator => "additive_operator"
  | multiplicativeOperator => "multiplicative_operator"
  | negate => "negate"
  | arithmetic => "arithmetic"
  | product => "arithmetic_product"
  | unary => "arithmetic_unary"
  | primary => "arithmetic_primary"
  | comparisonOperator => "comparison_operator"
  | body => "body"
  | nested => "nested"
  | cut => "cut"
  | negation => "negation"
  | collect => "collect"
  | clauseForm => "clause_form"
  | assertGoal => "assert_goal"
  | retractGoal => "retract_goal"
  | unifyCall => "unify_call"
  | isGoal => "is_goal"
  | comparison => "comparison"
  | unifyGoal => "unify_goal"
  | trueGoal => "true_goal"
  | falseGoal => "false_goal"
  | call => "call"
  | goal => "goal"
  | factDeclaration => "fact_declaration"
  | ruleDeclaration => "rule_declaration"
  | queryDeclaration => "query_declaration"
  | directive => "directive"
  | program => "program"
  | queryInput => "query_input"
  | termInput => "term_input"
  | formula => "formula"

/-- The rules of a list without repetitions, in the order of `all`. -/
def ordered (rules : List Rule) : List Rule := all.filter rules.contains

end Rule
end BilingualLogic
