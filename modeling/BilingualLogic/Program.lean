import BilingualLogic.Clause
import BilingualLogic.Text.Position

/-!
Programs: the statements of a source, each with its place.
-/

namespace BilingualLogic

/-- What a statement says; a directive is a single goal. -/
inductive StatementForm where
  | fact (head : Predicate)
  | rule (head : Predicate) (body : List Goal)
  | query (goals : List Goal)
  | directive (goal : Goal)

structure Statement where
  form : StatementForm
  span : Text.Span

namespace Statement

def render (v : Vocabulary) (s : Statement) : String :=
  match s.form with
  | .fact head => Clause.render v ⟨head, []⟩
  | .rule head body => Clause.render v ⟨head, body⟩
  | .query goals => Keyword.query.spelling v ++ " " ++ Goal.renderAll v goals ++ ";"
  | .directive goal => goal.render v ++ ";"

end Statement

structure Program where
  source : String
  statements : List Statement

end BilingualLogic
