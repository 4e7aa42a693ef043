import BilingualLogic.Proofs.Grammar.Evaluation
import BilingualLogic.Proofs.Grammar.Skip
import BilingualLogic.Source.Reading

/-!
The grammar of the language has no rule that comes back to itself before a character is taken, and no repetition of
nothing. So every rule reads what its body reads.
-/

namespace BilingualLogic.Language

/-- The rules that may take nothing. -/
def nullable : Rule → Bool
  | .endOfText | .program => true
  | _ => false

def rank : Rule → Nat
  | .reserved | .boolean | .cut | .negation | .collect | .assertGoal | .retractGoal | .unifyCall | .trueGoal
  | .falseGoal | .primary | .factDeclaration | .ruleDeclaration | .queryDeclaration => 1
  | .name | .atom | .unary | .directive => 2
  | .term | .predicate | .product | .program => 3
  | .isGoal | .unifyGoal | .arithmetic | .call | .termInput => 4
  | .comparison | .formula => 5
  | .goal => 6
  | .body => 7
  | .queryInput => 8
  | _ => 0

theorem nullable_of_body (r : Rule) : (body r).nullable nullable = true → nullable r = true := by
  cases r with
  | keyword k => cases k <;> decide
  | _ => decide

theorem rank_lt_of_heads (r : Rule) : ∀ r' ∈ (body r).heads nullable, rank r' < rank r := by
  cases r with
  | keyword k => cases k <;> decide
  | _ => decide

theorem productive_body (r : Rule) : (body r).productive nullable = true := by
  cases r with
  | keyword k => cases k <;> decide
  | _ => decide

theorem rank_le (r : Rule) : rank r ≤ 8 := by
  cases r <;> simp [rank]

def ranking : Grammar.Ranking grammar where
  depth := Source.ruleDepth
  rank := rank
  nullable := nullable
  rank_lt r := Nat.lt_of_le_of_lt (rank_le r) (by decide)
  skip_le c := (Blank.skip_rest c.position c.rest) ▸ Blank.skipText_length c.rest
  nullable_of_body := nullable_of_body
  heads_lt := rank_lt_of_heads
  productive := productive_body

end BilingualLogic.Language
