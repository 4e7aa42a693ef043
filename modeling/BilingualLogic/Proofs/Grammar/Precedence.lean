import BilingualLogic.Proofs.Grammar.Valid

/-!
Formulas are read in the order of precedence: where an operand would bind less than its place asks for it is a group,
and the formula of a goal is a group as a whole.
-/

namespace BilingualLogic

namespace Source

namespace Formula

/-- How tightly a formula binds where it stands: by its operator, or as tightly as it can. -/
def precedence : Formula → Nat
  | .binary op _ _ => op.precedence
  | _ => 3

/-- No operand binds less than its place asks. -/
inductive Ordered : Formula → Prop
  | number (s : Text.Span) (numeral : String) : Ordered (.number s numeral)
  | var (name : String) : Ordered (.var name)
  | text (content : String) : Ordered (.text content)
  | negate {e : Formula} : e.Ordered → e.precedence = 3 → Ordered (.negate e)
  | binary {op : Operation} {a b : Formula} : a.Ordered → op.precedence ≤ a.precedence → b.Ordered →
    op.precedence < b.precedence → Ordered (.binary op a b)
  | group (s : Text.Span) {e : Formula} : e.Ordered → Ordered (.group s e)

/-- The formula of a goal. -/
inductive Whole : Formula → Prop
  | group (s : Text.Span) {e : Formula} : e.Ordered → Whole (.group s e)

theorem Ordered.chain {p : Nat} {first : Formula} {more : List (Operation × Formula)} (hfirst : first.Ordered)
    (hp : p ≤ first.precedence)
    (hmore : ∀ x ∈ more, x.1.precedence = p ∧ x.2.Ordered ∧ p < x.2.precedence) :
    (Formula.chain first more).Ordered ∧ p ≤ (Formula.chain first more).precedence := by
  induction more generalizing first with
  | nil => exact ⟨hfirst, hp⟩
  | cons x xs ih =>
    obtain ⟨⟨rfl, hx, hlt⟩, hxs⟩ := List.forall_mem_cons.mp hmore
    exact ih (.binary hfirst hp hx hlt) (Nat.le_refl _) hxs

theorem ordered_signs {e : Formula} (he : e.Ordered) (hp : e.precedence = 3) (signs : List Unit) :
    (signs.foldl (fun e _ => Formula.negate e) e).Ordered ∧
      (signs.foldl (fun e _ => Formula.negate e) e).precedence = 3 := by
  induction signs generalizing e with
  | nil => exact ⟨he, hp⟩
  | cons _ signs ih => exact ih (.negate he hp) rfl

end Formula

namespace Goal

mutual

/-- The formulas, those of nested goals too. -/
def formulas : Goal → List Formula
  | .is _ e => [e]
  | .compare _ a b => [a, b]
  | .not _ goals => formulasAll goals
  | .collect _ _ _ goals _ => formulasAll goals
  | .assert _ _ body => formulasAll body
  | .retract _ _ body => formulasAll body
  | _ => []

def formulasAll : List Goal → List Formula
  | [] => []
  | g :: gs => g.formulas ++ formulasAll gs

end

/-- All formulas in the goal stand in the order of precedence. -/
def Ordered (g : Goal) : Prop := ∀ e ∈ g.formulas, e.Whole

theorem mem_formulasAll {goals : List Goal} {e : Formula} : e ∈ formulasAll goals ↔ ∃ g ∈ goals, e ∈ g.formulas := by
  induction goals with
  | nil => simp [formulasAll]
  | cons g gs ih => simp [formulasAll, ih]

theorem ordered_of_all {goals : List Goal} (h : ∀ g ∈ goals, g.Ordered) : ∀ e ∈ formulasAll goals, e.Whole := by
  intro e he
  obtain ⟨g, hg, he⟩ := mem_formulasAll.mp he
  exact h g hg e he

end Goal

def StatementForm.Ordered : StatementForm → Prop
  | .fact _ => True
  | .rule _ body => ∀ g ∈ body.goals, g.Ordered
  | .query body => ∀ g ∈ body.goals, g.Ordered
  | .directive g => g.Ordered

end Source

namespace Language

open Text Grammar

/-- What holds of the formulas in all that a rule yields. -/
def InOrder : (r : Rule) → Result r → Prop
  | .additiveOperator, op => op.precedence = 1
  | .multiplicativeOperator, op => op.precedence = 2
  | .arithmetic, e | .formula, e => e.Whole
  | .product, e => e.Ordered ∧ 2 ≤ e.precedence
  | .unary, e | .primary, e => e.Ordered ∧ e.precedence = 3
  | .body, b | .nested, b | .queryInput, b => ∀ g ∈ b.goals, g.Ordered
  | .clauseForm, (_, body) => ∀ b ∈ body, ∀ g ∈ b.goals, g.Ordered
  | .assertGoal, g | .retractGoal, g | .negation, g | .collect, g | .unifyCall, g | .isGoal, g | .comparison, g
  | .unifyGoal, g | .trueGoal, g | .falseGoal, g | .call, g | .goal, g => g.Ordered
  | .factDeclaration, s | .ruleDeclaration, s | .queryDeclaration, s | .directive, s => s.form.Ordered
  | .program, ss => ∀ s ∈ ss, s.form.Ordered
  | _, _ => True

theorem yields_symbol {ρ : Grammar.Readers grammar} {α : Type} {table : List (String × α)} {other : α} {Q : α → Prop}
    (htable : ∀ x ∈ table, Q x.2) (hother : Q other) : Yields ρ (oneOfSymbols table other) Q := by
  refine Yields.map (yields_any.imp fun text _ => ?_)
  cases h : table.lookup text with
  | none => exact hother
  | some x =>
    obtain ⟨l, r, hsplit, -⟩ := List.lookup_eq_some_iff.mp h
    exact htable (text, x) (by rw [hsplit]; simp)

section Bodies

variable {ρ : Grammar.Readers grammar} (hρ : ∀ r, Yields ρ (call r) (InOrder r))

include hρ

theorem ordered_arithmetic : Yields ρ (body .arithmetic) (InOrder .arithmetic) := by
  have hitem : Yields ρ (Prod.mk <$> call .additiveOperator <*> call .product)
      fun x => x.1.precedence = 1 ∧ x.2.Ordered ∧ 1 < x.2.precedence :=
    Yields.ap (Yields.map ((hρ .additiveOperator).imp fun op hop e he => ⟨hop, he.1, he.2⟩)) (hρ .product)
  refine Yields.placed (Yields.ap (Yields.map ((hρ .product).imp fun first hfirst more hmore s => ?_)) hitem.many)
  exact .group s (hfirst.1.chain (Nat.le_of_succ_le hfirst.2) hmore).1

theorem ordered_product : Yields ρ (body .product) (InOrder .product) := by
  have hitem : Yields ρ (Prod.mk <$> call .multiplicativeOperator <*> call .unary)
      fun x => x.1.precedence = 2 ∧ x.2.Ordered ∧ 2 < x.2.precedence :=
    Yields.ap (Yields.map ((hρ .multiplicativeOperator).imp fun op hop e he => ⟨hop, he.1, by rw [he.2]; decide⟩))
      (hρ .unary)
  refine Yields.ap (Yields.map ((hρ .unary).imp fun first hfirst more hmore => ?_)) hitem.many
  exact hfirst.1.chain (by rw [hfirst.2]; decide) hmore

theorem ordered_unary : Yields ρ (body .unary) (InOrder .unary) :=
  Yields.ap (Yields.map (yields_any.imp fun signs _ _ he => Source.Formula.ordered_signs he.1 he.2 signs)) (hρ .primary)

theorem ordered_primary : Yields ρ (body .primary) (InOrder .primary) := by
  refine Yields.or (Yields.placed (Yields.map (yields_any.imp fun text _ s => ⟨.number s text, rfl⟩))) (Yields.or
    (Yields.map (yields_any.imp fun name _ => ⟨.var name, rfl⟩)) (Yields.or
      (Yields.map (yields_any.imp fun content _ => ⟨.text content, rfl⟩))
      (Yields.left (Yields.right ((hρ .arithmetic).imp fun e he => ?_)))))
  cases he with
  | group s he => exact ⟨.group s he, rfl⟩

theorem ordered_scope : Yields ρ scope fun x => ∀ g ∈ x.2, g.Ordered :=
  Yields.or (Yields.map ((hρ .nested).imp fun _ hb => hb))
    (Yields.placed (Yields.map ((hρ .goal).imp fun _ hg _ => List.forall_mem_singleton.mpr hg)))

theorem ordered_clauseTarget {build : Source.Predicate → Span → List Source.Goal → Source.Goal} {k : Keyword}
    (hbuild : ∀ head s body, (build head s body).formulas = Source.Goal.formulasAll body) :
    Yields ρ (clauseTarget build k) Source.Goal.Ordered := by
  have hempty (head : Source.Predicate) : (build head default []).Ordered := by
    simp [Source.Goal.Ordered, hbuild, Source.Goal.formulasAll]
  refine Yields.right (Yields.or (Yields.map ((hρ .clauseForm).imp ?_)) (Yields.map (yields_any.imp fun head _ =>
    hempty head)))
  rintro ⟨head, _ | b⟩ hb
  · exact hempty head
  · rw [Source.Goal.Ordered, hbuild]
    exact Source.Goal.ordered_of_all (hb b rfl)

theorem ordered_goalKind {r : Rule} (hr : r ∈ [.negation, .collect, .assertGoal, .retractGoal, .unifyCall, .isGoal,
    .comparison, .unifyGoal, .trueGoal, .falseGoal, .call]) : Yields ρ (body r) (InOrder r) := by
  have none {g : Source.Goal} (hg : g.formulas = []) : g.Ordered := by simp [Source.Goal.Ordered, hg]
  simp only [List.mem_cons, List.not_mem_nil, or_false] at hr
  rcases hr with rfl | rfl | rfl | rfl | rfl | rfl | rfl | rfl | rfl | rfl | rfl
  · exact Yields.map (Yields.right ((ordered_scope hρ).imp fun x hx => Source.Goal.ordered_of_all hx))
  · exact Yields.ap (Yields.ap (Yields.ap (Yields.map (yields_any.imp fun _ _ _ _ x hx _ _ =>
      @Source.Goal.ordered_of_all x.2 hx)) (Yields.right yields_any)) (Yields.right (ordered_scope hρ)))
      (Yields.left (Yields.right yields_any))
  · exact ordered_clauseTarget hρ fun _ _ _ => rfl
  · exact ordered_clauseTarget hρ fun _ _ _ => rfl
  · exact Yields.ap (Yields.map (Yields.right (yields_any.imp fun _ _ _ _ => none rfl))) yields_any
  · exact Yields.ap (Yields.map (yields_any.imp fun _ _ e he => List.forall_mem_singleton.mpr he))
      (Yields.right (hρ .arithmetic))
  · refine Yields.ap (Yields.ap (Yields.map ((hρ .arithmetic).imp fun a ha op _ b hb => ?_)) yields_any)
      (hρ .arithmetic)
    exact List.forall_mem_cons.mpr ⟨ha, List.forall_mem_singleton.mpr hb⟩
  · exact Yields.ap (Yields.map (yields_any.imp fun _ _ _ _ => none rfl)) yields_any
  · exact Yields.map (yields_any.imp fun _ _ => none rfl)
  · exact Yields.map (yields_any.imp fun _ _ => none rfl)
  · exact Yields.map (yields_any.imp fun _ _ => none rfl)

theorem ordered_goal : Yields ρ (body .goal) (InOrder .goal) := by
  have hcut : Source.Goal.cut.Ordered := by simp [Source.Goal.Ordered, Source.Goal.formulas]
  exact Yields.or (Yields.map (yields_any.imp fun _ _ => hcut)) (Yields.or (hρ .negation) (Yields.or (hρ .collect)
    (Yields.or (hρ .assertGoal) (Yields.or (hρ .retractGoal) (Yields.or (hρ .unifyCall) (Yields.or (hρ .isGoal)
      (Yields.or (hρ .comparison) (Yields.or (hρ .unifyGoal) (Yields.or (hρ .trueGoal) (Yields.or (hρ .falseGoal)
        (hρ .call)))))))))))

theorem ordered_declaration {r : Rule} (hr : r ∈ [.factDeclaration, .ruleDeclaration, .queryDeclaration, .directive]) :
    Yields ρ (body r) (InOrder r) := by
  simp only [List.mem_cons, List.not_mem_nil, or_false] at hr
  rcases hr with rfl | rfl | rfl | rfl
  · exact Yields.placed (Yields.map (Yields.right (yields_any.imp fun _ _ _ => trivial)))
  · exact Yields.placed (Yields.ap (Yields.map (Yields.right (yields_any.imp fun _ _ _ hb _ => hb)))
      (Yields.right (hρ .body)))
  · exact Yields.placed (Yields.map (Yields.right ((hρ .body).imp fun _ hb _ => hb)))
  · exact Yields.placed (Yields.map (Yields.or ((hρ .assertGoal).imp fun _ hg _ => hg)
      ((hρ .retractGoal).imp fun _ hg _ => hg)))

theorem ordered_statement : Yields ρ statement fun s => s.form.Ordered :=
  Yields.left (Yields.or (hρ .factDeclaration) (Yields.or (hρ .ruleDeclaration) (Yields.or (hρ .queryDeclaration)
    (hρ .directive))))

end Bodies

theorem inOrder {r : Rule} {c d : Cursor} {x : Result r} (h : ranking.read r true c = some (x, d)) (hc : AtGap c) :
    InOrder r x := by
  suffices hP : ∀ spaced, ranking.read r spaced c = some (x, d) → spaced = true → AtGap c → InOrder r x from
    hP true h rfl hc
  intro spaced h
  refine ranking.read_induct (P := fun r spaced c x _ => spaced = true → AtGap c → InOrder r x) ?_ h
  rintro ρ r spaced c x d - hstep - heval rfl hc
  have hρ (r : Rule) : Yields ρ (call r) (InOrder r) := fun c x d hc hx => (hstep r true c x d hx).2 rfl hc
  have of_body (hplain : kind r = .plain) (h : Yields ρ (body r) (InOrder r)) : InOrder r x := by
    refine h c x d hc ?_
    rw [Grammar.spacedInside, show grammar.kind r = .plain from hplain] at heval
    exact heval
  cases r with
  | endOfText | keyword | reserved | number | string | boolean | anonymous | var | varName | atom | name | listTail
  | list | term | predicate | negate | comparisonOperator | cut | termInput => trivial
  | additiveOperator =>
    exact of_body rfl (yields_symbol (Q := fun op : Operation => op.precedence = 1) (by decide) rfl)
  | multiplicativeOperator =>
    exact of_body rfl (yields_symbol (Q := fun op : Operation => op.precedence = 2) (by decide) rfl)
  | arithmetic => exact of_body rfl (ordered_arithmetic hρ)
  | product => exact of_body rfl (ordered_product hρ)
  | unary => exact of_body rfl (ordered_unary hρ)
  | primary => exact of_body rfl (ordered_primary hρ)
  | body =>
    exact of_body rfl (Yields.placed (Yields.map ((Yields.separated (hρ .goal)).imp fun _ hgs _ => hgs.2)))
  | nested => exact of_body rfl (hρ .body).right.left
  | clauseForm =>
    exact of_body rfl (Yields.ap (Yields.map (yields_any.imp fun _ _ _ hbody => hbody)) (hρ .body).right.option.left)
  | negation => exact of_body rfl (ordered_goalKind hρ (by simp))
  | collect => exact of_body rfl (ordered_goalKind hρ (by simp))
  | assertGoal => exact of_body rfl (ordered_goalKind hρ (by simp))
  | retractGoal => exact of_body rfl (ordered_goalKind hρ (by simp))
  | unifyCall => exact of_body rfl (ordered_goalKind hρ (by simp))
  | isGoal => exact of_body rfl (ordered_goalKind hρ (by simp))
  | comparison => exact of_body rfl (ordered_goalKind hρ (by simp))
  | unifyGoal => exact of_body rfl (ordered_goalKind hρ (by simp))
  | trueGoal => exact of_body rfl (ordered_goalKind hρ (by simp))
  | falseGoal => exact of_body rfl (ordered_goalKind hρ (by simp))
  | call => exact of_body rfl (ordered_goalKind hρ (by simp))
  | goal => exact of_body rfl (ordered_goal hρ)
  | factDeclaration => exact of_body rfl (ordered_declaration hρ (by simp))
  | ruleDeclaration => exact of_body rfl (ordered_declaration hρ (by simp))
  | queryDeclaration => exact of_body rfl (ordered_declaration hρ (by simp))
  | directive => exact of_body rfl (ordered_declaration hρ (by simp))
  | program => exact of_body rfl (ordered_statement hρ).many.right.left
  | queryInput => exact of_body rfl (hρ .body).right.left.left
  | formula => exact of_body rfl (hρ .arithmetic).right.left

end Language

namespace Source

section Parsing

variable {source text : String}

theorem yields_inOrder (r : Rule) :
    Language.Yields Language.ranking.read (Language.call r) (Language.InOrder r) :=
  fun _ _ _ hc hx => Language.inOrder hx hc

theorem ordered_of_parse {tree : List Source.Statement} (h : parseRule .program source text = .ok tree) :
    ∀ s ∈ tree, s.form.Ordered := of_parse (Language.ordered_statement yields_inOrder) h

theorem ordered_of_parseQuery {b : Source.Body} (h : parseRule .queryInput source text = .ok b) :
    ∀ g ∈ b.goals, g.Ordered := of_parseQuery (yields_inOrder .body) h

theorem whole_of_parseFormula {e : Source.Formula} (h : parseRule .formula source text = .ok e) : e.Whole :=
  of_parseFormula (yields_inOrder .arithmetic) h

end Parsing

end Source

end BilingualLogic
