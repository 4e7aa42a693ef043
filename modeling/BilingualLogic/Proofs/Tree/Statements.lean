import BilingualLogic.Proofs.Tree.Goals

/-!
Statements and whole texts from their trees; and that every rule is built from its node as it is read.
-/

namespace BilingualLogic.Tree

open Text Grammar BilingualLogic.Language

section Statements

variable {c d : Cursor} {ns : List Node} {spaced : Bool} {text : String}

theorem builds_factDeclaration {x : Source.Statement}
    (h : grammar.Traces Builds spaced (Language.body .factDeclaration) c d ns x) :
    BuildsParts .factDeclaration (.mk .factDeclaration ⟨c.position, d.position.offset⟩ text ns) x := by
  obtain ⟨f, hf, rfl⟩ := traces_placed.mp h
  obtain ⟨head, h₁, rfl⟩ := traces_map.mp hf
  obtain ⟨c₁, ms₁, ns₁, _, hkeyword, hhead, rfl⟩ := traces_right.mp h₁
  obtain ⟨k, rfl, hkrule, hkmem⟩ := marks_keyword hkeyword
  obtain ⟨n, rfl, -, hrule, hn⟩ := (traces_call (r := .predicate)).mp hhead
  have hn : predicate 0 n = ofReading (head.read 0) := hn 0
  simp [BuildsParts, statement, statementForm, factPart, hkrule, hrule, hn,
    expectKeyword_of_mem hkmem, Source.Statement.read]

theorem builds_ruleDeclaration {x : Source.Statement}
    (h : grammar.Traces Builds spaced (Language.body .ruleDeclaration) c d ns x) :
    BuildsParts .ruleDeclaration (.mk .ruleDeclaration ⟨c.position, d.position.offset⟩ text ns) x := by
  obtain ⟨f, hf, rfl⟩ := traces_placed.mp h
  obtain ⟨c₁, ms₁, ns₁, _, b, h₁, h₂, rfl, rfl⟩ := traces_ap.mp hf
  obtain ⟨head, h₃, rfl⟩ := traces_map.mp h₁
  obtain ⟨c₂, ms₂, ns₂, _, hkeyword, hhead, rfl⟩ := traces_right.mp h₃
  obtain ⟨k, rfl, hkrule, hkmem⟩ := marks_keyword hkeyword
  obtain ⟨n, rfl, -, hrule, hn⟩ := (traces_call (r := .predicate)).mp hhead
  obtain ⟨c₃, ms₃, ns₃, _, himplies, hbody, rfl⟩ := traces_right.mp h₂
  obtain ⟨m, rfl, -, hmrule, -, hm⟩ := (traces_call (r := .body)).mp hbody
  have hn : predicate 0 n = ofReading (head.read 0) := hn 0
  have hm : body 0 m = ofReading b.read := hm 0
  rcases marks_implies himplies with rfl | ⟨i, rfl, hirule, himem⟩
  · simp [BuildsParts, statement, statementForm, rulePart, hkrule, hrule, hn,
      hmrule, hm, expectKeyword_of_mem hkmem, Source.Statement.read]
  · simp [BuildsParts, statement, statementForm, rulePart, hkrule, hrule, hn,
      hmrule, hm, hirule, expectKeyword_of_mem hkmem, expectKeyword_of_mem himem, Source.Statement.read]

theorem builds_queryDeclaration {x : Source.Statement}
    (h : grammar.Traces Builds spaced (Language.body .queryDeclaration) c d ns x) :
    BuildsParts .queryDeclaration (.mk .queryDeclaration ⟨c.position, d.position.offset⟩ text ns) x := by
  obtain ⟨f, hf, rfl⟩ := traces_placed.mp h
  obtain ⟨b, h₁, rfl⟩ := traces_map.mp hf
  obtain ⟨c₁, ms₁, ns₁, _, hkeyword, hbody, rfl⟩ := traces_right.mp h₁
  obtain ⟨k, rfl, hkrule, hkmem⟩ := marks_keyword hkeyword
  obtain ⟨m, rfl, -, hmrule, -, hm⟩ := (traces_call (r := .body)).mp hbody
  have hm : body 0 m = ofReading b.read := hm 0
  simp [BuildsParts, statement, statementForm, queryPart, hkrule, hmrule, hm,
    expectKeyword_of_mem hkmem, Source.Statement.read]

theorem builds_directive {x : Source.Statement}
    (h : grammar.Traces Builds spaced (Language.body .directive) c d ns x) :
    BuildsParts .directive (.mk .directive ⟨c.position, d.position.offset⟩ text ns) x := by
  obtain ⟨f, hf, rfl⟩ := traces_placed.mp h
  obtain ⟨g, hg, rfl⟩ := traces_map.mp hf
  rcases traces_or.mp hg with hg | ⟨-, hg⟩
  · obtain ⟨n, rfl, -, -, hn⟩ := (traces_call (r := .assertGoal)).mp hg
    have hn : goalForm 0 n = ofReading (g.read 0) := hn 0
    simp [BuildsParts, statement, statementForm, hn, Source.Statement.read]
  · obtain ⟨n, rfl, -, -, hn⟩ := (traces_call (r := .retractGoal)).mp hg
    have hn : goalForm 0 n = ofReading (g.read 0) := hn 0
    simp [BuildsParts, statement, statementForm, hn, Source.Statement.read]

theorem node_of_statement {x : Source.Statement} (h : grammar.Traces Builds spaced Language.statement c d ns x) :
    ∃ n : Node, ns = [n] ∧ n.rule ≠ .endOfText ∧ statement n = ofReading x.read := by
  obtain ⟨c₁, ms₁, ns₁, _, h₁, hend, rfl⟩ := traces_left.mp h
  have hnone : ns₁ = [] := by
    rcases traces_option.mp hend with ⟨t, -, ht⟩ | ⟨-, ht, -⟩
    · exact ht.2.2
    · exact ht
  rw [hnone, List.append_nil]
  rcases h₁ with h₁ | ⟨-, h₁ | ⟨-, h₁ | ⟨-, h₁⟩⟩⟩
  all_goals
    obtain ⟨n, rfl, -, hrule, hn⟩ := h₁
    exact ⟨n, rfl, by simp [hrule], hn⟩

theorem ofReading_bind_apply {α β : Type} (m : Source.Reading α) (f : α → Building β) (c : Source.Context) (n : Nat) :
    (ofReading m >>= f) c n = match m c n with
      | .ok (x, n) => f x c n
      | .error e => .error (.input e) := by
  change (((m c n).mapError Fault.input) >>= fun r => f r.1 c r.2) = _
  rcases m c n with e | ⟨x, k⟩ <;> rfl

theorem statements_eq {nss : List (List Node)} {xs : List Source.Statement}
    (h : List.Forall₂ (fun ms x => ∃ n : Node, ms = [n] ∧ n.rule ≠ .endOfText ∧ statement n = ofReading x.read) nss xs)
    {eoi : Node} (heoi : eoi.rule = .endOfText) (done : List Statement) (ctx : Source.Context) (k : Nat) :
    ((nss.flatten ++ [eoi]).foldlM statementPart done ctx k).map Prod.fst =
      (Source.readStatements ctx k done.reverse xs).mapError .input := by
  induction h generalizing done k with
  | nil =>
    have hend : statementPart done eoi = pure done := by simp [statementPart, heoi]
    rw [List.flatten_nil, List.nil_append, List.foldlM_cons, hend, pure_bind, List.foldlM_nil, Source.readStatements,
      List.reverse_reverse]
    rfl
  | @cons ms x _ _ hx _ ih =>
    obtain ⟨n, rfl, hrule, hn⟩ := hx
    have hpart : statementPart done n = ofReading x.read >>= fun s => pure (done ++ [s]) := by
      rw [← hn]
      unfold statementPart
      split
      · next h => exact absurd h hrule
      · rfl
    rw [List.flatten_cons, List.append_assoc, List.singleton_append, List.foldlM_cons, hpart, bind_assoc,
      ofReading_bind_apply, Source.readStatements]
    rcases x.read ctx k with e | ⟨s, k'⟩
    · rfl
    · have := ih (done ++ [s]) k'
      rw [List.reverse_append] at this
      exact this

theorem builds_program {xs : List Source.Statement}
    (h : grammar.Traces Builds spaced (Language.body .program) c d ns xs) (s : Span) :
    BuildsParts .program (.mk .program s text ns) xs := by
  obtain ⟨c₁, ms₁, ns₁, _, h₁, hend, rfl⟩ := traces_left.mp h
  obtain ⟨eoi, rfl, -, heoi, -⟩ := (traces_call (r := .endOfText)).mp hend
  obtain ⟨c₂, ms₂, ns₂, _, hstart, hmany, rfl⟩ := traces_right.mp h₁
  obtain ⟨-, rfl, -⟩ := traces_pure.mp hstart
  obtain ⟨nss, rfl, hnss⟩ := parts_of_many hmany fun _ _ _ _ hx => node_of_statement hx
  intro ctx
  exact statements_eq hnss heoi [] ctx 0

/-- The first body behind a keyword that may stand before it. -/
theorem builds_queryInput {b : Source.Body} (h : grammar.Traces Builds spaced (Language.body .queryInput) c d ns b)
    (s : Span) : BuildsParts .queryInput (.mk .queryInput s text ns) b := by
  obtain ⟨c₁, ms₁, ns₁, _, h₁, -, rfl⟩ := traces_left.mp h
  obtain ⟨c₂, ms₂, ns₂, _, h₂, -, rfl⟩ := traces_left.mp h₁
  obtain ⟨c₃, ms₃, ns₃, _, h₃, hbody, rfl⟩ := traces_right.mp h₂
  obtain ⟨c₄, ms₄, ns₄, _, hstart, hquery, rfl⟩ := traces_right.mp h₃
  obtain ⟨-, rfl, -⟩ := traces_pure.mp hstart
  obtain ⟨n, rfl, -, hrule, -, hn⟩ := (traces_call (r := .body)).mp hbody
  have hn : body 0 n = ofReading b.read := hn 0
  rcases marks_option hquery with rfl | ⟨k, rfl, hkrule, hkmem⟩
  · simp [BuildsParts, queryGoals, hrule, hn]
  · simp [BuildsParts, queryGoals, hrule, hn, hkrule, expectKeyword_of_mem hkmem]

theorem builds_termInput {t : Source.Term} (h : grammar.Traces Builds spaced (Language.body .termInput) c d ns t)
    (s : Span) : BuildsParts .termInput (.mk .termInput s text ns) t := by
  obtain ⟨c₁, ms₁, ns₁, _, h₁, -, rfl⟩ := traces_left.mp h
  obtain ⟨c₂, ms₂, ns₂, _, hstart, hterm, rfl⟩ := traces_right.mp h₁
  obtain ⟨-, rfl, -⟩ := traces_pure.mp hstart
  obtain ⟨n, rfl, -, hrule, hn⟩ := (traces_call (r := .term)).mp hterm
  have hn : term 0 n = ofReading (t.read 0) := hn 0
  simp [BuildsParts, find, hrule, hn]

theorem builds_formula {e : Source.Formula} (h : grammar.Traces Builds spaced (Language.body .formula) c d ns e)
    (s : Span) : BuildsParts .formula (.mk .formula s text ns) e := by
  obtain ⟨c₁, ms₁, ns₁, _, h₁, -, rfl⟩ := traces_left.mp h
  obtain ⟨c₂, ms₂, ns₂, _, hstart, hformula, rfl⟩ := traces_right.mp h₁
  obtain ⟨-, rfl, -⟩ := traces_pure.mp hstart
  obtain ⟨n, rfl, -, hrule, hn⟩ := (traces_call (r := .arithmetic)).mp hformula
  have hn : arithmetic 0 n = ofReading (e.read 0) := hn 0
  simp [BuildsParts, find, hrule, hn]

end Statements

/-- Whatever is built of the parts of a rule as it is read is so built of the rule. -/
theorem closed_builds : grammar.Closed Builds := by
  intro r spaced c d taken ns x htaken h
  refine ⟨rfl, ?_⟩
  cases r with
  | keyword k => exact text_of_keyword h htaken
  | number => exact text_of_rest (spells_numeral h) htaken
  | string => exact unquote_of_string h htaken
  | boolean => exact builds_boolean h _
  | var => exact builds_var h _
  | varName => exact text_of_varName h htaken
  | atom => exact text_of_word h htaken
  | name => exact text_of_word h htaken
  | listTail => exact builds_listTail h _
  | list => exact builds_list h _
  | term => exact builds_term h
  | predicate => exact builds_predicate h _
  | additiveOperator =>
    obtain ⟨t, hmem, rfl, rfl⟩ := symbol_of_table h htaken
    exact additive_eq _ hmem
  | multiplicativeOperator =>
    obtain ⟨t, hmem, rfl, rfl⟩ := symbol_of_table h htaken
    exact multiplicative_eq _ hmem
  | arithmetic => exact builds_arithmetic h
  | product => exact builds_product h _
  | unary => exact builds_unary h _
  | primary => exact builds_primary h _
  | comparisonOperator =>
    obtain ⟨t, hmem, rfl, rfl⟩ := symbol_of_table h htaken
    exact comparisonOf_eq _ hmem
  | body => exact builds_body h
  | nested => exact builds_nested h _
  | cut => exact builds_cut h _
  | negation => exact builds_negation h _
  | collect => exact builds_collect h _
  | clauseForm => exact builds_clauseForm h _
  | assertGoal => exact builds_assertGoal h _
  | retractGoal => exact builds_retractGoal h _
  | unifyCall => exact builds_unifyCall h _
  | isGoal => exact builds_isGoal h _
  | comparison => exact builds_comparison h _
  | unifyGoal => exact builds_unifyGoal h _
  | trueGoal => exact builds_trueGoal h _
  | falseGoal => exact builds_falseGoal h _
  | call => exact builds_call h _
  | goal => exact builds_goal h _
  | factDeclaration => exact builds_factDeclaration h
  | ruleDeclaration => exact builds_ruleDeclaration h
  | queryDeclaration => exact builds_queryDeclaration h
  | directive => exact builds_directive h
  | program => exact builds_program h _
  | queryInput => exact builds_queryInput h _
  | termInput => exact builds_termInput h _
  | formula => exact builds_formula h _
  | endOfText | reserved | anonymous | negate => trivial

end BilingualLogic.Tree
