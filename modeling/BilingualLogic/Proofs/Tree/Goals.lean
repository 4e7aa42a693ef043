import BilingualLogic.Proofs.Tree.Terms

/-!
Goals and bodies from their trees. Keywords are passed over once the table has confirmed them; terms, formulas and
goals come in the order in which the rule has them.
-/

namespace BilingualLogic.Tree

open Text Grammar BilingualLogic.Language

section Keywords

variable {c d : Cursor} {ns : List Node} {spaced : Bool}

/-- A keyword, or a sign in its place that leaves no node. -/
def Marks (k : Keyword) (ns : List Node) : Prop :=
  ns = [] ∨ ∃ n : Node, ns = [n] ∧ n.rule = .keyword k ∧ n.text ∈ k.allSpellings

theorem marks_keyword {k : Keyword} {t : String} (h : grammar.Traces Builds spaced (keyword k) c d ns t) :
    ∃ n : Node, ns = [n] ∧ n.rule = .keyword k ∧ n.text ∈ k.allSpellings := by
  obtain ⟨n, rfl, -, hrule, rfl, hmem⟩ := traces_keyword.mp h
  exact ⟨n, rfl, hrule, hmem⟩

theorem marks_option {k : Keyword} {o : Option String}
    (h : grammar.Traces Builds spaced (.option (keyword k)) c d ns o) : Marks k ns := by
  rcases traces_option.mp h with ⟨t, rfl, ht⟩ | ⟨rfl, rfl, -⟩
  · exact Or.inr (marks_keyword ht)
  · exact Or.inl rfl

theorem marks_or_token {k : Keyword} {text t : String}
    (h : grammar.Traces Builds spaced (keyword k <|> .token text) c d ns t) : Marks k ns := by
  rcases traces_or.mp h with ht | ⟨-, ht⟩
  · exact Or.inr (marks_keyword ht)
  · exact Or.inl (traces_token.mp ht).2.2

theorem marks_implies {t : String} (h : grammar.Traces Builds spaced implies c d ns t) : Marks .implies ns := by
  rcases traces_or.mp h with ht | ⟨-, ht⟩
  · exact Or.inl (traces_token.mp ht).2.2
  · exact Or.inr (marks_keyword ht)

theorem marks_conjunction {t : String} (h : grammar.Traces Builds spaced conjunction c d ns t) : Marks .and ns := by
  rcases traces_or.mp h with ht | ⟨-, ht⟩
  · exact Or.inl (traces_separator ht)
  · exact Or.inr (marks_keyword ht)

end Keywords

section Goals

variable {c d : Cursor} {ns : List Node} {spaced : Bool} {text : String}

theorem conjuncts_marks {ms : List Node} (h : Marks .and ms) (depth : Nat) (goals : List Goal) (ns : List Node) :
    conjuncts depth goals (ms ++ ns) = conjuncts depth goals ns := by
  rcases h with rfl | ⟨n, rfl, hrule, hmem⟩
  · rfl
  · simp [conjuncts, hrule, expectKeyword_of_mem hmem]

theorem conjuncts_eq {nss : List (List Node)} {xs : List Source.Goal}
    (h : List.Forall₂ (fun ms x => ∃ us, ∃ n : Node, ms = us ++ [n] ∧ Marks .and us ∧ Builds .goal n x) nss xs)
    (depth : Nat) (goals : List Goal) : conjuncts depth goals nss.flatten = (do
      pure (goals ++ (← ofReading (Source.Goal.readAll depth xs)))) := by
  induction h generalizing goals with
  | nil => simp [conjuncts, Source.Goal.readAll]
  | cons hx _ ih =>
    obtain ⟨us, n, rfl, hmarks, hrule, hn⟩ := hx
    rw [List.flatten_cons, List.append_assoc, conjuncts_marks hmarks, List.singleton_append, conjuncts, hrule]
    simp only [hn depth, ih, Source.Goal.readAll, ofReading_bind, ofReading_pure, bind_assoc, pure_bind,
      List.append_assoc, List.singleton_append]

theorem builds_body {b : Source.Body} (h : grammar.Traces Builds spaced (Language.body .body) c d ns b) :
    BuildsParts .body (.mk .body ⟨c.position, d.position.offset⟩ text ns) b := by
  obtain ⟨f, hf, rfl⟩ := traces_placed.mp h
  obtain ⟨goals, hgoals, rfl⟩ := traces_map.mp hf
  obtain ⟨c', ms, ms', _, xs, hx, hmore, rfl, rfl⟩ := traces_ap.mp hgoals
  obtain ⟨n, x, rfl, -, hn, rfl⟩ := (traces_map_call (r := .goal)).mp hx
  obtain ⟨nss, rfl, hnss⟩ := parts_of_many
    (Q := fun ms x => ∃ us, ∃ n : Node, ms = us ++ [n] ∧ Marks .and us ∧ Builds .goal n x) hmore (by
      intro c d ns x hx
      obtain ⟨c', us, us', _, hconjunction, hgoal, rfl⟩ := traces_right.mp hx
      obtain ⟨n, rfl, -, hn⟩ := (traces_call (r := .goal)).mp hgoal
      exact ⟨us, n, rfl, marks_conjunction hconjunction, hn⟩)
  refine ⟨List.cons_ne_nil x xs, fun depth => ?_⟩
  have hall := conjuncts_eq (.cons ⟨[], n, rfl, Or.inl rfl, hn⟩ hnss) depth []
  rw [List.flatten_cons, List.nil_append, List.singleton_append] at hall
  simp [body, hall, readBody, checkDepth, Source.Goal.readAll]

theorem builds_nested {b : Source.Body} (h : grammar.Traces Builds spaced (Language.body .nested) c d ns b) (s : Span) :
    BuildsParts .nested (.mk .nested s text ns) b := by
  obtain ⟨c', d', -, hx, -⟩ := traces_between h
  obtain ⟨n, rfl, -, -, -, hn⟩ := (traces_call (r := .body)).mp hx
  intro depth
  rw [scopeGoals]
  exact hn (depth + 1)

theorem scopeGoals_of_goal {n : Node} (h : n.rule = .goal) (depth : Nat) : scopeGoals depth n = (do
    checkDepth (depth + 1) n.span
    pure [← goal (depth + 1) n]) := by
  obtain ⟨rule, span, text, children⟩ := n
  obtain rfl : rule = .goal := h
  rw [scopeGoals, goal]
  · rfl
  · simp

/-- The goals of a negation or a collection leave one node. -/
theorem node_of_scope {x : Source.Scope × List Source.Goal} (h : grammar.Traces Builds spaced scope c d ns x) :
    ∃ n : Node, ns = [n] ∧ (n.rule = .nested ∨ n.rule = .goal) ∧ ∀ depth, scopeGoals depth n = ofReading (do
      x.1.check depth
      Source.Goal.readAll (depth + 1) x.2) := by
  rcases traces_or.mp h with h | ⟨-, h⟩
  · obtain ⟨n, b, rfl, -, ⟨hrule, hn⟩, rfl⟩ := (traces_map_call (r := .nested)).mp h
    exact ⟨n, rfl, Or.inl hrule, hn⟩
  · obtain ⟨f, hf, rfl⟩ := traces_placed.mp h
    obtain ⟨n, g, rfl, hspan, ⟨hrule, hn⟩, rfl⟩ := (traces_map_call (r := .goal)).mp hf
    refine ⟨n, rfl, Or.inr hrule, fun depth => ?_⟩
    have hn : goal (depth + 1) n = ofReading (g.read (depth + 1)) := hn (depth + 1)
    simp [scopeGoals_of_goal hrule, hn, hspan, checkDepth, Source.Scope.check, Source.Goal.readAll]

theorem negated_marks {k : Keyword} (hk : k = .not ∨ k = .query) {ms : List Node} (h : Marks k ms) (depth : Nat)
    (goals : Option (List Goal)) (ns : List Node) : negated depth goals (ms ++ ns) = negated depth goals ns := by
  rcases h with rfl | ⟨n, rfl, hrule, hmem⟩
  · rfl
  · rcases hk with rfl | rfl <;> simp [negated, hrule, expectKeyword_of_mem hmem]

theorem builds_negation {g : Source.Goal} (h : grammar.Traces Builds spaced (Language.body .negation) c d ns g)
    (s : Span) : BuildsParts .negation (.mk .negation s text ns) g := by
  obtain ⟨⟨scope, goals⟩, hx, rfl⟩ := traces_map.mp h
  obtain ⟨c', ms, ms', _, hmarks, hscope, rfl⟩ := traces_right.mp hx
  obtain ⟨c'', us, us', _, hnot, hquery, rfl⟩ := traces_right.mp hmarks
  obtain ⟨n, rfl, hrule, hn⟩ := node_of_scope hscope
  intro depth
  simp only [goalForm, List.append_assoc, negated_marks (Or.inl rfl) (marks_or_token hnot),
    negated_marks (Or.inr rfl) (marks_option hquery)]
  rcases hrule with hrule | hrule <;> simp [negated, hrule, hn depth, Source.Goal.read]

theorem collected_marks {ms : List Node} (h : Marks .query ms) (depth : Nat)
    (found : Option Keyword × List Term × Option (List Goal)) (ns : List Node) :
    collected depth found (ms ++ ns) = collected depth found ns := by
  rcases h with rfl | ⟨n, rfl, hrule, hmem⟩
  · rfl
  · simp [collected, hrule, expectKeyword_of_mem hmem]

theorem node_of_kind {kind : Collection} (h : grammar.Traces Builds spaced
      ((fun _ => Collection.findAll) <$> keyword .findAll <|> (fun _ => Collection.bagOf) <$> keyword .bagOf
        <|> (fun _ => Collection.setOf) <$> keyword .setOf) c d ns kind) :
    ∃ n : Node, ns = [n] ∧ n.rule = .keyword kind.keyword ∧ n.text ∈ kind.keyword.allSpellings := by
  rcases traces_or.mp h with h | ⟨-, h⟩
  · obtain ⟨t, ht, rfl⟩ := traces_map.mp h
    exact marks_keyword ht
  rcases traces_or.mp h with h | ⟨-, h⟩
  · obtain ⟨t, ht, rfl⟩ := traces_map.mp h
    exact marks_keyword ht
  · obtain ⟨t, ht, rfl⟩ := traces_map.mp h
    exact marks_keyword ht

theorem collected_kind {kind : Collection} {n : Node} (hrule : n.rule = .keyword kind.keyword)
    (hmem : n.text ∈ kind.keyword.allSpellings) (depth : Nat) (found : Option Keyword × List Term × Option (List Goal))
    (ns : List Node) : collected depth found (n :: ns) = collected depth (some kind.keyword, found.2) ns := by
  cases kind <;> simp [collected, Collection.keyword] at hrule hmem ⊢ <;> simp [hrule, keywordOf_of_mem hmem]

theorem collectionOf_keyword (kind : Collection) : collectionOf (some kind.keyword) = pure kind := by
  cases kind <;> rfl

theorem node_of_argument {e : Expr α} {x : Source.Term} (he : ∀ {c d ns y}, grammar.Traces Builds spaced e c d ns y → ns = [])
    (h : grammar.Traces Builds spaced (e *> call .term) c d ns x) : ∃ n : Node, ns = [n] ∧ Builds .term n x := by
  obtain ⟨c', ms, ms', _, hsign, hterm, rfl⟩ := traces_right.mp h
  obtain ⟨n, rfl, -, hn⟩ := (traces_call (r := .term)).mp hterm
  rw [he hsign]
  exact ⟨n, rfl, hn⟩

theorem builds_collect {g : Source.Goal} (h : grammar.Traces Builds spaced (Language.body .collect) c d ns g)
    (s : Span) : BuildsParts .collect (.mk .collect s text ns) g := by
  obtain ⟨c₁, ms₁, ns₁, _, result, h₁, hresult, rfl, rfl⟩ := traces_ap.mp h
  obtain ⟨c₂, ms₂, ns₂, _, ⟨scope, goals⟩, h₂, hscope, rfl, rfl⟩ := traces_ap.mp h₁
  obtain ⟨c₃, ms₃, ns₃, _, template, h₃, htemplate, rfl, rfl⟩ := traces_ap.mp h₂
  obtain ⟨kind, hkind, rfl⟩ := traces_map.mp h₃
  obtain ⟨k, rfl, hrule, hmem⟩ := node_of_kind hkind
  obtain ⟨t, rfl, htrule, ht⟩ := node_of_argument (fun h => (traces_token.mp h).2.2) htemplate
  obtain ⟨c₄, ms₄, ns₄, _, h₄, hend, rfl⟩ := traces_left.mp hresult
  obtain ⟨-, -, rfl⟩ := traces_token.mp hend
  obtain ⟨r, rfl, hrrule, hr⟩ := node_of_argument traces_separator h₄
  obtain ⟨c₅, ms₅, ns₅, _, h₅, h₆, rfl⟩ := traces_right.mp hscope
  obtain ⟨c₆, ms₆, ns₆, _, hseparator, hquery, rfl⟩ := traces_right.mp h₅
  rw [traces_separator hseparator]
  obtain ⟨n, rfl, hnrule, hn⟩ := node_of_scope h₆
  intro depth
  have ht : term depth t = ofReading (template.read depth) := ht depth
  have hr : term depth r = ofReading (result.read depth) := hr depth
  simp only [goalForm, List.append_assoc, List.cons_append, List.nil_append, collected_kind hrule hmem]
  rw [collected, htrule]
  simp only [collected_marks (marks_option hquery), ht]
  rcases hnrule with hnrule | hnrule <;>
    simp [collected, hnrule, hrrule, hn depth, hr, lastTwo, collectionOf_keyword, Source.Goal.read]

/-- The body of a clause that a goal names is read as one that stands a level deeper. -/
theorem readBody_of_ne_nil {b : Source.Body} (h : b.goals ≠ []) (depth : Nat) :
    Source.Goal.readBody depth b.span b.goals = readBody (depth + 1) b := by
  obtain ⟨span, goals⟩ := b
  cases goals with
  | nil => exact absurd rfl h
  | cons g gs => rfl

theorem clauseParts_marks {ms : List Node} (h : Marks .implies ms) (depth : Nat)
    (found : Option Predicate × List Goal) (ns : List Node) :
    clauseParts depth found (ms ++ ns) = clauseParts depth found ns := by
  rcases h with rfl | ⟨n, rfl, hrule, hmem⟩
  · rfl
  · simp [clauseParts, hrule, expectKeyword_of_mem hmem]

theorem builds_clauseForm {x : Source.Predicate × Option Source.Body}
    (h : grammar.Traces Builds spaced (Language.body .clauseForm) c d ns x) (s : Span) :
    BuildsParts .clauseForm (.mk .clauseForm s text ns) x := by
  obtain ⟨c₁, ms₁, ns₁, _, b, h₁, h₂, rfl, rfl⟩ := traces_ap.mp h
  obtain ⟨head, h₃, rfl⟩ := traces_map.mp h₁
  obtain ⟨c₂, ms₂, ns₂, _, hopening, hhead, rfl⟩ := traces_right.mp h₃
  obtain ⟨-, -, rfl⟩ := traces_token.mp hopening
  obtain ⟨n, rfl, -, hrule, hn⟩ := (traces_call (r := .predicate)).mp hhead
  obtain ⟨c₃, ms₃, ns₃, _, hbody, hclosing, rfl⟩ := traces_left.mp h₂
  obtain ⟨-, -, rfl⟩ := traces_token.mp hclosing
  rcases traces_option.mp hbody with ⟨b, rfl, h₄⟩ | ⟨rfl, rfl, -⟩
  · obtain ⟨c₄, ms₄, ns₄, _, hmarks, h₅, rfl⟩ := traces_right.mp h₄
    obtain ⟨m, rfl, -, hrule', hne, hm⟩ := (traces_call (r := .body)).mp h₅
    refine ⟨by simpa using hne, fun depth => ?_⟩
    have hn : predicate depth n = ofReading (head.read depth) := hn depth
    simp [clauseForm, clauseParts, hrule, hn, clauseParts_marks (marks_implies hmarks), hrule', hm (depth + 1)]
  · refine ⟨by simp, fun depth => ?_⟩
    have hn : predicate depth n = ofReading (head.read depth) := hn depth
    simp [clauseForm, clauseParts, hrule, hn]

theorem parts_of_clauseTarget {build : Source.Predicate → Span → List Source.Goal → Source.Goal} {k : Keyword}
    (hk : k = .assert ∨ k = .retract) {g : Source.Goal}
    (h : grammar.Traces Builds spaced (Language.clauseTarget build k) c d ns g) :
    ∃ head span goals, g = build head span goals ∧ ∀ depth, clauseTarget depth k (none, []) ns = ofReading (do
      let head ← head.read depth
      pure (some head, ← Source.Goal.readBody depth span goals)) := by
  obtain ⟨c₁, ms₁, ns₁, _, hkeyword, hclause, rfl⟩ := traces_right.mp h
  obtain ⟨kw, rfl, hrule, hmem⟩ := marks_keyword hkeyword
  have htarget (depth : Nat) : clauseTarget depth k (none, []) ([kw] ++ ns₁) = clauseTarget depth k (none, []) ns₁ := by
    rcases hk with rfl | rfl <;> simp [clauseTarget, hrule, expectKeyword_of_mem hmem]
  simp only [htarget]
  rcases traces_or.mp hclause with hclause | ⟨-, hclause⟩
  · obtain ⟨n, ⟨head, b⟩, rfl, -, ⟨hrule, hgoals, hn⟩, rfl⟩ := (traces_map_call (r := .clauseForm)).mp hclause
    cases b with
    | some b =>
      refine ⟨head, b.span, b.goals, rfl, fun depth => ?_⟩
      simp [clauseTarget, hrule, hn depth, readBody_of_ne_nil (hgoals b rfl)]
    | none =>
      refine ⟨head, default, [], rfl, fun depth => ?_⟩
      simp [clauseTarget, hrule, hn depth, Source.Goal.readBody]
  · obtain ⟨n, head, rfl, -, ⟨hrule, hn⟩, rfl⟩ := (traces_map_call (r := .predicate)).mp hclause
    refine ⟨head, default, [], rfl, fun depth => ?_⟩
    have hn : predicate depth n = ofReading (head.read depth) := hn depth
    simp [clauseTarget, hrule, hn, Source.Goal.readBody]

theorem builds_assertGoal {g : Source.Goal} (h : grammar.Traces Builds spaced (Language.body .assertGoal) c d ns g)
    (s : Span) : BuildsParts .assertGoal (.mk .assertGoal s text ns) g := by
  obtain ⟨head, span, goals, rfl, htarget⟩ := parts_of_clauseTarget (Or.inl rfl) h
  intro depth
  simp [goalForm, htarget, Source.Goal.read]

theorem builds_retractGoal {g : Source.Goal} (h : grammar.Traces Builds spaced (Language.body .retractGoal) c d ns g)
    (s : Span) : BuildsParts .retractGoal (.mk .retractGoal s text ns) g := by
  obtain ⟨head, span, goals, rfl, htarget⟩ := parts_of_clauseTarget (Or.inr rfl) h
  intro depth
  simp [goalForm, htarget, Source.Goal.read]

theorem builds_unifyCall {g : Source.Goal} (h : grammar.Traces Builds spaced (Language.body .unifyCall) c d ns g)
    (s : Span) : BuildsParts .unifyCall (.mk .unifyCall s text ns) g := by
  obtain ⟨c₁, ms₁, ns₁, _, right, h₁, h₂, rfl, rfl⟩ := traces_ap.mp h
  obtain ⟨left, h₃, rfl⟩ := traces_map.mp h₁
  obtain ⟨c₂, ms₂, ns₂, _, h₄, hleft, rfl⟩ := traces_right.mp h₃
  obtain ⟨c₃, ms₃, ns₃, _, hkeyword, hopening, rfl⟩ := traces_right.mp h₄
  obtain ⟨-, -, rfl⟩ := traces_token.mp hopening
  obtain ⟨k, rfl, hkrule, hkmem⟩ := marks_keyword hkeyword
  obtain ⟨l, rfl, -, hlrule, hl⟩ := (traces_call (r := .term)).mp hleft
  obtain ⟨c₄, ms₄, ns₄, _, h₅, hclosing, rfl⟩ := traces_left.mp h₂
  obtain ⟨-, -, rfl⟩ := traces_token.mp hclosing
  obtain ⟨r, rfl, hrrule, hr⟩ := node_of_argument traces_separator h₅
  intro depth
  have hl : term depth l = ofReading (left.read depth) := hl depth
  have hr : term depth r = ofReading (right.read depth) := hr depth
  simp [goalForm, unifiedPart, hkrule, hlrule, hrrule, expectKeyword_of_mem hkmem, hl, hr, lastTwo, Source.Goal.read]

theorem builds_unifyGoal {g : Source.Goal} (h : grammar.Traces Builds spaced (Language.body .unifyGoal) c d ns g)
    (s : Span) : BuildsParts .unifyGoal (.mk .unifyGoal s text ns) g := by
  obtain ⟨c₁, ms₁, ns₁, _, right, hleft, h₂, rfl, rfl⟩ := traces_ap.mp h
  obtain ⟨l, left, rfl, -, ⟨hlrule, hl⟩, rfl⟩ := (traces_map_call (r := .term)).mp hleft
  obtain ⟨c₃, ms₃, ns₃, _, hsign, hright, rfl⟩ := traces_right.mp h₂
  obtain ⟨c₄, ms₄, ns₄, _, hequals, hno, rfl⟩ := traces_right.mp hsign
  obtain ⟨-, -, rfl⟩ := traces_token.mp hequals
  obtain ⟨-, rfl⟩ := traces_unless.mp hno
  obtain ⟨r, rfl, -, hrrule, hr⟩ := (traces_call (r := .term)).mp hright
  intro depth
  have hl : term depth l = ofReading (left.read depth) := hl depth
  have hr : term depth r = ofReading (right.read depth) := hr depth
  simp [goalForm, unifiedPart, hlrule, hrrule, hl, hr, lastTwo, Source.Goal.read]

theorem builds_isGoal {g : Source.Goal} (h : grammar.Traces Builds spaced (Language.body .isGoal) c d ns g)
    (s : Span) : BuildsParts .isGoal (.mk .isGoal s text ns) g := by
  obtain ⟨c₁, ms₁, ns₁, _, formula, hresult, h₂, rfl, rfl⟩ := traces_ap.mp h
  obtain ⟨r, result, rfl, -, ⟨hrrule, hr⟩, rfl⟩ := (traces_map_call (r := .term)).mp hresult
  obtain ⟨c₂, ms₂, ns₂, _, hkeyword, hformula, rfl⟩ := traces_right.mp h₂
  obtain ⟨k, rfl, hkrule, hkmem⟩ := marks_keyword hkeyword
  obtain ⟨e, rfl, -, herule, he⟩ := (traces_call (r := .arithmetic)).mp hformula
  intro depth
  have hr : term depth r = ofReading (result.read depth) := hr depth
  have he : arithmetic depth e = ofReading (formula.read depth) := he depth
  simp [goalForm, isPart, hrrule, hkrule, herule, expectKeyword_of_mem hkmem, hr, he, Source.Goal.read]

theorem builds_comparison {g : Source.Goal} (h : grammar.Traces Builds spaced (Language.body .comparison) c d ns g)
    (s : Span) : BuildsParts .comparison (.mk .comparison s text ns) g := by
  obtain ⟨c₁, ms₁, ns₁, _, right, h₁, hright, rfl, rfl⟩ := traces_ap.mp h
  obtain ⟨c₂, ms₂, ns₂, _, op, hleft, hop, rfl, rfl⟩ := traces_ap.mp h₁
  obtain ⟨l, left, rfl, -, ⟨hlrule, hl⟩, rfl⟩ := (traces_map_call (r := .arithmetic)).mp hleft
  obtain ⟨o, rfl, -, horule, ho⟩ := (traces_call (r := .comparisonOperator)).mp hop
  obtain ⟨r, rfl, -, hrrule, hr⟩ := (traces_call (r := .arithmetic)).mp hright
  intro depth
  have hl : arithmetic depth l = ofReading (left.read depth) := hl depth
  have ho : comparisonOf o.text = op := ho
  have hr : arithmetic depth r = ofReading (right.read depth) := hr depth
  simp [goalForm, comparedPart, hlrule, horule, hrrule, hl, ho, hr, lastTwo, Source.Goal.read]

theorem truth_of_mem {k : Keyword} (hk : k = .true ∨ k = .false) {n : Node} (hmem : n.text ∈ k.allSpellings) :
    truth [n] = pure (.call ⟨n.text, []⟩) := by
  rcases hk with rfl | rfl <;> simp [truth, keywordOf_of_mem hmem]

theorem read_truth (text : String) (depth : Nat) :
    (Source.Goal.call ⟨text, []⟩).read depth = pure (.call ⟨text, []⟩) := by
  rfl

theorem builds_trueGoal {g : Source.Goal} (h : grammar.Traces Builds spaced (Language.body .trueGoal) c d ns g)
    (s : Span) : BuildsParts .trueGoal (.mk .trueGoal s text ns) g := by
  obtain ⟨n, t, rfl, -, ⟨hrule, rfl, hmem⟩, rfl⟩ := (traces_map_call (r := .keyword .true)).mp h
  intro depth
  simp [goalForm, truth_of_mem (Or.inl rfl) hmem, read_truth]

theorem builds_falseGoal {g : Source.Goal} (h : grammar.Traces Builds spaced (Language.body .falseGoal) c d ns g)
    (s : Span) : BuildsParts .falseGoal (.mk .falseGoal s text ns) g := by
  obtain ⟨n, t, rfl, -, ⟨hrule, rfl, hmem⟩, rfl⟩ := (traces_map_call (r := .keyword .false)).mp h
  intro depth
  simp [goalForm, truth_of_mem (Or.inr rfl) hmem, read_truth]

theorem builds_call {g : Source.Goal} (h : grammar.Traces Builds spaced (Language.body .call) c d ns g)
    (s : Span) : BuildsParts .call (.mk .call s text ns) g := by
  obtain ⟨n, p, rfl, -, ⟨hrule, hn⟩, rfl⟩ := (traces_map_call (r := .predicate)).mp h
  intro depth
  have hn : predicate depth n = ofReading (p.read depth) := hn depth
  simp [goalForm, hn, Source.Goal.read]

theorem builds_cut {x : Unit} (h : grammar.Traces Builds spaced (Language.body .cut) c d ns x) (s : Span) :
    BuildsParts .cut (.mk .cut s text ns) x := by
  obtain ⟨t, ht, -⟩ := traces_map.mp h
  intro depth
  rcases marks_or_token ht with rfl | ⟨n, rfl, hrule, hmem⟩
  · simp [goalForm]
  · simp [goalForm, expectKeyword_of_mem hmem]

theorem builds_goal {g : Source.Goal} (h : grammar.Traces Builds spaced (Language.body .goal) c d ns g)
    (s : Span) : BuildsParts .goal (.mk .goal s text ns) g := by
  have hform {n : Node} (hn : ∀ depth, goalForm depth n = ofReading (g.read depth)) (depth : Nat) :
      goal depth (.mk .goal s text [n]) = ofReading (g.read depth) := by
    rw [goal, firstGoal]
    exact hn depth
  rcases traces_or.mp h with h | ⟨-, h⟩
  · obtain ⟨n, x, rfl, -, ⟨-, hn⟩, rfl⟩ := (traces_map_call (r := .cut)).mp h
    exact hform hn
  -- all others have one rule each, whose value is the goal
  rcases h with h | ⟨-, h | ⟨-, h | ⟨-, h | ⟨-, h | ⟨-, h | ⟨-, h | ⟨-, h | ⟨-, h | ⟨-, h | ⟨-, h⟩⟩⟩⟩⟩⟩⟩⟩⟩⟩
  all_goals
    obtain ⟨n, rfl, -, -, hn⟩ := h
    exact hform hn

end Goals

end BilingualLogic.Tree
