import BilingualLogic.Proofs.Grammar.Lexical
import BilingualLogic.Proofs.Grammar.Number
import BilingualLogic.Proofs.Grammar.Yields

/-!
What the grammar makes sure of the sources that it yields: what names are made of, that bodies have goals, that the
rest of a list stands behind items, and that in formulas a sign is never part of a number.
-/

namespace BilingualLogic

namespace Source

open BilingualLogic.Language

inductive Term.Valid : Term → Prop
  | anonymous (s : Text.Span) : Valid (.anonymous s)
  | var (s : Text.Span) {name : String} : name.toList ≠ [] → (∀ c ∈ name.toList, isNameChar c = true) →
    Valid (.var s name)
  | number (s : Text.Span) (numeral : String) : Valid (.number s numeral)
  | text (s : Text.Span) (content : String) : Valid (.text s content)
  | boolean (s : Text.Span) (value : Bool) : Valid (.boolean s value)
  | list (s : Text.Span) {items : List Term} : (∀ t ∈ items, Valid t) → Valid (.list s items none)
  | pattern (s : Text.Span) {items : List Term} {rest : Term} : items ≠ [] → (∀ t ∈ items, Valid t) → Valid rest →
    Valid (.list s items (some rest))
  | atom (s : Text.Span) {name : String} : isName name.toList = true → name ≠ "_" → Valid (.atom s name)

structure Predicate.Valid (p : Predicate) : Prop where
  name : isName p.name.toList = true
  arguments : ∀ t ∈ p.arguments, t.Valid

inductive Formula.Valid : Formula → Prop
  | number (s : Text.Span) {numeral : String} : (∀ ds, numeral.toList ≠ '-' :: ds) → Valid (.number s numeral)
  | var {name : String} : name.toList ≠ [] → (∀ c ∈ name.toList, isNameChar c = true) → Valid (.var name)
  | text (content : String) : Valid (.text content)
  | negate {e : Formula} : Valid e → Valid (.negate e)
  | binary (op : Operation) {a b : Formula} : Valid a → Valid b → Valid (.binary op a b)
  | group (s : Text.Span) {e : Formula} : Valid e → Valid (.group s e)

inductive Goal.Valid : Goal → Prop
  | call {p : Predicate} : p.Valid → Valid (.call p)
  | truth {name : String} : name ∈ Keyword.true.allSpellings ++ Keyword.false.allSpellings → Valid (.call ⟨name, []⟩)
  | cut : Valid .cut
  | not (s : Scope) {goals : List Goal} : goals ≠ [] → (∀ g ∈ goals, Valid g) → Valid (.not s goals)
  | unify {a b : Term} : a.Valid → b.Valid → Valid (.unify a b)
  | is {a : Term} {e : Formula} : a.Valid → e.Valid → Valid (.is a e)
  | compare (op : Comparison) {a b : Formula} : a.Valid → b.Valid → Valid (.compare op a b)
  | collect (kind : Collection) (s : Scope) {t r : Term} {goals : List Goal} : t.Valid → goals ≠ [] →
    (∀ g ∈ goals, Valid g) → r.Valid → Valid (.collect kind t s goals r)
  | assert (s : Text.Span) {head : Predicate} {body : List Goal} : head.Valid → (∀ g ∈ body, Valid g) →
    Valid (.assert head s body)
  | retract (s : Text.Span) {head : Predicate} {body : List Goal} : head.Valid → (∀ g ∈ body, Valid g) →
    Valid (.retract head s body)

structure Body.Valid (b : Body) : Prop where
  ne_nil : b.goals ≠ []
  goals : ∀ g ∈ b.goals, g.Valid

inductive StatementForm.Valid : StatementForm → Prop
  | fact {head : Predicate} : head.Valid → Valid (.fact head)
  | rule {head : Predicate} {body : Body} : head.Valid → body.Valid → Valid (.rule head body)
  | query {body : Body} : body.Valid → Valid (.query body)
  | assert (s : Text.Span) {head : Predicate} {body : List Goal} : head.Valid → (∀ g ∈ body, g.Valid) →
    Valid (.directive (.assert head s body))
  | retract (s : Text.Span) {head : Predicate} {body : List Goal} : head.Valid → (∀ g ∈ body, g.Valid) →
    Valid (.directive (.retract head s body))

end Source

namespace Language

open Text Grammar

/-- What holds of all that a rule yields. -/
def Sound : (r : Rule) → Result r → Prop
  | .keyword k, text => text ∈ k.allSpellings
  | .var, name => name.toList ≠ [] ∧ ∀ c ∈ name.toList, isNameChar c = true
  | .atom, name | .name, name => isName name.toList = true
  | .listTail, t | .term, t | .termInput, t => t.Valid
  | .list, (items, rest) => (∀ t ∈ items, t.Valid) ∧ ∀ r ∈ rest, items ≠ [] ∧ r.Valid
  | .predicate, p => p.Valid
  | .arithmetic, e | .product, e | .unary, e | .primary, e | .formula, e => e.Valid
  | .body, b | .nested, b | .queryInput, b => b.Valid
  | .clauseForm, (head, body) => head.Valid ∧ ∀ b ∈ body, b.Valid
  | .assertGoal, g => ∃ head s body, g = .assert head s body ∧ head.Valid ∧ ∀ g ∈ body, g.Valid
  | .retractGoal, g => ∃ head s body, g = .retract head s body ∧ head.Valid ∧ ∀ g ∈ body, g.Valid
  | .negation, g | .collect, g | .unifyCall, g | .isGoal, g | .comparison, g | .unifyGoal, g | .trueGoal, g
  | .falseGoal, g | .call, g | .goal, g => g.Valid
  | .factDeclaration, s | .ruleDeclaration, s | .queryDeclaration, s | .directive, s => s.form.Valid
  | .program, ss => ∀ s ∈ ss, s.form.Valid
  | _, _ => True

section Lexical

variable {spaced : Bool} {c d : Cursor}

theorem keyword_eq_some {k : Keyword} {t : String} (h : eval spaced (keyword k) c = some (t, d)) :
    t ∈ k.allSpellings := by
  have h : eval spaced (call (.keyword k)) c = some (t, d) := h
  rw [eval_call] at h
  obtain ⟨_, _, ht, -⟩ := left_eq_some.mp h
  exact (oneOf_eq_some ht).2

theorem var_eq_some {name : String} (h : eval spaced (call .var) c = some (name, d)) :
    name.toList ≠ [] ∧ ∀ x ∈ name.toList, isNameChar x = true := by
  rw [eval_call] at h
  obtain ⟨-, c', -, hname⟩ := right_eq_some.mp h
  have hname : eval false (call .varName) c' = some (name, d) := hname
  rw [eval_call] at hname
  obtain ⟨xs, hxs, rfl⟩ := map_eq_some.mp hname
  obtain ⟨g, c'', ys, hg, hys, rfl⟩ := ap_eq_some.mp hxs
  obtain ⟨y, hy, rfl⟩ := map_eq_some.mp hg
  rw [String.toList_ofList]
  refine ⟨by simp, fun x hx => ?_⟩
  rcases List.mem_cons.mp hx with rfl | hx
  · exact (char_eq_some hy).2
  · obtain ⟨_, _, hchar, -⟩ := many_eq_some hys x hx
    exact (char_eq_some hchar).2

theorem word_eq_some {e : Expr String} {name : String} (hreads : ∀ i, isName (leading i) = true →
      Reads spaced e i (trailing i) (· = String.ofList (leading i)))
    (hfails : ∀ i, isName (leading i) = false → Fails spaced e i) (h : eval spaced e c = some (name, d)) :
    isName name.toList = true ∧ name.toList = leading c.rest ∧ gap spaced d.rest = gap spaced (trailing c.rest) := by
  cases hname : isName (leading c.rest) with
  | true =>
    obtain ⟨hgap, rfl⟩ := (hreads c.rest hname).eq_some h
    rw [String.toList_ofList]
    exact ⟨hname, rfl, hgap⟩
  | false => exact ((hfails c.rest hname).ne_some h).elim

end Lexical

theorem valid_chain {first : Source.Formula} {more : List (Operation × Source.Formula)} (hfirst : first.Valid)
    (hmore : ∀ x ∈ more, x.2.Valid) : (Source.Formula.chain first more).Valid := by
  induction more generalizing first with
  | nil => exact hfirst
  | cons x xs ih => exact ih (.binary x.1 hfirst (hmore x (by simp))) fun y hy => hmore y (by simp [hy])

section Bodies

variable {ρ : Grammar.Readers grammar} (hρ : ∀ r, r ≠ .primary → Yields ρ (call r) (Sound r))

include hρ

theorem yields_terms : Yields ρ (Peg.separated (call .term) separator) fun xs => xs ≠ [] ∧ ∀ x ∈ xs, x.Valid :=
  Yields.separated (hρ .term (by simp))

theorem yields_list : Yields ρ (body .list) (Sound .list) := by
  refine Yields.left (Yields.right (Yields.map ?_))
  have hitems : Yields ρ (Prod.mk <$> Peg.separated (call .term) separator <*> .option (call .listTail))
      fun r => r.1 ≠ [] ∧ (∀ t ∈ r.1, t.Valid) ∧ ∀ t ∈ r.2, t.Valid :=
    Yields.ap (Yields.map ((yields_terms hρ).imp fun xs hxs rest hrest => ⟨hxs.1, hxs.2, hrest⟩))
      (hρ .listTail (by simp)).option
  refine hitems.option.imp fun o ho => ?_
  cases o with
  | none => exact ⟨by rintro _ ⟨⟩, by rintro _ ⟨⟩⟩
  | some r =>
    obtain ⟨hne, hvalid, hrest⟩ := ho r rfl
    exact ⟨hvalid, fun t ht => ⟨hne, hrest t ht⟩⟩

theorem yields_predicate : Yields ρ (body .predicate) (Sound .predicate) := by
  refine Yields.ap (Yields.map ((hρ .name (by simp)).imp fun name hname arguments harguments => ?_))
    (Yields.option (Yields.left (Yields.right (yields_terms hρ).option)))
  refine ⟨hname, fun t ht => ?_⟩
  rcases arguments with _ | _ | xs
  · cases ht
  · cases ht
  · exact (harguments _ rfl xs rfl).2 t ht

theorem yields_body : Yields ρ (body .body) (Sound .body) :=
  Yields.placed (Yields.map ((Yields.separated (hρ .goal (by simp))).imp fun _ hgs _ => ⟨hgs.1, hgs.2⟩))

theorem yields_scope : Yields ρ scope fun x => x.2 ≠ [] ∧ ∀ g ∈ x.2, g.Valid := by
  refine Yields.or (Yields.map ((hρ .nested (by simp)).imp fun b hb => ⟨hb.ne_nil, hb.goals⟩))
    (Yields.placed (Yields.map ((hρ .goal (by simp)).imp fun g hg s => ⟨by simp, fun g' hg' => ?_⟩)))
  rw [List.mem_singleton.mp hg']
  exact hg

theorem yields_clauseTarget {build : Source.Predicate → Span → List Source.Goal → Source.Goal} {k : Keyword}
    {Q : Source.Goal → Prop} (hQ : ∀ head s body, head.Valid → (∀ g ∈ body, g.Valid) → Q (build head s body)) :
    Yields ρ (clauseTarget build k) Q := by
  refine Yields.right (Yields.or (Yields.map ((hρ .clauseForm (by simp)).imp ?_))
    (Yields.map ((hρ .predicate (by simp)).imp fun head hhead => hQ head default [] hhead (by simp))))
  rintro ⟨head, _ | b⟩ ⟨hhead, hb⟩
  · exact hQ head default [] hhead (by simp)
  · exact hQ head b.span b.goals hhead (hb b rfl).goals

theorem yields_statement : Yields ρ statement fun s => s.form.Valid :=
  Yields.left (Yields.or (hρ .factDeclaration (by simp)) (Yields.or (hρ .ruleDeclaration (by simp))
    (Yields.or (hρ .queryDeclaration (by simp)) (hρ .directive (by simp)))))

theorem yields_goal : Yields ρ (body .goal) (Sound .goal) := by
  have hclause {g : Source.Goal} (h : (∃ head s body, g = .assert head s body ∧ head.Valid ∧ ∀ g ∈ body, g.Valid) ∨
      ∃ head s body, g = .retract head s body ∧ head.Valid ∧ ∀ g ∈ body, g.Valid) : g.Valid := by
    rcases h with ⟨head, s, body, rfl, hhead, hbody⟩ | ⟨head, s, body, rfl, hhead, hbody⟩
    · exact .assert s hhead hbody
    · exact .retract s hhead hbody
  exact Yields.or (Yields.map (yields_any.imp fun _ _ => .cut)) (Yields.or (hρ .negation (by simp))
    (Yields.or (hρ .collect (by simp)) (Yields.or ((hρ .assertGoal (by simp)).imp fun _ h => hclause (Or.inl h))
      (Yields.or ((hρ .retractGoal (by simp)).imp fun _ h => hclause (Or.inr h))
        (Yields.or (hρ .unifyCall (by simp)) (Yields.or (hρ .isGoal (by simp)) (Yields.or (hρ .comparison (by simp))
          (Yields.or (hρ .unifyGoal (by simp)) (Yields.or (hρ .trueGoal (by simp)) (Yields.or (hρ .falseGoal (by simp))
            (hρ .call (by simp))))))))))))

theorem yields_goalKind {r : Rule} (hr : r ∈ [.negation, .collect, .assertGoal, .retractGoal, .unifyCall, .isGoal,
    .comparison, .unifyGoal, .trueGoal, .falseGoal, .call]) : Yields ρ (body r) (Sound r) := by
  have hterm := hρ .term (by simp)
  have hformula := hρ .arithmetic (by simp)
  simp only [List.mem_cons, List.not_mem_nil, or_false] at hr
  rcases hr with rfl | rfl | rfl | rfl | rfl | rfl | rfl | rfl | rfl | rfl | rfl
  · exact Yields.map (Yields.right ((yields_scope hρ).imp fun x hx => .not x.1 hx.1 hx.2))
  · refine Yields.ap (Yields.ap (Yields.ap (Yields.map (yields_any.imp ?_)) (Yields.right hterm))
      (Yields.right (yields_scope hρ))) (Yields.left (Yields.right hterm))
    exact fun kind _ t ht x hx r hr => .collect kind x.1 ht hx.1 hx.2 hr
  · exact yields_clauseTarget hρ fun head s body hhead hbody => ⟨head, s, body, rfl, hhead, hbody⟩
  · exact yields_clauseTarget hρ fun head s body hhead hbody => ⟨head, s, body, rfl, hhead, hbody⟩
  · exact Yields.ap (Yields.map (Yields.right (hterm.imp fun a ha b hb => .unify ha hb)))
      (Yields.left (Yields.right hterm))
  · exact Yields.ap (Yields.map (hterm.imp fun a ha e he => .is ha he)) (Yields.right hformula)
  · exact Yields.ap (Yields.ap (Yields.map (hformula.imp fun a ha op _ b hb => .compare op ha hb)) yields_any) hformula
  · exact Yields.ap (Yields.map (hterm.imp fun a ha b hb => .unify ha hb)) (Yields.right hterm)
  · exact Yields.map ((hρ (.keyword .true) (by simp)).imp fun t ht => .truth (List.mem_append_left _ ht))
  · exact Yields.map ((hρ (.keyword .false) (by simp)).imp fun t ht => .truth (List.mem_append_right _ ht))
  · exact Yields.map ((hρ .predicate (by simp)).imp fun p hp => .call hp)

theorem yields_declaration {r : Rule} (hr : r ∈ [.factDeclaration, .ruleDeclaration, .queryDeclaration, .directive]) :
    Yields ρ (body r) (Sound r) := by
  simp only [List.mem_cons, List.not_mem_nil, or_false] at hr
  rcases hr with rfl | rfl | rfl | rfl
  · exact Yields.placed (Yields.map (Yields.right ((hρ .predicate (by simp)).imp fun p hp s => .fact hp)))
  · exact Yields.placed (Yields.ap (Yields.map (Yields.right ((hρ .predicate (by simp)).imp
      fun p hp b hb s => .rule hp hb))) (Yields.right (hρ .body (by simp))))
  · exact Yields.placed (Yields.map (Yields.right ((hρ .body (by simp)).imp fun b hb s => .query hb)))
  · refine Yields.placed (Yields.map (Yields.or ((hρ .assertGoal (by simp)).imp ?_)
      ((hρ .retractGoal (by simp)).imp ?_)))
    · rintro _ ⟨head, s, body, rfl, hhead, hbody⟩ _
      exact .assert s hhead hbody
    · rintro _ ⟨head, s, body, rfl, hhead, hbody⟩ _
      exact .retract s hhead hbody

theorem yields_arithmetic : Yields ρ (body .arithmetic) (Sound .arithmetic) := by
  have hproduct : Yields ρ (call .product) Source.Formula.Valid := hρ .product (by simp)
  have hitem : Yields ρ (Prod.mk <$> call .additiveOperator <*> call .product) fun x => x.2.Valid :=
    Yields.ap (Yields.map (yields_any.imp fun _ _ _ he => he)) hproduct
  exact Yields.placed (Yields.ap (Yields.map (hproduct.imp fun first hfirst more hmore s =>
    .group s (valid_chain hfirst hmore))) hitem.many)

theorem yields_product : Yields ρ (body .product) (Sound .product) := by
  have hunary : Yields ρ (call .unary) Source.Formula.Valid := hρ .unary (by simp)
  have hitem : Yields ρ (Prod.mk <$> call .multiplicativeOperator <*> call .unary) fun x => x.2.Valid :=
    Yields.ap (Yields.map (yields_any.imp fun _ _ _ he => he)) hunary
  exact Yields.ap (Yields.map (hunary.imp fun first hfirst more hmore => valid_chain hfirst hmore)) hitem.many

end Bodies

section Rules

variable {ρ : Grammar.Readers grammar} {c d : Cursor}

theorem valid_signs {e : Source.Formula} (he : e.Valid) (signs : List Unit) :
    (signs.foldl (fun e _ => Source.Formula.negate e) e).Valid := by
  induction signs generalizing e with
  | nil => exact he
  | cons _ signs ih => exact ih (.negate he)

theorem valid_primary (hρ : ∀ r, r ≠ .primary → Yields ρ (call r) (Sound r))
    (hnumber : ∀ x d, ρ .number true c = some (x, d) → eval true (call .number) c = some (x, d)) (hc : AtGap c)
    (hfront : ∀ cs, c.rest ≠ '-' :: cs) {e : Source.Formula}
    (h : evalExpr grammar ρ true (body .primary) c = some (e, d)) : e.Valid := by
  rcases or_eq_some.mp h with h | ⟨-, h⟩
  · obtain ⟨f, hf, rfl⟩ := placed_eq_some.mp h
    obtain ⟨text, htext, rfl⟩ := map_eq_some.mp hf
    have hrest := number_eq_some (hnumber text d htext)
    refine .number _ fun ds hds => ?_
    rw [hds] at hrest
    exact hfront _ hrest
  · refine Yields.or (Yields.map ((hρ .var (by simp)).imp fun _ hname => .var hname.1 hname.2)) (Yields.or
      (Yields.map (yields_any.imp fun content _ => .text content))
      (Yields.left (Yields.right (hρ .arithmetic (by simp))))) c e d hc h

theorem valid_unary (hprimary : ∀ c e d, AtGap c → (∀ cs, c.rest ≠ '-' :: cs) → ρ .primary true c = some (e, d) → e.Valid)
    (hread : ∀ c x d, ρ .negate true c = some (x, d) → eval true (call .negate) c = some (x, d))
    (hbelow : ranking.Below (ranking.measure .unary c) ρ) (hc : AtGap c) {e : Source.Formula}
    (h : evalExpr grammar ρ true (body .unary) c = some (e, d)) : e.Valid := by
  obtain ⟨g, c', x, hg, hx, rfl⟩ := ap_eq_some.mp h
  obtain ⟨signs, hsigns, rfl⟩ := map_eq_some.mp hg
  have hshort (c : Cursor) : Grammar.Shortens false c (evalExpr grammar ρ true (call .negate) c) := by
    intro x d hx
    exact eval_shortens (e := call .negate) rfl c x d (hread c x d hx)
  obtain ⟨hstop, hlen⟩ := many_stops hshort hc hsigns
  have hle : (grammar.skipIf true c').rest.length ≤ c.rest.length := by
    rw [skipIf_rest]
    exact Nat.le_trans (gap_length true c'.rest) hlen
  -- no sign stands where the signs end
  have hfront (cs : List Char) : (grammar.skipIf true c').rest ≠ '-' :: cs := by
    intro hcs
    have hnone : eval true (call .negate) (grammar.skipIf true c') = none :=
      (hbelow .negate true _ (ranking.measure_of_head hle (by decide))).symm.trans hstop
    have hsign : Reads true (call .negate) ('-' :: cs) cs fun _ => True :=
      Reads.plain rfl (Reads.map (reads_token (t := "-") trivial))
    obtain ⟨y, d', hy, -⟩ := hsign (grammar.skipIf true c').position
    rw [← hcs] at hy
    cases hnone.symm.trans hy
  exact valid_signs (hprimary _ x d (atGap_skip c') hfront hx) signs

theorem valid_term (hρ : ∀ r, r ≠ .primary → Yields ρ (call r) (Sound r))
    (hread : ∀ x d, ρ .atom true c = some (x, d) → eval true (call .atom) c = some (x, d))
    (hbelow : ranking.Below (ranking.measure .term c) ρ) (hc : AtGap c) {t : Source.Term}
    (h : evalExpr grammar ρ true (body .term) c = some (t, d)) : t.Valid := by
  obtain ⟨f, hf, rfl⟩ := placed_eq_some.mp h
  generalize (⟨c.position, d.position.offset⟩ : Span) = s
  rcases or_eq_some.mp hf with hf | ⟨hanonymous, hf⟩
  · obtain ⟨_, -, rfl⟩ := map_eq_some.mp hf
    exact .anonymous s
  rcases or_eq_some.mp hf with hf | ⟨-, hf⟩
  · obtain ⟨name, hname, rfl⟩ := map_eq_some.mp hf
    obtain ⟨hne, hchars⟩ := hρ .var (by simp) c name d hc hname
    exact .var s hne hchars
  rcases or_eq_some.mp hf with hf | ⟨-, hf⟩
  · obtain ⟨text, -, rfl⟩ := map_eq_some.mp hf
    exact .number s text
  rcases or_eq_some.mp hf with hf | ⟨-, hf⟩
  · obtain ⟨content, -, rfl⟩ := map_eq_some.mp hf
    exact .text s content
  rcases or_eq_some.mp hf with hf | ⟨-, hf⟩
  · obtain ⟨b, -, rfl⟩ := map_eq_some.mp hf
    exact .boolean s b
  rcases or_eq_some.mp hf with hf | ⟨-, hf⟩
  · obtain ⟨⟨items, rest⟩, hlist, rfl⟩ := map_eq_some.mp hf
    obtain ⟨hitems, hrest⟩ := hρ .list (by simp) c _ d hc hlist
    cases rest with
    | none => exact .list s hitems
    | some r => exact .pattern s (hrest r rfl).1 hitems (hrest r rfl).2
  · obtain ⟨name, hname, rfl⟩ := map_eq_some.mp hf
    obtain ⟨hword, hleading, -⟩ := word_eq_some (fun _ => reads_atom) (fun _ => fails_atom) (hread name d hname)
    refine .atom s hword ?_
    -- `_` alone is read as an anonymous variable before
    rintro rfl
    have hrest : c.rest = '_' :: trailing c.rest := by
      have hsplit := leading_append_trailing c.rest
      rw [← hleading] at hsplit
      exact hsplit.symm
    have hnone : ρ .anonymous true c = none := by
      cases hr : ρ .anonymous true c with
      | none => rfl
      | some r =>
        exfalso
        have hmap : evalExpr grammar ρ true ((fun _ s => Source.Term.anonymous s) <$> call .anonymous) c
            = some (fun s => Source.Term.anonymous s, r.2) := map_eq_some.mpr ⟨r.1, hr, rfl⟩
        cases hanonymous.symm.trans hmap
    have hfails : eval true (call .anonymous) c = none :=
      (hbelow .anonymous true c (ranking.measure_of_head (Nat.le_refl _) (by decide))).symm.trans hnone
    have hreads : Reads true (call .anonymous) ('_' :: trailing c.rest) (trailing c.rest) fun _ => True :=
      reads_anonymous (stops_trailing c.rest)
    obtain ⟨y, d', hy, -⟩ := hreads c.position
    rw [← hrest] at hy
    cases hfails.symm.trans hy

end Rules

theorem sound {r : Rule} {c d : Cursor} {x : Result r} (h : ranking.read r true c = some (x, d)) (hc : AtGap c)
    (hfront : r = .primary → ∀ cs, c.rest ≠ '-' :: cs) : Sound r x := by
  suffices hP : ∀ spaced, ranking.read r spaced c = some (x, d) → spaced = true → AtGap c →
      (r = .primary → ∀ cs, c.rest ≠ '-' :: cs) → Sound r x from hP true h rfl hc hfront
  intro spaced h
  refine ranking.read_induct (P := fun r spaced c x _ => spaced = true → AtGap c →
    (r = .primary → ∀ cs, c.rest ≠ '-' :: cs) → Sound r x) ?_ h
  rintro ρ r spaced c x d hbelow hstep hread heval rfl hc hfront
  have hρ (r : Rule) (hr : r ≠ .primary) : Yields ρ (call r) (Sound r) :=
    fun c x d hc hx => (hstep r true c x d hx).2 rfl hc fun h => absurd h hr
  have of_body (hplain : kind r = .plain) (h : Yields ρ (body r) (Sound r)) : Sound r x := by
    refine h c x d hc ?_
    rw [Grammar.spacedInside, show grammar.kind r = .plain from hplain] at heval
    exact heval
  cases r with
  | endOfText => trivial
  | keyword k => exact keyword_eq_some hread
  | reserved => trivial
  | number => trivial
  | string => trivial
  | boolean => trivial
  | anonymous => trivial
  | var => exact var_eq_some hread
  | varName => trivial
  | atom => exact (word_eq_some (fun _ => reads_atom) (fun _ => fails_atom) hread).1
  | name => exact (word_eq_some (fun _ => reads_name) (fun _ => fails_name) hread).1
  | listTail => exact of_body rfl (hρ .term (by simp)).right
  | list => exact of_body rfl (yields_list hρ)
  | term => exact valid_term hρ (fun x d hx => (hstep .atom true c x d hx).1) hbelow hc heval
  | predicate => exact of_body rfl (yields_predicate hρ)
  | additiveOperator => trivial
  | multiplicativeOperator => trivial
  | negate => trivial
  | arithmetic => exact of_body rfl (yields_arithmetic hρ)
  | product => exact of_body rfl (yields_product hρ)
  | unary =>
    exact valid_unary (fun c e d hc hfront he => (hstep .primary true c e d he).2 rfl hc fun _ => hfront)
      (fun c x d hx => (hstep .negate true c x d hx).1) hbelow hc heval
  | primary => exact valid_primary hρ (fun x d hx => (hstep .number true c x d hx).1) hc (hfront rfl) heval
  | comparisonOperator => trivial
  | body => exact of_body rfl (yields_body hρ)
  | nested => exact of_body rfl (hρ .body (by simp)).right.left
  | cut => trivial
  | clauseForm =>
    exact of_body rfl (Yields.ap (Yields.map ((hρ .predicate (by simp)).right.imp fun _ hhead _ hbody => ⟨hhead, hbody⟩))
      (hρ .body (by simp)).right.option.left)
  | negation => exact of_body rfl (yields_goalKind hρ (by simp))
  | collect => exact of_body rfl (yields_goalKind hρ (by simp))
  | assertGoal => exact of_body rfl (yields_goalKind hρ (by simp))
  | retractGoal => exact of_body rfl (yields_goalKind hρ (by simp))
  | unifyCall => exact of_body rfl (yields_goalKind hρ (by simp))
  | isGoal => exact of_body rfl (yields_goalKind hρ (by simp))
  | comparison => exact of_body rfl (yields_goalKind hρ (by simp))
  | unifyGoal => exact of_body rfl (yields_goalKind hρ (by simp))
  | trueGoal => exact of_body rfl (yields_goalKind hρ (by simp))
  | falseGoal => exact of_body rfl (yields_goalKind hρ (by simp))
  | call => exact of_body rfl (yields_goalKind hρ (by simp))
  | goal => exact of_body rfl (yields_goal hρ)
  | factDeclaration => exact of_body rfl (yields_declaration hρ (by simp))
  | ruleDeclaration => exact of_body rfl (yields_declaration hρ (by simp))
  | queryDeclaration => exact of_body rfl (yields_declaration hρ (by simp))
  | directive => exact of_body rfl (yields_declaration hρ (by simp))
  | program => exact of_body rfl (yields_statement hρ).many.right.left
  | queryInput => exact of_body rfl (hρ .body (by simp)).right.left.left
  | termInput => exact of_body rfl (hρ .term (by simp)).right.left
  | formula => exact of_body rfl (hρ .arithmetic (by simp)).right.left

end Language

namespace Source

section Parsing

variable {r : Rule} {source text : String}

theorem read_of_parseRule {x : Language.Result r} (h : parseRule r source text = .ok x) :
    ∃ d, Grammar.evalExpr Language.grammar Language.ranking.read (Language.grammar.spacedInside r true) (Language.body r)
      (Text.Cursor.ofString text) = some (x, d) := by
  have hparse : Language.grammar.parse ruleDepth r text = .ok x := by
    rw [parseRule] at h
    split at h
    · next hx => rw [hx, Except.ok.inj h]
    · cases h
  obtain ⟨d, hread⟩ := Language.ranking.parse_ok.mp hparse
  exact ⟨d, (Language.ranking.read_eq r true _).symm.trans hread⟩

theorem yields_call (hr : r ≠ .primary) :
    Language.Yields Language.ranking.read (Language.call r) (Language.Sound r) :=
  fun _ _ _ hc hx => Language.sound hx hc fun h => absurd h hr

theorem parseAlone_eq_ok {α : Type} {read : Language.Result r → Reading α} {y : α}
    (h : parseAlone r source text read = .ok y) :
    ∃ x k, parseRule r source text = .ok x ∧ read x ⟨source, 100⟩ 0 = .ok (y, k) := by
  change (parseRule r source text >>= fun x => read x ⟨source, 100⟩ 0 >>= fun r => Except.ok r.1) = _ at h
  cases hx : parseRule r source text with
  | error e =>
    rw [hx] at h
    cases h
  | ok x =>
    rw [hx] at h
    change (read x ⟨source, 100⟩ 0 >>= fun r => Except.ok r.1) = _ at h
    cases hy : read x ⟨source, 100⟩ 0 with
    | error e =>
      rw [hy] at h
      cases h
    | ok r =>
      rw [hy] at h
      cases h
      exact ⟨x, r.2, rfl, hy⟩

/-- What holds of all statements that can be read holds of those of a source text. -/
theorem of_parse {Q : Source.Statement → Prop} (hQ : Language.Yields Language.ranking.read Language.statement Q)
    {tree : List Source.Statement} (h : parseRule .program source text = .ok tree) : ∀ s ∈ tree, Q s := by
  obtain ⟨d, hread⟩ := read_of_parseRule h
  -- blanks in front are passed over behind the empty expression
  obtain ⟨c, _, hread, -⟩ := Language.left_eq_some.mp hread
  obtain ⟨_, c', -, hread⟩ := Language.right_eq_some.mp hread
  exact hQ.many _ tree c (Language.atGap_skip c') hread

theorem of_parseQuery {Q : Source.Body → Prop} (hQ : Language.Yields Language.ranking.read (Language.call .body) Q)
    {b : Source.Body} (h : parseRule .queryInput source text = .ok b) : Q b := by
  obtain ⟨d, hread⟩ := read_of_parseRule h
  obtain ⟨c, _, hread, -⟩ := Language.left_eq_some.mp hread
  obtain ⟨c, _, hread, -⟩ := Language.left_eq_some.mp hread
  obtain ⟨_, c', -, hread⟩ := Language.right_eq_some.mp hread
  exact hQ _ b c (Language.atGap_skip c') hread

theorem of_parseTerm {Q : Source.Term → Prop} (hQ : Language.Yields Language.ranking.read (Language.call .term) Q)
    {t : Source.Term} (h : parseRule .termInput source text = .ok t) : Q t := by
  obtain ⟨d, hread⟩ := read_of_parseRule h
  obtain ⟨c, _, hread, -⟩ := Language.left_eq_some.mp hread
  obtain ⟨_, c', -, hread⟩ := Language.right_eq_some.mp hread
  exact hQ _ t c (Language.atGap_skip c') hread

theorem of_parseFormula {Q : Source.Formula → Prop}
    (hQ : Language.Yields Language.ranking.read (Language.call .arithmetic) Q) {e : Source.Formula}
    (h : parseRule .formula source text = .ok e) : Q e := by
  obtain ⟨d, hread⟩ := read_of_parseRule h
  obtain ⟨c, _, hread, -⟩ := Language.left_eq_some.mp hread
  obtain ⟨_, c', -, hread⟩ := Language.right_eq_some.mp hread
  exact hQ _ e c (Language.atGap_skip c') hread

theorem valid_of_parse {tree : List Source.Statement} (h : parseRule .program source text = .ok tree) :
    ∀ s ∈ tree, s.form.Valid := of_parse (Language.yields_statement fun _ => yields_call) h

theorem valid_of_parseQuery {b : Source.Body} (h : parseRule .queryInput source text = .ok b) : b.Valid :=
  of_parseQuery (yields_call (by simp)) h

theorem valid_of_parseTerm {t : Source.Term} (h : parseRule .termInput source text = .ok t) : t.Valid :=
  of_parseTerm (yields_call (by simp)) h

theorem valid_of_parseFormula {e : Source.Formula} (h : parseRule .formula source text = .ok e) : e.Valid :=
  of_parseFormula (yields_call (by simp)) h

end Parsing

end Source

end BilingualLogic
