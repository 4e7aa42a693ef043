import BilingualLogic.Proofs.Rendering.Formula

/-!
The kinds of goals are tried one after the other. What is said here is where those that come first do not begin: a goal
that is led by no keyword, and a term or a formula that stands where the other was tried before.
-/

namespace BilingualLogic

open Text

namespace Language

variable {i m o : List Char}

/-- The keywords that lead goals. -/
def commands : List Keyword := [.cut, .not, .findAll, .bagOf, .setOf, .assert, .retract, .unify]

/-- Here is no keyword or mark that leads a goal. -/
structure Uncommanded (i : List Char) : Prop where
  spells : ∀ k ∈ commands, k.spells (leading i) = false
  cut : Fails true (Peg.token "!") i
  negation : Fails true (Peg.token "\\+") i

theorem uncommanded_of_front {c : Char} (hword : (Unicode.isLetter c || c == '_') = false) (hc : c ∉ ['!', '\\'])
    (cs : List Char) : Uncommanded (c :: cs) := by
  simp only [List.mem_cons, List.not_mem_nil, or_false, not_or] at hc
  exact ⟨fun k _ => spells_of_front hword k cs, fails_token_cons (d := '!') rfl hc.1 cs,
    fails_token_cons (d := '\\') rfl hc.2 cs⟩

theorem StartsWord.uncommanded (h : StartsWord i) (hspells : ∀ k ∈ commands, k.spells (leading i) = false) :
    Uncommanded i :=
  ⟨hspells, h.fails_token (c := '!') (by simp) rfl, h.fails_token (c := '\\') (by simp) rfl⟩

section Commands

theorem fails_cut (h : Keyword.cut.spells (leading i) = false) (hm : Fails true (Peg.token "!") i) :
    Fails true (call .cut) i :=
  Fails.call (Fails.map (Fails.or (fails_keyword h) hm))

theorem fails_negation (h : Keyword.not.spells (leading i) = false) (hm : Fails true (Peg.token "\\+") i) :
    Fails true (call .negation) i :=
  Fails.call (Fails.map (Fails.right_left (Fails.right_left (Fails.or (fails_keyword h) hm))))

theorem fails_collect (h : ∀ k : Collection, k.keyword.spells (leading i) = false) : Fails true (call .collect) i :=
  Fails.call (Fails.ap_left (Fails.ap_left (Fails.ap_left (Fails.map (Fails.or (Fails.map (fails_keyword (h .findAll)))
    (Fails.or (Fails.map (fails_keyword (h .bagOf))) (Fails.map (fails_keyword (h .setOf)))))))))

theorem fails_clauseTarget {build : Source.Predicate → Span → List Source.Goal → Source.Goal} {k : Keyword}
    (h : k.spells (leading i) = false) : Fails true (clauseTarget build k) i :=
  Fails.right_left (fails_keyword h)

theorem fails_unifyCall (h : Keyword.unify.spells (leading i) = false) : Fails true (call .unifyCall) i :=
  Fails.call (Fails.ap_left (Fails.map (Fails.right_left (Fails.right_left (fails_keyword h)))))

theorem Uncommanded.reads_goal (hi : Uncommanded i) {Q : Source.Goal → Prop}
    (h : Reads true (call .isGoal <|> call .comparison <|> call .unifyGoal <|> call .trueGoal <|> call .falseGoal
      <|> call .call) i o Q) : Reads true (call .goal) i o Q := by
  have hspells (k : Keyword) (hk : k ∈ commands) := hi.spells k hk
  exact Reads.plain rfl (Fails.orRight (Fails.map (fails_cut (hspells _ (by decide)) hi.cut))
    (Fails.orRight (fails_negation (hspells _ (by decide)) hi.negation)
      (Fails.orRight (fails_collect fun k => hspells _ (by cases k <;> decide))
        (Fails.orRight (Fails.call (fails_clauseTarget (hspells _ (by decide))))
          (Fails.orRight (Fails.call (fails_clauseTarget (hspells _ (by decide))))
            (Fails.orRight (fails_unifyCall (hspells _ (by decide))) h))))))

end Commands

section Alternatives

theorem fails_isGoal (h : Fails true (call .term) i) : Fails true (call .isGoal) i :=
  Fails.call (Fails.ap_left (Fails.map h))

theorem fails_isGoal_of_term (h : Reads true (call .term) i m fun _ => True) (hm : Stops (Blank.skipText m)) :
    Fails true (call .isGoal) i :=
  Fails.call (Reads.fails_ap (Reads.map (h.imp fun _ _ => Fails.right_left (fails_keyword_of_stops hm))))

theorem fails_unifyGoal_of_term (h : Reads true (call .term) i m fun _ => True)
    (hm : Fails true (Peg.token "=") (Blank.skipText m)) : Fails true (call .unifyGoal) i :=
  Fails.call (Reads.fails_ap (Reads.map (h.imp fun _ _ => Fails.right_left (Fails.right_left hm))))

theorem fails_comparison (h : Fails true (call .arithmetic) i) : Fails true (call .comparison) i :=
  Fails.call (Fails.ap_left (Fails.ap_left (Fails.map h)))

theorem fails_comparison_of_formula (h : Reads true (call .arithmetic) i m fun _ => True)
    (hm : Fails true (call .comparisonOperator) (Blank.skipText m)) : Fails true (call .comparison) i :=
  Fails.call (Fails.ap_left (Reads.fails_ap (Reads.map (h.imp fun _ _ => hm))))

theorem fails_comparisonOperator_equals {c : Char} (hc : c ≠ '=') (cs : List Char) :
    Fails true (call .comparisonOperator) ('=' :: c :: cs) := by
  -- only `==` begins like this
  have hall : ∀ t ∈ comparison.map Prod.fst, t.toList.head? = some '=' → t.toList = ['=', '='] := by decide
  refine Fails.call (Fails.map (fails_oneOf fun t ht => ?_))
  rintro ⟨rest, hrest⟩
  cases htext : t.toList with
  | nil =>
    have hne : ∀ t ∈ comparison.map Prod.fst, t.toList ≠ [] := by decide
    exact hne t ht htext
  | cons d ds =>
    rw [htext] at hrest
    obtain ⟨rfl, htail⟩ := List.cons.inj hrest
    have hboth := hall t ht (by rw [htext]; rfl)
    rw [htext] at hboth
    obtain ⟨-, rfl⟩ := List.cons.inj hboth
    exact hc (List.cons.inj htail).1.symm

end Alternatives

section Terms

variable {v : Vocabulary} {t : Term}

theorem uncommanded_term (v : Vocabulary) (ht : t.Readable) (ho : EndsTerm o) :
    Uncommanded ((t.render v).toList ++ o) := by
  cases ht with
  | @anonymous x hx =>
    rw [Term.render, if_pos hx]
    have hword : isName ['_'] = true := by decide +kernel
    refine (startsWord_of_isName hword o).uncommanded fun k hk => ?_
    rw [leading_append (isNameChar_of_isName hword) ho.stops]
    exact spells_of_isName hword (by revert k; decide)
  | @var x hx =>
    rw [Term.render, if_neg (by simp [hx.isHidden]), String.toList_append]
    exact uncommanded_of_front (by decide +kernel) (by decide) _
  | number a =>
    obtain ⟨c, cs, hi, hc⟩ := number_front a o
    rw [Term.render]
    change Uncommanded (a.text.toList ++ o)
    rw [hi]
    refine uncommanded_of_front ?_ ?_ cs
    · rcases hc with hc | rfl
      · rw [(isNameChar_of_isDigit hc).2, Bool.false_or, beq_eq_false_iff_ne]
        rintro rfl
        exact absurd hc (by decide)
      · decide +kernel
    · rintro hmark
      simp only [List.mem_cons, List.not_mem_nil, or_false] at hmark
      rcases hmark with rfl | rfl <;> exact absurd hc (by decide)
  | text content =>
    rw [Term.render, Value.render, Value.quoted, String.toList_append, String.toList_append]
    exact uncommanded_of_front (by decide +kernel) (by decide) _
  | boolean b =>
    rw [render_boolean]
    have hmem := spelling_mem (bif b then Keyword.true else Keyword.false) v
    refine (startsWord_spelling _ hmem o).uncommanded fun k hk => ?_
    rw [(leading_spelling hmem ho.stops).1]
    exact spells_unique (spells_spelling _ v) (by revert k; cases b <;> decide)
  | @atom name hname _ =>
    rw [Term.render]
    refine (startsWord_of_isName hname o).uncommanded fun k hk => ?_
    rw [leading_append (isNameChar_of_isName hname) ho.stops]
    exact spells_of_isName hname (by revert k; decide)
  | list _ =>
    rw [Term.render, String.toList_append, String.toList_append]
    exact uncommanded_of_front (by decide +kernel) (by decide) _
  | pattern _ _ _ _ =>
    simp only [Term.render, String.toList_append]
    exact uncommanded_of_front (by decide +kernel) (by decide) _

theorem fails_arithmetic_of_front {c : Char} {cs : List Char} (hsolid : Solid (c :: cs)) (hd : isDigit c = false)
    (hc : c ∉ ['-', '?', '"', '\'', '«', '(']) : Fails true (call .arithmetic) (c :: cs) := by
  simp only [List.mem_cons, List.not_mem_nil, or_false, not_or] at hc
  have hprimary : Fails true (call .primary) (c :: cs) := by
    refine Fails.call (Fails.or (Fails.placed (Fails.map (fails_number_cons hd hc.1 cs)))
      (Fails.or (Fails.map (fails_var_cons hc.2.1 cs)) (Fails.or (Fails.map (fails_string_cons (by simp [hc]) cs))
        (Fails.left_left (Fails.right_left (fails_token_cons (d := '(') rfl hc.2.2.2.2.2 cs))))))
  have hsign : Fails true (call .negate) (c :: cs) := Fails.call (Fails.map (fails_token_cons (d := '-') rfl hc.1 cs))
  have hunary : Fails true (call .unary) (c :: cs) := by
    refine Fails.call (Reads.fails_ap (m := c :: cs) (Reads.map (hsign.many ?_)))
    change Fails true _ (gap true (c :: cs))
    rw [gap_true, hsolid.skipText]
    exact hprimary
  exact Fails.call (Fails.placed (Fails.ap_left (Fails.map (Fails.call (Fails.ap_left (Fails.map hunary))))))

theorem StartsWord.fails_arithmetic (h : StartsWord i) : Fails true (call .arithmetic) i := by
  have hsolid := h.solid
  obtain ⟨c, cs, rfl, hc⟩ := h
  refine fails_arithmetic_of_front hsolid (isDigit_of_start hc) fun hmem => ?_
  refine ne_of_isNameChar (isNameChar_of_start hc) ?_
  simp only [List.mem_cons, List.not_mem_nil, or_false] at hmem ⊢
  grind

/-- Where a term stands there is no formula, or one that is written as the term is. -/
theorem formula_of_term (v : Vocabulary) (ht : t.Readable) :
    (∀ o, Fails true (call .arithmetic) ((t.render v).toList ++ o)) ∨
      ∃ e : Formula, e.Readable ∧ (e.render v).toList = (t.render v).toList := by
  cases ht with
  | @anonymous x hx =>
    rw [Term.render, if_pos hx]
    exact Or.inl fun o => (startsWord_of_isName (w := ['_']) (by decide +kernel) o).fails_arithmetic
  | @var x hx => exact Or.inr ⟨.term (.var x), .var hx, rfl⟩
  | number a =>
    by_cases ha : 0 ≤ a.coefficient
    · exact Or.inr ⟨.term (.const (.number a)), .number ha, rfl⟩
    -- a number below zero is written like a sign before a number
    · have hneg : a.coefficient < 0 := Int.not_le.mp ha
      refine Or.inr ⟨.negate (.term (.const (.number a.neg))), .negate (.number ?_), ?_⟩
      · exact Int.neg_nonneg_of_nonpos (Int.le_of_lt hneg)
      · simp only [Formula.render, Formula.renderIn, Term.render, Value.render, String.toList_append,
          Decimal.text_of_neg hneg]
        rfl
  | text content => exact Or.inr ⟨.term (.const (.text content)), .text content, rfl⟩
  | boolean b =>
    rw [render_boolean]
    exact Or.inl fun o => (startsWord_spelling _ (spelling_mem _ v) o).fails_arithmetic
  | @atom name hname _ =>
    rw [Term.render]
    exact Or.inl fun o => (startsWord_of_isName hname o).fails_arithmetic
  | list _ =>
    refine Or.inl fun o => ?_
    rw [Term.render, String.toList_append, String.toList_append]
    exact fails_arithmetic_of_front (solid_cons rfl (by decide) _) (by decide) (by decide)
  | pattern _ _ _ _ =>
    refine Or.inl fun o => ?_
    simp only [Term.render, String.toList_append]
    exact fails_arithmetic_of_front (solid_cons rfl (by decide) _) (by decide) (by decide)

/-- Where a term and a single `=` stand nothing is compared. -/
theorem fails_comparison_of_term (v : Vocabulary) (ht : t.Readable) (m : List Char) :
    Fails true (call .comparison) ((t.render v).toList ++ ' ' :: '=' :: ' ' :: m) := by
  have hskip : Blank.skipText (' ' :: '=' :: ' ' :: m) = '=' :: ' ' :: m := by
    rw [Blank.skipText_blank rfl, Blank.skipText_stop rfl (by decide)]
  rcases formula_of_term v ht with h | ⟨e, he, htext⟩
  · exact fails_comparison (h _)
  · have ho : EndsFormula (' ' :: '=' :: ' ' :: m) := by
      refine ⟨endsTerm_cons (by simp [terminators]) _, ?_, ?_⟩
      · rw [hskip]
        exact fails_multiplicative (by decide) _
      · rw [hskip]
        exact fails_additive (by decide) _
    rw [← htext]
    refine fails_comparison_of_formula ((reads_formula v he ho).imp fun _ _ => trivial) ?_
    rw [hskip]
    exact fails_comparisonOperator_equals (by decide) m

end Terms

section Formulas

variable {v : Vocabulary} {e : Formula}

/-- A sign stands before a number, or before something that does not begin with a digit. -/
theorem negated_front (v : Vocabulary) (he : e.Readable) :
    (∃ a : Decimal, 0 ≤ a.coefficient ∧ (e.renderIn v 3).toList = a.text.toList) ∨
      ∀ o, ∃ c cs, (e.renderIn v 3).toList ++ o = c :: cs ∧ isDigit c = false := by
  cases he with
  | @number a ha =>
    refine Or.inl ⟨a, ha, ?_⟩
    rw [Formula.renderIn, Term.render]
    rfl
  | @var x hx =>
    refine Or.inr fun o => ?_
    rw [Formula.renderIn, Term.render, if_neg (by simp [hx.isHidden]), String.toList_append]
    exact ⟨'?', _, rfl, by decide⟩
  | text content =>
    refine Or.inr fun o => ?_
    rw [Formula.renderIn, Term.render, Value.render, Value.quoted, String.toList_append, String.toList_append]
    exact ⟨'"', _, rfl, by decide⟩
  | negate _ =>
    refine Or.inr fun o => ?_
    rw [Formula.renderIn, String.toList_append]
    exact ⟨'-', _, rfl, by decide⟩
  | binary op _ _ =>
    refine Or.inr fun o => ?_
    have hop : op.precedence < 3 := by cases op <;> decide
    simp only [Formula.renderIn, if_pos hop, String.toList_append]
    exact ⟨'(', _, rfl, by decide⟩

theorem reads_negative {a : Decimal} (ha : 0 ≤ a.coefficient) (ho : EndsTerm o) :
    Reads true (call .term) ('-' :: (a.text.toList ++ o)) o fun _ => True := by
  have htext : '-' :: (a.text.toList ++ o) = Decimal.plainForm true a.shownWhole a.shownDecimals ++ o := by
    have hsign : ¬ a.normalize.coefficient < 0 := Int.not_lt.mpr (Decimal.normalize_nonneg ha)
    rw [Decimal.text_toList, decide_eq_false hsign]
    rfl
  have hnumber : Reads true (call .number) ('-' :: (a.text.toList ++ o)) o fun _ => True := by
    rw [htext]
    exact (reads_plainForm a.shownWhole_ne_nil a.isDigit_shownWhole a.isDigit_shownDecimals ho.endsNumeral).imp
      fun _ _ => trivial
  have hanonymous : Fails true (call .anonymous) ('-' :: (a.text.toList ++ o)) :=
    fails_anonymous (by rintro _ ⟨⟩) (by rintro _ ⟨⟩)
  exact Reads.call (Reads.placed (Fails.orRight (Fails.map hanonymous) (Fails.orRight
    (Fails.map (fails_var_cons (by decide) _)) (Reads.orLeft (Reads.map (hnumber.imp fun _ _ _ => trivial))))))

/-- Where a formula stands there is no `is` behind the term that it may begin with. -/
theorem fails_isGoal_of_formula (v : Vocabulary) (he : e.Readable) (outer : Nat) (ho : EndsTerm o)
    (hstop : Stops (Blank.skipText o)) : Fails true (call .isGoal) ((e.renderIn v outer).toList ++ o) := by
  induction he generalizing outer o with
  | number _ => exact fails_isGoal_of_term ((reads_term v (.number _) o ho).imp fun _ _ => trivial) hstop
  | var hx => exact fails_isGoal_of_term ((reads_term v (.var hx) o ho).imp fun _ _ => trivial) hstop
  | text content => exact fails_isGoal_of_term ((reads_term v (.text content) o ho).imp fun _ _ => trivial) hstop
  | @negate e he _ =>
    have htext : ((Formula.negate e).renderIn v outer).toList ++ o = '-' :: ((e.renderIn v 3).toList ++ o) := by
      simp [Formula.renderIn]
    rw [htext]
    -- a sign and digits are a term, a sign before anything else is none
    rcases negated_front v he with ⟨a, ha, htext⟩ | hfront
    · rw [htext]
      exact fails_isGoal_of_term (reads_negative ha ho) hstop
    · obtain ⟨c, cs, hcs, hc⟩ := hfront o
      rw [hcs]
      refine fails_isGoal (fails_term_of_stops (by decide) (by decide) ?_)
      rintro - _ _ ⟨⟩
      exact hc
  | @binary op a b _ _ iha _ =>
    have hoperator (m : List Char) : Fails true (call .isGoal) ((a.renderIn v op.precedence).toList
        ++ ' ' :: (op.symbol.toList ++ ' ' :: m)) := by
      refine iha _ (endsTerm_cons (by simp [terminators]) _) ?_
      rw [Blank.skipText_blank rfl, solid_symbol]
      cases op <;> exact stops_cons (by decide) _
    simp only [Formula.renderIn]
    split
    · simp only [String.toList_append, List.append_assoc]
      exact fails_isGoal (fails_term_of_stops (by decide) (by decide) (by rintro ⟨⟩))
    · simp only [String.toList_append, List.append_assoc]
      exact hoperator _

theorem uncommanded_formula (v : Vocabulary) (he : e.Readable) (outer : Nat) (ho : EndsTerm o) :
    Uncommanded ((e.renderIn v outer).toList ++ o) := by
  induction he generalizing outer o with
  | number _ => exact uncommanded_term v (.number _) ho
  | var hx => exact uncommanded_term v (.var hx) ho
  | text content => exact uncommanded_term v (.text content) ho
  | negate _ _ =>
    rw [Formula.renderIn, String.toList_append]
    exact uncommanded_of_front (by decide +kernel) (by decide) _
  | binary op _ _ iha _ =>
    simp only [Formula.renderIn]
    split
    · simp only [String.toList_append, List.append_assoc]
      exact uncommanded_of_front (by decide +kernel) (by decide) _
    · simp only [String.toList_append, List.append_assoc]
      exact iha _ (endsTerm_cons (c := ' ') (by simp [terminators]) _)

end Formulas

end Language

end BilingualLogic
