import BilingualLogic.Proofs.Store.Retraction

/-!
Facts and rules in a retraction. The facts and the rules of a predicate are in one list, and a retraction looks at the
heads alone. So it removes the first fact that unifies with its pattern unless a rule that unifies stands in front of
all facts that do: then it is the rule that goes, and the facts stay.
-/

namespace BilingualLogic.Store

variable {n : Nat} {s s' : Store} {p : Predicate} {removed : Bool}

/-- The clause is a fact, and its head unifies with the pattern. -/
def FactUnifies (n : Nat) (p : Predicate) (c : StoredClause) : Prop :=
  c.clause.isFact = true ∧ headUnifies n p c = some true

/-- The first clause whose head unifies with the pattern is a rule. -/
def RuleFirst (n : Nat) (s : Store) (p : Predicate) : Prop :=
  ∃ r, (s.storedClauses p.key).find? (headUnifies n p · = some true) = some r ∧ r.clause.isFact = false

theorem removeFirst_returns_of_forall {q : StoredClause → Bounded Bool} {cs : List StoredClause}
    (h : ∀ c ∈ cs, ∃ b, q c = some b) : ∃ r, removeFirst q cs = some r := by
  induction cs with
  | nil => exact ⟨none, rfl⟩
  | cons c cs ih =>
    obtain ⟨⟨b, hb⟩, hcs⟩ := List.forall_mem_cons.mp h
    rw [removeFirst, hb]
    cases b with
    | true => exact ⟨some cs, rfl⟩
    | false =>
      obtain ⟨r, hr⟩ := ih hcs
      exact ⟨r.map (c :: ·), by rw [hr]; rfl⟩

theorem retractHead_returns_of_forall (h : ∀ c ∈ s.storedClauses p.key, ∃ b, headUnifies n p c = some b) :
    ∃ removed s', s.retractHead n p = some (removed, s') := by
  obtain ⟨r, hr⟩ := removeFirst_returns_of_forall h
  rw [retractHead, hr]
  cases r with
  | none => exact ⟨false, s, rfl⟩
  | some cs => exact ⟨true, s.replaceClauses p.key cs, rfl⟩

/-- If taking one clause out of a list leaves what taking out another one leaves, both are facts or both are rules. -/
theorem isFact_eq_of_split {before after before' after' : List StoredClause} {c d : StoredClause}
    (hwhole : before ++ c :: after = before' ++ d :: after') (hleft : before ++ after = before' ++ after') :
    c.clause.isFact = d.clause.isFact := by
  have hall := congrArg (List.countP (·.clause.isFact)) hwhole
  have hrest := congrArg (List.countP (·.clause.isFact)) hleft
  simp only [List.countP_append, List.countP_cons] at hall hrest
  have hone : (if c.clause.isFact = true then 1 else 0) = if d.clause.isFact = true then 1 else 0 := by omega
  cases hc : c.clause.isFact <;> cases hd : d.clause.isFact <;> simp [hc, hd] at hone ⊢

theorem find?_headUnifies {cs before after : List StoredClause} {c : StoredClause} (hcs : cs = before ++ c :: after)
    (hc : headUnifies n p c = some true) (hbefore : ∀ d ∈ before, ¬ headUnifies n p d = some true) :
    cs.find? (headUnifies n p · = some true) = some c :=
  List.find?_eq_some_iff_append.mpr ⟨by simpa using hc, before, after, hcs, fun d hd => by simpa using hbefore d hd⟩

/-- A rule that goes is not the fact that should have gone: the facts that are left are as many as before. -/
theorem RuleFirst.not_removesFirst (h : s.RuleFirst n p) (hs' : s.retractHead n p = some (removed, s')) :
    ¬ s.RemovesFirst p.key (FactUnifies n p) removed s' := by
  rintro ⟨-, hgoes, -⟩
  obtain ⟨r, hr, hrule⟩ := h
  obtain ⟨hiff, hfirst, -⟩ := retractHead_removesFirst hs'
  have hremoved : removed = true := hiff.mpr ⟨r, List.mem_of_find?_eq_some hr, by simpa using List.find?_some hr⟩
  obtain ⟨before, c, after, hcs, hc, hbefore, hleft⟩ := hfirst hremoved
  obtain ⟨before', d, after', hcs', hd, -, hleft'⟩ := hgoes hremoved
  obtain rfl : r = c := by simpa [hr] using find?_headUnifies hcs hc hbefore
  have hsame : before ++ after = before' ++ after' := by simpa using (hleft p.key).symm.trans (hleft' p.key)
  have hfact : r.clause.isFact = true := (isFact_eq_of_split (hcs.symm.trans hcs') hsame).trans hd.1
  rw [hrule] at hfact
  cases hfact

theorem removesFirst_of_not_ruleFirst (h : ¬ s.RuleFirst n p) (hs' : s.retractHead n p = some (removed, s')) :
    s.RemovesFirst p.key (FactUnifies n p) removed s' := by
  obtain ⟨hiff, hfirst, hnone⟩ := retractHead_removesFirst hs'
  cases removed with
  | false =>
    refine ⟨⟨by simp, ?_⟩, by simp, hnone⟩
    rintro ⟨c, hc, -, hunifies⟩
    exact hiff.mpr ⟨c, hc, hunifies⟩
  | true =>
    obtain ⟨before, c, after, hcs, hc, hbefore, hleft⟩ := hfirst rfl
    have hfact : c.clause.isFact = true := by
      by_contra hrule
      exact h ⟨c, find?_headUnifies hcs hc hbefore, by simpa using hrule⟩
    refine ⟨⟨fun _ => ⟨c, by simp [hcs], hfact, hc⟩, fun _ => rfl⟩, fun _ => ?_, by simp⟩
    exact ⟨before, c, after, hcs, ⟨hfact, hc⟩, fun d hd hits => hbefore d hd hits.2, hleft⟩

/-- Where the unification with every head of the predicate ends, a retraction answers. It removes the first fact that
unifies and keeps all other clauses in order, or answers false and changes nothing where no fact unifies, as long as
the first clause that unifies is not a rule. If it is one, the retraction does something else. -/
theorem retractHead_fact_iff (h : ∀ c ∈ s.storedClauses p.key, ∃ b, headUnifies n p c = some b) :
    ∃ removed s', s.retractHead n p = some (removed, s') ∧
      (s.RemovesFirst p.key (FactUnifies n p) removed s' ↔ ¬ s.RuleFirst n p) := by
  obtain ⟨removed, s', hs'⟩ := retractHead_returns_of_forall h
  refine ⟨removed, s', hs', fun hfacts hrule => ?_, fun hrule => removesFirst_of_not_ruleFirst hrule hs'⟩
  exact hrule.not_removesFirst hs' hfacts

/-- The fact `p(a)`. -/
def factA : Clause := ⟨⟨"p", [.atom "a"]⟩, []⟩

/-- The rule `p(?X) :- q(?X)`. -/
def ruleX : Clause := ⟨⟨"p", [.var "X"]⟩, [.call ⟨"q", [.var "X"]⟩]⟩

theorem headUnifies_factA (i : Nat) : headUnifies 2 factA.head ⟨i, factA⟩ = some true := by
  have hhead : (factA.rename i).head = factA.head := by
    simp [factA, Clause.rename, Clause.mapTerms, Predicate.mapTerms, Term.bindVars, Term.atom]
  rw [headUnifies, hhead]
  decide +kernel

theorem headUnifies_ruleX (i : Nat) : headUnifies 2 factA.head ⟨i, ruleX⟩ = some true := by
  have hhead : (ruleX.rename i).head = ⟨"p", [.var (Clause.renamed i "X")]⟩ := by
    simp [ruleX, Clause.rename, Clause.mapTerms, Predicate.mapTerms, Term.bindVars]
  rw [headUnifies, hhead]
  rfl

/-- With the fact in front of the rule the pattern `p(a)` removes the fact. -/
theorem retractHead_fact_iff_in_front :
    ∃ removed s', ((Store.empty.add factA).add ruleX).retractHead 2 factA.head = some (removed, s') ∧
      ((Store.empty.add factA).add ruleX).RemovesFirst factA.head.key (FactUnifies 2 factA.head) removed s' := by
  have hstored : ((Store.empty.add factA).add ruleX).storedClauses factA.head.key = [⟨0, factA⟩, ⟨1, ruleX⟩] := rfl
  have hreturns : ∀ c ∈ ((Store.empty.add factA).add ruleX).storedClauses factA.head.key,
      ∃ b, headUnifies 2 factA.head c = some b := by
    simp [hstored, headUnifies_factA, headUnifies_ruleX]
  obtain ⟨removed, s', hs', hiff⟩ := retractHead_fact_iff hreturns
  refine ⟨removed, s', hs', hiff.mpr ?_⟩
  rintro ⟨r, hr, hrule⟩
  obtain rfl : ⟨0, factA⟩ = r := by simpa [hstored, headUnifies_factA] using hr
  cases hrule

/-- With the rule in front of the fact the pattern `p(a)` removes the rule, and the fact stays. -/
theorem retractHead_removes_rule : ∃ s',
    ((Store.empty.add ruleX).add factA).retractHead 2 factA.head = some (true, s') ∧
      s'.clauses factA.head.key = [factA] ∧
      ¬ ((Store.empty.add ruleX).add factA).RemovesFirst factA.head.key (FactUnifies 2 factA.head) true s' := by
  have hstored : ((Store.empty.add ruleX).add factA).storedClauses factA.head.key = [⟨0, ruleX⟩, ⟨1, factA⟩] := rfl
  have hremoves : ((Store.empty.add ruleX).add factA).retractHead 2 factA.head =
      some (true, ((Store.empty.add ruleX).add factA).replaceClauses factA.head.key [⟨1, factA⟩]) := by
    rw [retractHead, hstored, removeFirst, headUnifies_ruleX]
    rfl
  have hrule : ((Store.empty.add ruleX).add factA).RuleFirst 2 factA.head :=
    ⟨⟨0, ruleX⟩, by simp [hstored, headUnifies_ruleX], rfl⟩
  exact ⟨_, hremoves, rfl, hrule.not_removesFirst hremoves⟩

end BilingualLogic.Store
