import BilingualLogic.Proofs.Rendering.Goal

/-!
Written statements are read as the statements, one behind the other, and so a written program is read.
-/

namespace BilingualLogic

open BilingualLogic.Language Text

namespace Language

variable {v : Vocabulary} {head : Predicate} {goals : List Goal}

theorem reads_terminated {Q : Source.Statement → Prop} {i o : List Char}
    (h : Reads true (call .factDeclaration <|> call .ruleDeclaration <|> call .queryDeclaration <|> call .directive) i
      (';' :: o) Q) : Reads true statement i o Q := by
  refine Reads.left (h.imp fun x hx => ?_)
  rw [gap_true, Blank.skipText_stop rfl (by decide)]
  exact Reads.option (reads_oneOf (t := ";") (by simp) rfl hx)

theorem endsGoal_semicolon (o : List Char) : EndsGoal (';' :: o) := endsGoal_cons (by simp) o

theorem endsBody_semicolon (o : List Char) : EndsBody (';' :: o) := ⟨';', by simp, o, rfl⟩

/-- Declarations that are tried before the keyword of another. -/
theorem fails_declarations {k : Keyword} {m : List Char} (hm : Stops m) :
    (k ≠ .fact → Fails true (call .factDeclaration) ((k.spelling v).toList ++ m)) ∧
      (k ≠ .rule → Fails true (call .ruleDeclaration) ((k.spelling v).toList ++ m)) ∧
      (k ≠ .query → Fails true (call .queryDeclaration) ((k.spelling v).toList ++ m)) := by
  obtain ⟨-, hother⟩ := commanded (k := k) v hm
  refine ⟨fun h => ?_, fun h => ?_, fun h => ?_⟩
  · exact Fails.call (Fails.placed (Fails.map (Fails.right_left (fails_keyword (hother _ h.symm)))))
  · exact Fails.call (Fails.placed (Fails.ap_left (Fails.map (Fails.right_left (fails_keyword (hother _ h.symm))))))
  · exact Fails.call (Fails.placed (Fails.map (Fails.right_left (fails_keyword (hother _ h.symm)))))

theorem reads_declaredFact {m o : List Char} {Q : Source.Statement → Prop} (hm : Solid m)
    (h : Reads true (call .predicate) m (';' :: o) fun x => ∀ s, Q ⟨s, .fact x⟩) :
    Reads true statement ((Keyword.fact.spelling v).toList ++ ' ' :: m) o Q := by
  refine reads_terminated (Reads.orLeft (Reads.plain rfl (Reads.placed (Reads.map (Reads.right
    ((reads_spelling (spells_spelling .fact v) (stops_cons (by decide) _)).imp fun _ _ => ?_))))))
  rw [gap_true, Blank.skipText_blank rfl, hm.skipText]
  exact h

theorem reads_fact (hh : head.Readable) (s : Span) (o : List Char) :
    Reads true statement (((⟨.fact head, s⟩ : Statement).render v).toList ++ o) o (StatementForm.fact head).Means := by
  have htext : ((⟨.fact head, s⟩ : Statement).render v).toList ++ o
      = (Keyword.fact.spelling v).toList ++ ' ' :: ((head.render v).toList ++ ';' :: o) := by
    simp [Statement.render, Clause.render, Clause.isFact]
  rw [htext]
  exact reads_declaredFact (hh.startsWord v _).solid ((reads_predicate v hh (endsGoal_semicolon o).endsPredicate).imp
    fun x hx s => StatementForm.means_fact hx s)

theorem reads_rule (hh : head.Readable) (hne : goals ≠ []) (hg : ∀ g ∈ goals, g.Readable) (s : Span) (o : List Char) :
    Reads true statement (((⟨.rule head goals, s⟩ : Statement).render v).toList ++ o) o
      (StatementForm.rule head goals).Means := by
  have htext : ((⟨.rule head goals, s⟩ : Statement).render v).toList ++ o = (Keyword.rule.spelling v).toList
      ++ ' ' :: ((head.render v).toList ++ ' ' :: ':' :: '-' :: ' ' :: ((Goal.renderAll v goals).toList ++ ';' :: o)) := by
    simp [Statement.render, Clause.render, Clause.isFact, hne]
  have hstops (m : List Char) : Stops (' ' :: m) := stops_cons (by decide) m
  rw [htext]
  refine reads_terminated (Fails.orRight ((fails_declarations (hstops _)).1 (by decide)) (Reads.orLeft (Reads.plain rfl
    (Reads.placed (Reads.ap (m := ' ' :: ':' :: '-' :: ' ' :: ((Goal.renderAll v goals).toList ++ ';' :: o)) (Reads.map
      (Reads.right ((reads_spelling (spells_spelling .rule v) (hstops _)).imp fun _ _ => ?_))))))))
  rw [gap_true, Blank.skipText_blank rfl, (hh.startsWord v _).solid.skipText]
  refine (reads_predicate v hh (endsPredicate_implies _)).imp fun x hx => ?_
  rw [gap_true, skipText_implies]
  refine Reads.right (Reads.orLeft (reads_token (t := ":-") ?_))
  rw [gap_true, Blank.skipText_blank rfl, (goals_solid v hne hg _).skipText]
  exact (reads_body hne hg (fun g hg' => reads_goal v (hg g hg')) (endsBody_semicolon o)).imp fun b hb s =>
    StatementForm.means_rule hx hb s

theorem reads_query (hne : goals ≠ []) (hg : ∀ g ∈ goals, g.Readable) (s : Span) (o : List Char) :
    Reads true statement (((⟨.query goals, s⟩ : Statement).render v).toList ++ o) o
      (StatementForm.query goals).Means := by
  have htext : ((⟨.query goals, s⟩ : Statement).render v).toList ++ o
      = (Keyword.query.spelling v).toList ++ ' ' :: ((Goal.renderAll v goals).toList ++ ';' :: o) := by
    simp [Statement.render]
  have hstops (m : List Char) : Stops (' ' :: m) := stops_cons (by decide) m
  obtain ⟨hfact, hrule, -⟩ := fails_declarations (k := .query) (v := v) (hstops ((Goal.renderAll v goals).toList ++ ';' :: o))
  rw [htext]
  refine reads_terminated (Fails.orRight (hfact (by decide)) (Fails.orRight (hrule (by decide)) (Reads.orLeft
    (Reads.plain rfl (Reads.placed (Reads.map (Reads.right ((reads_spelling (spells_spelling .query v) (hstops _)).imp
      fun _ _ => ?_))))))))
  rw [gap_true, Blank.skipText_blank rfl, (goals_solid v hne hg _).skipText]
  exact (reads_body hne hg (fun g hg' => reads_goal v (hg g hg')) (endsBody_semicolon o)).imp fun b hb s =>
    StatementForm.means_query hb s

theorem reads_directive {g : Goal} {k : Keyword} {m o : List Char} (hk : k ∈ [.assert, .retract])
    (hfront : (g.render v).toList ++ ';' :: o = (k.spelling v).toList ++ ' ' :: m)
    (hread : Reads true (call .assertGoal <|> call .retractGoal) ((g.render v).toList ++ ';' :: o) (';' :: o) g.Means)
    (s : Span) : Reads true statement (((⟨.directive g, s⟩ : Statement).render v).toList ++ o) o
      (StatementForm.directive g).Means := by
  have htext : ((⟨.directive g, s⟩ : Statement).render v).toList ++ o = (g.render v).toList ++ ';' :: o := by
    simp [Statement.render]
  have hne : ∀ k ∈ [Keyword.assert, .retract], k ≠ .fact ∧ k ≠ .rule ∧ k ≠ .query := by decide
  obtain ⟨hnotFact, hnotRule, hnotQuery⟩ := hne k hk
  obtain ⟨hfact, hrule, hquery⟩ := fails_declarations (k := k) (v := v) (stops_cons (c := ' ') (by decide) m)
  rw [htext]
  rw [hfront] at hread ⊢
  refine reads_terminated (Fails.orRight (hfact hnotFact) (Fails.orRight (hrule hnotRule) (Fails.orRight
    (hquery hnotQuery) (Reads.plain rfl (Reads.placed (Reads.map ?_))))))
  exact hread.imp fun x hx s => StatementForm.means_directive hx s

theorem reads_assertion (hh : head.Readable) (hg : ∀ g ∈ goals, g.Readable) (s : Span) (o : List Char) :
    Reads true statement (((⟨.directive (.assert head goals), s⟩ : Statement).render v).toList ++ o) o
      (StatementForm.directive (.assert head goals)).Means := by
  have hfront : ((Goal.assert head goals).render v).toList ++ ';' :: o
      = (Keyword.assert.spelling v).toList ++ ' ' :: ((Goal.renderClause v head goals).toList ++ ';' :: o) := by
    rw [Goal.render]
    simp
  exact reads_directive (by simp) hfront (Reads.orLeft (reads_assertGoal hh hg (fun g hg' => reads_goal v (hg g hg'))
    (endsGoal_semicolon o))) s

theorem reads_retraction (hh : head.Readable) (hg : ∀ g ∈ goals, g.Readable) (s : Span) (o : List Char) :
    Reads true statement (((⟨.directive (.retract head goals), s⟩ : Statement).render v).toList ++ o) o
      (StatementForm.directive (.retract head goals)).Means := by
  have hfront : ((Goal.retract head goals).render v).toList ++ ';' :: o
      = (Keyword.retract.spelling v).toList ++ ' ' :: ((Goal.renderClause v head goals).toList ++ ';' :: o) := by
    rw [Goal.render]
    simp
  obtain ⟨-, -, -, hassert⟩ := commanded_clause v (k := .retract) (by simp)
    ((Goal.renderClause v head goals).toList ++ ';' :: o)
  rw [← hfront] at hassert
  exact reads_directive (by simp) hfront (Fails.orRight (hassert (by decide)) (reads_retractGoal hh hg
    (fun g hg' => reads_goal v (hg g hg')) (endsGoal_semicolon o))) s

theorem reads_statement (v : Vocabulary) {s : Statement} (hs : s.form.Readable) (o : List Char) :
    Reads true statement ((s.render v).toList ++ o) o s.form.Means := by
  obtain ⟨form, span⟩ := s
  cases hs with
  | fact hh => exact reads_fact hh span o
  | rule hh hne hg => exact reads_rule hh hne hg span o
  | query hne hg => exact reads_query hne hg span o
  | assert hh hg => exact reads_assertion hh hg span o
  | retract hh hg => exact reads_retraction hh hg span o

theorem statement_solid (v : Vocabulary) {s : Statement} (hs : s.form.Readable) (o : List Char) :
    Solid ((s.render v).toList ++ o) := by
  obtain ⟨form, span⟩ := s
  cases hs with
  | fact _ =>
    simp only [Statement.render, Clause.render, Clause.isFact, List.isEmpty_nil, if_true, String.toList_append,
      List.append_assoc]
    exact (startsWord_keyword .fact v _).solid
  | rule _ hne _ =>
    simp only [Statement.render, Clause.render, Clause.isFact, List.isEmpty_eq_false_iff.mpr hne, Bool.false_eq_true,
      if_false, String.toList_append, List.append_assoc]
    exact (startsWord_keyword .rule v _).solid
  | query _ _ =>
    simp only [Statement.render, String.toList_append, List.append_assoc]
    exact (startsWord_keyword .query v _).solid
  | assert hh hg =>
    simp only [Statement.render, String.toList_append, List.append_assoc]
    exact goal_solid v (.assert hh hg) _
  | retract hh hg =>
    simp only [Statement.render, String.toList_append, List.append_assoc]
    exact goal_solid v (.retract hh hg) _

theorem fails_statement_nil : Fails true statement [] := by
  have hkeyword (k : Keyword) : Fails true (keyword k) [] := fails_keyword_of_stops stops_nil
  have hclause {build : Source.Predicate → Span → List Source.Goal → Source.Goal} {k : Keyword} :
      Fails true (clauseTarget build k) [] :=
    fails_clauseTarget (by rw [leading_of_stops stops_nil, spells_nil])
  refine Fails.left_left (Fails.or ?_ (Fails.or ?_ (Fails.or ?_ ?_)))
  · exact Fails.call (Fails.placed (Fails.map (Fails.right_left (hkeyword _))))
  · exact Fails.call (Fails.placed (Fails.ap_left (Fails.map (Fails.right_left (hkeyword _)))))
  · exact Fails.call (Fails.placed (Fails.map (Fails.right_left (hkeyword _))))
  · exact Fails.call (Fails.placed (Fails.map (Fails.or (Fails.call hclause) (Fails.call hclause))))

theorem reads_statements {γ : Type} {text : γ → List Char} {Q : γ → Source.Statement → Prop} {xs : List γ}
    (h : ∀ x ∈ xs, ∀ o, Solid (text x ++ o) ∧ Reads true statement (text x ++ o) o (Q x)) :
    Reads true (call .program) (xs.flatMap text) [] (List.Forall₂ Q xs) := by
  have hmore : ReadsMore true statement (xs.flatMap text) [] (List.Forall₂ Q xs) := by
    induction xs with
    | nil =>
      refine Fails.more ?_ .nil
      rw [gap_true, List.flatMap_nil, Blank.skipText_nil]
      exact fails_statement_nil
    | cons x xs ih =>
      obtain ⟨hx, hxs⟩ := List.forall_mem_cons.mp h
      rw [List.flatMap_cons]
      refine Reads.more (m := xs.flatMap text) rfl rfl ?_
      rw [gap_true, (hx _).1.skipText]
      exact (hx _).2.imp fun y hy => (ih hxs).imp fun ys hys => .cons hy hys
  refine Reads.plain rfl (Reads.left (m := []) (Reads.right (reads_pure ?_)))
  refine (hmore.many rfl rfl).imp fun ys hys => ?_
  rw [gap_true, Blank.skipText_nil]
  exact Reads.call (reads_finish hys)

/-- The text of statements that are written one behind the other. -/
def written (v : Vocabulary) (ss : List Statement) : List Char := ss.flatMap fun s => (s.render v).toList

theorem reads_program (v : Vocabulary) {ss : List Statement} (hss : ∀ s ∈ ss, s.form.Readable) :
    Reads true (call .program) (written v ss) [] (List.Forall₂ StatementForm.Means (ss.map Statement.form)) := by
  have hread : Reads true (call .program) (written v ss) [] (List.Forall₂ (fun s => StatementForm.Means s.form) ss) :=
    reads_statements fun s hs o => ⟨statement_solid v (hss s hs) o, reads_statement v (hss s hs) o⟩
  exact hread.imp fun xs hxs => List.forall₂_map_left_iff.mpr hxs

end Language

theorem parse_statements (v : Vocabulary) {ss : List Statement} (hss : ∀ s ∈ ss, s.form.Readable) {limits : Limits}
    (hsize : (String.join (ss.map (Statement.render v))).utf8ByteSize ≤ limits.maxFileSize)
    (hdepth : ∀ s ∈ ss, s.form.depth ≤ limits.maxTermDepth) (source : String) :
    ∃ p, Program.parse limits source (String.join (ss.map (Statement.render v))) = .ok p ∧
      p.statements.map Statement.form = StatementForm.rereadAll 0 (ss.map Statement.form) := by
  have htext : (String.join (ss.map (Statement.render v))).toList = written v ss := by
    rw [String.toList_join, List.flatMap_map]
    rfl
  obtain ⟨xs, d, hxs, -, hmeans⟩ := reads_program v hss .start
  rw [← htext] at hxs
  have hparse : grammar.parse Source.ruleDepth .program (String.join (ss.map (Statement.render v))) = .ok xs :=
    ranking.parse_ok.mpr ⟨d, hxs⟩
  have hrule : Source.parseRule .program source (String.join (ss.map (Statement.render v))) = .ok xs := by
    rw [Source.parseRule, hparse]
  obtain ⟨ss', hread, hforms⟩ := StatementForm.readStatements_means hmeans (c := ⟨source, limits.maxTermDepth⟩)
    (by simpa using hdepth) 0 []
  refine ⟨⟨source, ss'⟩, ?_, hforms⟩
  rw [Program.parse, if_neg (Nat.not_lt.mpr hsize), hrule]
  change (Source.readStatements ⟨source, limits.maxTermDepth⟩ 0 [] xs >>= fun ss => Except.ok (⟨source, ss⟩ : Program))
    = Except.ok ⟨source, ss'⟩
  rw [hread]
  rfl

end BilingualLogic
