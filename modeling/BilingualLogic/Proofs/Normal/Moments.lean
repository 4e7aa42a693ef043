import BilingualLogic.Proofs.Loading.Moments
import BilingualLogic.Proofs.Normal.Steps
import BilingualLogic.Proofs.Rendering.Sharing
import BilingualLogic.Proofs.Store.Listing

/-!
The moments of a session whose host edits the clauses and asks queries of its own between loading sources. At all of
them every pattern is normal: in the clauses, in the searches that are open, in their answers and in what is collected.
-/

namespace BilingualLogic

/-- All that stands in the statement is normal. -/
def StatementForm.Normal : StatementForm → Prop
  | .fact head => head.Normal
  | .rule head body => head.Normal ∧ ∀ g ∈ body, g.Normal
  | .query goals => ∀ g ∈ goals, g.Normal
  | .directive g => g.Normal

namespace Source

theorem Goal.Valid.gives_normal {g : Goal} (h : g.Valid) (depth : Nat) :
    (g.read depth).Gives BilingualLogic.Goal.Normal := by
  obtain ⟨x, hx, -⟩ := exists_visibleName []
  intro c n g k hg
  exact BilingualLogic.Goal.isNormal_of_spoken (h.gives_readable hx depth c n g k hg)

theorem Predicate.Valid.gives_normal {p : Predicate} (h : p.Valid) (depth : Nat) :
    (p.read depth).Gives BilingualLogic.Predicate.Normal :=
  fun c n q k hq => (h.gives_readable depth c n q k hq).isNormal

theorem Body.Valid.gives_normal {b : Body} (h : b.Valid) : b.read.Gives fun gs => ∀ g ∈ gs, g.Normal :=
  .checked (Goal.gives_readAll fun x hx => (h.goals x hx).gives_normal 0)

theorem StatementForm.Valid.gives_normal {s : Statement} (h : s.form.Valid) : s.read.Gives fun s => s.form.Normal := by
  obtain ⟨span, form⟩ := s
  have directive {g : Goal} (hg : g.Valid) : (Statement.read ⟨span, .directive g⟩).Gives fun s => s.form.Normal :=
    .bind (hg.gives_normal 0) fun _ hg => Reading.gives_pure hg
  cases h with
  | fact hhead => exact .bind (hhead.gives_normal 0) fun _ hhead => Reading.gives_pure hhead
  | rule hhead hbody =>
    exact .bind (hhead.gives_normal 0) fun _ hhead => .bind hbody.gives_normal fun _ hbody =>
      Reading.gives_pure ⟨hhead, hbody⟩
  | query hbody => exact .bind hbody.gives_normal fun _ hgoals => Reading.gives_pure hgoals
  | assert s hhead hbody => exact directive (.assert s hhead hbody)
  | retract s hhead hbody => exact directive (.retract s hhead hbody)

end Source

theorem Program.normal_of_parse {limits : Limits} {source text : String} {p : Program}
    (h : Program.parse limits source text = .ok p) : ∀ st ∈ p.statements, st.form.Normal := by
  obtain ⟨tree, htree, hread⟩ := statements_of_parse h
  have hvalid := Source.valid_of_parse htree
  exact Source.gives_of_readStatements (fun x hx => Source.StatementForm.Valid.gives_normal (hvalid x hx))
    (List.forall_mem_nil _) hread

theorem Goal.normal_of_parseQuery {text : String} {goals : List Goal} (h : Goal.parseQuery text = .ok goals) :
    ∀ g ∈ goals, g.Normal := by
  obtain ⟨b, k, hb, hread⟩ := Source.parseAlone_eq_ok h
  exact (Source.valid_of_parseQuery hb).gives_normal _ _ _ _ hread

theorem Term.isNormal_of_parse {text : String} {t : Term} (h : Term.parse text = .ok t) : t.isNormal = true := by
  obtain ⟨x, k, hx, hread⟩ := Source.parseAlone_eq_ok h
  exact ((Source.valid_of_parseTerm hx).gives_readable _ _ _ _ _ hread).isNormal

theorem Formula.isNormal_of_parse {text : String} {e : Formula} (h : Formula.parse text = .ok e) :
    ∀ t ∈ e.terms, t.isNormal = true := by
  obtain ⟨y, hy, -⟩ := exists_visibleName []
  obtain ⟨x, k, hx, hread⟩ := Source.parseAlone_eq_ok h
  exact isNormal_of_spoken ((Source.valid_of_parseFormula hx).gives_readable hy _ _ _ _ _ hread)

/-- The values that the solution reports are normal. -/
def Solution.Normal (s : Solution) : Prop := ∀ binding ∈ s.bindings, binding.2.isNormal = true

/-- What is reported is resolved, so it does not matter what is bound. -/
theorem Solution.normal_project (vars : List String) (b : Substitution) : (project vars b).Normal := by
  rintro ⟨x, t⟩ hbinding
  obtain ⟨y, -, hy⟩ := List.mem_filterMap.mp hbinding
  have hresolved := b.isNormal_resolve (.var y)
  split at hy
  · cases hy
  · cases hy
    exact hresolved

section Reports

variable {limits : Limits} {n : Nat} {w w' : World} {q q' : Query}

theorem Query.next_normal {solution : Solution} (h : q.next limits n w = some (some solution, w', q')) :
    solution.Normal := by
  obtain ⟨⟨answer, w₁, s⟩, -, heq⟩ := Option.map_eq_some_iff.mp h
  cases answer with
  | none => cases heq
  | some b =>
    cases heq
    exact Solution.normal_project q.vars b

theorem Query.take_normal {k : Nat} {done solutions : List Solution} (hdone : ∀ s ∈ done, s.Normal)
    (h : q.take limits n done k w = some (solutions, w', q')) : ∀ s ∈ solutions, s.Normal := by
  induction k generalizing w q done with
  | zero =>
    cases h
    exact fun s hs => hdone s (List.mem_reverse.mp hs)
  | succ k ih =>
    rw [take] at h
    split at h
    · cases h
    · cases h
      exact fun s hs => hdone s (List.mem_reverse.mp hs)
    · next hnext => exact ih (List.forall_mem_cons.mpr ⟨next_normal hnext, hdone⟩) h

theorem Query.collect_normal {solutions : List Solution} (h : q.collect limits n w = some (.ok solutions, w')) :
    ∀ s ∈ solutions, s.Normal := by
  obtain ⟨⟨found, w₁, q₁⟩, hall, heq⟩ := Option.map_eq_some_iff.mp h
  dsimp only at heq
  split at heq
  · cases heq
  · cases heq
    rw [all] at hall
    split at hall
    · cases hall
    · next htake =>
      split at hall
      · cases hall
        exact take_normal (List.forall_mem_nil _) htake
      · cases hall

def Response.Normal (r : Response) : Prop := ∀ result ∈ r.results, ∀ s ∈ result.solutions, s.Normal

namespace Session

variable {s s' : Session} {id code : String} {r r' : Response}

theorem execute_reports {st : Statement} (hr : r.Normal) (h : execute n code s r st = some (s', r')) : r'.Normal := by
  unfold execute at h
  dsimp only at h
  split at h
  · cases h
    exact hr
  · cases h
    exact hr
  · obtain ⟨⟨answer, w⟩, hcollect, h⟩ := Option.map_eq_some_iff.mp h
    cases h
    refine List.forall_mem_cons.mpr ⟨?_, hr⟩
    cases answer with
    | error e => exact List.forall_mem_nil _
    | ok solutions => exact Query.collect_normal hcollect
  · obtain ⟨_, -, h⟩ := Option.map_eq_some_iff.mp h
    cases h
    exact hr

theorem executeAll_reports {sts : List Statement} (hr : r.Normal) (h : executeAll n code s r sts = some (s', r')) :
    r'.Normal := by
  induction sts generalizing s r with
  | nil =>
    cases h
    exact fun result hresult => hr result (List.mem_reverse.mp hresult)
  | cons st sts ih =>
    rw [executeAll] at h
    split at h
    · cases h
    · next hst => exact ih (execute_reports hr hst) h

theorem load_reports (h : s.load n id code = some (.ok (s', r))) : r.Normal := by
  unfold load at h
  split at h
  · cases h
  · split at h
    · cases h
    · obtain ⟨_, hexecuted, h⟩ := Option.map_eq_some_iff.mp h
      cases h
      refine executeAll_reports ?_ hexecuted
      exact List.forall_mem_nil _

end Session

end Reports

namespace Search

variable {limits : Limits} {toEnd : Bool} {n : Nat} {w w' : World} {s s' : Search}

/-- What a goal is proved with inside the search begins normal. -/
theorem Normal.inside {f : Frame} {rest : List Frame} {b : Substitution} {goals : List Goal} (h : s.Normal)
    (hcurrent : s.current = some ⟨f :: rest, b⟩) (hinner : f.goal.inner? = some goals) (steps : Nat) :
    (start goals b steps).Normal := by
  have hbranch := h.current _ hcurrent
  exact normal_start ((hbranch.goals f List.mem_cons_self).inner hinner) hbranch.bindings steps

theorem Visits.normal (hv : Visits limits toEnd w s w' s') (hs : s.Normal) : s'.Normal := by
  induction hv with
  | here => exact hs
  | negation _ hcurrent _ _ ih => exact ih (hs.inside hcurrent rfl _)
  | collection _ hcurrent _ _ ih => exact ih (hs.inside hcurrent rfl _)
  | later hturn _ ih => exact ih (turn_normal hs hturn)
  | resumed hturn _ ih => exact ih (turn_normal hs hturn)

end Search

theorem StatementForm.Normal.keeps {form : StatementForm} (h : form.Normal) :
    form.Keeps (·.All Clause.Normal) fun _ => True := by
  cases form with
  | fact head => exact fun s hs => hs.add (Clause.normal_iff.mpr ⟨h, List.forall_mem_nil _⟩)
  | rule head body => exact fun s hs => hs.add (Clause.normal_iff.mpr h)
  | query goals => exact fun _ _ => trivial
  | directive g => trivial

/-- The searches that carrying out normal statements starts are normal. -/
theorem Session.Visits.normal {s : Session} {code : String} {sts : List Statement} {w : World} {q : Option Search}
    (hv : s.Visits code sts w q) (hsts : ∀ st ∈ sts, st.form.Normal) : ∀ search ∈ q, search.Normal := by
  induction hv with
  | between => exact fun _ hq => (nomatch hq)
  | query hform hv =>
    have hst := (List.forall_mem_cons.mp hsts).1
    rw [hform] at hst
    rintro _ ⟨⟩
    exact hv.normal (Search.normal_start hst Substitution.normal_empty 0)
  | directive hform hv =>
    have hst := (List.forall_mem_cons.mp hsts).1
    rw [hform] at hst
    rintro _ ⟨⟩
    exact hv.normal (Search.normal_start (List.forall_mem_singleton.mpr hst) Substitution.normal_empty 0)
  | later _ _ ih => exact ih (List.forall_mem_cons.mp hsts).2

/-- The worlds and open searches that a session and its host lead to. Sources are loaded statement by statement and turn
by turn; in between the host edits the store, asks queries in texts or goals that it put together, and pulls any of the
searches that are open, which may be inside one another. -/
inductive Attainable (limits : Limits) : World → List Search → Prop
  | start : Attainable limits ⟨∅, 0⟩ []
  | load {s : Session} {ss : List Search} {id code : String} {p : Program} {warnings : List Warning} {w : World}
    {q : Option Search} : s.limits = limits → Attainable limits s.world ss → s.Accepts id code p warnings →
    (s.loading id code).Visits code p.statements w q → Attainable limits w (q.toList ++ ss)
  | edit {w : World} {ss : List Search} {e : Store.Edit} {store : Store} : Attainable limits w ss →
    e.Gives w.store store → (∀ c, e = .add c → c.Normal) → Attainable limits { w with store } ss
  | ask {w : World} {ss : List Search} {text : String} {goals : List Goal} : Attainable limits w ss →
    Goal.parseQuery text = .ok goals → Attainable limits w (.start goals ∅ 0 :: ss)
  | prove {w : World} {ss : List Search} {goals : List Goal} : Attainable limits w ss → (∀ g ∈ goals, g.Normal) →
    Attainable limits w (.start goals ∅ 0 :: ss)
  | turned {w : World} {l r : List Search} {s : Search} {n : Nat} {t : Search.Turn} :
    Attainable limits w (l ++ s :: r) → Search.turn limits n w s = some t →
    Attainable limits t.world (l ++ t.search :: r)
  | inside {w : World} {ss : List Search} {s : Search} {f : Frame} {rest : List Frame} {b : Substitution}
    {goals : List Goal} : Attainable limits w ss → s ∈ ss → s.current = some ⟨f :: rest, b⟩ →
    f.goal.inner? = some goals → Attainable limits w (.start goals b (s.steps + 1) :: ss)
  | closed {w : World} {l r : List Search} {s : Search} : Attainable limits w (l ++ s :: r) →
    Attainable limits w (l ++ r)

theorem Attainable.normal {limits : Limits} {w : World} {ss : List Search} (h : Attainable limits w ss) :
    w.store.All Clause.Normal ∧ ∀ s ∈ ss, s.Normal := by
  induction h with
  | start => exact ⟨Store.all_empty, List.forall_mem_nil _⟩
  | load _ _ haccepts hv ih =>
    have hsts := Program.normal_of_parse haccepts.parsed
    have hstore := (hv.keeps Search.lasting_normal (fun st hst => (hsts st hst).keeps) ih.1).1
    exact ⟨hstore, List.forall_mem_append.mpr
      ⟨fun search hsearch => hv.normal hsts search (Option.mem_toList.mp hsearch), ih.2⟩⟩
  | edit _ he hadded ih => exact ⟨he.all ih.1 hadded, ih.2⟩
  | ask _ hp ih =>
    have hstart := Search.normal_start (Goal.normal_of_parseQuery hp) Substitution.normal_empty 0
    exact ⟨ih.1, List.forall_mem_cons.mpr ⟨hstart, ih.2⟩⟩
  | prove _ hgoals ih =>
    exact ⟨ih.1, List.forall_mem_cons.mpr ⟨Search.normal_start hgoals Substitution.normal_empty 0, ih.2⟩⟩
  | turned _ ht ih =>
    obtain ⟨hl, hs, hr⟩ := List.forall_mem_append.mp ih.2 |>.imp_right List.forall_mem_cons.mp
    exact ⟨Search.turn_store_normal ih.1 ht,
      List.forall_mem_append.mpr ⟨hl, List.forall_mem_cons.mpr ⟨Search.turn_normal hs ht, hr⟩⟩⟩
  | inside _ hs hcurrent hinner ih =>
    exact ⟨ih.1, List.forall_mem_cons.mpr ⟨(ih.2 _ hs).inside hcurrent hinner _, ih.2⟩⟩
  | closed _ ih =>
    obtain ⟨hl, hr⟩ := List.forall_mem_append.mp ih.2
    exact ⟨ih.1, List.forall_mem_append.mpr ⟨hl, (List.forall_mem_cons.mp hr).2⟩⟩

theorem Attainable.loaded {limits : Limits} {ss : List Search} {s s' : Session} {n : Nat} {id code : String}
    {r : Response} (h : Attainable limits s.world ss) (hl : s.limits = limits)
    (hload : s.load n id code = some (.ok (s', r))) : Attainable limits s'.world ss := by
  obtain ⟨p, haccepts, -, hv⟩ := Session.accepts_of_load hload
  exact .load hl h haccepts hv

/-- What a session shows at a moment is normal: its clauses, the goals, bindings and choices of the searches, what any
further pull of these answers and reports, and what is collected from them. -/
structure MomentNormal (limits : Limits) (w : World) (ss : List Search) : Prop where
  store : w.store.All Clause.Normal
  searches : ∀ s ∈ ss, s.Normal
  answers {s s' : Search} {n : Nat} {w' : World} {b : Substitution} : s ∈ ss →
    s.next limits n w = some (some b, w', s') → b.Normal
  solutions {s : Search} {n : Nat} {w' : World} {vars : List String} {solution : Solution} {q : Query} : s ∈ ss →
    Query.next limits n w ⟨vars, s⟩ = some (some solution, w', q) → solution.Normal
  collected {s s' : Search} {n : Nat} {w' : World} {t : Term} {ts : List Term} (kind : Collection) : s ∈ ss →
    Search.gather limits n w s t [] = some (ts, w', s') → ∀ u ∈ kind.arrange ts, u.isNormal = true

/-- What makes terms makes normal ones. Reading, replacing variables, copying, resolving, asserting and reporting do so
whatever they are given, and what makes bindings does if its arguments and the bindings so far are normal. -/
structure MakesNormal (limits : Limits) : Prop where
  program {source text : String} {p : Program} : Program.parse limits source text = .ok p →
    ∀ st ∈ p.statements, st.form.Normal
  query {text : String} {goals : List Goal} : Goal.parseQuery text = .ok goals → ∀ g ∈ goals, g.Normal
  term {text : String} {t : Term} : Term.parse text = .ok t → t.isNormal = true
  formula {text : String} {e : Formula} : Formula.parse text = .ok e → ∀ t ∈ e.terms, t.isNormal = true
  cons {as : List Term} {r : Term} : (∀ t ∈ as, t.isNormal = true) → r.isNormal = true →
    (Term.cons as r).isNormal = true
  bindVars {f : String → Term} (t : Term) : (∀ x, (f x).isNormal = true) → (t.bindVars f).isNormal = true
  rename (n : Nat) (c : Clause) : (c.rename n).Normal
  resolve (s : Substitution) (t : Term) : (s.resolve t).isNormal = true
  binder {o : Binder} {s s' : Substitution} : o.Gives s s' → s.Normal → (∀ t ∈ o.arguments, t.isNormal = true) →
    s'.Normal
  head {n : Nat} {p q : Predicate} {s s' : Substitution} : p.unify n q s = some (some s') → s.Normal → p.Normal →
    q.Normal → s'.Normal
  assert {s : Store} (head : Predicate) (body : List Goal) (b : Substitution) : s.All Clause.Normal →
    (s.add ⟨head.mapTerms b.resolve, Goal.mapTermsAll b.resolve body⟩).All Clause.Normal
  report {s s' : Session} {n : Nat} {id code : String} {r : Response} : s.load n id code = some (.ok (s', r)) → r.Normal

theorem patterns_normal (limits : Limits) :
    (∀ w ss, Attainable limits w ss → MomentNormal limits w ss) ∧ MakesNormal limits := by
  constructor
  · intro w ss h
    obtain ⟨hstore, hss⟩ := h.normal
    exact {
      store := hstore
      searches := hss
      answers := fun hs hnext => (Search.next_normal (hss _ hs) hnext).2 _ rfl
      solutions := fun _ hnext => Query.next_normal hnext
      collected := fun _ _ hgather u hu => Search.gather_normal hgather u (Collection.mem_arrange hu) }
  · exact {
      program := Program.normal_of_parse
      query := Goal.normal_of_parseQuery
      term := Term.isNormal_of_parse
      formula := Formula.isNormal_of_parse
      cons := Term.hereditary_isNormal.cons
      bindVars := fun t hf => Term.isNormal_bindVars hf t
      rename := Clause.normal_rename
      resolve := Substitution.isNormal_resolve
      binder := Binder.Gives.normal
      head := fun h hs hp hq => Predicate.unify_normal hs hp hq h
      assert := fun _ _ b hs => Search.lasting_normal.assert b hs trivial
      report := Session.load_reports }

/-- The rest of the one pattern is bound to the other, in a source that stores what comes of it and in a query. -/
theorem patterns_normal_nested : ∃ s r goals b w q,
    (Session.start {}).load 9 "" "query ?X = [a | ?Y], ?Y = [b | ?Z], assert p(?X);" = some (.ok (s, r)) ∧
    (s.store.storedClauses ⟨"p", 1⟩).length = 1 ∧ r.results.map (·.solutions.length) = [1] ∧ r.Normal ∧
    Goal.parseQuery "?X = [a | ?Y], ?Y = [b | ?Z]" = .ok goals ∧
    Attainable {} s.world [.start goals ∅ 0] ∧ MomentNormal {} s.world [.start goals ∅ 0] ∧
    Search.next {} 9 s.world (.start goals ∅ 0) = some (some b, w, q) ∧
    (b.get? "X").any (! ·.isTail) = true ∧ (b.get? "Y").any (! ·.isTail) = true ∧ b.Normal := by
  have hload : ((Session.start {}).load 9 "" "query ?X = [a | ?Y], ?Y = [b | ?Z], assert p(?X);").any
      (fun r => r.toOption.any fun r =>
        (r.1.store.storedClauses ⟨"p", 1⟩).length == 1 && r.2.results.map (·.solutions.length) == [1] &&
          (Goal.parseQuery "?X = [a | ?Y], ?Y = [b | ?Z]").toOption.any fun goals =>
            (Search.next {} 9 r.1.world (.start goals ∅ 0)).any fun pull => pull.1.any fun b =>
              (b.get? "X").any (! ·.isTail) && (b.get? "Y").any (! ·.isTail)) = true := by
    decide +kernel
  obtain ⟨⟨s, r⟩, hload, hshown⟩ := Bounded.exists_of_any hload
  obtain ⟨hcounts, hasked⟩ := (Bool.and_eq_true _ _).mp hshown
  simp only [Bool.and_eq_true, beq_iff_eq] at hcounts
  obtain ⟨goals, hgoals, hnext⟩ := exists_of_any hasked
  obtain ⟨⟨answer, w, q⟩, hnext, hanswer⟩ := (Option.any_eq_true _ _).mp hnext
  obtain ⟨b, rfl, hbound⟩ := (Option.any_eq_true _ _).mp hanswer
  obtain ⟨hx, hy⟩ := (Bool.and_eq_true _ _).mp hbound
  have h : Attainable {} s.world [.start goals ∅ 0] := (Attainable.start.loaded rfl hload).ask hgoals
  obtain ⟨hmoments, hmakes⟩ := patterns_normal {}
  have hmoment := hmoments _ _ h
  exact ⟨s, r, goals, b, w, q, hload, hcounts.1, hcounts.2, hmakes.report hload, hgoals, h, hmoment, hnext, hx, hy,
    hmoment.answers List.mem_cons_self hnext⟩

end BilingualLogic
