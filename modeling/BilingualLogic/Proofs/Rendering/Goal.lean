import BilingualLogic.Proofs.Rendering.Choice

/-!
A written goal is read as the goal, and so are the goals of a body.
-/

namespace BilingualLogic

open BilingualLogic.Language Text

namespace Language

variable {i m o : List Char} {v : Vocabulary}

/-- What stands behind a goal. -/
def EndsGoal (o : List Char) : Prop := ∃ c ∈ [',', '،', ')', ';'], ∃ cs, o = c :: cs

theorem endsGoal_cons {c : Char} (h : c ∈ [',', '،', ')', ';']) (cs : List Char) : EndsGoal (c :: cs) := ⟨c, h, cs, rfl⟩

theorem EndsGoal.endsTerm (h : EndsGoal o) : EndsTerm o := by
  have hall : ∀ c ∈ [',', '،', ')', ';'], c ∈ terminators := by simp [terminators]
  obtain ⟨c, hc, cs, rfl⟩ := h
  exact endsTerm_cons (hall c hc) cs

theorem EndsGoal.skipText (h : EndsGoal o) : Blank.skipText o = o := by
  have hall : ∀ c ∈ [',', '،', ')', ';'], Blank.isBlank c = false ∧ c ≠ '/' := List.all_iff_forall_prop.mp rfl
  obtain ⟨c, hc, cs, rfl⟩ := h
  exact Blank.skipText_stop (hall c hc).1 (hall c hc).2 cs

theorem EndsGoal.stops (h : EndsGoal o) : Stops o := h.endsTerm.stops

theorem EndsGoal.endsFormula (h : EndsGoal o) : EndsFormula o := by
  have hall : ∀ c ∈ [',', '،', ')', ';'], c ∉ ['*', '/', '%', '×', '÷'] ∧ c ∉ ['+', '-'] := by simp
  have hskip := h.skipText
  have hterm := h.endsTerm
  obtain ⟨c, hc, cs, rfl⟩ := h
  exact ⟨hterm, hskip.symm ▸ fails_multiplicative (hall c hc).1 cs, hskip.symm ▸ fails_additive (hall c hc).2 cs⟩

theorem EndsGoal.endsPredicate (h : EndsGoal o) : EndsPredicate o := by
  refine ⟨h.stops, ?_⟩
  rw [h.skipText]
  obtain ⟨c, hc, cs, rfl⟩ := h
  rintro _ ⟨⟩
  exact absurd hc (by decide)

theorem EndsGoal.fails_equals (h : EndsGoal o) : Fails true (Peg.token "=") (Blank.skipText o) := by
  rw [h.skipText]
  obtain ⟨c, hc, cs, rfl⟩ := h
  refine fails_token_cons (d := '=') rfl ?_ cs
  rintro rfl
  exact absurd hc (by decide)

section Calls

/-- A term is read where a call begins, up to its arguments. -/
theorem reads_term_of_name {name : String} (hname : isName name.toList = true) (ho : EndsTerm o) :
    Reads true (call .term) (name.toList ++ o) o fun _ => True := by
  by_cases hanonymous : name = "_"
  · subst hanonymous
    have hread := reads_term .latin (.anonymous (x := "_") (by decide)) o ho
    rw [Term.render, if_pos (by decide)] at hread
    exact hread.imp fun _ _ => trivial
  · have hread := reads_term .latin (.atom hname hanonymous) o ho
    rw [Term.render] at hread
    exact hread.imp fun _ _ => trivial

theorem predicate_front (v : Vocabulary) (p : Predicate) (o : List Char) :
    ∃ m, (p.render v).toList ++ o = p.name.toList ++ m ∧ (m = o ∨ ∃ cs, m = '(' :: cs) := by
  rw [Predicate.render]
  split
  · exact ⟨o, rfl, Or.inl rfl⟩
  · simp only [String.toList_append, List.append_assoc]
    exact ⟨_, rfl, Or.inr ⟨_, rfl⟩⟩

theorem reads_call (v : Vocabulary) {p : Predicate} (hp : p.Readable) (ho : EndsGoal o) :
    Reads true (call .goal) ((p.render v).toList ++ o) o (Goal.call p).Means := by
  have hword := hp.startsWord v o
  obtain ⟨m, hm, hcase⟩ := predicate_front v p o
  have hbehind : EndsTerm m ∧ Stops (Blank.skipText m) ∧ Fails true (Peg.token "=") (Blank.skipText m) := by
    rcases hcase with rfl | ⟨cs, rfl⟩
    · exact ⟨ho.endsTerm, ho.skipText.symm ▸ ho.stops, ho.fails_equals⟩
    · rw [Blank.skipText_stop rfl (by decide)]
      exact ⟨endsTerm_cons (by simp [terminators]) cs, stops_cons (by decide) cs,
        fails_token_cons (d := '=') rfl (by decide) cs⟩
  obtain ⟨hterm, hstop, hequals⟩ := hbehind
  have hleading : leading ((p.render v).toList ++ o) = p.name.toList := by
    rw [hm]
    exact leading_append (isNameChar_of_isName hp.name) hterm.stops
  have hspells (k : Keyword) (hk : k ∈ reservedKeywords) : k.spells (leading ((p.render v).toList ++ o)) = false := by
    rw [hleading]
    exact spells_of_isName hp.name hk
  have hread := reads_term_of_name hp.name hterm
  rw [← hm] at hread
  refine (hword.uncommanded fun k hk => hspells k (by revert k; decide)).reads_goal ?_
  refine Fails.orRight (fails_isGoal_of_term hread hstop) (Fails.orRight (fails_comparison hword.fails_arithmetic)
    (Fails.orRight (fails_unifyGoal_of_term hread hequals)
      (Fails.orRight (Fails.call (Fails.map (fails_keyword (hspells _ (by decide)))))
        (Fails.orRight (Fails.call (Fails.map (fails_keyword (hspells _ (by decide)))))
          (Reads.plain rfl (Reads.map ?_))))))
  exact (reads_predicate v hp ho.endsPredicate).imp fun x hx => Goal.means_call hx

theorem spells_truth {name : String} (h : name ∈ Keyword.true.allSpellings ++ Keyword.false.allSpellings) :
    ∃ b : Bool, (bif b then Keyword.true else Keyword.false).spells name.toList = true := by
  have hall : ∀ t ∈ Keyword.true.allSpellings ++ Keyword.false.allSpellings,
      ∃ b : Bool, (bif b then Keyword.true else Keyword.false).spells t.toList = true := by decide +kernel
  exact hall name h

theorem reads_truth {name : String} (h : name ∈ Keyword.true.allSpellings ++ Keyword.false.allSpellings)
    (ho : EndsGoal o) : Reads true (call .goal) (name.toList ++ o) o (Goal.call ⟨name, []⟩).Means := by
  obtain ⟨b, hb⟩ := spells_truth h
  have hword := startsWord_spelling _ (mem_of_spells hb) o
  have hother {k : Keyword} (hk : k ≠ bif b then .true else .false) : k.spells (leading (name.toList ++ o)) = false :=
    spells_other hb ho.stops hk
  have hread : Reads true (call .term) (name.toList ++ o) o fun _ => True := by
    obtain ⟨hl, ht⟩ := leading_spelling (mem_of_spells hb) ho.stops
    have hanonymous : Fails true (call .anonymous) (name.toList ++ o) := by
      refine hword.fails_anonymous ?_
      rw [hl]
      intro hname
      rw [hname] at hb
      revert hb
      cases b <;> decide
    refine Reads.call (Reads.placed (Fails.orRight (Fails.map hanonymous) (Fails.orRight (Fails.map hword.fails_var)
      (Fails.orRight (Fails.map hword.fails_number) (Fails.orRight (Fails.map hword.fails_string)
        (Reads.orLeft (Reads.map ?_)))))))
    exact ((reads_boolean (by rw [hl]; exact hb)).of_gap (congrArg _ ht)).imp fun _ _ _ => trivial
  have hmeans : (Goal.call ⟨name, []⟩).Means (.call ⟨name, []⟩) := Goal.means_call (Predicate.means .nil)
  refine (hword.uncommanded fun k hk => hother (by revert k; cases b <;> decide)).reads_goal ?_
  refine Fails.orRight (fails_isGoal_of_term hread (ho.skipText.symm ▸ ho.stops)) (Fails.orRight
    (fails_comparison hword.fails_arithmetic) (Fails.orRight (fails_unifyGoal_of_term hread ho.fails_equals) ?_))
  cases b with
  | true =>
    refine Reads.orLeft (Reads.plain rfl (Reads.map ((reads_spelling hb ho.stops).imp ?_)))
    rintro _ rfl
    exact hmeans
  | false =>
    refine Fails.orRight (Fails.call (Fails.map (fails_keyword (hother (by decide))))) (Reads.orLeft (Reads.plain rfl
      (Reads.map ((reads_spelling hb ho.stops).imp ?_))))
    rintro _ rfl
    exact hmeans

example : (match Goal.parseQuery "p(?x), خطأ" with
    | .ok [.call ⟨"p", [.var "x"]⟩, .call ⟨"خطأ", []⟩] => true
    | _ => false) = true := by decide +kernel

end Calls

section Fronts

theorem startsWord_keyword (k : Keyword) (v : Vocabulary) (o : List Char) : StartsWord ((k.spelling v).toList ++ o) :=
  startsWord_spelling k (spelling_mem k v) o

theorem call_startsWord (v : Vocabulary) {p : Predicate} (hg : (Goal.call p).Readable) (o : List Char) :
    StartsWord (((Goal.call p).render v).toList ++ o) := by
  rw [Goal.render]
  cases hg with
  | call hp => exact hp.startsWord v o
  | truth h =>
    obtain ⟨b, hb⟩ := spells_truth h
    exact startsWord_spelling _ (mem_of_spells hb) o

theorem call_spells (v : Vocabulary) {p : Predicate} (hg : (Goal.call p).Readable) (ho : EndsGoal o) {k : Keyword}
    (hk : k ∈ reservedKeywords) (hne : k ∉ [.true, .false]) :
    k.spells (leading (((Goal.call p).render v).toList ++ o)) = false := by
  rw [Goal.render]
  cases hg with
  | call hp =>
    obtain ⟨m, hm, hcase⟩ := predicate_front v p o
    have hstops : Stops m := by
      rcases hcase with rfl | ⟨cs, rfl⟩
      · exact ho.stops
      · exact stops_cons (by decide) cs
    rw [hm, leading_append (isNameChar_of_isName hp.name) hstops]
    exact spells_of_isName hp.name hk
  | truth h =>
    obtain ⟨b, hb⟩ := spells_truth h
    refine spells_other hb ho.stops ?_
    rintro rfl
    exact hne (by cases b <;> simp)

theorem goal_solid (v : Vocabulary) {g : Goal} (hg : g.Readable) (o : List Char) :
    Solid ((g.render v).toList ++ o) := by
  cases hg with
  | call hp => exact (call_startsWord v (.call hp) o).solid
  | truth h => exact (call_startsWord v (.truth h) o).solid
  | cut =>
    rw [Goal.render]
    exact (startsWord_keyword .cut v o).solid
  | not _ _ =>
    rw [Goal.render]
    simp only [String.toList_append, List.append_assoc]
    exact (startsWord_keyword .not v _).solid
  | unify ha _ =>
    rw [Goal.render]
    simp only [String.toList_append, List.append_assoc]
    exact ha.solid v _
  | is ha _ =>
    rw [Goal.render]
    simp only [String.toList_append, List.append_assoc]
    exact ha.solid v _
  | compare op ha _ =>
    rw [Goal.render]
    simp only [String.toList_append, List.append_assoc]
    exact ha.solid v 0 _
  | collect kind _ _ _ _ =>
    rw [Goal.render]
    simp only [String.toList_append, List.append_assoc]
    exact (startsWord_keyword _ v _).solid
  | assert _ _ =>
    rw [Goal.render]
    simp only [String.toList_append, List.append_assoc]
    exact (startsWord_keyword .assert v _).solid
  | retract _ _ =>
    rw [Goal.render]
    simp only [String.toList_append, List.append_assoc]
    exact (startsWord_keyword .retract v _).solid

end Fronts

section Bodies

/-- What stands behind the goals of a body. -/
def EndsBody (o : List Char) : Prop := ∃ c ∈ [')', ';'], ∃ cs, o = c :: cs

theorem EndsBody.endsGoal (h : EndsBody o) : EndsGoal o := by
  have hall : ∀ c ∈ [')', ';'], c ∈ [',', '،', ')', ';'] := by simp
  obtain ⟨c, hc, cs, rfl⟩ := h
  exact endsGoal_cons (hall c hc) cs

theorem EndsBody.fails_conjunction (h : EndsBody o) : Fails true conjunction (Blank.skipText o) := by
  have hall : ∀ c ∈ [')', ';'], c ≠ ',' ∧ c ≠ '،' := by simp
  have hstops := h.endsGoal.stops
  rw [h.endsGoal.skipText]
  refine Fails.or ?_ (fails_keyword_of_stops hstops)
  obtain ⟨c, hc, cs, rfl⟩ := h
  exact fails_separator (hall c hc).1 (hall c hc).2 cs

def conjunctionMark : Vocabulary → Char
  | .latin => ','
  | .arabic => '،'

theorem conjunctionMark_mem (v : Vocabulary) : conjunctionMark v ∈ [',', '،'] := by cases v <;> decide

theorem reads_conjunction (v : Vocabulary) (m : List Char) :
    Reads true conjunction (conjunctionMark v :: m) m fun _ => True := by
  refine Reads.orLeft ?_
  cases v with
  | latin => exact reads_separator m
  | arabic => exact reads_oneOf (t := "،") rfl rfl trivial

theorem goals_toList (v : Vocabulary) (goals : List Goal) :
    (Goal.renderAll v goals).toList = spread (conjunctionMark v) (fun g => (g.render v).toList) goals := by
  have hseparator : (Goal.separator v).toList = [conjunctionMark v, ' '] := by cases v <;> rfl
  cases goals with
  | nil =>
    rw [Goal.renderAll]
    rfl
  | cons g gs =>
    induction gs generalizing g with
    | nil => simp [Goal.renderAll, spread]
    | cons g' gs ih =>
      rw [Goal.renderAll, String.toList_append, String.toList_append, hseparator, ih g', spread, spread]
      · simp
      · rintro ⟨⟩

/-- Each of the goals is read wherever a goal can end. -/
def ReadsEach (v : Vocabulary) (goals : List Goal) : Prop :=
  ∀ g ∈ goals, ∀ o, EndsGoal o → Reads true (call .goal) ((g.render v).toList ++ o) o g.Means

variable {goals : List Goal}

theorem reads_goals (hne : goals ≠ []) (hg : ∀ g ∈ goals, g.Readable) (hread : ReadsEach v goals) (ho : EndsBody o) :
    Reads true (Peg.separated (call .goal) conjunction) ((Goal.renderAll v goals).toList ++ o) o
      (List.Forall₂ Goal.Means goals) := by
  have hmarks : ∀ c ∈ [',', '،'], (Blank.isBlank c = false ∧ c ≠ '/') ∧ c ∈ [',', '،', ')', ';'] :=
    List.all_iff_forall_prop.mp rfl
  obtain ⟨hmark, hends⟩ := hmarks _ (conjunctionMark_mem v)
  obtain ⟨g, gs, rfl⟩ := List.exists_cons_of_ne_nil hne
  rw [goals_toList]
  exact reads_separated rfl rfl hmark (fun m => endsGoal_cons hends m) (reads_conjunction v)
    (fun b hb o => goal_solid v (hg b hb) o) hread ho.endsGoal ho.fails_conjunction

theorem goals_solid (v : Vocabulary) (hne : goals ≠ []) (hg : ∀ g ∈ goals, g.Readable) (o : List Char) :
    Solid ((Goal.renderAll v goals).toList ++ o) := by
  obtain ⟨g, gs, rfl⟩ := List.exists_cons_of_ne_nil hne
  rw [goals_toList, spread, List.append_assoc]
  exact goal_solid v (hg g (by simp)) _

theorem reads_body (hne : goals ≠ []) (hg : ∀ g ∈ goals, g.Readable) (hread : ReadsEach v goals) (ho : EndsBody o) :
    Reads true (call .body) ((Goal.renderAll v goals).toList ++ o) o fun b => List.Forall₂ Goal.Means goals b.goals :=
  Reads.plain rfl (Reads.placed (Reads.map ((reads_goals hne hg hread ho).imp fun _ hxs _ => hxs)))

theorem renderNested_of_grouped (v : Vocabulary) (h : Goal.isBare goals = false) :
    Goal.renderNested v goals = "(" ++ Goal.renderAll v goals ++ ")" := by
  rw [Goal.renderNested]
  rintro p rfl
  cases h

theorem renderNested_of_bare (v : Vocabulary) (h : Goal.isBare goals = true) :
    ∃ p, goals = [.call p] ∧ Goal.renderNested v goals = (Goal.call p).render v := by
  unfold Goal.isBare at h
  split at h
  · next p =>
    refine ⟨p, rfl, ?_⟩
    rw [Goal.renderNested, Goal.render]
  · cases h

/-- The goals of a negation or a collection begin with a parenthesis or with the name of a call. -/
theorem nested_front (v : Vocabulary) (hg : ∀ g ∈ goals, g.Readable) (o : List Char) :
    Solid ((Goal.renderNested v goals).toList ++ o) ∧
      (EndsGoal o → Keyword.query.spells (leading ((Goal.renderNested v goals).toList ++ o)) = false) := by
  cases hbare : Goal.isBare goals with
  | false =>
    rw [renderNested_of_grouped v hbare]
    simp only [String.toList_append, List.append_assoc]
    exact ⟨solid_cons rfl (by decide) _, fun _ => spells_of_front (by decide +kernel) _ _⟩
  | true =>
    obtain ⟨p, rfl, htext⟩ := renderNested_of_bare v hbare
    rw [htext]
    refine ⟨goal_solid v (hg _ (by simp)) o, fun ho => ?_⟩
    exact call_spells v (hg _ (by simp)) ho (by decide) (by decide)

theorem reads_scope (hne : goals ≠ []) (hg : ∀ g ∈ goals, g.Readable) (hread : ReadsEach v goals) (ho : EndsGoal o) :
    Reads true scope ((Goal.renderNested v goals).toList ++ o) o (Goal.MeansNested goals) := by
  cases hbare : Goal.isBare goals with
  | true =>
    obtain ⟨p, rfl, htext⟩ := renderNested_of_bare v hbare
    have hparen : Fails true (Peg.token "(") (((Goal.call p).render v).toList ++ o) :=
      (call_startsWord v (hg (.call p) (by simp)) o).fails_token (c := '(') (by simp) rfl
    rw [htext]
    refine Fails.orRight (Fails.map (Fails.call (Fails.left_left (Fails.right_left hparen)))) (Reads.placed (Reads.map ?_))
    exact (hread _ (by simp) o ho).imp fun x hx s => ⟨rfl, .cons hx .nil⟩
  | false =>
    have htext : (Goal.renderNested v goals).toList ++ o = '(' :: ((Goal.renderAll v goals).toList ++ ')' :: o) := by
      rw [renderNested_of_grouped v hbare]
      simp
    rw [htext]
    refine Reads.orLeft (Reads.map (Reads.plain rfl (Reads.left (m := ')' :: o) (Reads.right (reads_token (t := "(")
      (o := (Goal.renderAll v goals).toList ++ ')' :: o) ?_)))))
    rw [gap_true, (goals_solid v hne hg _).skipText]
    refine (reads_body hne hg hread ⟨')', by simp, o, rfl⟩).imp fun b hb => ?_
    rw [gap_true, Blank.skipText_stop rfl (by decide)]
    exact reads_token (t := ")") ⟨by rw [hbare]; rfl, hb⟩

theorem reads_led_scope {α : Type} {e : Expr α} (h : Reads true e i (' ' :: ((Goal.renderNested v goals).toList ++ o))
      fun _ => True) (hne : goals ≠ []) (hg : ∀ g ∈ goals, g.Readable) (hread : ReadsEach v goals) (ho : EndsGoal o) :
    Reads true (e *> .option (keyword .query) *> scope) i o (Goal.MeansNested goals) := by
  obtain ⟨hsolid, hquery⟩ := nested_front v hg o
  refine Reads.right (m := (Goal.renderNested v goals).toList ++ o) (Reads.right (h.imp fun _ _ => ?_))
  rw [gap_true, Blank.skipText_blank rfl, hsolid.skipText]
  refine Fails.option (fails_keyword (hquery ho)) ?_
  rw [gap_true, hsolid.skipText]
  exact reads_scope hne hg hread ho

end Bodies

section Commands

/-- Where a keyword stands the goals that are led by others do not begin. -/
theorem commanded {k : Keyword} (v : Vocabulary) (hm : Stops m) : StartsWord ((k.spelling v).toList ++ m) ∧
    ∀ k' ≠ k, k'.spells (leading ((k.spelling v).toList ++ m)) = false :=
  ⟨startsWord_keyword k v m, fun _ hne => spells_other (spells_spelling k v) hm hne⟩

theorem reads_cut (v : Vocabulary) (ho : EndsGoal o) :
    Reads true (call .goal) ((Goal.cut.render v).toList ++ o) o Goal.cut.Means := by
  rw [Goal.render]
  refine Reads.plain rfl (Reads.orLeft (Reads.map (Reads.plain rfl (Reads.map (Reads.orLeft ?_)))))
  exact (reads_spelling (spells_spelling .cut v) ho.stops).imp fun _ _ => Goal.means_cut

variable {goals : List Goal}

theorem reads_not (hne : goals ≠ []) (hg : ∀ g ∈ goals, g.Readable) (hread : ReadsEach v goals) (ho : EndsGoal o) :
    Reads true (call .goal) (((Goal.not goals).render v).toList ++ o) o (Goal.not goals).Means := by
  have htext : ((Goal.not goals).render v).toList ++ o
      = (Keyword.not.spelling v).toList ++ ' ' :: ((Goal.renderNested v goals).toList ++ o) := by
    rw [Goal.render]
    simp
  have hstops : Stops (' ' :: ((Goal.renderNested v goals).toList ++ o)) := stops_cons (by decide) _
  obtain ⟨hword, hother⟩ := commanded (k := .not) v hstops
  have hcut := fails_cut (hother .cut (by decide)) (hword.fails_token (c := '!') (by simp) rfl)
  have hlead : Reads true (keyword .not) _ _ fun _ => True :=
    (reads_spelling (spells_spelling .not v) hstops).imp fun _ _ => trivial
  rw [htext]
  refine Reads.plain rfl (Fails.orRight (Fails.map hcut) (Reads.orLeft (Reads.plain rfl (Reads.map ?_))))
  exact (reads_led_scope (Reads.orLeft hlead) hne hg hread ho).imp fun x hx => Goal.means_not hx

theorem reads_is {a : Term} {e : Formula} (ha : a.Readable) (he : e.Readable) (ho : EndsGoal o) :
    Reads true (call .goal) (((Goal.is a e).render v).toList ++ o) o (Goal.is a e).Means := by
  have htext : ((Goal.is a e).render v).toList ++ o
      = (a.render v).toList ++ ' ' :: ((Keyword.is.spelling v).toList ++ ' ' :: ((e.render v).toList ++ o)) := by
    rw [Goal.render]
    simp
  have hends (m : List Char) : EndsTerm (' ' :: m) := endsTerm_cons (by simp [terminators]) m
  rw [htext]
  refine (uncommanded_term v ha (hends _)).reads_goal (Reads.orLeft (Reads.plain rfl (Reads.ap (Reads.map
    ((reads_term v ha _ (hends _)).imp fun x hx => ?_)))))
  rw [gap_true, Blank.skipText_blank rfl, (startsWord_keyword .is v _).solid.skipText]
  refine Reads.right ((reads_spelling (spells_spelling .is v) (hends _).stops).imp fun _ _ => ?_)
  rw [gap_true, Blank.skipText_blank rfl, (he.solid_render v o).skipText]
  exact (reads_formula v he ho.endsFormula).imp fun y hy => Goal.means_is hx hy

theorem reads_comparisonOperator (op : Comparison) (m : List Char) :
    Reads true (call .comparisonOperator) (op.symbol.toList ++ ' ' :: m) (' ' :: m) (· = op) := by
  refine Reads.plain rfl (Reads.map (reads_oneOf (t := op.symbol) ?_ rfl ?_))
  · cases op <;> rfl
  · cases op <;> rfl

theorem endsFormula_comparison (op : Comparison) (m : List Char) :
    EndsFormula (' ' :: (op.symbol.toList ++ ' ' :: m)) ∧ Stops (op.symbol.toList ++ ' ' :: m) ∧
      Blank.skipText (op.symbol.toList ++ ' ' :: m) = op.symbol.toList ++ ' ' :: m := by
  have hfront : ∃ c cs, op.symbol.toList ++ ' ' :: m = c :: cs ∧ c ∈ ['>', '<', '=', '!'] := by
    cases op <;> exact ⟨_, _, rfl, by decide⟩
  have hall : ∀ c ∈ ['>', '<', '=', '!'], (Blank.isBlank c = false ∧ c ≠ '/') ∧ isNameChar c = false ∧
      c ∉ ['*', '/', '%', '×', '÷'] ∧ c ∉ ['+', '-'] := List.all_iff_forall_prop.mp (by decide +kernel)
  obtain ⟨c, cs, hcs, hc⟩ := hfront
  obtain ⟨⟨hb, hs⟩, hname, hmul, hadd⟩ := hall c hc
  have hskip : Blank.skipText (' ' :: c :: cs) = c :: cs := by
    rw [Blank.skipText_blank rfl, Blank.skipText_stop hb hs]
  rw [hcs]
  refine ⟨⟨endsTerm_cons (by simp [terminators]) _, ?_, ?_⟩, stops_cons hname cs, Blank.skipText_stop hb hs cs⟩
  · rw [hskip]
    exact fails_multiplicative hmul cs
  · rw [hskip]
    exact fails_additive hadd cs

theorem reads_compare (op : Comparison) {a b : Formula} (ha : a.Readable) (hb : b.Readable) (ho : EndsGoal o) :
    Reads true (call .goal) (((Goal.compare op a b).render v).toList ++ o) o (Goal.compare op a b).Means := by
  have htext : ((Goal.compare op a b).render v).toList ++ o
      = (a.render v).toList ++ ' ' :: (op.symbol.toList ++ ' ' :: ((b.render v).toList ++ o)) := by
    rw [Goal.render]
    simp
  obtain ⟨hends, hstops, hskip⟩ := endsFormula_comparison op ((b.render v).toList ++ o)
  have hgap : Blank.skipText (' ' :: (op.symbol.toList ++ ' ' :: ((b.render v).toList ++ o)))
      = op.symbol.toList ++ ' ' :: ((b.render v).toList ++ o) := by
    rw [Blank.skipText_blank rfl, hskip]
  rw [htext]
  refine (uncommanded_formula v ha 0 hends.endsTerm).reads_goal (Fails.orRight
    (fails_isGoal_of_formula v ha 0 hends.endsTerm (hgap.symm ▸ hstops)) (Reads.orLeft (Reads.plain rfl (Reads.ap
      (m := ' ' :: ((b.render v).toList ++ o)) (Reads.ap (Reads.map ((reads_formula v ha hends).imp fun x hx => ?_)))))))
  rw [gap_true, hgap]
  refine (reads_comparisonOperator op _).imp ?_
  rintro _ rfl
  rw [gap_true, Blank.skipText_blank rfl, (hb.solid_render v o).skipText]
  exact (reads_formula v hb ho.endsFormula).imp fun y hy => Goal.means_compare _ hx hy

theorem reads_unify {a b : Term} (ha : a.Readable) (hb : b.Readable) (ho : EndsGoal o) :
    Reads true (call .goal) (((Goal.unify a b).render v).toList ++ o) o (Goal.unify a b).Means := by
  have htext : ((Goal.unify a b).render v).toList ++ o
      = (a.render v).toList ++ ' ' :: '=' :: ' ' :: ((b.render v).toList ++ o) := by
    rw [Goal.render]
    simp
  have hends (m : List Char) : EndsTerm (' ' :: m) := endsTerm_cons (by simp [terminators]) m
  have hskip (m : List Char) : Blank.skipText (' ' :: '=' :: m) = '=' :: m := by
    rw [Blank.skipText_blank rfl, Blank.skipText_stop rfl (by decide)]
  have hread := reads_term v ha (' ' :: '=' :: ' ' :: ((b.render v).toList ++ o)) (hends _)
  have hstops : Stops (Blank.skipText (' ' :: '=' :: ' ' :: ((b.render v).toList ++ o))) := by
    rw [hskip]
    exact stops_cons (by decide) _
  have hequals : Fails true (Peg.token "=") ((b.render v).toList ++ o) := by
    obtain ⟨c, cs, hcs, hc⟩ := hb.front v o
    rw [hcs]
    refine fails_token_cons (d := '=') rfl ?_ cs
    rintro rfl
    exact absurd hc (by decide +kernel)
  rw [htext]
  refine (uncommanded_term v ha (hends _)).reads_goal (Fails.orRight
    (fails_isGoal_of_term (hread.imp fun _ _ => trivial) hstops) (Fails.orRight (fails_comparison_of_term v ha _)
      (Reads.orLeft (Reads.plain rfl (Reads.ap (Reads.map (hread.imp fun x hx => ?_)))))))
  rw [gap_true, hskip]
  refine Reads.right (m := (b.render v).toList ++ o) (Reads.right (reads_token (t := "=") ?_))
  rw [gap_true, Blank.skipText_blank rfl, (hb.solid v o).skipText]
  refine hequals.unless ?_
  rw [gap_true, (hb.solid v o).skipText]
  exact (reads_term v hb o ho.endsTerm).imp fun y hy => Goal.means_unify hx hy

theorem reads_collection (kind : Collection) (v : Vocabulary) (hm : Stops m) :
    Reads true ((fun _ => Collection.findAll) <$> keyword .findAll <|> (fun _ => Collection.bagOf) <$> keyword .bagOf
      <|> (fun _ => Collection.setOf) <$> keyword .setOf) ((kind.keyword.spelling v).toList ++ m) m (· = kind) := by
  obtain ⟨-, hother⟩ := commanded (k := kind.keyword) v hm
  have hread : Reads true (keyword kind.keyword) _ m _ := reads_spelling (spells_spelling kind.keyword v) hm
  cases kind with
  | findAll => exact Reads.orLeft (Reads.map (hread.imp fun _ _ => rfl))
  | bagOf =>
    exact Fails.orRight (Fails.map (fails_keyword (hother _ (by decide)))) (Reads.orLeft
      (Reads.map (hread.imp fun _ _ => rfl)))
  | setOf =>
    exact Fails.orRight (Fails.map (fails_keyword (hother _ (by decide)))) (Fails.orRight
      (Fails.map (fails_keyword (hother _ (by decide)))) (Reads.map (hread.imp fun _ _ => rfl)))

theorem reads_collect (kind : Collection) {t r : Term} (ht : t.Readable) (hne : goals ≠ [])
    (hg : ∀ g ∈ goals, g.Readable) (hread : ReadsEach v goals) (hr : r.Readable) :
    Reads true (call .goal) (((Goal.collect kind t goals r).render v).toList ++ o) o
      (Goal.collect kind t goals r).Means := by
  have htext : ((Goal.collect kind t goals r).render v).toList ++ o = (kind.keyword.spelling v).toList
      ++ '(' :: ((t.render v).toList ++ ',' :: ' ' :: ((Goal.renderNested v goals).toList
        ++ ',' :: ' ' :: ((r.render v).toList ++ ')' :: o))) := by
    rw [Goal.render]
    simp
  have hstops (m : List Char) : Stops ('(' :: m) := stops_cons (by decide) m
  have hcomma (m : List Char) : Blank.skipText (',' :: m) = ',' :: m := Blank.skipText_stop rfl (by decide) m
  obtain ⟨hword, hother⟩ := commanded (k := kind.keyword) v (hstops ((t.render v).toList ++ ',' :: ' ' ::
    ((Goal.renderNested v goals).toList ++ ',' :: ' ' :: ((r.render v).toList ++ ')' :: o))))
  have hcut := fails_cut (hother .cut (by cases kind <;> decide)) (hword.fails_token (c := '!') (by simp) rfl)
  have hnot := fails_negation (hother .not (by cases kind <;> decide)) (hword.fails_token (c := '\\') (by simp) rfl)
  rw [htext]
  refine Reads.plain rfl (Fails.orRight (Fails.map hcut) (Fails.orRight hnot (Reads.orLeft (Reads.plain rfl
    (Reads.ap (m := ',' :: ' ' :: ((r.render v).toList ++ ')' :: o))
      (Reads.ap (m := ',' :: ' ' :: ((Goal.renderNested v goals).toList ++ ',' :: ' ' :: ((r.render v).toList ++ ')' :: o)))
        (Reads.ap (Reads.map ((reads_collection kind v (hstops _)).imp ?_)))))))))
  rintro _ rfl
  rw [gap_true, Blank.skipText_stop rfl (by decide)]
  refine Reads.right (reads_token (t := "(") (o := (t.render v).toList ++ ',' :: ' ' :: ((Goal.renderNested v goals).toList
    ++ ',' :: ' ' :: ((r.render v).toList ++ ')' :: o))) ?_)
  rw [gap_true, (ht.solid v _).skipText]
  refine (reads_term v ht _ (endsTerm_cons (by simp [terminators]) _)).imp fun x hx => ?_
  rw [gap_true, hcomma]
  refine (reads_led_scope (reads_separator _) hne hg hread (endsGoal_cons (by simp) _)).imp fun y hy => ?_
  rw [gap_true, hcomma]
  refine Reads.left (m := ')' :: o) (Reads.right ((reads_separator _).imp fun _ _ => ?_))
  rw [gap_true, Blank.skipText_blank rfl, (hr.solid v _).skipText]
  refine (reads_term v hr _ (endsTerm_cons (by simp [terminators]) _)).imp fun z hz => ?_
  rw [gap_true, Blank.skipText_stop rfl (by decide)]
  exact reads_token (t := ")") (Goal.means_collect _ hx hy hz)

theorem skipText_implies (m : List Char) : Blank.skipText (' ' :: ':' :: m) = ':' :: m := by
  rw [Blank.skipText_blank rfl, Blank.skipText_stop rfl (by decide)]

theorem endsPredicate_implies (m : List Char) : EndsPredicate (' ' :: ':' :: m) := by
  refine ⟨stops_cons (by decide) _, ?_⟩
  rw [skipText_implies]
  rintro _ ⟨⟩

theorem reads_clause {build : Source.Predicate → Span → List Source.Goal → Source.Goal} {k : Keyword}
    {Q : Source.Goal → Prop} {head : Predicate} (hh : head.Readable) (hg : ∀ g ∈ goals, g.Readable)
    (hread : ReadsEach v goals) (ho : EndsGoal o)
    (hQ : ∀ x s xs, head.Means x → List.Forall₂ Goal.Means goals xs → Q (build x s xs)) :
    Reads true (clauseTarget build k) ((k.spelling v).toList ++ ' ' :: ((Goal.renderClause v head goals).toList ++ o)) o
      Q := by
  refine Reads.right ((reads_spelling (spells_spelling k v) (stops_cons (by decide) _)).imp fun _ _ => ?_)
  rw [gap_true, Blank.skipText_blank rfl]
  -- a clause without goals is written bare, and the form in parentheses is tried before it
  by_cases hne : goals = []
  · subst hne
    have hword := hh.startsWord v o
    have hform : Fails true (call .clauseForm) ((head.render v).toList ++ o) :=
      Fails.call (Fails.ap_left (Fails.map (Fails.right_left (hword.fails_token (c := '(') (by simp) rfl))))
    rw [Goal.renderClause, hword.solid.skipText]
    exact Fails.orRight (Fails.map hform) (Reads.map ((reads_predicate v hh ho.endsPredicate).imp fun x hx =>
      hQ x default [] hx .nil))
  · have htext : (Goal.renderClause v head goals).toList ++ o = '(' :: ((head.render v).toList ++ ' ' :: ':' :: '-' :: ' '
        :: ((Goal.renderAll v goals).toList ++ ')' :: o)) := by
      rw [Goal.renderClause]
      · simp
      · exact hne
    rw [htext, Blank.skipText_stop rfl (by decide)]
    refine Reads.orLeft (Reads.map (Reads.plain rfl (Reads.ap
      (m := ' ' :: ':' :: '-' :: ' ' :: ((Goal.renderAll v goals).toList ++ ')' :: o)) (Reads.map (Reads.right
        (reads_token (t := "(") (o := (head.render v).toList ++ ' ' :: ':' :: '-' :: ' ' ::
          ((Goal.renderAll v goals).toList ++ ')' :: o)) ?_))))))
    rw [gap_true, (hh.startsWord v _).solid.skipText]
    refine (reads_predicate v hh (endsPredicate_implies _)).imp fun x hx => ?_
    rw [gap_true, skipText_implies]
    refine Reads.left (m := ')' :: o) (Reads.option (Reads.right (Reads.orLeft (reads_token (t := ":-") ?_))))
    rw [gap_true, Blank.skipText_blank rfl, (goals_solid v hne hg _).skipText]
    refine (reads_body hne hg hread ⟨')', by simp, o, rfl⟩).imp fun b hb => ?_
    rw [gap_true, Blank.skipText_stop rfl (by decide)]
    exact reads_token (t := ")") (hQ x b.span b.goals hx hb)

theorem reads_assertGoal {head : Predicate} (hh : head.Readable) (hg : ∀ g ∈ goals, g.Readable)
    (hread : ReadsEach v goals) (ho : EndsGoal o) :
    Reads true (call .assertGoal) (((Goal.assert head goals).render v).toList ++ o) o (Goal.assert head goals).Means := by
  rw [Goal.render]
  simp only [String.toList_append, List.append_assoc]
  exact Reads.plain rfl (reads_clause hh hg hread ho fun x s xs hx hxs => Goal.means_assert hx hxs s)

theorem reads_retractGoal {head : Predicate} (hh : head.Readable) (hg : ∀ g ∈ goals, g.Readable)
    (hread : ReadsEach v goals) (ho : EndsGoal o) :
    Reads true (call .retractGoal) (((Goal.retract head goals).render v).toList ++ o) o
      (Goal.retract head goals).Means := by
  rw [Goal.render]
  simp only [String.toList_append, List.append_assoc]
  exact Reads.plain rfl (reads_clause hh hg hread ho fun x s xs hx hxs => Goal.means_retract hx hxs s)

/-- What is tried before a goal that a keyword leads, for assertions and retractions. -/
theorem commanded_clause {k : Keyword} (v : Vocabulary) (hk : k ∈ [.assert, .retract]) (m : List Char) :
    Fails true (call .cut) ((k.spelling v).toList ++ ' ' :: m) ∧
      Fails true (call .negation) ((k.spelling v).toList ++ ' ' :: m) ∧
      Fails true (call .collect) ((k.spelling v).toList ++ ' ' :: m) ∧
      (k ≠ .assert → Fails true (call .assertGoal) ((k.spelling v).toList ++ ' ' :: m)) := by
  obtain ⟨hword, hother⟩ := commanded (k := k) v (stops_cons (c := ' ') (by decide) m)
  have hne : ∀ k ∈ [Keyword.assert, .retract], .cut ≠ k ∧ .not ≠ k ∧ ∀ kind : Collection, kind.keyword ≠ k := by
    intro k hk
    refine ⟨?_, ?_, fun kind => ?_⟩
    · revert k; decide
    · revert k; decide
    · cases kind <;> (revert k; decide)
  obtain ⟨hcut, hnot, hcollect⟩ := hne k hk
  exact ⟨fails_cut (hother _ hcut) (hword.fails_token (c := '!') (by simp) rfl),
    fails_negation (hother _ hnot) (hword.fails_token (c := '\\') (by simp) rfl),
    fails_collect fun kind => hother _ (hcollect kind),
    fun h => Fails.call (fails_clauseTarget (hother _ h.symm))⟩

end Commands

theorem reads_goal (v : Vocabulary) {g : Goal} (hg : g.Readable) :
    ∀ o, EndsGoal o → Reads true (call .goal) ((g.render v).toList ++ o) o g.Means := by
  induction hg with
  | call hp =>
    intro o ho
    rw [Goal.render]
    exact reads_call v hp ho
  | truth h =>
    intro o ho
    rw [Goal.render]
    exact reads_truth h ho
  | cut => exact fun o ho => reads_cut v ho
  | not hne hg ih => exact fun o ho => reads_not hne hg ih ho
  | unify ha hb => exact fun o ho => reads_unify ha hb ho
  | is ha he => exact fun o ho => reads_is ha he ho
  | compare op ha hb => exact fun o ho => reads_compare op ha hb ho
  | collect kind ht hne hg hr ih => exact fun o _ => reads_collect kind ht hne hg ih hr
  | @assert head body hh hg ih =>
    intro o ho
    have hread := reads_assertGoal hh hg ih ho
    rw [Goal.render] at hread ⊢
    simp only [String.toList_append, List.append_assoc] at hread ⊢
    obtain ⟨hcut, hnot, hcollect, -⟩ := commanded_clause v (k := .assert) (by simp)
      ((Goal.renderClause v head body).toList ++ o)
    exact Reads.plain rfl (Fails.orRight (Fails.map hcut) (Fails.orRight hnot (Fails.orRight hcollect
      (Reads.orLeft hread))))
  | @retract head body hh hg ih =>
    intro o ho
    have hread := reads_retractGoal hh hg ih ho
    rw [Goal.render] at hread ⊢
    simp only [String.toList_append, List.append_assoc] at hread ⊢
    obtain ⟨hcut, hnot, hcollect, hassert⟩ := commanded_clause v (k := .retract) (by simp)
      ((Goal.renderClause v head body).toList ++ o)
    exact Reads.plain rfl (Fails.orRight (Fails.map hcut) (Fails.orRight hnot (Fails.orRight hcollect
      (Fails.orRight (hassert (by decide)) (Reads.orLeft hread)))))

end Language

end BilingualLogic
