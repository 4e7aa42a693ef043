import BilingualLogic.Proofs.Grammar.Precedence
import BilingualLogic.Proofs.Names.Order
import BilingualLogic.Proofs.Names.Reading

/-!
How deep that nests which is read under a limit. Terms, goals and parentheses nest at most as deep as the limit says.
Signs and operators that stand without parentheses are not counted, and formulas are higher by as many of them.
-/

namespace BilingualLogic

namespace Formula

/-- The most signs and operators that stand one inside another. -/
def height : Formula → Nat
  | term _ => 0
  | negate a => a.height + 1
  | binary _ a b => max a.height b.height + 1

/-- The most signs and operators one inside another that are written without parentheses, where the formula stands in
one of the given precedence. -/
def unguarded (outer : Nat) : Formula → Nat
  | term _ => 0
  | negate a => a.unguarded 3 + 1
  | binary op a b =>
    let inner := max (a.unguarded op.precedence) (b.unguarded (op.precedence + 1))
    if op.precedence < outer then inner else inner + 1

theorem height_le (e : Formula) (outer : Nat) : e.height ≤ e.levels outer + e.unguarded outer := by
  induction e generalizing outer with
  | term t => exact Nat.zero_le _
  | negate a ih =>
    have ha := ih 3
    simp only [height, levels, unguarded]
    omega
  | binary op a b iha ihb =>
    have ha := iha op.precedence
    have hb := ihb (op.precedence + 1)
    simp only [height, levels, unguarded]
    split <;> omega

theorem levels_le (e : Formula) (outer : Nat) : e.levels outer ≤ e.levels 0 + 1 := by
  cases e with
  | term t => exact Nat.zero_le _
  | negate a => exact Nat.le_succ _
  | binary op a b =>
    simp only [levels, Nat.not_lt_zero, if_false]
    split <;> omega

/-- A formula that was read under the limit: it is higher than the limit says only where signs and operators stand
without parentheses. -/
structure Bounded (limit : Nat) (e : Formula) : Prop where
  terms : ∀ t ∈ e.terms, t.depth ≤ limit
  depth : e.depth ≤ limit
  height : e.height + 1 ≤ limit + e.unguarded 0

end Formula

namespace Goal

mutual

/-- The formulas, those of nested goals too. -/
def formulas : Goal → List Formula
  | is _ e => [e]
  | compare _ a b => [a, b]
  | not goals => formulasAll goals
  | collect _ _ goals _ => formulasAll goals
  | assert _ body => formulasAll body
  | retract _ body => formulasAll body
  | _ => []

def formulasAll : List Goal → List Formula
  | [] => []
  | g :: gs => g.formulas ++ formulasAll gs

end

mutual

/-- How deep goals nest in the goal. -/
def nesting : Goal → Nat
  | not goals => nestingAll goals
  | collect _ _ goals _ => nestingAll goals
  | assert _ body => nestingAll body
  | retract _ body => nestingAll body
  | _ => 0

/-- How deep goals nest in one that these stand in. -/
def nestingAll : List Goal → Nat
  | [] => 0
  | g :: gs => max (g.nesting + 1) (nestingAll gs)

end

/-- A goal that was read under the limit. -/
structure Bounded (limit : Nat) (g : Goal) : Prop where
  terms : ∀ t ∈ g.terms, t.depth ≤ limit
  formulas : ∀ e ∈ g.formulas, e.Bounded limit
  nesting : g.nesting ≤ limit

/-- The goals that stand in a goal which was read under the limit. -/
structure BoundedAll (limit : Nat) (goals : List Goal) : Prop where
  terms : ∀ t ∈ termsAll goals, t.depth ≤ limit
  formulas : ∀ e ∈ formulasAll goals, e.Bounded limit
  nesting : nestingAll goals ≤ limit

end Goal

def StatementForm.formulas : StatementForm → List Formula
  | .fact _ => []
  | .rule _ body => Goal.formulasAll body
  | .query goals => Goal.formulasAll goals
  | .directive g => g.formulas

def StatementForm.Bounded (limit : Nat) : StatementForm → Prop
  | .fact head => ∀ t ∈ head.arguments, t.depth ≤ limit
  | .rule head body => (∀ t ∈ head.arguments, t.depth ≤ limit) ∧ ∀ g ∈ body, g.Bounded limit
  | .query goals => ∀ g ∈ goals, g.Bounded limit
  | .directive g => g.Bounded limit

section Combination

variable {limit depth : Nat}

theorem Term.add_depthAll_le {ts : List Term} (hdepth : depth ≤ limit) (h : ∀ t ∈ ts, depth + t.depth ≤ limit) :
    depth + depthAll ts ≤ limit := by
  induction ts with
  | nil => exact hdepth
  | cons t ts ih =>
    obtain ⟨ht, hts⟩ := List.forall_mem_cons.mp h
    have := ih hts
    rw [depthAll]
    omega

theorem Term.depthAll_append (as bs : List Term) : depthAll (as ++ bs) = max (depthAll as) (depthAll bs) := by
  induction as with
  | nil => simp [depthAll]
  | cons a as ih => rw [List.cons_append, depthAll, depthAll, ih, Nat.max_assoc]

/-- The items of a list that stands behind others are no deeper than its own were. -/
theorem Term.depth_cons_le (ts : List Term) (r : Term) : (cons ts r).depth ≤ 1 + max (depthAll ts) r.depth := by
  cases ts with
  | nil =>
    change r.depth ≤ 1 + max (depthAll []) r.depth
    omega
  | cons t ts =>
    cases r with
    | var x | const v => exact Nat.le_refl _
    | list us =>
      change 1 + depthAll (t :: ts ++ us) ≤ 1 + max (depthAll (t :: ts)) (1 + depthAll us)
      rw [depthAll_append]
      omega
    | pattern us r =>
      change 1 + max (depthAll (t :: ts ++ us)) r.depth ≤ 1 + max (depthAll (t :: ts)) (1 + max (depthAll us) r.depth)
      rw [depthAll_append]
      omega

theorem Formula.Bounded.mono {e : Formula} {n m : Nat} (h : e.Bounded n) (hnm : n ≤ m) : e.Bounded m :=
  ⟨fun t ht => Nat.le_trans (h.terms t ht) hnm, Nat.le_trans h.depth hnm,
    Nat.le_trans h.height (Nat.add_le_add_right hnm _)⟩

/-- The formula is no higher than the limit says if no two signs or operators stand in one another without
parentheses. -/
theorem Formula.Bounded.height_le {e : Formula} (h : e.Bounded limit) (he : e.unguarded 0 ≤ 1) : e.height ≤ limit := by
  have := h.height
  omega

theorem Goal.boundedAll {goals : List Goal} (h : ∀ g ∈ goals, depth + 1 ≤ limit ∧ g.Bounded (limit - (depth + 1))) :
    BoundedAll (limit - depth) goals := by
  induction goals with
  | nil => exact ⟨by simp [termsAll], by simp [formulasAll], Nat.zero_le _⟩
  | cons g gs ih =>
    obtain ⟨⟨hdepth, hg⟩, hgs⟩ := List.forall_mem_cons.mp h
    have hall := ih hgs
    have hle : limit - (depth + 1) ≤ limit - depth := by omega
    refine ⟨List.forall_mem_append.mpr ⟨fun t ht => Nat.le_trans (hg.terms t ht) hle, hall.terms⟩,
      List.forall_mem_append.mpr ⟨fun e he => (hg.formulas e he).mono hle, hall.formulas⟩,
      Nat.max_le.mpr ⟨?_, hall.nesting⟩⟩
    have := hg.nesting
    omega

end Combination

namespace Source

variable {limit : Nat}

theorem Term.Valid.keeps_depth {x : Term} (h : x.Valid) (depth : Nat) :
    (x.read depth).Keeps fun limit t => depth + t.depth ≤ limit := by
  induction h generalizing depth with
  | anonymous s =>
    exact .bind (Reading.keeps_checkDepth _ s) fun _ => .bind (P := fun _ _ => True) (fun _ _ _ _ _ => trivial)
      fun _ => Reading.keeps_pure fun _ _ hdepth => hdepth
  | number s numeral =>
    exact .bind (Reading.keeps_checkDepth _ s) fun _ => .bind (P := fun _ _ => True) (fun _ _ _ _ _ => trivial)
      fun _ => Reading.keeps_pure fun _ _ hdepth => hdepth
  | var s _ _ | text s _ | boolean s _ | atom s _ _ =>
    exact .bind (Reading.keeps_checkDepth _ s) fun _ => Reading.keeps_pure fun _ hdepth => hdepth
  | list s _ ih =>
    refine .bind (Reading.keeps_checkDepth _ s) fun _ => .bind (Term.keeps_readAll fun x hx => ih x hx _) fun ts =>
      Reading.keeps_pure fun limit hts hdepth => ?_
    have hall := BilingualLogic.Term.add_depthAll_le hdepth hts
    rw [BilingualLogic.Term.depth]
    omega
  | pattern s _ _ _ ih ihrest =>
    refine .bind (Reading.keeps_checkDepth _ s) fun _ => .bind (Term.keeps_readAll fun x hx => ih x hx _) fun ts =>
      .bind (ihrest _) fun r => Reading.keeps_pure fun limit hr hts hdepth => ?_
    have hall := BilingualLogic.Term.add_depthAll_le hdepth hts
    have hcons := BilingualLogic.Term.depth_cons_le ts r
    omega

theorem Predicate.Valid.keeps_depth {x : Predicate} (h : x.Valid) (depth : Nat) :
    (x.read depth).Keeps fun limit p => ∀ t ∈ p.arguments, depth + t.depth ≤ limit :=
  .bind (Term.keeps_readAll fun t ht => (h.arguments t ht).keeps_depth depth) fun _ =>
    Reading.keeps_pure fun _ hts => hts

/-- The parentheses with which a formula is written stand in its source, where it has been found to be in order. -/
theorem Formula.Ordered.keeps_levels {x : Formula} (h : x.Ordered) {depth outer : Nat} (houter : outer ≤ x.precedence) :
    (x.read depth).Keeps fun limit e => depth ≤ limit →
      depth + e.levels outer ≤ limit ∧ ∀ t ∈ e.terms, t.depth = 1 := by
  induction h generalizing depth outer with
  | number s numeral =>
    exact .bind (P := fun _ _ => True) (fun _ _ _ _ _ => trivial) fun _ => Reading.keeps_pure fun _ _ hdepth =>
      ⟨hdepth, List.forall_mem_singleton.mpr rfl⟩
  | var name | text content =>
    exact Reading.keeps_pure fun _ hdepth => ⟨hdepth, List.forall_mem_singleton.mpr rfl⟩
  | @negate x _ hx ih =>
    exact .bind (ih (Nat.le_of_eq hx.symm)) fun _ => Reading.keeps_pure fun _ he => he
  | @binary op x y _ hx _ hy ihx ihy =>
    have hy : op.precedence + 1 ≤ y.precedence := hy
    refine .bind (ihx hx) fun a => .bind (ihy hy) fun b => Reading.keeps_pure fun limit hb ha hdepth => ?_
    obtain ⟨ha, hta⟩ := ha hdepth
    obtain ⟨hb, htb⟩ := hb hdepth
    refine ⟨?_, List.forall_mem_append.mpr ⟨hta, htb⟩⟩
    change outer ≤ op.precedence at houter
    rw [BilingualLogic.Formula.levels, if_neg (Nat.not_lt.mpr houter)]
    omega
  | @group s x _ ih =>
    refine .bind (Reading.keeps_checkDepth _ s) fun _ => fun c n e k he hdepth _ => ?_
    obtain ⟨hlevels, hterms⟩ := ih (Nat.zero_le _) c n e k he hdepth
    have := e.levels_le outer
    exact ⟨by omega, hterms⟩

theorem Formula.Whole.keeps_bounded {x : Formula} (h : x.Whole) (depth : Nat) :
    (x.read depth).Keeps fun limit e => e.Bounded (limit - depth) := by
  obtain ⟨s, hx⟩ := h
  refine .bind (Reading.keeps_checkDepth _ s) fun _ => fun c n e k he hdepth => ?_
  obtain ⟨hlevels, hterms⟩ := hx.keeps_levels (Nat.zero_le _) c n e k he hdepth
  have hheight := e.height_le 0
  refine ⟨fun t ht => ?_, ?_, ?_⟩
  · rw [hterms t ht]
    omega
  · rw [BilingualLogic.Formula.depth]
    omega
  · omega

theorem Scope.keeps_depth (s : Scope) (depth : Nat) : (s.check depth).Keeps fun limit _ => depth + 1 ≤ limit := by
  intro c n u k h
  have hcheck := Reading.keeps_checkDepth _ _ c n u k h
  split at hcheck <;> omega

theorem Goal.Valid.keeps_bounded {x : Goal} (h : x.Valid) (hx : x.Ordered) (depth : Nat) :
    (x.read depth).Keeps fun limit g => depth ≤ limit → g.Bounded (limit - depth) := by
  induction h generalizing depth with
  | call hp =>
    refine .bind (hp.keeps_depth depth) fun p =>
      Reading.keeps_pure fun limit hp _ => ⟨fun t ht => ?_, ?_, Nat.zero_le _⟩
    · exact Nat.le_sub_of_add_le' (hp t ht)
    · simp [BilingualLogic.Goal.formulas]
  | truth _ | cut =>
    refine Reading.keeps_pure fun limit _ => ⟨?_, ?_, Nat.zero_le _⟩
    · simp [BilingualLogic.Goal.terms]
    · simp [BilingualLogic.Goal.formulas]
  | not s _ _ ih =>
    refine .bind (s.keeps_depth depth) fun _ => .bind (Goal.keeps_readAll fun x hx' => ih x hx' ?_ _) fun gs =>
      Reading.keeps_pure fun limit hgs hscope hdepth => ?_
    · exact fun e he => hx e (Source.Goal.mem_formulasAll.mpr ⟨x, hx', he⟩)
    · obtain ⟨hterms, hformulas, hnesting⟩ := BilingualLogic.Goal.boundedAll fun g hg => ⟨hscope, hgs g hg hscope⟩
      exact ⟨hterms, hformulas, hnesting⟩
  | unify ha hb =>
    refine .bind (ha.keeps_depth depth) fun a => .bind (hb.keeps_depth depth) fun b =>
      Reading.keeps_pure fun limit hb ha _ => ⟨?_, ?_, Nat.zero_le _⟩
    · exact List.forall_mem_cons.mpr ⟨Nat.le_sub_of_add_le' ha,
        List.forall_mem_singleton.mpr (Nat.le_sub_of_add_le' hb)⟩
    · simp [BilingualLogic.Goal.formulas]
  | is ha he =>
    refine .bind (ha.keeps_depth depth) fun a =>
      .bind ((hx _ (List.mem_singleton.mpr rfl)).keeps_bounded depth) fun e =>
      Reading.keeps_pure fun limit he ha _ => ⟨?_, List.forall_mem_singleton.mpr he, Nat.zero_le _⟩
    exact List.forall_mem_cons.mpr ⟨Nat.le_sub_of_add_le' ha, he.terms⟩
  | @compare op a b ha hb =>
    refine .bind ((hx a (by simp [Source.Goal.formulas])).keeps_bounded depth) fun a =>
      .bind ((hx b (by simp [Source.Goal.formulas])).keeps_bounded depth) fun b =>
      Reading.keeps_pure fun limit hb ha _ => ⟨?_, ?_, Nat.zero_le _⟩
    · exact List.forall_mem_append.mpr ⟨ha.terms, hb.terms⟩
    · exact List.forall_mem_cons.mpr ⟨ha, List.forall_mem_singleton.mpr hb⟩
  | collect kind s ht _ _ hr ih =>
    refine .bind (ht.keeps_depth depth) fun t => .bind (s.keeps_depth depth) fun _ =>
      .bind (Goal.keeps_readAll fun x hx' => ih x hx' ?_ _) fun gs => .bind (hr.keeps_depth depth) fun r =>
      Reading.keeps_pure fun limit hr hgs hscope ht hdepth => ?_
    · exact fun e he => hx e (Source.Goal.mem_formulasAll.mpr ⟨x, hx', he⟩)
    · obtain ⟨hterms, hformulas, hnesting⟩ := BilingualLogic.Goal.boundedAll fun g hg => ⟨hscope, hgs g hg hscope⟩
      refine ⟨List.forall_mem_append.mpr ⟨List.forall_mem_cons.mpr ⟨Nat.le_sub_of_add_le' ht, hterms⟩, ?_⟩, hformulas,
        hnesting⟩
      exact List.forall_mem_singleton.mpr (Nat.le_sub_of_add_le' hr)
  | assert s hh _ ih | retract s hh _ ih =>
    refine .bind (hh.keeps_depth depth) fun head => .bind (Goal.keeps_readBody s fun x hx' => ih x hx' ?_ _) fun gs =>
      Reading.keeps_pure fun limit hgs hhead hdepth => ?_
    · exact fun e he => hx e (Source.Goal.mem_formulasAll.mpr ⟨x, hx', he⟩)
    · obtain ⟨hterms, hformulas, hnesting⟩ := BilingualLogic.Goal.boundedAll fun g hg =>
        ⟨Nat.le_of_succ_le (hgs g hg).1, (hgs g hg).2 (Nat.le_of_succ_le (hgs g hg).1)⟩
      exact ⟨List.forall_mem_append.mpr ⟨fun t ht => Nat.le_sub_of_add_le' (hhead t ht), hterms⟩, hformulas, hnesting⟩

theorem Body.Valid.keeps_bounded {b : Body} (h : b.Valid) (hb : ∀ g ∈ b.goals, g.Ordered) :
    b.read.Keeps fun limit gs => ∀ g ∈ gs, g.Bounded limit :=
  .bind (Reading.keeps_checkDepth _ b.span) fun _ => fun c n gs k hgs _ g hg =>
    Goal.keeps_readAll (fun x hx => (h.goals x hx).keeps_bounded (hb x hx) 0) c n gs k hgs g hg (Nat.zero_le _)

theorem StatementForm.Valid.keeps_bounded {x : Statement} (h : x.form.Valid) (hx : x.form.Ordered) :
    x.read.Keeps fun limit s => s.form.Bounded limit := by
  obtain ⟨span, form⟩ := x
  have directive {g : Goal} (hg : g.Valid) (hx : g.Ordered) :
      (Statement.read ⟨span, .directive g⟩).Keeps fun limit s => s.form.Bounded limit :=
    .bind (hg.keeps_bounded hx 0) fun _ => Reading.keeps_pure fun limit hg => hg (Nat.zero_le _)
  cases h with
  | fact hhead =>
    exact .bind (hhead.keeps_depth 0) fun _ => Reading.keeps_pure fun limit hhead t ht => by simpa using hhead t ht
  | rule hhead hbody =>
    exact .bind (hhead.keeps_depth 0) fun _ => .bind (hbody.keeps_bounded hx) fun _ =>
      Reading.keeps_pure fun limit hbody hhead => ⟨fun t ht => by simpa using hhead t ht, hbody⟩
  | query hbody => exact .bind (hbody.keeps_bounded hx) fun _ => Reading.keeps_pure fun _ hgoals => hgoals
  | assert s hhead hbody => exact directive (.assert s hhead hbody) hx
  | retract s hhead hbody => exact directive (.retract s hhead hbody) hx

end Source

section Parsing

variable {text : String}

theorem Program.bounded_of_parse {limits : Limits} {source : String} {p : Program}
    (h : Program.parse limits source text = .ok p) : ∀ s ∈ p.statements, s.form.Bounded limits.maxTermDepth := by
  obtain ⟨tree, htree, hread⟩ := statements_of_parse h
  have hvalid := Source.valid_of_parse htree
  have hordered := Source.ordered_of_parse htree
  have hkeeps (x) (hx : x ∈ tree) : x.read.Keeps fun limit (s : Statement) => s.form.Bounded limit :=
    (hvalid x hx).keeps_bounded (hordered x hx)
  exact Source.keeps_of_readStatements hkeeps (by simp) hread

theorem Goal.bounded_of_parseQuery {goals : List Goal} (h : Goal.parseQuery text = .ok goals) :
    ∀ g ∈ goals, g.Bounded 100 := by
  obtain ⟨b, k, hb, hread⟩ := Source.parseAlone_eq_ok h
  exact (Source.valid_of_parseQuery hb).keeps_bounded (Source.ordered_of_parseQuery hb) _ _ _ _ hread

theorem Term.depth_le_of_parse {t : Term} (h : Term.parse text = .ok t) : t.depth ≤ 100 := by
  obtain ⟨x, k, hx, hread⟩ := Source.parseAlone_eq_ok h
  simpa using (Source.valid_of_parseTerm hx).keeps_depth 0 _ _ _ _ hread

theorem Formula.bounded_of_parse {e : Formula} (h : Formula.parse text = .ok e) : e.Bounded 100 := by
  obtain ⟨x, k, hx, hread⟩ := Source.parseAlone_eq_ok h
  exact (Source.whole_of_parseFormula hx).keeps_bounded 0 _ _ _ _ hread

end Parsing

/-- All that is read from a text nests no deeper than the limit says, but for the signs and operators of formulas that
stand without parentheses. -/
theorem nesting_bounded (text : String) :
    (∀ limits source p, Program.parse limits source text = .ok p →
      ∀ s ∈ p.statements, s.form.Bounded limits.maxTermDepth) ∧
    (∀ goals, Goal.parseQuery text = .ok goals → ∀ g ∈ goals, g.Bounded ({} : Limits).maxTermDepth) ∧
    (∀ t, Term.parse text = .ok t → t.depth ≤ ({} : Limits).maxTermDepth) ∧
    ∀ e, Formula.parse text = .ok e → e.Bounded ({} : Limits).maxTermDepth :=
  ⟨fun _ _ _ => Program.bounded_of_parse, fun _ => Goal.bounded_of_parseQuery, fun _ => Term.depth_le_of_parse,
    fun _ => Formula.bounded_of_parse⟩

theorem nesting_bounded_nested : ∃ p,
    Program.parse ⟨100, 4, 0, none, none⟩ "source" "rule p :- not (q([[?x]]), ?x < 2 * (1 + ?x));" = .ok p ∧
      ∀ s ∈ p.statements, s.form.Bounded 4 := by
  have hok : (Program.parse ⟨100, 4, 0, none, none⟩ "source" "rule p :- not (q([[?x]]), ?x < 2 * (1 + ?x));").isOk =
      true := by decide +kernel
  cases hp : Program.parse ⟨100, 4, 0, none, none⟩ "source" "rule p :- not (q([[?x]]), ?x < 2 * (1 + ?x));" with
  | error e =>
    rw [hp] at hok
    cases hok
  | ok p => exact ⟨p, rfl, (nesting_bounded _).1 _ _ p hp⟩

/-- Operators that stand in a row without parentheses are not counted. -/
theorem nesting_of_row : ∃ p, Program.parse ⟨100, 1, 0, none, none⟩ "source" "query 1 < 2 + 3 + 4;" = .ok p ∧
    ∃ s ∈ p.statements, ∃ e ∈ s.form.formulas, 1 < e.height := by
  have hheights : ((Program.parse ⟨100, 1, 0, none, none⟩ "source" "query 1 < 2 + 3 + 4;").toOption.any fun p =>
      p.statements.any fun s => s.form.formulas.any fun e => 1 < e.height) = true := by
    decide +kernel
  cases hp : Program.parse ⟨100, 1, 0, none, none⟩ "source" "query 1 < 2 + 3 + 4;" with
  | error e =>
    rw [hp] at hheights
    cases hheights
  | ok p =>
    rw [hp] at hheights
    exact ⟨p, rfl, by simpa [Except.toOption] using hheights⟩

end BilingualLogic
