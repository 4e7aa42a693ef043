import BilingualLogic.Proofs.Names.Reading
import BilingualLogic.Proofs.Rendering.Operands
import BilingualLogic.Proofs.Rendering.Shown
import Mathlib.Data.Set.Finite.Basic

/-!
What the text of a clause tells of it. The text shows all but the names of hidden variables: clauses that were parsed
and have the same text differ in these names only. So the text does not tell which hidden variables are the same.
-/

namespace BilingualLogic

section Spoken

variable {x : String} {F G : Term → Term}

/-- Two functions on terms that make the same of a hidden variable and of its name make the same of a formula and of the
one with that name. -/
theorem Formula.mapTerms_spoken {e : Formula} (hvar : ∀ y, Term.isHidden y = true → F (.var x) = G (.var y))
    (h : ∀ t ∈ e.terms, F t = G t) : (e.spoken x).mapTerms F = e.mapTerms G := by
  induction e with
  | term t =>
    have ht := h t (List.mem_singleton.mpr rfl)
    cases t with
    | var y =>
      rw [spoken, mapTerms, mapTerms]
      split
      · next hy => rw [hvar y hy]
      · rw [ht]
    | _ => exact congrArg Formula.term ht
  | negate a ih => exact congrArg Formula.negate (ih h)
  | binary op a b iha ihb =>
    obtain ⟨ha, hb⟩ := List.forall_mem_append.mp h
    exact congrArg₂ (Formula.binary op) (iha ha) (ihb hb)

namespace Goal

mutual

theorem mapTerms_spoken {g : Goal} (hvar : ∀ y, Term.isHidden y = true → F (.var x) = G (.var y))
    (h : ∀ t ∈ g.terms, F t = G t) : (g.spoken x).mapTerms F = g.mapTerms G := by
  cases g with
  | call p => exact congrArg Goal.call (Predicate.mapTerms_congr h)
  | cut => rfl
  | not goals => exact congrArg Goal.not (mapTermsAll_spokenAll hvar h)
  | unify a b => exact congrArg₂ Goal.unify (h a (by simp [terms])) (h b (by simp [terms]))
  | is a e =>
    obtain ⟨ha, he⟩ := List.forall_mem_cons.mp h
    exact congrArg₂ Goal.is ha (Formula.mapTerms_spoken hvar he)
  | compare op a b =>
    obtain ⟨ha, hb⟩ := List.forall_mem_append.mp h
    exact congrArg₂ (Goal.compare op) (Formula.mapTerms_spoken hvar ha) (Formula.mapTerms_spoken hvar hb)
  | collect kind t goals r =>
    obtain ⟨hfront, hr⟩ := List.forall_mem_append.mp h
    obtain ⟨ht, hgoals⟩ := List.forall_mem_cons.mp hfront
    rw [spoken, mapTerms, mapTerms, ht, mapTermsAll_spokenAll hvar hgoals, hr r (List.mem_singleton.mpr rfl)]
  | assert head body =>
    obtain ⟨hhead, hbody⟩ := List.forall_mem_append.mp h
    exact congrArg₂ Goal.assert (Predicate.mapTerms_congr hhead) (mapTermsAll_spokenAll hvar hbody)
  | retract head body =>
    obtain ⟨hhead, hbody⟩ := List.forall_mem_append.mp h
    exact congrArg₂ Goal.retract (Predicate.mapTerms_congr hhead) (mapTermsAll_spokenAll hvar hbody)

theorem mapTermsAll_spokenAll {gs : List Goal} (hvar : ∀ y, Term.isHidden y = true → F (.var x) = G (.var y))
    (h : ∀ t ∈ termsAll gs, F t = G t) : mapTermsAll F (spokenAll x gs) = mapTermsAll G gs := by
  cases gs with
  | nil => rfl
  | cons g gs =>
    obtain ⟨hg, hgs⟩ := List.forall_mem_append.mp h
    rw [spokenAll, mapTermsAll, mapTermsAll, mapTerms_spoken hvar hg, mapTermsAll_spokenAll hvar hgs]

end

end Goal

/-- The term without the name that was put in for hidden variables. -/
def Term.unspoken (x : String) : Term → Term
  | .var y => .var (if y = x then "_" else y)
  | t => t

theorem Term.unspoken_veil (hx : Term.isHidden x = false) {t : Term} (ht : x ∉ t.names) :
    t.veil.unspoken x = t.veil := by
  cases t with
  | var y =>
    have hne : shownName y ≠ x := by
      rintro rfl
      rw [isHidden_shownName] at hx
      rw [shownName_of_visible hx] at ht
      exact ht (List.mem_singleton.mpr rfl)
    rw [veil, unspoken, if_neg hne]
  | const v => cases v <;> rfl
  | _ => rfl

theorem Clause.veil_spoken (hx : Term.isHidden x = false) {c : Clause} (hc : x ∉ c.names) :
    ((c.spoken x).mapTerms Term.veil).mapTerms (Term.unspoken x) = c.mapTerms Term.veil := by
  have hvar (y : String) (hy : Term.isHidden y = true) : (Term.var x).veil.unspoken x = (Term.var y).veil := by
    rw [Term.veil, Term.veil, shownName_of_visible hx, shownName_of_hidden hy, Term.unspoken, if_pos rfl]
  have hterms (t : Term) (ht : t ∈ c.terms) : t.veil.unspoken x = t.veil :=
    Term.unspoken_veil hx fun hmem => hc (mem_names ht hmem)
  obtain ⟨hhead, hbody⟩ := List.forall_mem_append.mp hterms
  rw [mapTerms_mapTerms]
  exact congrArg₂ Clause.mk (Predicate.mapTerms_congr hhead) (Goal.mapTermsAll_spokenAll hvar hbody)

end Spoken

/-- The clause that a fact or a rule is. -/
def StatementForm.clause? : StatementForm → Option Clause
  | .fact head => some ⟨head, []⟩
  | .rule head body => some ⟨head, body⟩
  | _ => none

/-- The clauses that a program declares. -/
def Program.clauses (p : Program) : List Clause := p.statements.filterMap fun s => s.form.clause?

namespace StatementForm

theorem clause?_form (c : Clause) : c.form.clause? = some c := by
  obtain ⟨head, body⟩ := c
  cases body <;> rfl

theorem clause?_reread (f : StatementForm) (n : Nat) :
    (f.reread n).1.clause?.map (Clause.mapTerms Term.veil) = f.clause?.map (Clause.mapTerms Term.veil) := by
  cases f with
  | fact head => exact congrArg (fun p => some (Clause.mk p [])) (head.veil_reread n)
  | rule head body =>
    exact congrArg some (congrArg₂ Clause.mk (head.veil_reread n) (Goal.veil_rereadAll body _))
  | query goals => rfl
  | directive g => rfl

end StatementForm

theorem Term.hereditary_readable : Hereditary Term.Readable where
  list := ⟨fun h => by cases h with | list has => exact has, .list⟩
  pattern h := by
    cases h with
    | pattern _ has _ hr => exact ⟨has, hr⟩
  cons := by
    intro as r has hr
    refine cons_induct (P := Term.Readable) hr ?_ ?_ fun hne htail => .pattern hne has htail hr
    · rintro bs rfl
      cases hr with
      | list hbs => exact .list (List.forall_mem_append.mpr ⟨has, hbs⟩)
    · rintro bs q rfl
      cases hr with
      | pattern hne hbs htail hq =>
        exact .pattern (by simp [hne]) (List.forall_mem_append.mpr ⟨has, hbs⟩) htail hq

namespace Source

variable {x : String}

theorem Term.Valid.gives_readable {t : Term} (h : t.Valid) (depth : Nat) :
    (t.read depth).Gives BilingualLogic.Term.Readable := by
  induction h generalizing depth with
  | anonymous s =>
    refine .checked fun c n t k ht => ?_
    cases ht
    exact .anonymous (BilingualLogic.Term.isHidden_anonymous n)
  | @var s name hne hchars =>
    refine .checked (Reading.gives_pure ?_)
    cases hname : BilingualLogic.Term.isHidden name with
    | true => exact .anonymous hname
    | false => exact .var ⟨hne, hchars, hname⟩
  | number s numeral => exact .checked (.bind (Reading.gives_any _) fun a _ => Reading.gives_pure (.number a))
  | text s content => exact .checked (Reading.gives_pure (.text content))
  | boolean s b => exact .checked (Reading.gives_pure (.boolean b))
  | atom s hname hne => exact .checked (Reading.gives_pure (.atom hname hne))
  | list s _ ih =>
    exact .checked (.bind (Term.gives_readAll fun x hx => ih x hx _) fun ts hts => Reading.gives_pure (.list hts))
  | pattern s _ _ _ ih ihrest =>
    exact .checked (.bind (Term.gives_readAll fun x hx => ih x hx _) fun ts hts => .bind (ihrest _) fun r hr =>
      Reading.gives_pure (BilingualLogic.Term.hereditary_readable.cons hts hr))

theorem Predicate.Valid.gives_readable {p : Predicate} (h : p.Valid) (depth : Nat) :
    (p.read depth).Gives BilingualLogic.Predicate.Readable :=
  .bind (Term.gives_readAll fun t ht => (h.arguments t ht).gives_readable depth) fun _ hts =>
    Reading.gives_pure ⟨h.name, hts⟩

theorem Formula.Valid.gives_readable (hx : VisibleName x) {e : Formula} (h : e.Valid) (depth : Nat) :
    (e.read depth).Gives fun e => (e.spoken x).Readable := by
  induction h generalizing depth with
  | number s hsign =>
    exact .bind (fun _ _ _ _ ha => BilingualLogic.Formula.nonneg_of_readNumber hsign ha) fun a ha =>
      Reading.gives_pure (.number ha)
  | @var name hne hchars =>
    refine Reading.gives_pure (.var ?_)
    cases hname : BilingualLogic.Term.isHidden name with
    | true => exact hx
    | false => exact ⟨hne, hchars, hname⟩
  | text content => exact Reading.gives_pure (.text content)
  | negate _ ih => exact .bind (ih depth) fun _ he => Reading.gives_pure (.negate he)
  | binary op _ _ iha ihb =>
    exact .bind (iha depth) fun _ ha => .bind (ihb depth) fun _ hb => Reading.gives_pure (.binary op ha hb)
  | group s _ ih => exact .checked (ih _)

theorem Goal.gives_spokenAll {xs : List Goal} {depth : Nat}
    (h : ∀ y ∈ xs, (y.read depth).Gives fun g => (g.spoken x).Readable) : (Goal.readAll depth xs).Gives fun gs =>
      (xs ≠ [] → BilingualLogic.Goal.spokenAll x gs ≠ []) ∧ ∀ g ∈ BilingualLogic.Goal.spokenAll x gs, g.Readable := by
  induction xs with
  | nil => exact Reading.gives_pure ⟨fun h => absurd rfl h, by simp [BilingualLogic.Goal.spokenAll]⟩
  | cons y ys ih =>
    obtain ⟨hy, hys⟩ := List.forall_mem_cons.mp h
    exact .bind hy fun g hg => .bind (ih hys) fun gs hgs => Reading.gives_pure
      ⟨fun _ => List.cons_ne_nil _ _, List.forall_mem_cons.mpr ⟨hg, hgs.2⟩⟩

theorem Goal.gives_spokenBody {xs : List Goal} {depth : Nat} (s : Text.Span)
    (h : ∀ y ∈ xs, (y.read (depth + 1)).Gives fun g => (g.spoken x).Readable) :
    (Goal.readBody depth s xs).Gives fun gs => ∀ g ∈ BilingualLogic.Goal.spokenAll x gs, g.Readable := by
  intro c n gs k hgs
  have hall := Goal.gives_readBody s h c n gs k hgs
  rw [BilingualLogic.Goal.spokenAll_eq]
  exact List.forall_mem_map.mpr hall

theorem Goal.Valid.gives_readable (hx : VisibleName x) {g : Goal} (h : g.Valid) (depth : Nat) :
    (g.read depth).Gives fun g => (g.spoken x).Readable := by
  induction h generalizing depth with
  | call hp => exact .bind (hp.gives_readable depth) fun _ hp => Reading.gives_pure (.call hp)
  | truth hname => exact Reading.gives_pure (.truth hname)
  | cut => exact Reading.gives_pure .cut
  | not s hne _ ih =>
    exact .checked (.bind (Goal.gives_spokenAll fun y hy => ih y hy _) fun _ hgs =>
      Reading.gives_pure (.not (hgs.1 hne) hgs.2))
  | unify ha hb =>
    exact .bind (ha.gives_readable depth) fun _ ha => .bind (hb.gives_readable depth) fun _ hb =>
      Reading.gives_pure (.unify ha hb)
  | is ha he =>
    exact .bind (ha.gives_readable depth) fun _ ha => .bind (he.gives_readable hx depth) fun _ he =>
      Reading.gives_pure (.is ha he)
  | compare op ha hb =>
    exact .bind (ha.gives_readable hx depth) fun _ ha => .bind (hb.gives_readable hx depth) fun _ hb =>
      Reading.gives_pure (.compare op ha hb)
  | collect kind s ht hne _ hr ih =>
    exact .bind (ht.gives_readable depth) fun _ ht => .checked (.bind (Goal.gives_spokenAll fun y hy => ih y hy _)
      fun _ hgs => .bind (hr.gives_readable depth) fun _ hr =>
        Reading.gives_pure (.collect kind ht (hgs.1 hne) hgs.2 hr))
  | assert s hh _ ih =>
    exact .bind (hh.gives_readable depth) fun _ hh => .bind (Goal.gives_spokenBody s fun y hy => ih y hy _)
      fun _ hgs => Reading.gives_pure (.assert hh hgs)
  | retract s hh _ ih =>
    exact .bind (hh.gives_readable depth) fun _ hh => .bind (Goal.gives_spokenBody s fun y hy => ih y hy _)
      fun _ hgs => Reading.gives_pure (.retract hh hgs)

theorem StatementForm.Valid.gives_readable (hx : VisibleName x) {s : Statement} (h : s.form.Valid) :
    s.read.Gives fun s => ∀ c, s.form.clause? = some c → (c.spoken x).form.Readable := by
  obtain ⟨span, form⟩ := s
  cases h with
  | fact hhead =>
    refine .bind (hhead.gives_readable 0) fun _ hhead => Reading.gives_pure ?_
    rintro _ ⟨⟩
    exact .fact hhead
  | rule hhead hbody =>
    refine .bind (hhead.gives_readable 0) fun head hhead => .bind (.checked
      (Goal.gives_spokenAll fun y hy => (hbody.goals y hy).gives_readable hx 0)) fun body hgs => Reading.gives_pure ?_
    rintro _ ⟨⟩
    rw [Clause.spoken, Clause.form_rule head (hgs.1 hbody.ne_nil)]
    exact .rule hhead (hgs.1 hbody.ne_nil) hgs.2
  | query hbody => exact .bind (Reading.gives_any _) fun _ _ => Reading.gives_pure (by rintro _ ⟨⟩)
  | assert s _ _ | retract s _ _ => exact .bind (Reading.gives_any _) fun _ _ => Reading.gives_pure (by rintro _ ⟨⟩)

end Source

section Normal

variable {x : String}

theorem Term.Readable.isNormal {t : Term} (h : t.Readable) : t.isNormal = true := by
  induction h with
  | list _ ih => exact hereditary_isNormal.list.mpr ih
  | pattern hne _ htail _ ih ihr => exact isNormal_pattern.mpr ⟨hne, htail, ih, ihr⟩
  | _ => rfl

theorem Formula.isNormal_of_spoken {e : Formula} (h : (e.spoken x).Readable) : ∀ t ∈ e.terms, t.isNormal = true := by
  induction e with
  | term t =>
    refine List.forall_mem_singleton.mpr ?_
    cases t with
    | list as => cases h
    | pattern as r => cases h
    | _ => rfl
  | negate a ih =>
    cases h with
    | negate ha => exact ih ha
  | binary op a b iha ihb =>
    cases h with
    | binary _ ha hb => exact List.forall_mem_append.mpr ⟨iha ha, ihb hb⟩

theorem Predicate.Readable.isNormal {p : Predicate} (h : p.Readable) : ∀ t ∈ p.arguments, t.isNormal = true :=
  fun t ht => (h.arguments t ht).isNormal

namespace Goal

mutual

theorem isNormal_of_spoken {g : Goal} (h : (g.spoken x).Readable) : ∀ t ∈ g.terms, t.isNormal = true := by
  cases g with
  | call p =>
    cases h with
    | call hp => exact hp.isNormal
    | truth _ => simp [terms]
  | cut => simp [terms]
  | not goals =>
    cases h with
    | not _ hgoals => exact isNormal_of_spokenAll hgoals
  | unify a b =>
    cases h with
    | unify ha hb => exact List.forall_mem_cons.mpr ⟨ha.isNormal, List.forall_mem_singleton.mpr hb.isNormal⟩
  | is a e =>
    cases h with
    | is ha he => exact List.forall_mem_cons.mpr ⟨ha.isNormal, Formula.isNormal_of_spoken he⟩
  | compare op a b =>
    cases h with
    | compare _ ha hb =>
      exact List.forall_mem_append.mpr ⟨Formula.isNormal_of_spoken ha, Formula.isNormal_of_spoken hb⟩
  | collect kind t goals r =>
    cases h with
    | collect _ ht _ hgoals hr =>
      exact List.forall_mem_append.mpr ⟨List.forall_mem_cons.mpr ⟨ht.isNormal, isNormal_of_spokenAll hgoals⟩,
        List.forall_mem_singleton.mpr hr.isNormal⟩
  | assert head body =>
    cases h with
    | assert hhead hbody => exact List.forall_mem_append.mpr ⟨hhead.isNormal, isNormal_of_spokenAll hbody⟩
  | retract head body =>
    cases h with
    | retract hhead hbody => exact List.forall_mem_append.mpr ⟨hhead.isNormal, isNormal_of_spokenAll hbody⟩

theorem isNormal_of_spokenAll {gs : List Goal} (h : ∀ g ∈ spokenAll x gs, g.Readable) :
    ∀ t ∈ termsAll gs, t.isNormal = true := by
  cases gs with
  | nil => simp [termsAll]
  | cons g gs =>
    obtain ⟨hg, hgs⟩ := List.forall_mem_cons.mp h
    exact List.forall_mem_append.mpr ⟨isNormal_of_spoken hg, isNormal_of_spokenAll hgs⟩

end

end Goal

theorem Clause.isNormal_of_spoken {c : Clause} (h : (c.spoken x).form.Readable) : ∀ t ∈ c.terms, t.isNormal = true := by
  obtain ⟨head, body⟩ := c
  cases body with
  | nil =>
    cases h with
    | fact hhead => exact List.forall_mem_append.mpr ⟨hhead.isNormal, by simp [Goal.termsAll]⟩
  | cons g gs =>
    cases h with
    | rule hhead _ hbody => exact List.forall_mem_append.mpr ⟨hhead.isNormal, Goal.isNormal_of_spokenAll hbody⟩

end Normal

theorem exists_visibleName (names : List String) : ∃ x, VisibleName x ∧ x ∉ names := by
  have hinj : Function.Injective fun n => String.ofList (List.replicate (n + 1) 'a') := by
    intro n k h
    simpa using congrArg List.length (String.ofList_inj.mp h)
  obtain ⟨_, ⟨n, rfl⟩, hn⟩ := (Set.infinite_range_of_injective hinj).exists_notMem_finite names.finite_toSet
  refine ⟨_, ⟨by simp, fun c hc => ?_, ?_⟩, hn⟩
  · rw [String.toList_ofList] at hc
    rw [List.eq_of_mem_replicate hc]
    decide +kernel
  · rw [Term.isHidden, String.toList_ofList]
    rfl

namespace Clause

variable {c d : Clause} {v : Vocabulary}

theorem render_form (c : Clause) (s : Text.Span) : Statement.render v ⟨c.form, s⟩ = c.render v := by
  obtain ⟨head, body⟩ := c
  cases body <;> rfl

theorem clauses_of_reread {p : Program} {f : StatementForm}
    (h : p.statements.map Statement.form = StatementForm.rereadAll 0 [f]) :
    p.clauses.map (mapTerms Term.veil) = (f.clause?.map (mapTerms Term.veil)).toList := by
  have hclauses : p.clauses.map (mapTerms Term.veil)
      = (p.statements.map Statement.form).filterMap fun f => f.clause?.map (mapTerms Term.veil) := by
    rw [Program.clauses, List.map_filterMap, List.filterMap_map]
    rfl
  rw [hclauses, h, StatementForm.rereadAll, StatementForm.rereadAll, List.filterMap_cons, StatementForm.clause?_reread]
  cases f.clause? <;> rfl

theorem veil_of_parse (hc : c.form.Readable) (v : Vocabulary) :
    ∃ size depth, ∀ limits : Limits, size ≤ limits.maxFileSize → depth ≤ limits.maxTermDepth →
      ∃ p, Program.parse limits "" (c.render v) = .ok p ∧
        p.clauses.map (mapTerms Term.veil) = [c.mapTerms Term.veil] := by
  refine ⟨(c.render v).utf8ByteSize, c.form.depth, fun limits hsize hdepth => ?_⟩
  have htext : String.join ([⟨c.form, default⟩].map (Statement.render v)) = c.render v := by
    simp [String.join, render_form]
  have hforms : ∀ s ∈ [(⟨c.form, default⟩ : Statement)], s.form.Readable := by simpa using hc
  obtain ⟨p, hp, hforms⟩ := parse_statements v hforms (htext.symm ▸ hsize) (by simpa using hdepth) ""
  rw [htext] at hp
  refine ⟨p, hp, ?_⟩
  rw [clauses_of_reread hforms, StatementForm.clause?_form]
  rfl

/-- Of clauses that are read from one text the same is shown. -/
theorem veil_eq_of_readable (hc : c.form.Readable) (hd : d.form.Readable) (h : c.render v = d.render v) :
    c.mapTerms Term.veil = d.mapTerms Term.veil := by
  obtain ⟨size, depth, hc⟩ := veil_of_parse hc v
  obtain ⟨size', depth', hd⟩ := veil_of_parse hd v
  let limits : Limits := ⟨max size size', max depth depth', 0, none, none⟩
  obtain ⟨p, hp, hpc⟩ := hc limits (Nat.le_max_left _ _) (Nat.le_max_left _ _)
  obtain ⟨q, hq, hqd⟩ := hd limits (Nat.le_max_right _ _) (Nat.le_max_right _ _)
  rw [← h, hp] at hq
  cases hq
  rw [hpc] at hqd
  exact (List.cons.inj hqd).1

/-- A clause shows what it shows with a name for the hidden variables in its formulas, but for that name. -/
theorem veil_eq_of_render {x : String} (hx : VisibleName x) (hc : (c.spoken x).form.Readable)
    (hd : (d.spoken x).form.Readable) (hcx : x ∉ c.names) (hdx : x ∉ d.names) (h : c.render v = d.render v) :
    c.mapTerms Term.veil = d.mapTerms Term.veil := by
  have hspoken : (c.spoken x).render v = (d.spoken x).render v := by
    rw [← String.toList_inj, ← speak_render hc, ← speak_render hd, h]
  rw [← veil_spoken hx.isHidden hcx, ← veil_spoken hx.isHidden hdx, veil_eq_of_readable hc hd hspoken]

end Clause

namespace Program

theorem readable_of_parse {x : String} (hx : VisibleName x) {limits : Limits} {source text : String} {p : Program}
    (hp : Program.parse limits source text = .ok p) {c : Clause} (hc : c ∈ p.clauses) :
    (c.spoken x).form.Readable := by
  obtain ⟨tree, htree, hread⟩ := statements_of_parse hp
  have hvalid := Source.valid_of_parse htree
  obtain ⟨s, hs, hc⟩ := List.mem_filterMap.mp hc
  have hgives (y : Source.Statement) (hy : y ∈ tree) := Source.StatementForm.Valid.gives_readable hx (hvalid y hy)
  exact Source.gives_of_readStatements hgives (by simp) hread s hs c hc

section Parsed

variable {limits limits' : Limits} {source source' text text' : String} {p q : Program} {c d : Clause}

/-- Clauses that were parsed have the same text if and only if the same is shown of them. Then one is the other under
other names if and only if their hidden variables return at the same places, which the text does not tell. -/
theorem render_eq_iff (v : Vocabulary) (hp : Program.parse limits source text = .ok p)
    (hq : Program.parse limits' source' text' = .ok q) (hc : c ∈ p.clauses) (hd : d ∈ q.clauses) :
    (c.render v = d.render v ↔ c.mapTerms Term.veil = d.mapTerms Term.veil) ∧
      (c.render v = d.render v → (c.Renames d ↔ c.SharesHidden d)) := by
  -- A formula in which `_` stands is not read again, so both clauses are compared with a new name in its place.
  obtain ⟨x, hx, hfresh⟩ := exists_visibleName (c.names ++ d.names)
  obtain ⟨hcx, hdx⟩ := not_or.mp (mt List.mem_append.mpr hfresh)
  have hc := readable_of_parse hx hp hc
  have hd := readable_of_parse hx hq hd
  have hveil := Clause.veil_eq_of_render (v := v) hx hc hd hcx hdx
  exact ⟨⟨hveil, fun h => Clause.render_eq_of_veil h v⟩,
    fun h => Clause.renames_iff (Clause.isNormal_of_spoken hc) (hveil h)⟩

end Parsed

theorem exists_clauses (r : Except Error Program) (cs : List Clause)
    (h : r.toOption.any (fun p => cs.all fun c => p.clauses.any (c.same ·)) = true) :
    ∃ p, r = .ok p ∧ ∀ c ∈ cs, ∃ d ∈ p.clauses, c.mapTerms Term.veil = d.mapTerms Term.veil ∧ c.names = d.names := by
  cases r with
  | error e => cases h
  | ok p =>
    refine ⟨p, rfl, fun c hc => ?_⟩
    obtain ⟨d, hd, hsame⟩ := List.any_eq_true.mp (List.all_eq_true.mp h c hc)
    exact ⟨d, hd, Clause.veil_of_same hsame, Clause.same_names hsame⟩

theorem render_eq_iff_renamed : ∃ p q c d, Program.parse {} "source" "rule p(?_A, ?x) :- ?x > ?_A + 1.50;" = .ok p ∧
    Program.parse .untrusted "source" "قاعدة p(?_B, ?x) :- ?x > ?_B + 1.5;" = .ok q ∧ c ∈ p.clauses ∧ d ∈ q.clauses ∧
    c.render .arabic = d.render .arabic ∧ c.Renames d := by
  let rule (x : String) : Clause := ⟨⟨"p", [.var x, .var "x"]⟩, [.compare .gt (.term (.var "x"))
    (.binary .add (.term (.var x)) (.term (.const (.number ⟨15, 1, by decide, by decide⟩))))]⟩
  obtain ⟨p, hp, hclauses⟩ := exists_clauses (Program.parse {} "source" "rule p(?_A, ?x) :- ?x > ?_A + 1.50;")
    [rule "_A"] (by decide +kernel)
  obtain ⟨q, hq, hclauses'⟩ := exists_clauses
    (Program.parse .untrusted "source" "قاعدة p(?_B, ?x) :- ?x > ?_B + 1.5;") [rule "_B"] (by decide +kernel)
  obtain ⟨c, hc, hveil, hnames⟩ := hclauses _ List.mem_cons_self
  obtain ⟨d, hd, hveil', hnames'⟩ := hclauses' _ List.mem_cons_self
  obtain ⟨htext, hrenames⟩ := render_eq_iff .arabic hp hq hc hd
  have hrule : (rule "_A").mapTerms Term.veil = (rule "_B").mapTerms Term.veil := rfl
  have hrender := htext.mpr (hveil.symm.trans (hrule.trans hveil'))
  refine ⟨p, q, c, d, hp, hq, hc, hd, hrender, (hrenames hrender).mpr ?_⟩
  rw [Clause.SharesHidden, ← hnames, ← hnames']
  have hpairs : ∀ z ∈ (rule "_A").names.zip (rule "_B").names, Term.isHidden z.1 = true → z = ("_A", "_B") := by
    decide
  rintro x y x' y' ⟨hx, hxy⟩ ⟨hx', hxy'⟩
  cases hpairs (x, y) hxy hx
  cases hpairs (x', y') hxy' hx'
  exact iff_of_true rfl rfl

/-- Clauses of which one has a hidden variable twice and the other two of them have the same text in either vocabulary,
but neither is the other under other names. -/
theorem render_hides_sharing : ∃ p c d, Program.parse {} "source" "fact p(?_A, ?_A); fact p(?_A, ?_B);" = .ok p ∧
    c ∈ p.clauses ∧ d ∈ p.clauses ∧ (∀ v, c.render v = d.render v) ∧ ¬ c.Renames d := by
  let fact (x : String) : Clause := ⟨⟨"p", [.var "_A", .var x]⟩, []⟩
  obtain ⟨p, hp, hclauses⟩ := exists_clauses (Program.parse {} "source" "fact p(?_A, ?_A); fact p(?_A, ?_B);")
    [fact "_A", fact "_B"] (by decide +kernel)
  obtain ⟨c, hc, hveil, hnames⟩ := hclauses (fact "_A") (by simp)
  obtain ⟨d, hd, hveil', hnames'⟩ := hclauses (fact "_B") (by simp)
  have hfact : (fact "_A").mapTerms Term.veil = (fact "_B").mapTerms Term.veil := rfl
  refine ⟨p, c, d, hp, hc, hd, Clause.render_eq_of_veil (hveil.symm.trans (hfact.trans hveil')), ?_⟩
  rintro ⟨f, -, hsame⟩
  have hrenamed := Clause.same_names hsame
  rw [Clause.names_mapTerms (Term.names_renamed f), ← hnames, ← hnames'] at hrenamed
  have hrenamed : [f "_A", f "_A"] = ["_A", "_B"] := hrenamed
  rw [List.cons.injEq, List.cons.injEq] at hrenamed
  exact absurd (hrenamed.1.symm.trans hrenamed.2.1) (by decide)

end Program

end BilingualLogic
