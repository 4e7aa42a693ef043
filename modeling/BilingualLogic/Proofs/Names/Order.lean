import BilingualLogic.Program
import BilingualLogic.Proofs.Term.Induction
import Mathlib.Data.List.Basic

/-!
The names of variables in the order in which they stand, one for every place, and the terms that goals and clauses are
made of.
-/

namespace BilingualLogic

namespace Term

mutual

/-- The names of the variables, one for every place at which one stands. -/
def names : Term → List String
  | var x => [x]
  | const _ => []
  | list as => namesAll as
  | pattern as r => namesAll as ++ r.names

def namesAll : List Term → List String
  | [] => []
  | a :: as => a.names ++ namesAll as

end

theorem namesAll_append (as bs : List Term) : namesAll (as ++ bs) = namesAll as ++ namesAll bs := by
  induction as with
  | nil => rfl
  | cons a as ih => rw [List.cons_append, namesAll, namesAll, ih, List.append_assoc]

/-- Lists and patterns that stand behind items are taken apart in order. -/
theorem names_cons (as : List Term) (r : Term) : (cons as r).names = namesAll as ++ r.names := by
  cases as with
  | nil => rfl
  | cons a as =>
    cases r with
    | var x => rfl
    | const v => rfl
    | list bs => exact namesAll_append (a :: as) bs
    | pattern bs r =>
      change namesAll (a :: as ++ bs) ++ r.names = namesAll (a :: as) ++ (namesAll bs ++ r.names)
      rw [namesAll_append, List.append_assoc]

theorem namesAll_eq (as : List Term) : namesAll as = as.flatMap names := by
  induction as with
  | nil => rfl
  | cons a as ih => rw [namesAll, ih, List.flatMap_cons]

theorem same_names {t u : Term} (h : t.same u = true) : t.names = u.names := by
  have all {as bs : List Term} (ih : ∀ a ∈ as, ∀ b, a.same b = true → a.names = b.names)
      (h : sameAll as bs = true) : namesAll as = namesAll bs := by
    induction as generalizing bs with
    | nil =>
      cases bs with
      | nil => rfl
      | cons b bs => cases h
    | cons a as ihs =>
      cases bs with
      | nil => cases h
      | cons b bs =>
        rw [sameAll, Bool.and_eq_true] at h
        obtain ⟨iha, ihas⟩ := List.forall_mem_cons.mp ih
        rw [namesAll, namesAll, iha b h.1, ihs ihas h.2]
  induction t generalizing u with
  | var x =>
    cases u with
    | var y => rw [eq_of_beq h]
    | _ => cases h
  | const v =>
    cases u with
    | const w => rfl
    | _ => cases h
  | list as ih =>
    cases u with
    | list bs => exact all (fun a ha b => ih a ha) h
    | _ => cases h
  | pattern as r ih ihr =>
    cases u with
    | pattern bs q =>
      rw [same, Bool.and_eq_true] at h
      rw [names, names, all (fun a ha b => ih a ha) h.1, ihr h.2]
    | _ => cases h

end Term

namespace Predicate

variable {p q : Predicate}

def names (p : Predicate) : List String := Term.namesAll p.arguments

theorem names_mapTerms {f : Term → Term} {r : String → String} (hf : ∀ t, (f t).names = t.names.map r)
    (p : Predicate) : (p.mapTerms f).names = p.names.map r := by
  rw [names, names, Term.namesAll_eq, Term.namesAll_eq, mapTerms, List.flatMap_map, List.map_flatMap]
  exact List.flatMap_congr fun t _ => hf t

theorem mapTerms_congr {f f' : Term → Term} (h : ∀ t ∈ p.arguments, f t = f' t) : p.mapTerms f = p.mapTerms f' :=
  congrArg (Predicate.mk p.name) (List.map_congr_left h)

theorem same_names (h : (p == q) = true) : p.names = q.names := by
  change (p.name == q.name && Term.sameAll p.arguments q.arguments) = true at h
  rw [Bool.and_eq_true] at h
  have hlist : (Term.list p.arguments).same (.list q.arguments) = true := h.2
  exact Term.same_names hlist

end Predicate

namespace Formula

def names : Formula → List String
  | term t => t.names
  | negate a => a.names
  | binary _ a b => a.names ++ b.names

def terms : Formula → List Term
  | term t => [t]
  | negate a => a.terms
  | binary _ a b => a.terms ++ b.terms

theorem names_mapTerms {f : Term → Term} {r : String → String} (hf : ∀ t, (f t).names = t.names.map r)
    (e : Formula) : (e.mapTerms f).names = e.names.map r := by
  induction e with
  | term t => exact hf t
  | negate a ih => exact ih
  | binary op a b iha ihb => rw [mapTerms, names, names, iha, ihb, List.map_append]

theorem names_eq (e : Formula) : e.names = e.terms.flatMap Term.names := by
  induction e with
  | term t => exact (List.append_nil _).symm
  | negate a ih => exact ih
  | binary op a b iha ihb => rw [names, terms, iha, ihb, List.flatMap_append]

theorem terms_mapTerms (f : Term → Term) (e : Formula) : (e.mapTerms f).terms = e.terms.map f := by
  induction e with
  | term t => rfl
  | negate a ih => exact ih
  | binary op a b iha ihb => rw [mapTerms, terms, terms, iha, ihb, List.map_append]

theorem mapTerms_mapTerms (f f' : Term → Term) (e : Formula) :
    (e.mapTerms f).mapTerms f' = e.mapTerms fun t => f' (f t) := by
  induction e with
  | term t => rfl
  | negate a ih => rw [mapTerms, mapTerms, mapTerms, ih]
  | binary op a b iha ihb => rw [mapTerms, mapTerms, mapTerms, iha, ihb]

theorem mapTerms_congr {f f' : Term → Term} {e : Formula} (h : ∀ t ∈ e.terms, f t = f' t) :
    e.mapTerms f = e.mapTerms f' := by
  induction e with
  | term t => exact congrArg Formula.term (h t (List.mem_singleton.mpr rfl))
  | negate a ih => exact congrArg Formula.negate (ih h)
  | binary op a b iha ihb =>
    obtain ⟨ha, hb⟩ := List.forall_mem_append.mp h
    rw [mapTerms, mapTerms, iha ha, ihb hb]

theorem same_names {a b : Formula} (h : a.same b = true) : a.names = b.names := by
  induction a generalizing b with
  | term t =>
    cases b with
    | term u => exact Term.same_names h
    | _ => cases h
  | negate a ih =>
    cases b with
    | negate b =>
      rw [same] at h
      rw [names, names, ih h]
    | _ => cases h
  | binary op a a' ih ih' =>
    cases b with
    | binary op' b b' =>
      simp only [same, Bool.and_eq_true] at h
      rw [names, names, ih h.1.2, ih' h.2]
    | _ => cases h

end Formula

namespace Goal

mutual

def names : Goal → List String
  | call p => p.names
  | cut => []
  | not goals => namesAll goals
  | unify a b => a.names ++ b.names
  | is a e => a.names ++ e.names
  | compare _ a b => a.names ++ b.names
  | collect _ t goals r => t.names ++ namesAll goals ++ r.names
  | assert head body => head.names ++ namesAll body
  | retract head body => head.names ++ namesAll body

def namesAll : List Goal → List String
  | [] => []
  | g :: gs => g.names ++ namesAll gs

end

mutual

/-- The terms, those of formulas and of nested goals too. -/
def terms : Goal → List Term
  | call p => p.arguments
  | cut => []
  | not goals => termsAll goals
  | unify a b => [a, b]
  | is a e => a :: e.terms
  | compare _ a b => a.terms ++ b.terms
  | collect _ t goals r => t :: termsAll goals ++ [r]
  | assert head body => head.arguments ++ termsAll body
  | retract head body => head.arguments ++ termsAll body

def termsAll : List Goal → List Term
  | [] => []
  | g :: gs => g.terms ++ termsAll gs

end

mutual

theorem names_mapTerms {f : Term → Term} {r : String → String} (hf : ∀ t, (f t).names = t.names.map r) (g : Goal) :
    (g.mapTerms f).names = g.names.map r := by
  cases g with
  | call p => exact p.names_mapTerms hf
  | cut => rfl
  | not goals => exact namesAll_mapTermsAll hf goals
  | unify a b => rw [mapTerms, names, names, hf, hf, List.map_append]
  | is a e => rw [mapTerms, names, names, hf, e.names_mapTerms hf, List.map_append]
  | compare op a b => rw [mapTerms, names, names, a.names_mapTerms hf, b.names_mapTerms hf, List.map_append]
  | collect kind t goals q =>
    rw [mapTerms, names, names, hf, hf, namesAll_mapTermsAll hf goals, List.map_append, List.map_append]
  | assert head body | retract head body =>
    rw [mapTerms, names, names, head.names_mapTerms hf, namesAll_mapTermsAll hf body, List.map_append]

theorem namesAll_mapTermsAll {f : Term → Term} {r : String → String} (hf : ∀ t, (f t).names = t.names.map r)
    (gs : List Goal) : namesAll (mapTermsAll f gs) = (namesAll gs).map r := by
  cases gs with
  | nil => rfl
  | cons g gs =>
    rw [mapTermsAll, namesAll, namesAll, names_mapTerms hf g, namesAll_mapTermsAll hf gs, List.map_append]

end

mutual

theorem names_eq (g : Goal) : g.names = g.terms.flatMap Term.names := by
  cases g with
  | cut => rfl
  | _ => simp [names, terms, Predicate.names, Term.namesAll_eq, Formula.names_eq, namesAll_eq]

theorem namesAll_eq (gs : List Goal) : namesAll gs = (termsAll gs).flatMap Term.names := by
  cases gs with
  | nil => rfl
  | cons g gs => rw [namesAll, termsAll, names_eq g, namesAll_eq gs, List.flatMap_append]

end

mutual

theorem terms_mapTerms (f : Term → Term) (g : Goal) : (g.mapTerms f).terms = g.terms.map f := by
  cases g with
  | cut => rfl
  | _ => simp [mapTerms, terms, Predicate.mapTerms, Formula.terms_mapTerms, termsAll_mapTermsAll]

theorem termsAll_mapTermsAll (f : Term → Term) (gs : List Goal) : termsAll (mapTermsAll f gs) = (termsAll gs).map f := by
  cases gs with
  | nil => rfl
  | cons g gs => rw [mapTermsAll, termsAll, termsAll, terms_mapTerms f g, termsAll_mapTermsAll f gs, List.map_append]

end

theorem forall_mem_termsAll {P : Term → Prop} {gs : List Goal} :
    (∀ t ∈ termsAll gs, P t) ↔ ∀ g ∈ gs, ∀ t ∈ g.terms, P t := by
  induction gs with
  | nil => simp [termsAll]
  | cons g gs ih => rw [termsAll, List.forall_mem_append, List.forall_mem_cons, ih]

mutual

theorem mapTerms_mapTerms (f f' : Term → Term) (g : Goal) :
    (g.mapTerms f).mapTerms f' = g.mapTerms fun t => f' (f t) := by
  cases g with
  | cut => rfl
  | _ => simp [mapTerms, Predicate.mapTerms, Formula.mapTerms_mapTerms, mapTermsAll_mapTermsAll]

theorem mapTermsAll_mapTermsAll (f f' : Term → Term) (gs : List Goal) :
    mapTermsAll f' (mapTermsAll f gs) = mapTermsAll (fun t => f' (f t)) gs := by
  cases gs with
  | nil => rfl
  | cons g gs => rw [mapTermsAll, mapTermsAll, mapTermsAll, mapTerms_mapTerms f f' g, mapTermsAll_mapTermsAll f f' gs]

end

mutual

theorem mapTerms_congr {f f' : Term → Term} {g : Goal} (h : ∀ t ∈ g.terms, f t = f' t) :
    g.mapTerms f = g.mapTerms f' := by
  cases g with
  | call p => exact congrArg Goal.call (Predicate.mapTerms_congr h)
  | cut => rfl
  | not goals => exact congrArg Goal.not (mapTermsAll_congr h)
  | unify a b => exact congrArg₂ Goal.unify (h a (by simp [terms])) (h b (by simp [terms]))
  | is a e =>
    obtain ⟨ha, he⟩ := List.forall_mem_cons.mp h
    exact congrArg₂ Goal.is ha (Formula.mapTerms_congr he)
  | compare op a b =>
    obtain ⟨ha, hb⟩ := List.forall_mem_append.mp h
    exact congrArg₂ (Goal.compare op) (Formula.mapTerms_congr ha) (Formula.mapTerms_congr hb)
  | collect kind t goals r =>
    obtain ⟨hfront, hr⟩ := List.forall_mem_append.mp h
    obtain ⟨ht, hgoals⟩ := List.forall_mem_cons.mp hfront
    rw [mapTerms, mapTerms, ht, mapTermsAll_congr hgoals, hr r (List.mem_singleton.mpr rfl)]
  | assert head body =>
    obtain ⟨hhead, hbody⟩ := List.forall_mem_append.mp h
    exact congrArg₂ Goal.assert (Predicate.mapTerms_congr hhead) (mapTermsAll_congr hbody)
  | retract head body =>
    obtain ⟨hhead, hbody⟩ := List.forall_mem_append.mp h
    exact congrArg₂ Goal.retract (Predicate.mapTerms_congr hhead) (mapTermsAll_congr hbody)

theorem mapTermsAll_congr {f f' : Term → Term} {gs : List Goal} (h : ∀ t ∈ termsAll gs, f t = f' t) :
    mapTermsAll f gs = mapTermsAll f' gs := by
  cases gs with
  | nil => rfl
  | cons g gs =>
    obtain ⟨hg, hgs⟩ := List.forall_mem_append.mp h
    rw [mapTermsAll, mapTermsAll, mapTerms_congr hg, mapTermsAll_congr hgs]

end

mutual

theorem same_names {g g' : Goal} (h : g.same g' = true) : g.names = g'.names := by
  cases g <;> cases g' <;> try cases h
  · next p q => exact Predicate.same_names h
  · rfl
  · next as bs => exact sameAll_names h
  · next a b a' b' =>
    simp only [same, Bool.and_eq_true] at h
    rw [names, names, Term.same_names h.1, Term.same_names h.2]
  · next a e a' e' =>
    simp only [same, Bool.and_eq_true] at h
    rw [names, names, Term.same_names h.1, Formula.same_names h.2]
  · next op a b op' a' b' =>
    simp only [same, Bool.and_eq_true] at h
    rw [names, names, Formula.same_names h.1.2, Formula.same_names h.2]
  · next kind t as r kind' t' bs r' =>
    simp only [same, Bool.and_eq_true] at h
    rw [names, names, Term.same_names h.1.1.2, sameAll_names h.1.2, Term.same_names h.2]
  · next head as head' bs =>
    simp only [same, Bool.and_eq_true] at h
    rw [names, names, Predicate.same_names h.1, sameAll_names h.2]
  · next head as head' bs =>
    simp only [same, Bool.and_eq_true] at h
    rw [names, names, Predicate.same_names h.1, sameAll_names h.2]

theorem sameAll_names {gs gs' : List Goal} (h : sameAll gs gs' = true) : namesAll gs = namesAll gs' := by
  cases gs <;> cases gs' <;> try cases h
  · rfl
  · next g gs g' gs' =>
    rw [sameAll, Bool.and_eq_true] at h
    rw [namesAll, namesAll, same_names h.1, sameAll_names h.2]

end

end Goal

namespace Clause

variable {c d : Clause}

def names (c : Clause) : List String := c.head.names ++ Goal.namesAll c.body

def terms (c : Clause) : List Term := c.head.arguments ++ Goal.termsAll c.body

theorem names_mapTerms {f : Term → Term} {r : String → String} (hf : ∀ t, (f t).names = t.names.map r) (c : Clause) :
    (c.mapTerms f).names = c.names.map r := by
  rw [names, names, mapTerms, c.head.names_mapTerms hf, Goal.namesAll_mapTermsAll hf, List.map_append]

theorem terms_mapTerms (f : Term → Term) (c : Clause) : (c.mapTerms f).terms = c.terms.map f := by
  rw [terms, terms, mapTerms, Goal.termsAll_mapTermsAll, List.map_append]
  rfl

theorem mapTerms_mapTerms (f f' : Term → Term) (c : Clause) :
    (c.mapTerms f).mapTerms f' = c.mapTerms fun t => f' (f t) := by
  simp [mapTerms, Predicate.mapTerms, Goal.mapTermsAll_mapTermsAll]

theorem mem_names {t : Term} (ht : t ∈ c.terms) {x : String} (hx : x ∈ t.names) : x ∈ c.names := by
  have hnames : c.names = c.terms.flatMap Term.names := by
    rw [names, terms, Predicate.names, Goal.namesAll_eq, List.flatMap_append, Term.namesAll_eq]
  rw [hnames]
  exact List.mem_flatMap.mpr ⟨t, ht, hx⟩

theorem mapTerms_congr {f f' : Term → Term} (h : ∀ t ∈ c.terms, f t = f' t) : c.mapTerms f = c.mapTerms f' := by
  obtain ⟨hhead, hbody⟩ := List.forall_mem_append.mp h
  rw [mapTerms, mapTerms, Predicate.mapTerms_congr hhead, Goal.mapTermsAll_congr hbody]

theorem same_names (h : c.same d = true) : c.names = d.names := by
  rw [same, Bool.and_eq_true] at h
  rw [names, names, Predicate.same_names h.1, Goal.sameAll_names h.2]

end Clause

def StatementForm.names : StatementForm → List String
  | fact head => head.names
  | rule head body => head.names ++ Goal.namesAll body
  | query goals => Goal.namesAll goals
  | directive g => g.names

def Program.names (p : Program) : List String := p.statements.flatMap fun s => s.form.names

end BilingualLogic
