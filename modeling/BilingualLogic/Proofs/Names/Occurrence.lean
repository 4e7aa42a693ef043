import BilingualLogic.Proofs.Definite.Copy
import BilingualLogic.Proofs.Store.Contents
import BilingualLogic.Proofs.Unification.Growth
import BilingualLogic.Search

/-!
Where names of variables stand: in goals, clauses, bindings and searches. Copying a clause gives all its variables the
number of the copy, resolving gives a goal the names that the bindings have, and unifying brings in no new ones.
-/

namespace BilingualLogic

variable {V W : String → Prop}

namespace Term

theorem VarsIn.mono (hVW : ∀ x, V x → W x) {t : Term} (h : t.VarsIn V) : t.VarsIn W := fun x hx => hVW x (h x hx)

theorem VarsIn.bindVars {f : String → Term} {t : Term} (h : t.VarsIn V) (hf : ∀ x, V x → (f x).VarsIn W) :
    (t.bindVars f).VarsIn W := by
  induction t with
  | var x => simpa [Term.bindVars] using hf x (varsIn_var.mp h)
  | const v => simpa [Term.bindVars] using varsIn_const v
  | list as ih =>
    rw [bindVars_list, varsIn_list]
    exact List.forall_mem_map.mpr fun a ha => ih a ha (varsIn_list.mp h a ha)
  | pattern as r ih ihr =>
    obtain ⟨has, hr⟩ := varsIn_pattern.mp h
    rw [bindVars_pattern]
    exact hereditary_varsIn.cons (List.forall_mem_map.mpr fun a ha => ih a ha (has a ha)) (ihr hr)

theorem varsIn_copy {used : Nat → String → Prop} (hu : Naming used) (n : Nat) (t : Term) :
    (t.bindVars fun x => .var (Clause.renamed n x)).VarsIn (used (n + 1)) :=
  VarsIn.bindVars (V := fun _ => True) (fun _ _ => trivial) fun x _ => varsIn_var.mpr (hu.copy n x)

end Term

namespace Predicate

def VarsIn (V : String → Prop) (p : Predicate) : Prop := ∀ t ∈ p.arguments, t.VarsIn V

theorem VarsIn.mono (hVW : ∀ x, V x → W x) {p : Predicate} (h : p.VarsIn V) : p.VarsIn W :=
  fun t ht => (h t ht).mono hVW

theorem VarsIn.mapTerms {f : Term → Term} (hf : ∀ t, t.VarsIn V → (f t).VarsIn W) {p : Predicate} (h : p.VarsIn V) :
    (p.mapTerms f).VarsIn W :=
  List.forall_mem_map.mpr fun t ht => hf t (h t ht)

end Predicate

namespace Formula

def VarsIn (V : String → Prop) : Formula → Prop
  | .term t => t.VarsIn V
  | .negate a => a.VarsIn V
  | .binary _ a b => a.VarsIn V ∧ b.VarsIn V

theorem VarsIn.mono (hVW : ∀ x, V x → W x) {e : Formula} (h : e.VarsIn V) : e.VarsIn W := by
  induction e with
  | term t => exact Term.VarsIn.mono hVW h
  | negate a ih => exact ih h
  | binary op a b iha ihb => exact ⟨iha h.1, ihb h.2⟩

theorem VarsIn.mapTerms {f : Term → Term} (hf : ∀ t, t.VarsIn V → (f t).VarsIn W) {e : Formula} (h : e.VarsIn V) :
    (e.mapTerms f).VarsIn W := by
  induction e with
  | term t => exact hf t h
  | negate a ih => exact ih h
  | binary op a b iha ihb => exact ⟨iha h.1, ihb h.2⟩

end Formula

namespace Goal

inductive VarsIn (V : String → Prop) : Goal → Prop
  | call {p : Predicate} : p.VarsIn V → VarsIn V (.call p)
  | cut : VarsIn V .cut
  | not {goals : List Goal} : (∀ g ∈ goals, VarsIn V g) → VarsIn V (.not goals)
  | unify {a b : Term} : a.VarsIn V → b.VarsIn V → VarsIn V (.unify a b)
  | is {a : Term} {e : Formula} : a.VarsIn V → e.VarsIn V → VarsIn V (.is a e)
  | compare {op : Comparison} {a b : Formula} : a.VarsIn V → b.VarsIn V → VarsIn V (.compare op a b)
  | collect {kind : Collection} {t r : Term} {goals : List Goal} : t.VarsIn V → (∀ g ∈ goals, VarsIn V g) →
    r.VarsIn V → VarsIn V (.collect kind t goals r)
  | assert {head : Predicate} {body : List Goal} : head.VarsIn V → (∀ g ∈ body, VarsIn V g) →
    VarsIn V (.assert head body)
  | retract {head : Predicate} {body : List Goal} : head.VarsIn V → (∀ g ∈ body, VarsIn V g) →
    VarsIn V (.retract head body)

theorem VarsIn.mono (hVW : ∀ x, V x → W x) {g : Goal} (h : g.VarsIn V) : g.VarsIn W := by
  induction h with
  | call hp => exact .call (hp.mono hVW)
  | cut => exact .cut
  | not _ ih => exact .not ih
  | unify ha hb => exact .unify (ha.mono hVW) (hb.mono hVW)
  | is ha he => exact .is (ha.mono hVW) (he.mono hVW)
  | compare ha hb => exact .compare (ha.mono hVW) (hb.mono hVW)
  | collect ht _ hr ih => exact .collect (ht.mono hVW) ih (hr.mono hVW)
  | assert hh _ ih => exact .assert (hh.mono hVW) ih
  | retract hh _ ih => exact .retract (hh.mono hVW) ih

theorem forall_mem_mapTermsAll {P : Goal → Prop} {f : Term → Term} {gs : List Goal}
    (h : ∀ g ∈ gs, P (g.mapTerms f)) : ∀ g ∈ mapTermsAll f gs, P g := by
  intro g hg
  obtain ⟨g', hg', rfl⟩ := mem_mapTermsAll.mp hg
  exact h g' hg'

theorem VarsIn.mapTerms {f : Term → Term} (hf : ∀ t, t.VarsIn V → (f t).VarsIn W) {g : Goal} (h : g.VarsIn V) :
    (g.mapTerms f).VarsIn W := by
  induction h with
  | call hp => exact .call (hp.mapTerms hf)
  | cut => exact .cut
  | not _ ih => exact .not (forall_mem_mapTermsAll ih)
  | unify ha hb => exact .unify (hf _ ha) (hf _ hb)
  | is ha he => exact .is (hf _ ha) (he.mapTerms hf)
  | compare ha hb => exact .compare (ha.mapTerms hf) (hb.mapTerms hf)
  | collect ht _ hr ih => exact .collect (hf _ ht) (forall_mem_mapTermsAll ih) (hf _ hr)
  | assert hh _ ih => exact .assert (hh.mapTerms hf) (forall_mem_mapTermsAll ih)
  | retract hh _ ih => exact .retract (hh.mapTerms hf) (forall_mem_mapTermsAll ih)

end Goal

namespace Clause

structure VarsIn (V : String → Prop) (c : Clause) : Prop where
  head : c.head.VarsIn V
  body : ∀ g ∈ c.body, g.VarsIn V

theorem VarsIn.mono (hVW : ∀ x, V x → W x) {c : Clause} (h : c.VarsIn V) : c.VarsIn W :=
  ⟨h.head.mono hVW, fun g hg => (h.body g hg).mono hVW⟩

theorem VarsIn.mapTerms {f : Term → Term} (hf : ∀ t, t.VarsIn V → (f t).VarsIn W) {c : Clause} (h : c.VarsIn V) :
    (c.mapTerms f).VarsIn W :=
  ⟨h.head.mapTerms hf, Goal.forall_mem_mapTermsAll fun g hg => (h.body g hg).mapTerms hf⟩

end Clause

namespace Store

def VarsIn (V : String → Prop) (s : Store) : Prop := ∀ t ∈ s.tables, ∀ c ∈ t.clauses, c.clause.VarsIn V

variable {s : Store}

theorem VarsIn.mono (hVW : ∀ x, V x → W x) (h : s.VarsIn V) : s.VarsIn W :=
  fun t ht c hc => (h t ht c hc).mono hVW

theorem varsIn_empty : VarsIn V ∅ := all_empty

theorem VarsIn.add (h : s.VarsIn V) {c : Clause} (hc : c.VarsIn V) : (s.add c).VarsIn V := All.add h hc

theorem VarsIn.storedClauses (h : s.VarsIn V) {k : Key} {c : StoredClause} (hc : c ∈ s.storedClauses k) :
    c.clause.VarsIn V :=
  All.storedClauses h hc

theorem VarsIn.retractHead (h : s.VarsIn V) {n : Nat} {p : Predicate} {removed : Bool} {s' : Store}
    (hr : s.retractHead n p = some (removed, s')) : s'.VarsIn V :=
  All.retractHead h hr

theorem VarsIn.retractClause (h : s.VarsIn V) (c : Clause) : (s.retractClause c).2.VarsIn V := All.retractClause h c

end Store

namespace Substitution

/-- The variables that are bound, and those in their values, have names in the set; and every walk ends. -/
structure VarsIn (V : String → Prop) (s : Substitution) : Prop where
  walkable : s.Walkable
  bindings : s.All (Term.VarsIn V)

variable {s s' : Substitution}

theorem VarsIn.mono (hVW : ∀ x, V x → W x) (h : s.VarsIn V) : s.VarsIn W :=
  ⟨h.walkable, fun x t hx => ⟨(h.bindings x t hx).1.mono hVW, (h.bindings x t hx).2.mono hVW⟩⟩

theorem varsIn_empty : VarsIn V ∅ := ⟨walkable_empty, all_empty _⟩

theorem VarsIn.of_grows (h : s.VarsIn V) (hg : s.Grows (Term.VarsIn V) s') : s'.VarsIn V :=
  ⟨hg.walkable h.walkable, hg.all h.bindings⟩

theorem VarsIn.unify (h : s.VarsIn V) {n : Nat} {a b : Term} (ha : a.VarsIn V) (hb : b.VarsIn V)
    (hu : BilingualLogic.unify n a b s = some (some s')) : s'.VarsIn V :=
  h.of_grows (unify_grows Term.hereditary_varsIn n h.walkable h.bindings ha hb hu)

theorem VarsIn.resolve (h : s.VarsIn V) {t : Term} (ht : t.VarsIn V) : (s.resolve t).VarsIn V := by
  -- by the bound on the variables on the way: what is left of the bindings is among them
  have value (n : Nat) : ∀ {q : Substitution}, q.All (Term.VarsIn V) → ∀ x, V x → (resolveVar n q x).VarsIn V := by
    induction n with
    | zero => exact fun _ x hx => Term.varsIn_var.mpr hx
    | succ n ih =>
      intro q hq x hx
      rw [resolveVar]
      cases hget : q.get? x with
      | none => exact Term.varsIn_var.mpr hx
      | some u =>
        refine (hq x u hget).2.bindVars (ih fun y v hy => ?_)
        rw [get?_erase] at hy
        split at hy
        · cases hy
        · exact hq y v hy
  exact ht.bindVars (value s.size h.bindings)

end Substitution
end BilingualLogic
