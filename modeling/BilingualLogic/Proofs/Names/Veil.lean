import BilingualLogic.Proofs.Decimal.Text
import BilingualLogic.Proofs.Decimal.Value
import BilingualLogic.Proofs.Names.Order
import BilingualLogic.Proofs.Rendering.Means
import BilingualLogic.Proofs.Term.Alike
import Mathlib.Data.Set.Function

/-!
What is shown of terms, goals and clauses: all but the names of hidden variables. Two clauses of which the same is shown
differ in these names only, and one is the other under other names as far as hidden variables return at the same places.
-/

namespace BilingualLogic

/-- The name by which a variable is shown. -/
def shownName (x : String) : String := if Term.isHidden x then "_" else x

theorem shownName_of_visible {x : String} (h : Term.isHidden x = false) : shownName x = x := by
  rw [shownName, h]
  rfl

theorem shownName_of_hidden {x : String} (h : Term.isHidden x = true) : shownName x = "_" := by
  rw [shownName, h]
  rfl

theorem isHidden_shownName (x : String) : Term.isHidden (shownName x) = Term.isHidden x := by
  cases h : Term.isHidden x with
  | true =>
    rw [shownName_of_hidden h]
    rfl
  | false => rw [shownName_of_visible h, h]

theorem isHidden_eq_of_shownName {x y : String} (h : shownName x = shownName y) :
    Term.isHidden x = Term.isHidden y := by
  rw [← isHidden_shownName x, ← isHidden_shownName y, h]

/-- Numbers are equal if they are the same without trailing zeros. -/
theorem Decimal.normalize_eq_iff {a b : Decimal} : a.normalize = b.normalize ↔ (a == b) = true := by
  constructor
  · intro h
    have ha := (beq_iff _ _).mp a.beq_normalize
    have hb := (beq_iff _ _).mp b.beq_normalize
    exact (beq_iff a b).mpr (by rw [ha, hb, h])
  · intro h
    have hstrip (a : Decimal) {k : Nat} (ha : a.scale ≤ k) :
        strip (a.coefficientAt k) k = strip a.coefficient a.scale := by
      obtain ⟨d, rfl⟩ := Nat.exists_eq_add_of_le ha
      rw [coefficientAt, Nat.add_sub_cancel_left, strip_mul_tenPow]
    have hcoefficient : a.coefficientAt (max a.scale b.scale) = b.coefficientAt (max a.scale b.scale) := by
      change ((compare _ _ == Ordering.eq) = true) at h
      rwa [beq_iff_eq, Int.compare_eq_eq] at h
    have h := (hstrip a (Nat.le_max_left _ _)).symm.trans
      ((congrArg (strip · _) hcoefficient).trans (hstrip b (Nat.le_max_right _ _)))
    simp only [normalize, h]

namespace Term

mutual

/-- What is shown of the term. -/
def veil : Term → Term
  | .var x => .var (shownName x)
  | .const (.number a) => .const (.number a.normalize)
  | .const v => .const v
  | .list as => .list (veilAll as)
  | .pattern as r => .pattern (veilAll as) r.veil

def veilAll : List Term → List Term
  | [] => []
  | a :: as => a.veil :: veilAll as

end

/-- The term with other names for its variables. -/
def renamed (f : String → String) (t : Term) : Term := t.bindVars fun x => .var (f x)

theorem veilAll_eq (as : List Term) : veilAll as = as.map veil := by
  induction as with
  | nil => rfl
  | cons a as ih => rw [veilAll, ih, List.map_cons]

theorem names_veil (t : Term) : t.veil.names = t.names.map shownName := by
  have all {as : List Term} (h : ∀ a ∈ as, a.veil.names = a.names.map shownName) :
      namesAll (veilAll as) = (namesAll as).map shownName := by
    rw [namesAll_eq, namesAll_eq, veilAll_eq, List.flatMap_map, List.map_flatMap]
    exact List.flatMap_congr h
  induction t with
  | var x => rfl
  | const v => cases v <;> rfl
  | list as ih => exact all ih
  | pattern as r ih ihr => rw [veil, names, names, all ih, ihr, List.map_append]

theorem names_renamed (f : String → String) (t : Term) : (t.renamed f).names = t.names.map f := by
  have all {as : List Term} (h : ∀ a ∈ as, (a.renamed f).names = a.names.map f) :
      namesAll (as.map (renamed f)) = (namesAll as).map f := by
    rw [namesAll_eq, namesAll_eq, List.flatMap_map, List.map_flatMap]
    exact List.flatMap_congr h
  induction t with
  | var x => simp [renamed, bindVars, names]
  | const v => simp [renamed, bindVars, names]
  | list as ih =>
    rw [renamed, bindVars_list]
    exact all ih
  | pattern as r ih ihr =>
    rw [renamed, bindVars_pattern, names_cons, names, List.map_append]
    exact congrArg₂ (· ++ ·) (all ih) ihr

theorem length_names_of_veil {t u : Term} (h : t.veil = u.veil) : t.names.length = u.names.length := by
  have hnames := congrArg names h
  rw [names_veil, names_veil] at hnames
  simpa using congrArg List.length hnames

theorem veil_of_beq {v w : Value} (h : (v == w) = true) : (const v).veil = (const w).veil := by
  cases v with
  | number a =>
    cases w with
    | number b => exact congrArg (fun a => const (.number a)) (Decimal.normalize_eq_iff.mpr h)
    | _ => cases h
  | text s | boolean s | atom s =>
    cases w <;> try cases h
    next t =>
      have hst : s = t := eq_of_beq h
      rw [hst]

/-- The same is shown of terms that are the same but for the digits of their numbers. -/
theorem veil_of_same {t u : Term} (h : t.same u = true) : t.veil = u.veil := by
  have all {as bs : List Term} (ih : ∀ a ∈ as, ∀ b, a.same b = true → a.veil = b.veil)
      (h : sameAll as bs = true) : veilAll as = veilAll bs := by
    induction as generalizing bs with
    | nil =>
      cases bs with
      | nil => rfl
      | cons b bs => cases h
    | cons a as ihs =>
      cases bs with
      | nil => cases h
      | cons b bs =>
        rw [sameAll, Bool.and_eq_true] at h
        obtain ⟨iha, ihas⟩ := List.forall_mem_cons.mp ih
        rw [veilAll, veilAll, iha b h.1, ihs ihas h.2]
  induction t generalizing u with
  | var x =>
    cases u with
    | var y => rw [eq_of_beq h]
    | _ => cases h
  | const v =>
    cases u with
    | const w => exact veil_of_beq h
    | _ => cases h
  | list as ih =>
    cases u with
    | list bs => exact congrArg Term.list (all (fun a ha b => ih a ha) h)
    | _ => cases h
  | pattern as r ih ihr =>
    cases u with
    | pattern bs q =>
      rw [same, Bool.and_eq_true] at h
      exact congrArg₂ Term.pattern (all (fun a ha b => ih a ha) h.1) (ihr h.2)
    | _ => cases h

theorem beq_of_veil {v w : Value} (h : (const v).veil = (const w).veil) : (v == w) = true := by
  cases v with
  | number a =>
    cases w with
    | number b => exact Decimal.normalize_eq_iff.mp (by injection h with h; injection h)
    | _ => cases h
  | text s | boolean s | atom s =>
    cases w <;> cases h
    exact beq_self_eq_true s

theorem sameAll_of_veil {as bs : List Term}
    (ih : ∀ a ∈ as, ∀ b, a.veil = b.veil → a.names = b.names → a.same b = true) (h : veilAll as = veilAll bs)
    (hnames : namesAll as = namesAll bs) : sameAll as bs = true := by
  induction as generalizing bs with
  | nil =>
    cases bs with
    | nil => rfl
    | cons b bs => cases h
  | cons a as ihs =>
    cases bs with
    | nil => cases h
    | cons b bs =>
      rw [veilAll, veilAll, List.cons.injEq] at h
      obtain ⟨ha, has⟩ := List.append_inj hnames (length_names_of_veil h.1)
      obtain ⟨iha, ihas⟩ := List.forall_mem_cons.mp ih
      rw [sameAll, iha b h.1 ha, ihs ihas h.2 has]
      rfl

/-- A term is determined, but for the digits of its numbers, by what is shown of it and by its names. -/
theorem same_of_veil {t u : Term} (h : t.veil = u.veil) (hnames : t.names = u.names) : t.same u = true := by
  induction t generalizing u with
  | var x =>
    cases u with
    | var y => exact beq_of_eq (List.cons.inj hnames).1
    | const w => cases w <;> cases h
    | _ => cases h
  | const v =>
    cases u with
    | const w => exact beq_of_veil h
    | _ => cases v <;> cases h
  | list as ih =>
    cases u with
    | list bs => exact sameAll_of_veil (fun a ha b => ih a ha) (by injection h) hnames
    | const w => cases w <;> cases h
    | _ => cases h
  | pattern as r ih ihr =>
    cases u with
    | pattern bs q =>
      injection h with has hr
      obtain ⟨hna, hnr⟩ := List.append_inj' hnames (length_names_of_veil hr)
      rw [same, sameAll_of_veil (fun a ha b => ih a ha) has hna, ihr hr hnr]
      rfl
    | const w => cases w <;> cases h
    | _ => cases h

/-- Where variables get names by which they are shown the same, the same is shown of the term. -/
theorem veil_renamed {f : String → String} {t : Term} (ht : t.isNormal = true)
    (hf : ∀ x ∈ t.names, shownName (f x) = shownName x) : (t.renamed f).veil = t.veil := by
  have all {as : List Term} (ih : ∀ a ∈ as, a.isNormal = true → (∀ x ∈ a.names, shownName (f x) = shownName x) →
      (a.renamed f).veil = a.veil) (has : ∀ a ∈ as, a.isNormal = true)
      (hf : ∀ x ∈ namesAll as, shownName (f x) = shownName x) : veilAll (as.map (renamed f)) = veilAll as := by
    rw [veilAll_eq, veilAll_eq, List.map_map]
    rw [namesAll_eq] at hf
    exact List.map_congr_left fun a ha => ih a ha (has a ha) fun x hx => hf x (List.mem_flatMap.mpr ⟨a, ha, hx⟩)
  induction t with
  | var x =>
    rw [renamed, bindVars]
    exact congrArg Term.var (hf x (List.mem_singleton.mpr rfl))
  | const v =>
    rw [renamed, bindVars]
  | list as ih =>
    rw [renamed, bindVars_list]
    exact congrArg Term.list (all ih (hereditary_isNormal.list.mp ht) hf)
  | pattern as r ih ihr =>
    obtain ⟨hne, htail, has, hr⟩ := isNormal_pattern.mp ht
    have htail : (r.renamed f).isTail = true := by
      cases r with
      | var x => simp [renamed, bindVars, isTail]
      | const v => simp [renamed, bindVars, isTail]
      | _ => cases htail
    rw [names, List.forall_mem_append] at hf
    rw [renamed, bindVars_pattern]
    change (cons (as.map (renamed f)) (r.renamed f)).veil = _
    rw [cons_of_isTail (by simpa using hne) htail, veil, veil, all ih has hf.1, ihr hr hf.2]

end Term

theorem length_eq_of_map_eq {α β : Type} {f : α → β} {as bs : List α} (h : as.map f = bs.map f) :
    as.length = bs.length := by
  simpa using congrArg List.length h

namespace Predicate

variable {p q : Predicate}

theorem veil_of_same (h : (p == q) = true) : p.mapTerms Term.veil = q.mapTerms Term.veil := by
  change (p.name == q.name && Term.sameAll p.arguments q.arguments) = true at h
  rw [Bool.and_eq_true] at h
  have hlist : (Term.list p.arguments).same (.list q.arguments) = true := h.2
  have hveil := Term.list.inj (Term.veil_of_same hlist)
  rw [Term.veilAll_eq, Term.veilAll_eq] at hveil
  rw [mapTerms, mapTerms, eq_of_beq h.1, hveil]

theorem same_of_veil (h : p.mapTerms Term.veil = q.mapTerms Term.veil) (hnames : p.names = q.names) :
    (p == q) = true := by
  rw [mapTerms, mapTerms, mk.injEq, ← Term.veilAll_eq, ← Term.veilAll_eq] at h
  have hlist : (Term.list p.arguments).same (.list q.arguments) = true :=
    Term.same_of_veil (congrArg Term.list h.2) hnames
  change (p.name == q.name && Term.sameAll p.arguments q.arguments) = true
  rw [h.1, beq_self_eq_true]
  exact hlist

end Predicate

namespace Formula

theorem veil_of_same {a b : Formula} (h : a.same b = true) : a.mapTerms Term.veil = b.mapTerms Term.veil := by
  induction a generalizing b with
  | term t =>
    cases b with
    | term u => exact congrArg Formula.term (Term.veil_of_same h)
    | _ => cases h
  | negate a ih =>
    cases b with
    | negate b => exact congrArg Formula.negate (ih h)
    | _ => cases h
  | binary op a a' ih ih' =>
    cases b with
    | binary op' b b' =>
      simp only [same, Bool.and_eq_true] at h
      rw [mapTerms, mapTerms, eq_of_beq h.1.1, ih h.1.2, ih' h.2]
    | _ => cases h

theorem length_names_of_veil {a b : Formula} (h : a.mapTerms Term.veil = b.mapTerms Term.veil) :
    a.names.length = b.names.length := by
  have hnames := congrArg names h
  rw [names_mapTerms Term.names_veil, names_mapTerms Term.names_veil] at hnames
  exact length_eq_of_map_eq hnames

theorem same_of_veil {a b : Formula} (h : a.mapTerms Term.veil = b.mapTerms Term.veil) (hnames : a.names = b.names) :
    a.same b = true := by
  induction a generalizing b with
  | term t =>
    cases b with
    | term u => exact Term.same_of_veil (by injection h) hnames
    | _ => cases h
  | negate a ih =>
    cases b with
    | negate b => exact ih (by injection h) hnames
    | _ => cases h
  | binary op a a' ih ih' =>
    cases b with
    | binary op' b b' =>
      injection h with hop ha ha'
      obtain ⟨hna, hna'⟩ := List.append_inj hnames (length_names_of_veil ha)
      rw [same, hop, beq_self_eq_true, ih ha hna, ih' ha' hna']
      rfl
    | _ => cases h

end Formula

namespace Goal

mutual

theorem veil_of_same {g g' : Goal} (h : g.same g' = true) : g.mapTerms Term.veil = g'.mapTerms Term.veil := by
  cases g <;> cases g' <;> try cases h
  · next p q => exact congrArg Goal.call (Predicate.veil_of_same h)
  · rfl
  · next as bs => exact congrArg Goal.not (veil_of_sameAll h)
  · next a b a' b' =>
    simp only [same, Bool.and_eq_true] at h
    exact congrArg₂ Goal.unify (Term.veil_of_same h.1) (Term.veil_of_same h.2)
  · next a e a' e' =>
    simp only [same, Bool.and_eq_true] at h
    exact congrArg₂ Goal.is (Term.veil_of_same h.1) (Formula.veil_of_same h.2)
  · next op a b op' a' b' =>
    simp only [same, Bool.and_eq_true] at h
    rw [mapTerms, mapTerms, eq_of_beq h.1.1, Formula.veil_of_same h.1.2, Formula.veil_of_same h.2]
  · next kind t as r kind' t' bs r' =>
    simp only [same, Bool.and_eq_true] at h
    rw [mapTerms, mapTerms, eq_of_beq h.1.1.1, Term.veil_of_same h.1.1.2, veil_of_sameAll h.1.2, Term.veil_of_same h.2]
  · next head as head' bs =>
    simp only [same, Bool.and_eq_true] at h
    exact congrArg₂ Goal.assert (Predicate.veil_of_same h.1) (veil_of_sameAll h.2)
  · next head as head' bs =>
    simp only [same, Bool.and_eq_true] at h
    exact congrArg₂ Goal.retract (Predicate.veil_of_same h.1) (veil_of_sameAll h.2)

theorem veil_of_sameAll {gs gs' : List Goal} (h : sameAll gs gs' = true) :
    mapTermsAll Term.veil gs = mapTermsAll Term.veil gs' := by
  cases gs <;> cases gs' <;> try cases h
  · rfl
  · next g gs g' gs' =>
    rw [sameAll, Bool.and_eq_true] at h
    rw [mapTermsAll, mapTermsAll, veil_of_same h.1, veil_of_sameAll h.2]

end

theorem length_namesAll_of_veil {gs gs' : List Goal} (h : mapTermsAll Term.veil gs = mapTermsAll Term.veil gs') :
    (namesAll gs).length = (namesAll gs').length := by
  have hnames := congrArg namesAll h
  rw [namesAll_mapTermsAll Term.names_veil, namesAll_mapTermsAll Term.names_veil] at hnames
  exact length_eq_of_map_eq hnames

theorem length_names_of_veil {g g' : Goal} (h : g.mapTerms Term.veil = g'.mapTerms Term.veil) :
    g.names.length = g'.names.length := by
  have hnames := congrArg names h
  rw [names_mapTerms Term.names_veil, names_mapTerms Term.names_veil] at hnames
  exact length_eq_of_map_eq hnames

mutual

theorem same_of_veil {g g' : Goal} (h : g.mapTerms Term.veil = g'.mapTerms Term.veil) (hnames : g.names = g'.names) :
    g.same g' = true := by
  cases g with
  | call p =>
    cases g' with
    | call q => exact Predicate.same_of_veil (by injection h) hnames
    | _ => cases h
  | cut =>
    cases g' with
    | cut => rfl
    | _ => cases h
  | not goals =>
    cases g' with
    | not goals' => exact sameAll_of_veil (by injection h) hnames
    | _ => cases h
  | unify a b =>
    cases g' with
    | unify a' b' =>
      injection h with ha hb
      obtain ⟨hna, hnb⟩ := List.append_inj hnames (Term.length_names_of_veil ha)
      exact Bool.and_eq_true_iff.mpr ⟨Term.same_of_veil ha hna, Term.same_of_veil hb hnb⟩
    | _ => cases h
  | is a e =>
    cases g' with
    | is a' e' =>
      injection h with ha he
      obtain ⟨hna, hne⟩ := List.append_inj hnames (Term.length_names_of_veil ha)
      exact Bool.and_eq_true_iff.mpr ⟨Term.same_of_veil ha hna, Formula.same_of_veil he hne⟩
    | _ => cases h
  | compare op a b =>
    cases g' with
    | compare op' a' b' =>
      injection h with hop ha hb
      obtain ⟨hna, hnb⟩ := List.append_inj hnames (Formula.length_names_of_veil ha)
      exact Bool.and_eq_true_iff.mpr ⟨Bool.and_eq_true_iff.mpr ⟨beq_of_eq hop, Formula.same_of_veil ha hna⟩,
        Formula.same_of_veil hb hnb⟩
    | _ => cases h
  | collect kind t goals r =>
    cases g' with
    | collect kind' t' goals' r' =>
      injection h with hkind ht hgoals hr
      obtain ⟨hfront, hnr⟩ := List.append_inj' hnames (Term.length_names_of_veil hr)
      obtain ⟨hnt, hngoals⟩ := List.append_inj hfront (Term.length_names_of_veil ht)
      exact Bool.and_eq_true_iff.mpr ⟨Bool.and_eq_true_iff.mpr ⟨Bool.and_eq_true_iff.mpr ⟨beq_of_eq hkind,
        Term.same_of_veil ht hnt⟩, sameAll_of_veil hgoals hngoals⟩, Term.same_of_veil hr hnr⟩
    | _ => cases h
  | assert head body =>
    cases g' with
    | assert head' body' =>
      injection h with hhead hbody
      obtain ⟨hnhead, hnbody⟩ := List.append_inj' hnames (length_namesAll_of_veil hbody)
      exact Bool.and_eq_true_iff.mpr ⟨Predicate.same_of_veil hhead hnhead, sameAll_of_veil hbody hnbody⟩
    | _ => cases h
  | retract head body =>
    cases g' with
    | retract head' body' =>
      injection h with hhead hbody
      obtain ⟨hnhead, hnbody⟩ := List.append_inj' hnames (length_namesAll_of_veil hbody)
      exact Bool.and_eq_true_iff.mpr ⟨Predicate.same_of_veil hhead hnhead, sameAll_of_veil hbody hnbody⟩
    | _ => cases h

theorem sameAll_of_veil {gs gs' : List Goal} (h : mapTermsAll Term.veil gs = mapTermsAll Term.veil gs')
    (hnames : namesAll gs = namesAll gs') : sameAll gs gs' = true := by
  cases gs with
  | nil =>
    cases gs' with
    | nil => rfl
    | cons g' gs' => cases h
  | cons g gs =>
    cases gs' with
    | nil => cases h
    | cons g' gs' =>
      rw [mapTermsAll, mapTermsAll, List.cons.injEq] at h
      obtain ⟨hng, hngs⟩ := List.append_inj hnames (length_names_of_veil h.1)
      exact Bool.and_eq_true_iff.mpr ⟨same_of_veil h.1 hng, sameAll_of_veil h.2 hngs⟩

end

end Goal

theorem eq_of_mem_zip {α : Type} {f : String → α} {xs ys : List String} (h : xs.map f = ys.map f) {x y : String}
    (hxy : (x, y) ∈ xs.zip ys) : f x = f y := by
  obtain ⟨i, hi, heq⟩ := List.getElem_of_mem hxy
  rw [List.getElem_zip, Prod.mk.injEq] at heq
  obtain ⟨rfl, rfl⟩ := heq
  have hget := congrArg (·[i]?) h
  rw [List.length_zip] at hi
  simpa [List.getElem?_map, Nat.lt_of_lt_of_le hi (Nat.min_le_left _ _),
    Nat.lt_of_lt_of_le hi (Nat.min_le_right _ _)] using hget

/-- Names at the same places are one function of the others, and the other way round, if they are one to one. -/
theorem exists_renaming {xs ys : List String} (hlength : xs.length = ys.length)
    (h : OneToOne fun x y => (x, y) ∈ xs.zip ys) : ∃ f : String → String, Set.InjOn f {x | x ∈ xs} ∧ xs.map f = ys := by
  classical
  have hpair (x : String) : ∃ y, x ∈ xs → (x, y) ∈ xs.zip ys := by
    by_cases hx : x ∈ xs
    · obtain ⟨i, hi, rfl⟩ := List.getElem_of_mem hx
      exact ⟨ys[i], fun _ => List.mem_iff_getElem.mpr ⟨i, by simp [hi, ← hlength], by simp⟩⟩
    · exact ⟨x, fun h => absurd h hx⟩
  choose f hf using hpair
  refine ⟨f, fun x hx y hy hxy => (h _ _ _ _ (hf x hx) (hf y hy)).mpr hxy, ?_⟩
  refine List.ext_getElem (by simpa using hlength) fun i hi hi' => ?_
  have hx : i < xs.length := by simpa using hi
  have hmem : (xs[i], ys[i]) ∈ xs.zip ys := List.mem_iff_getElem.mpr ⟨i, by simp [hx, hi'], by simp⟩
  rw [List.getElem_map]
  exact (h _ _ _ _ (hf xs[i] (List.getElem_mem hx)) hmem).mp rfl

namespace Clause

variable {c d : Clause}

/-- The clause is the other but for the names of its variables, of which none become one. -/
def Renames (c d : Clause) : Prop :=
  ∃ f : String → String, Set.InjOn f {x | x ∈ c.names} ∧ (c.mapTerms (Term.renamed f)).same d = true

/-- A hidden variable returns in one clause at the places at which one returns in the other. -/
def SharesHidden (c d : Clause) : Prop :=
  OneToOne fun x y => Term.isHidden x = true ∧ (x, y) ∈ c.names.zip d.names

theorem veil_of_same (h : c.same d = true) : c.mapTerms Term.veil = d.mapTerms Term.veil := by
  rw [same, Bool.and_eq_true] at h
  exact congrArg₂ Clause.mk (Predicate.veil_of_same h.1) (Goal.veil_of_sameAll h.2)

theorem same_of_veil (h : c.mapTerms Term.veil = d.mapTerms Term.veil) (hnames : c.names = d.names) :
    c.same d = true := by
  injection h with hhead hbody
  obtain ⟨hnhead, hnbody⟩ := List.append_inj' hnames (Goal.length_namesAll_of_veil hbody)
  exact Bool.and_eq_true_iff.mpr ⟨Predicate.same_of_veil hhead hnhead, Goal.sameAll_of_veil hbody hnbody⟩

theorem names_of_veil (h : c.mapTerms Term.veil = d.mapTerms Term.veil) :
    c.names.map shownName = d.names.map shownName := by
  have hnames := congrArg names h
  rwa [names_mapTerms Term.names_veil, names_mapTerms Term.names_veil] at hnames

/-- Where the same is shown of two clauses, one is the other under other names if and only if their hidden variables
return at the same places. -/
theorem renames_iff (hc : ∀ t ∈ c.terms, t.isNormal = true) (h : c.mapTerms Term.veil = d.mapTerms Term.veil) :
    c.Renames d ↔ c.SharesHidden d := by
  have hshown := names_of_veil h
  have hlength := length_eq_of_map_eq hshown
  constructor
  · rintro ⟨f, hinj, hsame⟩
    have hnames : c.names.map f = d.names := (c.names_mapTerms (Term.names_renamed f)).symm.trans (same_names hsame)
    have hzip {x y : String} (hxy : (x, y) ∈ c.names.zip d.names) : x ∈ c.names ∧ y = f x := by
      rw [← hnames] at hxy
      obtain ⟨i, hi, heq⟩ := List.getElem_of_mem hxy
      rw [List.getElem_zip, List.getElem_map, Prod.mk.injEq] at heq
      obtain ⟨rfl, rfl⟩ := heq
      exact ⟨List.getElem_mem _, rfl⟩
    rintro x y x' y' ⟨-, hxy⟩ ⟨-, hxy'⟩
    obtain ⟨hx, rfl⟩ := hzip hxy
    obtain ⟨hx', rfl⟩ := hzip hxy'
    exact (hinj.eq_iff hx hx').symm
  · intro hshares
    have hpair {x y : String} (hxy : (x, y) ∈ c.names.zip d.names) : shownName x = shownName y :=
      eq_of_mem_zip hshown hxy
    have honeToOne : OneToOne fun x y => (x, y) ∈ c.names.zip d.names := by
      intro x y x' y' hxy hxy'
      have hy : Term.isHidden y = Term.isHidden x := isHidden_eq_of_shownName (hpair hxy).symm
      have hy' : Term.isHidden y' = Term.isHidden x' := isHidden_eq_of_shownName (hpair hxy').symm
      by_cases hboth : Term.isHidden x = Term.isHidden x'
      · cases hx : Term.isHidden x with
        | true => exact hshares x y x' y' ⟨hx, hxy⟩ ⟨hboth.symm.trans hx, hxy'⟩
        | false =>
          have hx' := hboth.symm.trans hx
          rw [← shownName_of_visible hx, ← shownName_of_visible hx', hpair hxy, hpair hxy',
            shownName_of_visible (hy.trans hx), shownName_of_visible (hy'.trans hx')]
      · refine iff_of_false (fun h => hboth (congrArg Term.isHidden h)) fun h => hboth ?_
        rw [← hy, ← hy', h]
    obtain ⟨f, hinj, hf⟩ := exists_renaming hlength honeToOne
    have hkeeps : ∀ x ∈ c.names, shownName (f x) = shownName x := by
      rw [← hf, List.map_map] at hshown
      exact fun x hx => (List.map_inj_left.mp hshown x hx).symm
    refine ⟨f, hinj, same_of_veil ?_ ?_⟩
    · rw [mapTerms_mapTerms, ← h]
      exact mapTerms_congr fun t ht => Term.veil_renamed (hc t ht) fun x hx => hkeeps x (mem_names ht hx)
    · rw [names_mapTerms (Term.names_renamed f), hf]

end Clause

end BilingualLogic
