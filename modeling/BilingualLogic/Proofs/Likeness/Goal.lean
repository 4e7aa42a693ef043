import BilingualLogic.Program.Check
import BilingualLogic.Proofs.Names.Occurrence
import BilingualLogic.Proofs.Unification.Alike

/-!
Goals and clauses that are alike: their terms are, and built-in predicates may be called by other names. What is done
to all terms of alike goals leaves them alike.
-/

namespace BilingualLogic

variable {L L' : Likeness} {f g : Term → Term}

/-- The name corresponds to one name only, and no other name to that one. -/
def Likeness.Fixed (L : Likeness) (a : String) : Prop := ∀ a' b b', L.calls a a' → L.calls b b' → (a = b ↔ a' = b')

namespace Predicate

theorem Alike.mapTerms (hfg : ∀ {t u}, Term.Alike L t u → Term.Alike L' (f t) (g u)) {p q : Predicate}
    (h : p.Alike L q) : (p.mapTerms f).Alike L' (q.mapTerms g) :=
  ⟨h.name, List.forall₂_map_left_iff.mpr (List.forall₂_map_right_iff.mpr (h.arguments.imp fun _ _ => hfg))⟩

theorem alike_arguments_eq (hL : ∀ x y, L.names x y → x = y) {as bs : List Term}
    (h : List.Forall₂ (Term.Alike L) as bs) : as = bs := by
  rw [← List.forall₂_eq_eq_eq (α := Term)]
  exact h.imp fun _ _ h => h.eq hL

theorem Alike.key_eq {p q : Predicate} (h : p.Alike L q) : p.key = q.key := by
  rw [key, key, h.name, h.arguments.length_eq]

theorem Alike.eq (hL : ∀ x y, L.names x y → x = y) {p q : Predicate} (h : p.Alike L q) : p = q := by
  obtain ⟨name, as⟩ := p
  obtain ⟨name', bs⟩ := q
  obtain ⟨rfl, has⟩ := h
  exact congrArg (Predicate.mk name) (alike_arguments_eq hL has)

/-- The same predicate is called, or the same built-in one by a name that corresponds. -/
structure CalledAlike (L : Likeness) (p q : Predicate) : Prop where
  arguments : List.Forall₂ (Term.Alike L) p.arguments q.arguments
  own : p.isBuiltin = false → p.name = q.name
  builtin : p.isBuiltin = true → L.calls p.name q.name

theorem isBuiltin_congr {p q : Predicate} (hname : Keyword.ofSpelling? p.name = Keyword.ofSpelling? q.name)
    (hlength : p.arguments.length = q.arguments.length) : p.isBuiltin = q.isBuiltin := by
  rw [isBuiltin, isBuiltin, listKeyword?, listKeyword?, hname, hlength]

theorem CalledAlike.keyword_eq (hcalls : ∀ {a b}, L.calls a b → Keyword.ofSpelling? a = Keyword.ofSpelling? b)
    {p q : Predicate} (h : p.CalledAlike L q) : Keyword.ofSpelling? p.name = Keyword.ofSpelling? q.name := by
  cases hp : p.isBuiltin with
  | false => rw [h.own hp]
  | true => exact hcalls (h.builtin hp)

theorem CalledAlike.isBuiltin_eq (hcalls : ∀ {a b}, L.calls a b → Keyword.ofSpelling? a = Keyword.ofSpelling? b)
    {p q : Predicate} (h : p.CalledAlike L q) : p.isBuiltin = q.isBuiltin :=
  isBuiltin_congr (h.keyword_eq hcalls) h.arguments.length_eq

theorem CalledAlike.mapTerms (hcalls : ∀ a b, L.calls a b → L'.calls a b)
    (hfg : ∀ {t u}, Term.Alike L t u → Term.Alike L' (f t) (g u)) {p q : Predicate} (h : p.CalledAlike L q) :
    (p.mapTerms f).CalledAlike L' (q.mapTerms g) where
  arguments := List.forall₂_map_left_iff.mpr (List.forall₂_map_right_iff.mpr (h.arguments.imp fun _ _ => hfg))
  own hp := h.own (by simpa using hp)
  builtin hp := hcalls _ _ (h.builtin (by simpa using hp))

end Predicate

namespace Formula

inductive Alike (L : Likeness) : Formula → Formula → Prop
  | term {t u : Term} : Term.Alike L t u → Alike L (.term t) (.term u)
  | negate {a b : Formula} : Alike L a b → Alike L (.negate a) (.negate b)
  | binary {op : Operation} {a a' b b' : Formula} : Alike L a a' → Alike L b b' →
    Alike L (.binary op a b) (.binary op a' b')

theorem Alike.mapTerms (hfg : ∀ {t u}, Term.Alike L t u → Term.Alike L' (f t) (g u)) {a b : Formula}
    (h : a.Alike L b) : (a.mapTerms f).Alike L' (b.mapTerms g) := by
  induction h with
  | term h => exact .term (hfg h)
  | negate _ ih => exact .negate ih
  | binary _ _ iha ihb => exact .binary iha ihb

theorem Alike.withNames {R : String → String → Prop} {V W : String → Prop}
    (hR : ∀ x y, L.names x y → V x → W y → R x y) {a b : Formula} (h : a.Alike L b) (ha : a.VarsIn V)
    (hb : b.VarsIn W) : a.Alike (L.withNames R) b := by
  induction h with
  | term h => exact .term (h.withNames hR ha hb)
  | negate _ ih => exact .negate (ih ha hb)
  | binary _ _ ih ih' => exact .binary (ih ha.1 hb.1) (ih' ha.2 hb.2)

theorem Alike.eq (hL : ∀ x y, L.names x y → x = y) {a b : Formula} (h : a.Alike L b) : a = b := by
  induction h with
  | term h => rw [h.eq hL]
  | negate _ ih => rw [ih]
  | binary _ _ iha ihb => rw [iha, ihb]

theorem alike_self (htexts : ∀ content, L.texts content) {e : Formula} (h : e.VarsIn fun x => L.names x x) :
    e.Alike L e := by
  induction e with
  | term t => exact .term (Term.alike_self htexts h)
  | negate a ih => exact .negate (ih h)
  | binary op a b iha ihb => exact .binary (iha h.1) (ihb h.2)

end Formula

namespace Goal

mutual

theorem subgoals_mapTerms (f : Term → Term) (g : Goal) :
    subgoals (g.mapTerms f) = (subgoals g).map (mapTerms f) := by
  cases g with
  | not goals | collect _ _ goals _ | assert _ goals | retract _ goals =>
    simp [mapTerms, subgoals, allSubgoals_mapTermsAll f goals]
  | _ => simp [mapTerms, subgoals]

theorem allSubgoals_mapTermsAll (f : Term → Term) (gs : List Goal) :
    allSubgoals (mapTermsAll f gs) = (allSubgoals gs).map (mapTerms f) := by
  cases gs with
  | nil => rfl
  | cons g gs => simp [mapTermsAll, allSubgoals, subgoals_mapTerms f g, allSubgoals_mapTermsAll f gs]

end

/-- The names by which the goals, and those in them, call built-in predicates. -/
def builtinNames (goals : List Goal) : List String :=
  (allSubgoals goals).filterMap fun
    | call p => if p.isBuiltin then some p.name else none
    | _ => none

theorem builtinNames_mapTermsAll (f : Term → Term) (gs : List Goal) :
    builtinNames (mapTermsAll f gs) = builtinNames gs := by
  rw [builtinNames, builtinNames, allSubgoals_mapTermsAll, List.filterMap_map]
  congr 1
  funext g
  cases g with
  | call p =>
    simp only [Function.comp_apply, mapTerms, Predicate.isBuiltin_mapTerms]
    rfl
  | _ => rfl

/-- Goals in which the same is done; the names in the bodies of retracted clauses keep their clauses apart. -/
inductive Alike (L : Likeness) : Goal → Goal → Prop
  | call {p q : Predicate} : p.CalledAlike L q → Alike L (.call p) (.call q)
  | cut : Alike L .cut .cut
  | not {as bs : List Goal} : List.Forall₂ (Alike L) as bs → Alike L (.not as) (.not bs)
  | unify {a a' b b' : Term} : Term.Alike L a a' → Term.Alike L b b' → Alike L (.unify a b) (.unify a' b')
  | is {a a' : Term} {e e' : Formula} : Term.Alike L a a' → e.Alike L e' → Alike L (.is a e) (.is a' e')
  | compare {op : Comparison} {a a' b b' : Formula} : a.Alike L a' → b.Alike L b' →
    Alike L (.compare op a b) (.compare op a' b')
  | collect {kind : Collection} {t t' r r' : Term} {as bs : List Goal} : Term.Alike L t t' →
    List.Forall₂ (Alike L) as bs → Term.Alike L r r' → Alike L (.collect kind t as r) (.collect kind t' bs r')
  | assert {p q : Predicate} {as bs : List Goal} : p.Alike L q → List.Forall₂ (Alike L) as bs →
    Alike L (.assert p as) (.assert q bs)
  | retract {p q : Predicate} {as bs : List Goal} : p.Alike L q → List.Forall₂ (Alike L) as bs →
    (∀ a ∈ builtinNames as, L.Fixed a) → Alike L (.retract p as) (.retract q bs)

@[elab_as_elim]
theorem Alike.induct {P : (a b : Goal) → Alike L a b → Prop}
    (call : ∀ {p q} (h : Predicate.CalledAlike L p q), P _ _ (.call h)) (cut : P _ _ .cut)
    (not : ∀ {as bs} (h : List.Forall₂ (Alike L) as bs), List.Forall₂ (fun a b => ∃ h, P a b h) as bs → P _ _ (.not h))
    (unify : ∀ {a a' b b'} (h : Term.Alike L a a') (h' : Term.Alike L b b'), P _ _ (.unify h h'))
    (is : ∀ {a a' e e'} (h : Term.Alike L a a') (h' : Formula.Alike L e e'), P _ _ (.is h h'))
    (compare : ∀ {op a a' b b'} (h : Formula.Alike L a a') (h' : Formula.Alike L b b'),
      P (.compare op a b) _ (.compare h h'))
    (collect : ∀ {kind t t' r r' as bs} (ht : Term.Alike L t t') (h : List.Forall₂ (Alike L) as bs)
      (hr : Term.Alike L r r'), List.Forall₂ (fun a b => ∃ h, P a b h) as bs →
      P (.collect kind t as r) _ (.collect ht h hr))
    (assert : ∀ {p q as bs} (hp : Predicate.Alike L p q) (h : List.Forall₂ (Alike L) as bs),
      List.Forall₂ (fun a b => ∃ h, P a b h) as bs → P _ _ (.assert hp h))
    (retract : ∀ {p q as bs} (hp : Predicate.Alike L p q) (h : List.Forall₂ (Alike L) as bs)
      (hfixed : ∀ a ∈ builtinNames as, L.Fixed a), List.Forall₂ (fun a b => ∃ h, P a b h) as bs →
      P _ _ (.retract hp h hfixed))
    {a b : Goal} (h : Alike L a b) : P a b h :=
  Alike.rec (motive_1 := P) (motive_2 := fun as bs _ => List.Forall₂ (fun a b => ∃ h, P a b h) as bs) call cut not unify
    is compare collect assert retract .nil (fun h _ ih ihs => .cons ⟨h, ih⟩ ihs) h

theorem Alike.mapTerms (hfg : ∀ {t u}, Term.Alike L t u → Term.Alike L' (f t) (g u)) (hcalls : L'.calls = L.calls)
    {a b : Goal} (h : a.Alike L b) : (a.mapTerms f).Alike L' (b.mapTerms g) := by
  have all {as bs : List Goal}
      (h : List.Forall₂ (fun a b => ∃ _ : Alike L a b, (a.mapTerms f).Alike L' (b.mapTerms g)) as bs) :
      List.Forall₂ (Alike L') (mapTermsAll f as) (mapTermsAll g bs) := by
    rw [mapTermsAll_eq, mapTermsAll_eq]
    exact List.forall₂_map_left_iff.mpr (List.forall₂_map_right_iff.mpr (h.imp fun _ _ h => h.choose_spec))
  induction h using Alike.induct with
  | call h => exact .call (h.mapTerms (fun _ _ => hcalls ▸ id) hfg)
  | cut => exact .cut
  | not _ ih => exact .not (all ih)
  | unify h h' => exact .unify (hfg h) (hfg h')
  | is h h' => exact .is (hfg h) (h'.mapTerms hfg)
  | compare h h' => exact .compare (h.mapTerms hfg) (h'.mapTerms hfg)
  | collect ht _ hr ih => exact .collect (hfg ht) (all ih) (hfg hr)
  | assert hp _ ih => exact .assert (hp.mapTerms hfg) (all ih)
  | retract hp _ hfixed ih =>
    refine .retract (hp.mapTerms hfg) (all ih) ?_
    rw [builtinNames_mapTermsAll]
    exact fun a ha => by simpa only [Likeness.Fixed, hcalls] using hfixed a ha

theorem Alike.mapTermsAll (hfg : ∀ {t u}, Term.Alike L t u → Term.Alike L' (f t) (g u))
    (hcalls : L'.calls = L.calls) {as bs : List Goal}
    (h : List.Forall₂ (Alike L) as bs) : List.Forall₂ (Alike L') (Goal.mapTermsAll f as) (Goal.mapTermsAll g bs) := by
  rw [mapTermsAll_eq, mapTermsAll_eq]
  exact List.forall₂_map_left_iff.mpr (List.forall₂_map_right_iff.mpr (h.imp fun _ _ h => h.mapTerms hfg hcalls))

/-- A goal is like itself if the names of its variables correspond to themselves and calls keep their names. -/
theorem alike_self (htexts : ∀ content, L.texts content) (hcalls : L.calls = Eq) {g : Goal}
    (h : g.VarsIn fun x => L.names x x) : g.Alike L g := by
  have terms {ts : List Term} (h : ∀ t ∈ ts, t.VarsIn fun x => L.names x x) : List.Forall₂ (Term.Alike L) ts ts :=
    List.forall₂_same.mpr fun t ht => Term.alike_self htexts (h t ht)
  have term {t : Term} (h : t.VarsIn fun x => L.names x x) := Term.alike_self htexts h
  have formula {e : Formula} (h : e.VarsIn fun x => L.names x x) := Formula.alike_self htexts h
  induction h with
  | call hp => exact .call ⟨terms hp, fun _ => rfl, fun _ => hcalls ▸ rfl⟩
  | cut => exact .cut
  | not _ ih => exact .not (List.forall₂_same.mpr ih)
  | unify ha hb => exact .unify (term ha) (term hb)
  | is ha he => exact .is (term ha) (formula he)
  | compare ha hb => exact .compare (formula ha) (formula hb)
  | collect ht _ hr ih => exact .collect (term ht) (List.forall₂_same.mpr ih) (term hr)
  | assert hh _ ih => exact .assert ⟨rfl, terms hh⟩ (List.forall₂_same.mpr ih)
  | retract hh _ ih =>
    refine .retract ⟨rfl, terms hh⟩ (List.forall₂_same.mpr ih) fun a _ => ?_
    rw [Likeness.Fixed, hcalls]
    rintro _ b _ rfl rfl
    rfl

/-- Another correspondence will do that agrees on the names that stand in the goals. -/
theorem Alike.withNames {R : String → String → Prop} {V W : String → Prop}
    (hR : ∀ x y, L.names x y → V x → W y → R x y) {a b : Goal} (h : a.Alike L b) (ha : a.VarsIn V)
    (hb : b.VarsIn W) : a.Alike (L.withNames R) b := by
  have terms {as bs : List Term} (h : List.Forall₂ (Term.Alike L) as bs) (has : ∀ t ∈ as, t.VarsIn V)
      (hbs : ∀ t ∈ bs, t.VarsIn W) : List.Forall₂ (Term.Alike (L.withNames R)) as bs :=
    h.imp_of_mem fun t ht u hu h => h.withNames hR (has t ht) (hbs u hu)
  have goals {as bs : List Goal}
      (h : List.Forall₂ (fun a b => ∃ _ : Alike L a b, a.VarsIn V → b.VarsIn W → a.Alike (L.withNames R) b) as bs)
      (has : ∀ a ∈ as, a.VarsIn V) (hbs : ∀ b ∈ bs, b.VarsIn W) : List.Forall₂ (Alike (L.withNames R)) as bs :=
    h.imp_of_mem fun a ha b hb h => h.choose_spec (has a ha) (hbs b hb)
  induction h using Alike.induct with
  | call h =>
    cases ha with | call ha => cases hb with | call hb => exact .call ⟨terms h.arguments ha hb, h.own, h.builtin⟩
  | cut => exact .cut
  | not _ ih => cases ha with | not ha => cases hb with | not hb => exact .not (goals ih ha hb)
  | unify h h' =>
    cases ha with | unify ha ha' => cases hb with | unify hb hb' =>
      exact .unify (h.withNames hR ha hb) (h'.withNames hR ha' hb')
  | is h h' =>
    cases ha with | is ha ha' => cases hb with | is hb hb' =>
      exact .is (h.withNames hR ha hb) (h'.withNames hR ha' hb')
  | compare h h' =>
    cases ha with | compare ha ha' => cases hb with | compare hb hb' =>
      exact .compare (h.withNames hR ha hb) (h'.withNames hR ha' hb')
  | collect ht _ hr ih =>
    cases ha with | collect ha has ha' => cases hb with | collect hb hbs hb' =>
      exact .collect (ht.withNames hR ha hb) (goals ih has hbs) (hr.withNames hR ha' hb')
  | assert hp _ ih =>
    cases ha with | assert ha has => cases hb with | assert hb hbs =>
      exact .assert ⟨hp.name, terms hp.arguments ha hb⟩ (goals ih has hbs)
  | retract hp _ hfixed ih =>
    cases ha with | retract ha has => cases hb with | retract hb hbs =>
      exact .retract ⟨hp.name, terms hp.arguments ha hb⟩ (goals ih has hbs) hfixed

end Goal

namespace Clause

structure Alike (L : Likeness) (c d : Clause) : Prop where
  head : c.head.Alike L d.head
  body : List.Forall₂ (Goal.Alike L) c.body d.body

theorem Alike.mapTerms (hfg : ∀ {t u}, Term.Alike L t u → Term.Alike L' (f t) (g u))
    (hcalls : L'.calls = L.calls) {c d : Clause} (h : c.Alike L d) : (c.mapTerms f).Alike L' (d.mapTerms g) :=
  ⟨h.head.mapTerms hfg, Goal.Alike.mapTermsAll hfg hcalls h.body⟩

theorem alike_self (htexts : ∀ content, L.texts content) (hcalls : L.calls = Eq) {c : Clause}
    (h : c.VarsIn fun x => L.names x x) : c.Alike L c :=
  ⟨⟨rfl, List.forall₂_same.mpr fun t ht => Term.alike_self htexts (h.head t ht)⟩,
    List.forall₂_same.mpr fun g hg => Goal.alike_self htexts hcalls (h.body g hg)⟩

theorem Alike.rename {m n : Nat} (hnames : ∀ x, L.names (renamed m x) (renamed n x)) {c d : Clause}
    (h : c.Alike (L.withNames Eq) d) : (c.rename m).Alike L (d.rename n) := by
  have hterm {t u : Term} (h : Term.Alike (L.withNames Eq) t u) :
      Term.Alike L (t.bindVars fun x => .var (renamed m x)) (u.bindVars fun x => .var (renamed n x)) := by
    refine Term.Alike.bindVars ?_ ?_ h
    · rintro x _ rfl
      exact .var (hnames x)
    · exact fun _ h => h
  exact h.mapTerms hterm rfl

end Clause
end BilingualLogic
