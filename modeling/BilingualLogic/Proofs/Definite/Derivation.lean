import BilingualLogic.Program.Check
import BilingualLogic.Proofs.Unification.MostGeneral

/-!
Definite goals and what is derivable from a store. A ground call is derived by a ground instance of a clause whose head
is loosely equal to the call and whose body goals are derived in turn.
-/

namespace BilingualLogic

namespace Predicate

/-- Whether the predicate is the one that always holds, or the one that never does. -/
def truth? (p : Predicate) : Option Bool :=
  match Keyword.ofSpelling? p.name, p.arguments.length with
  | some .true, 0 => some true
  | some .false, 0 => some false
  | _, _ => none

def loose (p q : Predicate) : Bool := p.name == q.name && Term.looseAll p.arguments q.arguments

@[simp] theorem truth?_mapTerms (f : Term → Term) (p : Predicate) : (p.mapTerms f).truth? = p.truth? := by
  simp [truth?, mapTerms]

@[simp] theorem isBuiltin_mapTerms (f : Term → Term) (p : Predicate) : (p.mapTerms f).isBuiltin = p.isBuiltin := by
  simp [isBuiltin, listKeyword?, mapTerms]

@[simp] theorem key_mapTerms (f : Term → Term) (p : Predicate) : (p.mapTerms f).key = p.key := by
  simp [key, mapTerms]

theorem isBuiltin_of_truth? {p : Predicate} {holds : Bool} (h : p.truth? = some holds) : p.isBuiltin = true := by
  unfold truth? at h
  unfold isBuiltin
  split at h <;> simp_all

end Predicate

namespace Goal

/-- The goal is an equation, a call of a predicate of the program, or true or false, and its terms have the property. -/
def Definite (P : Term → Prop) : Goal → Prop
  | call p => (p.isBuiltin = false ∨ p.truth?.isSome) ∧ ∀ t ∈ p.arguments, P t
  | unify a b => P a ∧ P b
  | _ => False

def loose : Goal → Goal → Bool
  | call p, call q => p.loose q
  | unify a b, unify a' b' => a.loose a' && b.loose b'
  | _, _ => false

theorem Definite.mono {P Q : Term → Prop} (hPQ : ∀ t, P t → Q t) {g : Goal} (h : g.Definite P) : g.Definite Q := by
  cases g with
  | call p => exact ⟨h.1, fun t ht => hPQ t (h.2 t ht)⟩
  | unify a b => exact ⟨hPQ a h.1, hPQ b h.2⟩
  | _ => exact h

theorem Definite.and {P Q : Term → Prop} {g : Goal} (h : g.Definite P) (h' : g.Definite Q) :
    g.Definite fun t => P t ∧ Q t := by
  cases g with
  | call p => exact ⟨h.1, fun t ht => ⟨h.2 t ht, h'.2 t ht⟩⟩
  | unify a b => exact ⟨⟨h.1, h'.1⟩, ⟨h.2, h'.2⟩⟩
  | _ => exact h

theorem Definite.mapTerms {P Q : Term → Prop} {f : Term → Term} (hf : ∀ t, P t → Q (f t)) {g : Goal}
    (h : g.Definite P) : (g.mapTerms f).Definite Q := by
  cases g with
  | call p =>
    refine ⟨by simpa using h.1, ?_⟩
    intro t ht
    obtain ⟨u, hu, rfl⟩ := List.mem_map.mp ht
    exact hf u (h.2 u hu)
  | unify a b => exact ⟨hf a h.1, hf b h.2⟩
  | _ => exact h

theorem Definite.mapTerms_congr {P : Term → Prop} {f f' : Term → Term} (hf : ∀ t, P t → f t = f' t) {g : Goal}
    (h : g.Definite P) : g.mapTerms f = g.mapTerms f' := by
  cases g with
  | call p =>
    simp only [Goal.mapTerms, Predicate.mapTerms]
    rw [List.map_congr_left fun t ht => hf t (h.2 t ht)]
  | unify a b => simp only [Goal.mapTerms, hf a h.1, hf b h.2]
  | _ => exact absurd h not_false

theorem Definite.mapTerms_mapTerms {P : Term → Prop} (f f' : Term → Term) {g : Goal} (h : g.Definite P) :
    (g.mapTerms f).mapTerms f' = g.mapTerms fun t => f' (f t) := by
  cases g with
  | call p => simp [Goal.mapTerms, Predicate.mapTerms]
  | unify a b => simp [Goal.mapTerms]
  | _ => exact absurd h not_false

theorem mapTermsAll_eq (f : Term → Term) (gs : List Goal) : mapTermsAll f gs = gs.map (mapTerms f) := by
  induction gs with
  | nil => rfl
  | cons g gs ih => rw [mapTermsAll, ih, List.map_cons]

theorem mem_mapTermsAll {f : Term → Term} {gs : List Goal} {g : Goal} :
    g ∈ mapTermsAll f gs ↔ ∃ g' ∈ gs, g'.mapTerms f = g := by
  rw [mapTermsAll_eq, List.mem_map]

end Goal

def Clause.Definite (c : Clause) : Prop :=
  (∀ t ∈ c.head.arguments, t.WellFormed) ∧ ∀ g ∈ c.body, g.Definite Term.WellFormed

def Store.Definite (s : Store) : Prop := ∀ t ∈ s.tables, ∀ c ∈ t.clauses, c.clause.Definite

/-- The ground goals that are derivable from the clauses of a store. -/
inductive Derives (store : Store) : Goal → Prop
  | call {p : Predicate} {c : Clause} (τ : Assignment) : p.isBuiltin = false → c ∈ store.clauses p.key →
    p.loose (c.head.mapTerms τ.apply) = true → (∀ g ∈ c.body, Derives store (g.mapTerms τ.apply)) →
    Derives store (.call p)
  | holds {p : Predicate} : p.truth? = some true → Derives store (.call p)
  | unify {a b : Term} : a.loose b = true → Derives store (.unify a b)

def Clause.DerivesCall (store : Store) (c : Clause) (p : Predicate) (σ : Assignment) : Prop :=
  ∃ τ : Assignment, (p.mapTerms σ.apply).loose (c.head.mapTerms τ.apply) = true ∧
    ∀ g ∈ c.body, Derives store (g.mapTerms τ.apply)

variable {store : Store}

theorem derives_call_iff {p : Predicate} (hp : p.isBuiltin = false) (σ : Assignment) :
    Derives store ((Goal.call p).mapTerms σ.apply) ↔ ∃ c ∈ store.clauses p.key, c.DerivesCall store p σ := by
  rw [Goal.mapTerms]
  constructor
  · intro h
    cases h with
    | call τ _ hc hloose hbody => exact ⟨_, by simpa using hc, τ, hloose, hbody⟩
    | holds h =>
      have := Predicate.isBuiltin_of_truth? h
      rw [Predicate.isBuiltin_mapTerms, hp] at this
      cases this
  · rintro ⟨c, hc, τ, hloose, hbody⟩
    exact .call τ (by simpa using hp) (by simpa using hc) hloose hbody

theorem derives_truth_iff {p : Predicate} {holds : Bool} (hp : p.truth? = some holds) (σ : Assignment) :
    Derives store ((Goal.call p).mapTerms σ.apply) ↔ holds = true := by
  rw [Goal.mapTerms]
  constructor
  · intro h
    cases h with
    | call τ hb _ _ _ =>
      rw [Predicate.isBuiltin_mapTerms, Predicate.isBuiltin_of_truth? hp] at hb
      cases hb
    | holds h =>
      rw [Predicate.truth?_mapTerms, hp] at h
      exact Option.some.inj h
  · rintro rfl
    exact .holds (by simpa using hp)

theorem derives_unify_iff {a b : Term} (ha : a.WellFormed) (hb : b.WellFormed) (σ : Assignment) :
    Derives store ((Goal.unify a b).mapTerms σ.apply) ↔ a.eval σ.datum = b.eval σ.datum := by
  rw [Goal.mapTerms, ← σ.loose_apply_iff ha hb]
  constructor
  · intro h
    cases h with
    | unify h => exact h
  · exact .unify

namespace Predicate

theorem loose_apply_iff {p q : Predicate} (hp : ∀ t ∈ p.arguments, t.WellFormed)
    (hq : ∀ t ∈ q.arguments, t.WellFormed) (σ τ : Assignment) :
    (p.mapTerms σ.apply).loose (q.mapTerms τ.apply) = true ↔
      p.name = q.name ∧ p.arguments.map (Term.eval σ.datum) = q.arguments.map (Term.eval τ.datum) := by
  have hplain (u : Term) (hu : u ∈ q.arguments.map τ.apply) : u.isPlain = true := by
    obtain ⟨t, ht, rfl⟩ := List.mem_map.mp hu
    exact (τ.wellFormed_apply (hq t ht)).2
  have hloose (t : Term) (ht : t ∈ p.arguments.map σ.apply) (u : Term) (hu : u.isPlain = true) :
      t.loose u = true ↔ t.datum = u.datum := by
    obtain ⟨v, hv, rfl⟩ := List.mem_map.mp ht
    exact Term.loose_iff (σ.wellFormed_apply (hp v hv)).2 hu
  have hdatum (σ : Assignment) (ts : List Term) : (ts.map σ.apply).map Term.datum = ts.map (Term.eval σ.datum) := by
    rw [List.map_map]
    exact List.map_congr_left fun t _ => σ.datum_apply t
  rw [loose, mapTerms, mapTerms, Bool.and_eq_true, beq_iff_eq,
    Term.looseAll_iff hloose ((Term.isPlainAll_iff _).mpr hplain), hdatum, hdatum]

end Predicate
end BilingualLogic
