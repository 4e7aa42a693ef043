import BilingualLogic.Proofs.Definite.Copy
import BilingualLogic.Search

/-!
Solutions of bindings and goals: ground terms for all variables under which the bindings hold and the goals are
derivable. A copy of a clause keeps the solutions of a call, except that its own variables get their terms only then.
-/

namespace BilingualLogic

variable {used : Nat → String → Prop} {store : Store}

def Term.Named (used : Nat → String → Prop) (n : Nat) (t : Term) : Prop := t.WellFormed ∧ t.VarsIn (used n)

theorem Term.hereditary_named (n : Nat) : Hereditary (Term.Named used n) :=
  Term.hereditary_wellFormed.and Term.hereditary_varsIn

theorem Term.Named.mono (hu : Naming used) {m n : Nat} (hmn : m ≤ n) {t : Term} (h : t.Named used m) :
    t.Named used n := ⟨h.1, fun x hx => hu.mono hmn (h.2 x hx)⟩

theorem Term.WellFormed.rename (hu : Naming used) {n : Nat} {t : Term} (h : t.WellFormed) :
    (t.bindVars fun x => .var (Clause.renamed n x)).Named used (n + 1) := by
  refine Term.hereditary_wellFormed.bindVars (Term.hereditary_named (n + 1)) ?_ ?_ h
  · exact fun v hv => ⟨hv, Term.varsIn_const v⟩
  · exact fun x => ⟨Term.wellFormed_var _, Term.varsIn_var.mpr (hu.copy n x)⟩

/-- The second set has the solutions of the first, up to variables that are not in use yet. -/
def Conserves (used : Nat → String → Prop) (n : Nat) (A B : Assignment → Prop) : Prop :=
  (∀ σ, B σ → A σ) ∧ (Fresh used → ∀ σ, A σ → ∃ σ' : Assignment, (∀ x, used n x → σ'.term x = σ.term x) ∧ B σ')

namespace Conserves

variable {A B C : Assignment → Prop} {m n : Nat}

theorem of_iff (h : ∀ σ, A σ ↔ B σ) : Conserves used n A B :=
  ⟨fun σ => (h σ).mpr, fun _ σ hσ => ⟨σ, fun _ _ => rfl, (h σ).mp hσ⟩⟩

theorem congr {A' B' : Assignment → Prop} (h : Conserves used n A B) (hA : ∀ σ, A' σ ↔ A σ) (hB : ∀ σ, B' σ ↔ B σ) :
    Conserves used n A' B' := by
  rw [funext fun σ => propext (hA σ), funext fun σ => propext (hB σ)]
  exact h

theorem trans (hu : Naming used) (hmn : m ≤ n) (h : Conserves used m A B) (h' : Conserves used n B C) :
    Conserves used m A C := by
  refine ⟨fun σ hσ => h.1 σ (h'.1 σ hσ), ?_⟩
  intro hf σ hσ
  obtain ⟨σ₁, hσ₁, h₁⟩ := h.2 hf σ hσ
  obtain ⟨σ₂, hσ₂, h₂⟩ := h'.2 hf σ₁ h₁
  refine ⟨σ₂, fun x hx => ?_, h₂⟩
  rw [hσ₂ x (hu.mono hmn hx), hσ₁ x hx]

theorem or (h : Conserves used n A B) (C : Assignment → Prop) :
    Conserves used n (fun σ => A σ ∨ C σ) (fun σ => B σ ∨ C σ) := by
  refine ⟨fun σ hσ => hσ.imp_left (h.1 σ), ?_⟩
  rintro hf σ (hσ | hσ)
  · obtain ⟨σ', hσ', h'⟩ := h.2 hf σ hσ
    exact ⟨σ', hσ', Or.inl h'⟩
  · exact ⟨σ, fun _ _ => rfl, Or.inr hσ⟩

end Conserves

def Derivable (store : Store) (fs : List Frame) (σ : Assignment) : Prop :=
  ∀ f ∈ fs, Derives store (f.goal.mapTerms σ.apply)

theorem derivable_append {fs gs : List Frame} {σ : Assignment} :
    Derivable store (fs ++ gs) σ ↔ Derivable store fs σ ∧ Derivable store gs σ := List.forall_mem_append

theorem derivable_cons {f : Frame} {fs : List Frame} {σ : Assignment} :
    Derivable store (f :: fs) σ ↔ Derives store (f.goal.mapTerms σ.apply) ∧ Derivable store fs σ :=
  List.forall_mem_cons

theorem derivable_frames {barrier : Nat} {goals : List Goal} {σ : Assignment} :
    Derivable store (goals.map (⟨·, barrier⟩)) σ ↔ ∀ g ∈ goals, Derives store (g.mapTerms σ.apply) := by
  simp [Derivable]

def Solved (store : Store) (fs : List Frame) (b : Substitution) (σ : Assignment) : Prop :=
  b.Solves σ.datum ∧ Derivable store fs σ

structure Fits (P : Term → Prop) (fs : List Frame) (b : Substitution) : Prop where
  walkable : b.Walkable
  bindings : b.All P
  goals : ∀ f ∈ fs, f.goal.Definite P

section Agreement

variable {n : Nat} {σ σ' : Assignment}

theorem apply_congr (h : ∀ x, used n x → σ'.term x = σ.term x) {t : Term} (ht : t.Named used n) :
    σ'.apply t = σ.apply t :=
  Term.bindVars_congr fun x hx => h x (ht.2 x hx)

theorem derivable_congr (h : ∀ x, used n x → σ'.term x = σ.term x) {fs : List Frame}
    (hfs : ∀ f ∈ fs, f.goal.Definite (Term.Named used n)) (hd : Derivable store fs σ) : Derivable store fs σ' := by
  intro f hf
  rw [(hfs f hf).mapTerms_congr fun t ht => apply_congr h ht]
  exact hd f hf

theorem solves_congr (h : ∀ x, used n x → σ'.term x = σ.term x) {b : Substitution} (hb : b.All (Term.Named used n))
    (hs : b.Solves σ.datum) : b.Solves σ'.datum := by
  intro x t hx
  have hvar := (hb x t hx).1.2
  have ht := (hb x t hx).2
  have heq := hs x t hx
  rw [← σ.datum_apply] at heq
  rw [← σ'.datum_apply, apply_congr h ht, ← heq, Assignment.datum, h x (Term.varsIn_var.mp hvar)]
  rfl

end Agreement

namespace Predicate

variable {ρ : String → Datum} {n : Nat} {p q : Predicate} {s : Substitution}

theorem unify_exact (hρ : ∀ x, (ρ x).isProper) {r : Option Substitution} (hw : s.Walkable)
    (hs : s.All Term.WellFormed) (hp : ∀ t ∈ p.arguments, t.WellFormed) (hq : ∀ t ∈ q.arguments, t.WellFormed)
    (h : p.unify n q s = some r) :
    Admits ρ r ↔ s.Solves ρ ∧ p.name = q.name ∧ p.arguments.map (Term.eval ρ) = q.arguments.map (Term.eval ρ) := by
  unfold Predicate.unify unifyAll at h
  split at h
  · next hname =>
    simp only [hname, true_and]
    split at h
    · exact unifyAllBy_exact (unify_growsBy Term.hereditary_wellFormed n) (unify_exactBy hρ n) hw hs hp hq h
    · next hlen =>
      cases h
      simp only [Admits, false_iff]
      rintro ⟨-, heq⟩
      exact hlen (by simpa using congrArg List.length heq)
  · next hname =>
    cases h
    simp [Admits, hname]

theorem unify_grows {P : Term → Prop} (hP : Hereditary P) {s' : Substitution} (hw : s.Walkable) (hs : s.All P)
    (hp : ∀ t ∈ p.arguments, P t) (hq : ∀ t ∈ q.arguments, P t) (h : p.unify n q s = some (some s')) :
    s.Grows P s' := by
  unfold Predicate.unify unifyAll at h
  split at h
  · split at h
    · exact unifyAllBy_grows (unify_growsBy hP n) hw hs.closed hp hq h
    · cases h
  · cases h

end Predicate

section Goals

variable {n : Nat} {f : Frame} {fs : List Frame} {b : Substitution}

theorem Fits.wellFormed (h : Fits (Term.Named used n) fs b) : b.All Term.WellFormed :=
  fun x t hx => ⟨(h.bindings x t hx).1.1, (h.bindings x t hx).2.1⟩

theorem Fits.tail (h : Fits (Term.Named used n) (f :: fs) b) : Fits (Term.Named used n) fs b :=
  ⟨h.walkable, h.bindings, fun g hg => h.goals g (List.mem_cons_of_mem f hg)⟩

theorem solved_cons {σ : Assignment} :
    Solved store (f :: fs) b σ ↔ Solved store fs b σ ∧ Derives store (f.goal.mapTerms σ.apply) := by
  rw [Solved, derivable_cons, Solved]
  tauto

variable {x y : Term} {effort : Nat} {r : Option Substitution}

theorem fits_unify (hb : Fits (Term.Named used n) (f :: fs) b) (hf : f.goal = .unify x y) {unified : Substitution}
    (h : unify effort x y b = some (some unified)) : Fits (Term.Named used n) fs unified := by
  have hxy := hb.goals f List.mem_cons_self
  rw [hf] at hxy
  have hg := unify_grows (Term.hereditary_named n) effort hb.walkable hb.bindings hxy.1 hxy.2 h
  exact ⟨hg.walkable hb.walkable, hg.all hb.bindings, hb.tail.goals⟩

theorem solved_unify (hb : Fits (Term.Named used n) (f :: fs) b) (hf : f.goal = .unify x y)
    (h : unify effort x y b = some r) (σ : Assignment) :
    Solved store (f :: fs) b σ ↔ ∃ unified, r = some unified ∧ Solved store fs unified σ := by
  have hxy := hb.goals f List.mem_cons_self
  rw [hf] at hxy
  have hexact := unify_exactBy σ.isProper_datum effort hb.walkable hb.wellFormed hxy.1.1 hxy.2.1 h
  rw [solved_cons, hf, derives_unify_iff hxy.1.1 hxy.2.1, Solved, and_right_comm, ← hexact]
  cases r <;> simp [Admits, Solved]

end Goals

section Clauses

variable {n : Nat} {c : Clause} {p : Predicate} {fs : List Frame} {b : Substitution}

theorem Fits.mono (hu : Naming used) {m : Nat} (hmn : m ≤ n) (h : Fits (Term.Named used m) fs b) :
    Fits (Term.Named used n) fs b where
  walkable := h.walkable
  bindings x t hx := ⟨(h.bindings x t hx).1.mono hu hmn, (h.bindings x t hx).2.mono hu hmn⟩
  goals f hf := (h.goals f hf).mono fun _ ht => ht.mono hu hmn

theorem derives_copy {g : Goal} (hg : g.Definite Term.WellFormed) (σ : Assignment) :
    Derives store ((g.mapTerms (·.bindVars fun x => .var (Clause.renamed n x))).mapTerms σ.apply) ↔
      Derives store (g.mapTerms (σ.copy n).apply) := by
  rw [hg.mapTerms_mapTerms]
  simp only [σ.apply_rename]

theorem head_eval (σ : Assignment) :
    (c.rename n).head.arguments.map (Term.eval σ.datum) = c.head.arguments.map (Term.eval (σ.copy n).datum) := by
  simp only [Clause.rename, Clause.mapTerms, Predicate.mapTerms, List.map_map]
  exact List.map_congr_left fun t _ => σ.eval_rename n t

theorem Clause.Definite.rename (hu : Naming used) (hc : c.Definite) (n : Nat) :
    (∀ t ∈ (c.rename n).head.arguments, t.Named used (n + 1)) ∧
      ∀ g ∈ (c.rename n).body, g.Definite (Term.Named used (n + 1)) := by
  constructor
  · intro t ht
    obtain ⟨u, hu', rfl⟩ := List.mem_map.mp ht
    exact (hc.1 u hu').rename hu
  · intro g hg
    obtain ⟨d, hd, rfl⟩ := Goal.mem_mapTermsAll.mp hg
    exact (hc.2 d hd).mapTerms fun t ht => ht.rename hu

variable (hu : Naming used) (hc : c.Definite) (hp : ∀ t ∈ p.arguments, t.Named used n)
  (hb : Fits (Term.Named used n) fs b)

include hu hc hp hb

theorem fits_copy {effort : Nat} {unified : Substitution} (barrier : Nat)
    (h : (c.rename n).head.unify effort p b = some (some unified)) :
    Fits (Term.Named used (n + 1)) (Search.frames barrier (c.rename n).body fs) unified := by
  have hb' := hb.mono hu (Nat.le_succ n)
  have hg := Predicate.unify_grows (Term.hereditary_named (n + 1)) hb'.walkable hb'.bindings (hc.rename hu n).1
    (fun t ht => (hp t ht).mono hu (Nat.le_succ n)) h
  refine ⟨hg.walkable hb'.walkable, hg.all hb'.bindings, ?_⟩
  intro f hf
  rcases List.mem_append.mp hf with hf | hf
  · obtain ⟨g, hg, rfl⟩ := List.mem_map.mp hf
    exact (hc.rename hu n).2 g hg
  · exact hb'.goals f hf

variable (store) in
/-- What solves the body of a copy and what follows makes the call derivable by the clause, and the other way round
if the variables of the copy get the right terms. -/
theorem copy_conserves {effort : Nat} {r : Option Substitution} (barrier : Nat)
    (h : (c.rename n).head.unify effort p b = some r) :
    Conserves used n (fun σ => Solved store fs b σ ∧ c.DerivesCall store p σ)
      (fun σ => ∃ unified, r = some unified ∧
        Solved store (Search.frames barrier (c.rename n).body fs) unified σ) := by
  have hcopy (t : Term) (ht : t ∈ (c.rename n).head.arguments) : t.WellFormed := ((hc.rename hu n).1 t ht).1
  have hcall (t : Term) (ht : t ∈ p.arguments) : t.WellFormed := (hp t ht).1
  have hexact (σ : Assignment) : (∃ unified, r = some unified ∧ unified.Solves σ.datum) ↔
      b.Solves σ.datum ∧ (p.mapTerms σ.apply).loose (c.head.mapTerms (σ.copy n).apply) = true := by
    have hadmits : Admits σ.datum r ↔ ∃ unified, r = some unified ∧ unified.Solves σ.datum := by
      cases r <;> simp [Admits]
    rw [← hadmits, Predicate.unify_exact σ.isProper_datum hb.walkable hb.wellFormed hcopy hcall h, head_eval,
      Predicate.loose_apply_iff hcall hc.1, eq_comm (a := p.name), eq_comm (a := p.arguments.map _)]
    rfl
  have hbody (σ : Assignment) : Derivable store (Search.frames barrier (c.rename n).body fs) σ ↔
      (∀ g ∈ c.body, Derives store (g.mapTerms (σ.copy n).apply)) ∧ Derivable store fs σ := by
    rw [Search.frames, derivable_append, derivable_frames]
    apply and_congr_left
    intro _
    constructor
    · intro h g hg
      rw [← derives_copy (hc.2 g hg)]
      exact h _ (Goal.mem_mapTermsAll.mpr ⟨g, hg, rfl⟩)
    · intro h g hg
      obtain ⟨d, hd, rfl⟩ := Goal.mem_mapTermsAll.mp hg
      exact (derives_copy (hc.2 d hd) σ).mpr (h d hd)
  constructor
  · rintro σ ⟨unified, hr, hsol, hder⟩
    obtain ⟨hsol, hloose⟩ := (hexact σ).mp ⟨unified, hr, hsol⟩
    obtain ⟨hbody, hrest⟩ := (hbody σ).mp hder
    exact ⟨⟨hsol, hrest⟩, σ.copy n, hloose, hbody⟩
  · rintro hf σ ⟨⟨hsol, hrest⟩, τ, hloose, hder⟩
    -- the variables of the copy are not in use, so they are free to get what the instance of the clause needs
    have hagree (x : String) (hx : used n x) : (σ.extend τ n).term x = σ.term x := σ.extend_of_used hf τ hx
    refine ⟨σ.extend τ n, hagree, ?_⟩
    have hpred : p.mapTerms (σ.extend τ n).apply = p.mapTerms σ.apply := by
      rw [Predicate.mapTerms, Predicate.mapTerms, List.map_congr_left fun t ht => apply_congr hagree (hp t ht)]
    obtain ⟨unified, hr, hsol'⟩ := (hexact (σ.extend τ n)).mpr
      ⟨solves_congr hagree hb.bindings hsol, by rw [hpred, σ.copy_extend]; exact hloose⟩
    refine ⟨unified, hr, hsol', (hbody _).mpr ⟨?_, derivable_congr hagree hb.goals hrest⟩⟩
    rw [σ.copy_extend]
    exact hder

end Clauses

end BilingualLogic
