import BilingualLogic.Proofs.Definite.Step
import BilingualLogic.Proofs.Substitution.Acyclic

/-!
The answers of a search with definite goals: all their instances are derivable, and when the search has come to its
end, every derivable instance of the goals is an instance of an answer.
-/

namespace BilingualLogic

theorem Goal.Definite.loose_mapTerms {P : Term → Prop} {f f' : Term → Term}
    (hf : ∀ t, P t → (f t).loose (f' t) = true) {g : Goal} (h : g.Definite P) :
    (g.mapTerms f).loose (g.mapTerms f') = true := by
  have hall (ts : List Term) (hts : ∀ t ∈ ts, P t) : Term.looseAll (ts.map f) (ts.map f') = true := by
    induction ts with
    | nil => rfl
    | cons t ts ih =>
      obtain ⟨ht, hts⟩ := List.forall_mem_cons.mp hts
      simp [Term.looseAll, hf t ht, ih hts]
  cases g with
  | call p => simp [Goal.mapTerms, Goal.loose, Predicate.loose, Predicate.mapTerms, hall _ h.2]
  | unify a b => simp [Goal.mapTerms, Goal.loose, hf a h.1, hf b h.2]
  | _ => exact absurd h not_false

namespace Assignment

variable (τ : Assignment) {θ : Substitution} (hθ : θ.All Term.WellFormed)

def resolved : Assignment where
  term x := τ.apply (θ.resolve (.var x))
  ground _ := hereditary_true.bindVars hereditary_isGround (fun _ _ => rfl) τ.ground trivial
  wellFormed x := τ.wellFormed_apply (hθ.resolve Term.hereditary_wellFormed Term.wellFormed_var (Term.wellFormed_var x))

theorem apply_resolved (t : Term) : (τ.resolved hθ).apply t = τ.apply (θ.resolve t) := by
  rw [apply, apply, Substitution.resolve, Term.bindVars_bindVars]
  simp [resolved, apply, Substitution.resolve, Term.bindVars]

theorem solves_resolved (h : θ.Acyclic) : θ.Solves (τ.resolved hθ).datum := by
  have hdatum : (τ.resolved hθ).datum = fun x => (θ.resolve (.var x)).eval τ.datum :=
    funext fun x => τ.datum_apply (θ.resolve (.var x))
  rw [hdatum]
  exact h.solves τ.datum

include hθ

theorem loose_resolve {t : Term} (h : θ.Solves τ.datum) (ht : t.WellFormed) :
    (τ.apply t).loose (τ.apply (θ.resolve t)) = true := by
  have hresolve : (θ.resolve t).WellFormed := hθ.resolve Term.hereditary_wellFormed Term.wellFormed_var ht
  rw [τ.loose_apply_iff ht hresolve, h.resolve]

end Assignment

namespace Search

/-- Pulls that gave these answers, one after the other. -/
inductive Pulls (limits : Limits) : World → Search → List Substitution → World → Search → Prop
  | nil (w : World) (s : Search) : Pulls limits w s [] w s
  | cons {n : Nat} {w w₁ w' : World} {s s₁ s' : Search} {b : Substitution} {bs : List Substitution} :
    next limits n w s = some (some b, w₁, s₁) → Pulls limits w₁ s₁ bs w' s' → Pulls limits w s (b :: bs) w' s'

section Pull

variable {used : Nat → String → Prop} {limits : Limits} {w w' : World} {s s' : Search}

theorem next_advances (hu : Naming used) (hl : limits.maxInferences = none) (ho : w.store.Ordered)
    (hd : w.store.Definite) (hs : SearchFits (Term.Named used w.copies) s) {n : Nat} {answer : Option Substitution}
    (h : next limits n w s = some (answer, w', s')) : (Turn.stops answer w' s').Advances used w s := by
  induction n generalizing w s with
  | zero => cases h
  | succ n ih =>
    rw [next_succ] at h
    obtain ⟨t, ht, h⟩ := Option.bind_eq_some_iff.mp h
    have hturn := turn_advances hu ho hd hl hs ht
    cases t with
    | goes w₁ s₁ => exact .of_goes hu hturn (ih (hturn.store ▸ ho) (hturn.store ▸ hd) hturn.fits h)
    | stops answer w₁ s₁ =>
      cases h
      exact hturn

theorem Pulls.advances (hu : Naming used) (hl : limits.maxInferences = none) {bs : List Substitution}
    (h : Pulls limits w s bs w' s') (ho : w.store.Ordered) (hd : w.store.Definite)
    (hs : SearchFits (Term.Named used w.copies) s) : Advances used w s bs w' s' := by
  induction h with
  | nil w s => exact .of_iff hs fun _ => Iff.rfl
  | cons hn _ ih =>
    obtain ⟨hnext, -⟩ := next_advances hu hl ho hd hs hn
    exact hnext.trans hu (ih (hnext.store ▸ ho) (hnext.store ▸ hd) hnext.fits)

end Pull

section Start

variable {P : Term → Prop} {goals : List Goal}

theorem searchFits_start (hg : ∀ g ∈ goals, g.Definite P) (steps : Nat) : SearchFits P (start goals ∅ steps) where
  error := rfl
  current := by
    rintro branch hbranch
    cases hbranch
    refine ⟨Substitution.walkable_empty, Substitution.all_empty P, ?_⟩
    simpa [frames] using hg
  stack := by simp [start, Choices.empty]

theorem searchSolved_start {store : Store} {steps : Nat} {σ : Assignment} :
    SearchSolved store (start goals ∅ steps) σ ↔ ∀ g ∈ goals, Derives store (g.mapTerms σ.apply) := by
  have hsolves : Substitution.Solves σ.datum ∅ := Substitution.solves_empty σ.datum
  simp [SearchSolved, currentSolved_some, StackSolved, start, Choices.empty, Solved, hsolves, frames,
    derivable_frames]

end Start

section Correct

variable {limits : Limits} {store : Store} {goals : List Goal} {copies steps : Nat} {answers : List Substitution}
  {w : World} {s : Search} (hl : limits.maxInferences = none) (hb : store.Built) (hd : store.Definite)
  (h : Pulls limits ⟨store, copies⟩ (start goals ∅ steps) answers w s)

include hl hb hd h

theorem Pulls.derivable (hg : ∀ g ∈ goals, g.Definite Term.WellFormed) {θ : Substitution} (hθ : θ ∈ answers)
    (hacyclic : θ.Acyclic) (τ : Assignment) {g : Goal} (hmem : g ∈ goals) :
    Derives store (g.mapTerms fun t => τ.apply (θ.resolve t)) := by
  have hstart := searchFits_start (P := Term.Named (fun _ _ => True) copies)
    (fun g hmem => (hg g hmem).mono fun t ht => ⟨ht, fun _ _ => trivial⟩) steps
  have hadvances := h.advances naming_true hl hb.ordered hd hstart
  have hall := (hadvances.given θ hθ).wellFormed
  have hsolved : Solved store [] θ (τ.resolved hall) := ⟨τ.solves_resolved hall hacyclic, by simp [Derivable]⟩
  have hderives := searchSolved_start.mp (hadvances.conserves.1 _ (Or.inl ⟨θ, hθ, hsolved⟩)) g hmem
  rwa [(hg g hmem).mapTerms_congr fun t _ => τ.apply_resolved hall t] at hderives

theorem Pulls.complete (hg : ∀ g ∈ goals, g.Definite (Term.Named NotAhead copies)) {n : Nat} {w' : World} {s' : Search}
    (hend : next limits n w s = some (none, w', s')) (σ : Assignment)
    (hσ : ∀ g ∈ goals, Derives store (g.mapTerms σ.apply)) :
    ∃ θ ∈ answers, ∃ τ : Assignment, ∀ g ∈ goals,
      (g.mapTerms σ.apply).loose (g.mapTerms fun t => τ.apply (θ.resolve t)) = true := by
  have hadvances := h.advances naming_notAhead hl hb.ordered hd (searchFits_start hg steps)
  obtain ⟨hlast, hnone⟩ := next_advances naming_notAhead hl (hadvances.store ▸ hb.ordered) (hadvances.store ▸ hd)
    hadvances.fits hend
  have hall := hadvances.trans naming_notAhead hlast
  obtain ⟨τ, hagree, ⟨θ, hθ, hsolves, -⟩ | hrest⟩ := hall.conserves.2 fresh_notAhead σ (searchSolved_start.mpr hσ)
  · rw [Option.toList_none, List.append_nil] at hθ
    refine ⟨θ, hθ, τ, fun g hmem => ?_⟩
    rw [← (hg g hmem).mapTerms_congr fun t ht => apply_congr hagree ht]
    exact (hg g hmem).loose_mapTerms fun t ht => τ.loose_resolve (hadvances.given θ hθ).wellFormed hsolves ht.1
  · exact absurd (hall.store ▸ hrest) (hnone rfl τ)

end Correct

/-- The answers of a search with definite goals are sound, and complete when the search has come to its end. Names of
the grammar have no number sign, so that no variable of a query is one of a copy that is still to be made. -/
theorem pulls_sound_complete {limits : Limits} (hl : limits.maxInferences = none) {store : Store} (hb : store.Built)
    (hd : store.Definite) {goals : List Goal} (hg : ∀ g ∈ goals, g.Definite Term.WellFormed) {copies steps : Nat}
    {answers : List Substitution} {w : World} {s : Search}
    (h : Pulls limits ⟨store, copies⟩ (start goals ∅ steps) answers w s) :
    (∀ θ ∈ answers, θ.Acyclic → ∀ τ : Assignment, ∀ g ∈ goals,
      Derives store (g.mapTerms fun t => τ.apply (θ.resolve t))) ∧
    ((∀ g ∈ goals, g.Definite (Term.VarsIn (NotAhead copies))) → ∀ n w' s', next limits n w s = some (none, w', s') →
      (∀ σ : Assignment, (∀ g ∈ goals, Derives store (g.mapTerms σ.apply)) → ∃ θ ∈ answers, ∃ τ : Assignment,
        ∀ g ∈ goals, (g.mapTerms σ.apply).loose (g.mapTerms fun t => τ.apply (θ.resolve t)) = true) ∧
      (answers = [] → ∀ σ : Assignment, ¬ ∀ g ∈ goals, Derives store (g.mapTerms σ.apply))) := by
  refine ⟨fun θ hθ hacyclic τ g hmem => h.derivable hl hb hd hg hθ hacyclic τ hmem, ?_⟩
  intro hnames n w' s' hend
  have hcomplete := h.complete hl hb hd (fun g hmem => (hg g hmem).and (hnames g hmem)) hend
  refine ⟨hcomplete, ?_⟩
  rintro rfl σ hσ
  obtain ⟨θ, hθ, -⟩ := hcomplete σ hσ
  cases hθ

/-- The clauses `p` and `q :- p`. -/
def chain : Store := (Store.empty.add ⟨⟨"p", []⟩, []⟩).add ⟨⟨"q", []⟩, [.call ⟨"p", []⟩]⟩

theorem pulls_sound_complete_chain :
    let goals : List Goal := [.call ⟨"q", []⟩, .unify (.var "X") (.atom "a")]
    let θ : Substitution := (∅ : Substitution).bind "X" (.atom "a")
    (∃ w s, Pulls {} ⟨chain, 0⟩ (start goals ∅ 0) [θ] w s) ∧ θ.Acyclic ∧
    (∀ τ : Assignment, ∀ g ∈ goals, Derives chain (g.mapTerms fun t => τ.apply (θ.resolve t))) ∧
    ∀ σ : Assignment, (∀ g ∈ goals, Derives chain (g.mapTerms σ.apply)) → ∃ τ : Assignment,
      ∀ g ∈ goals, (g.mapTerms σ.apply).loose (g.mapTerms fun t => τ.apply (θ.resolve t)) = true := by
  intro goals θ
  have hacyclic : θ.Acyclic := by
    intro x hx
    obtain ⟨y, ⟨t, ht, hy⟩, -⟩ := Relation.TransGen.head'_iff.mp hx
    rw [Substitution.get?_bind, Substitution.get?_empty] at ht
    split at ht <;> cases ht
    cases hy
  have hcall (P : Term → Prop) (name : String) (h : Predicate.isBuiltin ⟨name, []⟩ = false) :
      (Goal.call ⟨name, []⟩).Definite P := ⟨.inl h, fun _ ht => nomatch ht⟩
  have hdefinite : chain.Definite := by
    have htables : chain.tables = [⟨⟨"p", 0⟩, [⟨0, ⟨⟨"p", []⟩, []⟩⟩]⟩,
        ⟨⟨"q", 0⟩, [⟨1, ⟨⟨"q", []⟩, [.call ⟨"p", []⟩]⟩⟩]⟩] := rfl
    simp [Store.Definite, htables, Clause.Definite, hcall Term.WellFormed "p" (by decide)]
  have hgoals : ∀ g ∈ goals, g.Definite Term.WellFormed := by
    simp only [goals, List.forall_mem_cons]
    exact ⟨hcall _ "q" (by decide), ⟨⟨rfl, rfl⟩, ⟨rfl, rfl⟩⟩, by simp⟩
  have hnames : ∀ g ∈ goals, g.Definite (Term.VarsIn (NotAhead 0)) := by
    simp only [goals, List.forall_mem_cons]
    refine ⟨hcall _ "q" (by decide), ⟨Term.varsIn_var.mpr (notAhead_of_notMem (by decide)), Term.varsIn_const _⟩, by simp⟩
  have hpulls : Pulls {} ⟨chain, 0⟩ (start goals ∅ 0) [θ] _ _ := .cons (n := 9) rfl (.nil _ _)
  obtain ⟨hsound, hcomplete⟩ := pulls_sound_complete rfl (.add _ (.add _ .empty)) hdefinite hgoals hpulls
  refine ⟨⟨_, _, hpulls⟩, hacyclic, hsound θ List.mem_cons_self hacyclic, ?_⟩
  intro σ hσ
  obtain ⟨θ', hθ', hτ⟩ := (hcomplete hnames 9 _ _ rfl).1 σ hσ
  rwa [List.mem_singleton.mp hθ'] at hτ

end Search
end BilingualLogic
