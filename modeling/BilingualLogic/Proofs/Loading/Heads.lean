import BilingualLogic.Proofs.Loading.Moments

/-!
The heads of the clauses that a program defines or may assert. Asserted clauses are instances of those in goals, and
goals come from bodies, so a property of heads that instances have too holds of all clauses that are ever stored.
-/

namespace BilingualLogic

namespace Goal

mutual

theorem assertedHeads_mapTerms (f : Term → Term) (g : Goal) :
    (g.mapTerms f).assertedHeads = g.assertedHeads.map (·.mapTerms f) := by
  cases g with
  | assert head body => simp [mapTerms, assertedHeads, allAssertedHeads_mapTerms f body]
  | not goals => exact allAssertedHeads_mapTerms f goals
  | collect kind t goals r => exact allAssertedHeads_mapTerms f goals
  | _ => rfl

theorem allAssertedHeads_mapTerms (f : Term → Term) (gs : List Goal) :
    allAssertedHeads (mapTermsAll f gs) = (allAssertedHeads gs).map (·.mapTerms f) := by
  cases gs with
  | nil => rfl
  | cons g gs =>
    simp [mapTermsAll, allAssertedHeads, assertedHeads_mapTerms f g, allAssertedHeads_mapTerms f gs]

end

theorem mem_allAssertedHeads {gs : List Goal} {p : Predicate} :
    p ∈ allAssertedHeads gs ↔ ∃ g ∈ gs, p ∈ g.assertedHeads := by
  induction gs with
  | nil => simp [allAssertedHeads]
  | cons g gs ih => simp [allAssertedHeads, ih]

/-- No clause that the goal may assert has another kind of head. -/
def AssertsOnly (P : Predicate → Prop) (g : Goal) : Prop := ∀ p ∈ g.assertedHeads, P p

theorem forall_assertsOnly {P : Predicate → Prop} {gs : List Goal} :
    (∀ g ∈ gs, g.AssertsOnly P) ↔ ∀ p ∈ allAssertedHeads gs, P p := by
  simp only [mem_allAssertedHeads, AssertsOnly]
  exact ⟨fun h p ⟨g, hg, hp⟩ => h g hg p hp, fun h g hg p hp => h p ⟨g, hg, hp⟩⟩

end Goal

namespace Clause

/-- The heads of the clause and of those that its body may assert. -/
def heads (c : Clause) : List Predicate := c.head :: Goal.allAssertedHeads c.body

theorem heads_mapTerms (f : Term → Term) (c : Clause) : (c.mapTerms f).heads = c.heads.map (·.mapTerms f) := by
  simp [heads, mapTerms, Goal.allAssertedHeads_mapTerms]

end Clause

section Heads

variable {P : Predicate → Prop}

theorem Search.lasting_heads (hP : ∀ (f : Term → Term) p, P p → P (p.mapTerms f)) :
    Lasting (·.All fun c => ∀ p ∈ c.heads, P p) (·.AssertsOnly P) := by
  have mapped (f : Term → Term) {c : Clause} (hc : ∀ p ∈ c.heads, P p) : ∀ p ∈ (c.mapTerms f).heads, P p := by
    rw [Clause.heads_mapTerms]
    exact List.forall_mem_map.mpr fun p hp => hP f p (hc p hp)
  refine .of_clauses (fun f hg => mapped f (c := ⟨_, _⟩) hg) (fun m hc => ?_) ?_
  · exact Goal.forall_assertsOnly.mpr fun p hp => mapped _ hc p (List.mem_cons_of_mem _ hp)
  · intro g goals hg hi
    cases g with
    | not _ | collect _ _ _ _ =>
      cases hi
      exact Goal.forall_assertsOnly.mpr hg
    | _ => cases hi

theorem Statement.keeps_heads {st : Statement} (h : ∀ p ∈ st.heads, P p) :
    st.form.Keeps (·.All fun c => ∀ p ∈ c.heads, P p) (·.AssertsOnly P) := by
  obtain ⟨form, span⟩ := st
  cases form with
  | fact head => exact fun s hs => hs.add h
  | rule head body => exact fun s hs => hs.add h
  | query goals => exact Goal.forall_assertsOnly.mpr h
  | directive g => exact h

end Heads

end BilingualLogic
