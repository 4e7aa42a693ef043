import BilingualLogic.Proofs.Search.Resolution
import BilingualLogic.Proofs.Search.Run
import BilingualLogic.Proofs.Store.Contents

/-!
What is left to prove is a row of bodies, each with the height of the stack when its call was entered; resolution proves
them one within the other. After an outcome of resolution a run goes on from the choices below, those that a cut has
left.
-/

namespace BilingualLogic

namespace Goal

mutual

def isStatic : Goal → Bool
  | assert _ _ => false
  | retract _ _ => false
  | not goals => isStaticAll goals
  | collect _ _ goals _ => isStaticAll goals
  | _ => true

def isStaticAll : List Goal → Bool
  | [] => true
  | g :: gs => g.isStatic && isStaticAll gs

end

mutual

theorem isStatic_mapTerms (f : Term → Term) (g : Goal) : (g.mapTerms f).isStatic = g.isStatic := by
  cases g with
  | not goals => simpa [mapTerms, isStatic] using isStaticAll_mapTerms f goals
  | collect kind t goals r => simpa [mapTerms, isStatic] using isStaticAll_mapTerms f goals
  | _ => rfl

theorem isStaticAll_mapTerms (f : Term → Term) (gs : List Goal) :
    isStaticAll (mapTermsAll f gs) = isStaticAll gs := by
  cases gs with
  | nil => rfl
  | cons g gs => simp [mapTermsAll, isStaticAll, isStatic_mapTerms f g, isStaticAll_mapTerms f gs]

end

end Goal

def Store.IsStatic (s : Store) : Prop := ∀ t ∈ s.tables, ∀ c ∈ t.clauses, Goal.isStaticAll c.clause.body = true

theorem Store.isStatic_iff {s : Store} : s.IsStatic ↔ s.All fun c => Goal.isStaticAll c.body = true := Iff.rfl

theorem Store.IsStatic.body {s : Store} (hs : s.IsStatic) {k : Key} {c : StoredClause} (hc : c ∈ s.storedClauses k) :
    Goal.isStaticAll c.clause.body = true :=
  (isStatic_iff.mp hs).storedClauses hc

/-- Goals of one body, with the height of the stack when the call was entered. -/
structure Body where
  goals : List Goal
  barrier : Nat

def Choices.ofStack (cs : List Choice) : Choices := ⟨cs, cs.length⟩

namespace Search

open Resolution

def framesOf : List Body → List Frame
  | [] => []
  | body :: bodies => frames body.barrier body.goals (framesOf bodies)

/-- The height that a cut goes back to which stands so many bodies further out. -/
def barrierAt (bodies : List Body) (i : Nat) : Nat := (bodies.map (·.barrier)).getD i 0

/-- Bodies that were entered one after the other, the last of them below the given height. -/
def Nested : Nat → List Body → Prop
  | _, [] => True
  | height, body :: bodies => body.barrier ≤ height ∧ Nested body.barrier bodies

theorem Nested.mono {h h' : Nat} (hle : h ≤ h') {bodies : List Body} (hb : Nested h bodies) : Nested h' bodies := by
  cases bodies with
  | nil => trivial
  | cons body bodies => exact ⟨Nat.le_trans hb.1 hle, hb.2⟩

theorem Nested.barrierAt_le {h : Nat} {bodies : List Body} (hb : Nested h bodies) (i : Nat) :
    barrierAt bodies i ≤ h := by
  induction bodies generalizing h i with
  | nil => exact Nat.zero_le h
  | cons body bodies ih =>
    cases i with
    | zero => exact hb.1
    | succ i => exact Nat.le_trans (ih hb.2 i) hb.1

/-- What a cut back to the given height leaves of a stack. -/
def kept (height : Nat) (cs : List Choice) : List Choice := cs.drop (cs.length - height)

theorem kept_length (cs : List Choice) : kept cs.length cs = cs := by
  simp [kept]

theorem kept_cons {height : Nat} {cs : List Choice} (h : height ≤ cs.length) (c : Choice) :
    kept height (c :: cs) = kept height cs := by
  rw [kept, List.length_cons, Nat.succ_sub h, List.drop_succ_cons, kept]

theorem kept_kept {h h' : Nat} (hle : h' ≤ h) (cs : List Choice) : kept h' (kept h cs) = kept h' cs := by
  simp only [kept, List.drop_drop, List.length_drop]
  congr 1
  omega

theorem length_kept {height : Nat} {cs : List Choice} (h : height ≤ cs.length) : (kept height cs).length = height := by
  rw [kept, List.length_drop]
  omega

theorem cutTo_ofStack {height : Nat} {cs : List Choice} (h : height ≤ cs.length) :
    (Choices.ofStack cs).cutTo height = .ofStack (kept height cs) := by
  unfold Choices.ofStack Choices.cutTo
  rw [length_kept h, Nat.min_eq_left h]
  rfl

def back (cs : List Choice) (steps : Nat) : Search := ⟨none, .ofStack cs, steps, none⟩

def forward (bodies : List Body) (b : Substitution) (cs : List Choice) (steps : Nat) : Search :=
  { back cs steps with current := some ⟨framesOf bodies, b⟩ }

variable {limits : Limits} {store : Store}

def top (once : Bool) : Continuation := fun b copies => some ⟨[b], copies, if once then .cut 0 else .exhausted⟩

/-- Resolution of bodies one within the other. -/
def follow (limits : Limits) (store : Store) (m : Nat) (k : Continuation) : List Body → Continuation
  | [] => k
  | body :: bodies => fun b copies =>
    solve limits store m body.goals b copies fun b copies => (follow limits store m k bodies b copies).map .enter

theorem follow_le {n m : Nat} (h : n ≤ m) (k : Continuation) (bodies : List Body) (b : Substitution) (copies : Nat) :
    Bounded.Le (follow limits store n k bodies b copies) (follow limits store m k bodies b copies) := by
  induction bodies generalizing b copies with
  | nil => exact .refl _
  | cons body bodies ih => exact solve_le limits store h (fun b copies => (ih b copies).map _) _ _ _

/-- The run goes back to the newest choice after the answers of an outcome, and then ends as given. -/
def GoesBack (limits : Limits) (store : Store) (n : Nat) (once : Bool) (k : Nat) (cs : List Choice) (r : Outcome)
    (answers : List Substitution) (final : World × Search) : Prop :=
  ∃ j ≤ k, ∃ steps more, answers = r.answers ++ more ∧
    run limits n once j ⟨store, r.copies⟩ (back cs steps) = some (more, final)

/-- How a run goes on after the outcome of some bodies: a cut has left the choices below that body only. -/
def Leaves (limits : Limits) (store : Store) (n : Nat) (once : Bool) (k : Nat) (bodies : List Body) (cs : List Choice)
    (r : Outcome) (answers : List Substitution) (final : World × Search) : Prop :=
  match r.ending with
  | .exhausted => GoesBack limits store n once k cs r answers final
  | .cut i => GoesBack limits store n once k (kept (barrierAt bodies i) cs) r answers final
  | .limit e => answers = r.answers ∧ final.1 = ⟨store, r.copies⟩ ∧ final.2.error = some e

/-- Every run of so many turns gives the outcome of resolution first. -/
def Simulates (limits : Limits) (store : Store) (n : Nat) (once : Bool) (k : Nat) : Prop :=
  ∀ {bodies : List Body} {b : Substitution} {cs : List Choice} {steps copies : Nat} {answers : List Substitution}
    {final : World × Search}, Nested cs.length bodies → (∀ body ∈ bodies, Goal.isStaticAll body.goals = true) →
    run limits n once k ⟨store, copies⟩ (forward bodies b cs steps) = some (answers, final) →
    ∃ m r, follow limits store m (top once) bodies b copies = some r ∧
      Leaves limits store n once k bodies cs r answers final

section Leaving

variable {n k : Nat} {once : Bool} {bodies : List Body} {cs : List Choice} {r : Outcome}
  {answers : List Substitution} {final : World × Search}

theorem GoesBack.mono {j : Nat} (hjk : j ≤ k) (h : GoesBack limits store n once j cs r answers final) :
    GoesBack limits store n once k cs r answers final := by
  obtain ⟨i, hi, h⟩ := h
  exact ⟨i, Nat.le_trans hi hjk, h⟩

theorem Leaves.mono {j : Nat} (hjk : j ≤ k) (h : Leaves limits store n once j bodies cs r answers final) :
    Leaves limits store n once k bodies cs r answers final := by
  unfold Leaves at h ⊢
  split at h
  · exact h.mono hjk
  · exact h.mono hjk
  · exact h

theorem GoesBack.prepend (as : List Substitution) (h : GoesBack limits store n once k cs r answers final) :
    GoesBack limits store n once k cs { r with answers := as ++ r.answers } (as ++ answers) final := by
  obtain ⟨j, hj, steps, more, rfl, h⟩ := h
  exact ⟨j, hj, steps, more, (List.append_assoc _ _ _).symm, h⟩

theorem Leaves.prepend (as : List Substitution) (h : Leaves limits store n once k bodies cs r answers final) :
    Leaves limits store n once k bodies cs { r with answers := as ++ r.answers } (as ++ answers) final := by
  unfold Leaves at h ⊢
  dsimp only
  split at h
  · exact h.prepend as
  · exact h.prepend as
  · exact ⟨by rw [h.1], h.2⟩

theorem leaves_fails {copies steps : Nat}
    (h : run limits n once k ⟨store, copies⟩ (back cs steps) = some (answers, final)) :
    Leaves limits store n once k bodies cs (.fails copies) answers final :=
  ⟨k, Nat.le_refl k, steps, answers, rfl, h⟩

theorem Leaves.enter (body : Body) (h : Leaves limits store n once k bodies cs r answers final) :
    Leaves limits store n once k (body :: bodies) cs r.enter answers final := by
  obtain ⟨as, copies, ending⟩ := r
  cases ending <;> exact h

theorem Leaves.leave {goals : List Goal}
    (h : Leaves limits store n once k (⟨goals, cs.length⟩ :: bodies) cs r answers final) :
    Leaves limits store n once k bodies cs r.leave answers final := by
  obtain ⟨as, copies, ending⟩ := r
  cases ending with
  | exhausted => exact h
  | limit e => exact h
  | cut i =>
    cases i with
    | zero =>
      have h : GoesBack limits store n once k (kept cs.length cs) _ answers final := h
      rw [kept_length] at h
      exact h
    | succ i => exact h

theorem Leaves.commit {body : Body} (hb : Nested cs.length (body :: bodies))
    (h : Leaves limits store n once k (body :: bodies) (kept body.barrier cs) r answers final) :
    Leaves limits store n once k (body :: bodies) cs r.commit answers final := by
  obtain ⟨as, copies, ending⟩ := r
  cases ending with
  | exhausted => exact h
  | limit e => exact h
  | cut i =>
    have hb₁ : Nested body.barrier (body :: bodies) := ⟨Nat.le_refl _, hb.2⟩
    have hi := hb₁.barrierAt_le i
    have h : GoesBack limits store n once k (kept (barrierAt (body :: bodies) i) (kept body.barrier cs)) _
      answers final := h
    rw [kept_kept hi] at h
    exact h

/-- The first of several alternatives has run above the others. If they are all that is above the choices below, the
outcome is that of all of them. -/
theorem Leaves.orElse {cs₁ : List Choice} (next : Nat → Nat → Bounded Outcome)
    (h : Leaves limits store n once k bodies cs₁ r answers final)
    (hcut : ∀ i, kept (barrierAt bodies i) cs₁ = kept (barrierAt bodies i) cs)
    (hnext : ∀ j ≤ k, ∀ steps more, run limits n once j ⟨store, r.copies⟩ (back cs₁ steps) = some (more, final) →
      ∃ m q, next m r.copies = some q ∧ Leaves limits store n once j bodies cs q more final) :
    ∃ m q, r.orElse (next m) = some q ∧ Leaves limits store n once k bodies cs q answers final := by
  unfold Leaves at h
  unfold Outcome.orElse
  split at h
  · next he =>
    obtain ⟨j, hj, steps, more, rfl, hrun⟩ := h
    obtain ⟨m, q, hq, hl⟩ := hnext j hj steps more hrun
    exact ⟨m, _, by rw [he, hq]; rfl, (hl.mono hj).prepend r.answers⟩
  · next i he =>
    rw [hcut i] at h
    refine ⟨0, r, by rw [he], ?_⟩
    unfold Leaves
    rw [he]
    exact h
  · next e he =>
    refine ⟨0, r, by rw [he], ?_⟩
    unfold Leaves
    rw [he]
    exact h

end Leaving

end Search
end BilingualLogic
