import BilingualLogic.Proofs.Search.Bodies
import BilingualLogic.Proofs.Search.Moments

/-!
Searches that assert and retract nothing. They leave the clauses as they are; and a search does so if neither its goals
nor the bodies of the clauses have a goal that asserts or retracts.
-/

namespace BilingualLogic

/-- Whether the goal adds or removes clauses. -/
def Goal.isEdit : Goal → Bool
  | assert _ _ => true
  | retract _ _ => true
  | _ => false

theorem Store.isStatic_empty : (∅ : Store).IsStatic := isStatic_iff.mpr all_empty

theorem Store.IsStatic.add {s : Store} (h : s.IsStatic) {c : Clause} (hc : Goal.isStaticAll c.body = true) :
    (s.add c).IsStatic :=
  isStatic_iff.mpr ((isStatic_iff.mp h).add hc)

namespace Search

variable {limits : Limits} {n : Nat} {w w' : World} {s s' : Search}

/-- Pulling from here asserts or retracts a clause, in a turn of the search itself or of one that is nested in it. A
search that is pulled to its end goes on after its answers. -/
inductive Edits (limits : Limits) : Bool → World → Search → Prop
  | here {toEnd : Bool} {w : World} {s : Search} {f : Frame} {rest : List Frame} {b : Substitution} :
    s.error = none → s.current = some ⟨f :: rest, b⟩ → excess limits (s.steps + 1) = none → f.goal.isEdit = true →
      Edits limits toEnd w s
  | negation {toEnd : Bool} {barrier : Nat} {w : World} {s : Search} {goals : List Goal} {rest : List Frame}
    {b : Substitution} :
    s.error = none → s.current = some ⟨⟨.not goals, barrier⟩ :: rest, b⟩ → excess limits (s.steps + 1) = none →
      Edits limits false w (start goals b (s.steps + 1)) → Edits limits toEnd w s
  | collection {toEnd : Bool} {barrier : Nat} {w : World} {s : Search} {kind : Collection} {t r : Term}
    {goals : List Goal} {rest : List Frame} {b : Substitution} :
    s.error = none → s.current = some ⟨⟨.collect kind t goals r, barrier⟩ :: rest, b⟩ →
      excess limits (s.steps + 1) = none → Edits limits true w (start goals b (s.steps + 1)) → Edits limits toEnd w s
  | later {toEnd : Bool} {n : Nat} {w w' : World} {s s' : Search} :
    turn limits n w s = some (.goes w' s') → Edits limits toEnd w' s' → Edits limits toEnd w s
  | resumed {n : Nat} {w w' : World} {s s' : Search} {answer : Option Substitution} :
    turn limits n w s = some (.stops answer w' s') → Edits limits true w' s' → Edits limits true w s

theorem Edits.toEnd {toEnd : Bool} (h : Edits limits toEnd w s) : Edits limits true w s := by
  induction h with
  | here he hc hx hf => exact .here he hc hx hf
  | negation he hc hx h _ => exact .negation he hc hx h
  | collection he hc hx h _ => exact .collection he hc hx h
  | later ht _ ih => exact .later ht ih
  | resumed ht _ ih => exact .resumed ht ih

theorem Edits.of_pull {answer : Option Substitution} (hn : next limits n w s = some (answer, w', s'))
    (h : Edits limits true w' s') : Edits limits true w s := by
  induction n generalizing w s with
  | zero => cases hn
  | succ n ih =>
    rw [next_succ] at hn
    obtain ⟨t, ht, hn⟩ := Option.bind_eq_some_iff.mp hn
    cases t with
    | goes w₁ s₁ => exact .later ht (ih hn)
    | stops answer w₁ s₁ =>
      cases hn
      exact .resumed ht h

section Store

theorem callClauses_store {p : Predicate} {fs : List Frame} {b : Substitution}
    (h : callClauses n w s p fs b = some (w', s')) : w'.store = w.store := by
  rw [callClauses_eq] at h
  obtain ⟨_, _, h⟩ := Option.map_eq_some_iff.mp h
  cases h
  rfl

theorem call_store {p : Predicate} {barrier : Nat} {fs : List Frame} {b : Substitution}
    (h : call limits n w s p barrier fs b = some (w', s')) : w'.store = w.store := by
  unfold call at h
  split at h
  case h_4 | h_5 | h_6 =>
    obtain ⟨_, _, h⟩ := Option.map_eq_some_iff.mp h
    cases h
    rfl
  case h_7 =>
    obtain ⟨r, _, h⟩ := Option.map_eq_some_iff.mp h
    cases r <;> cases h <;> rfl
  case h_8 => exact callClauses_store h
  all_goals
    cases h
    rfl

theorem simpleStep_store {f : Frame} {fs : List Frame} {b : Substitution} (hf : f.goal.isEdit = false)
    (h : simpleStep limits n w s f fs b = some (w', s')) : w'.store = w.store := by
  obtain ⟨g, barrier⟩ := f
  cases g with
  | call p => exact call_store h
  | unify _ _ | is _ _ =>
    obtain ⟨r, _, h⟩ := Option.map_eq_some_iff.mp h
    cases r <;> cases h <;> rfl
  | assert _ _ | retract _ _ => cases hf
  | _ =>
    cases h
    rfl

/-- Pulls that edit nothing leave the clauses as they are. -/
structure PullsLeaveStore (limits : Limits) (n : Nat) : Prop where
  next {w w' : World} {s s' : Search} {answer : Option Substitution} : ¬ Edits limits false w s →
    next limits n w s = some (answer, w', s') → w'.store = w.store
  gather {w w' : World} {s s' : Search} {t : Term} {done ts : List Term} : ¬ Edits limits true w s →
    gather limits n w s t done = some (ts, w', s') → w'.store = w.store

theorem turn_store (hn : PullsLeaveStore limits n) {toEnd : Bool} (he : ¬ Edits limits toEnd w s) {t : Turn}
    (ht : turn limits n w s = some t) : t.world.store = w.store := by
  unfold turn at ht
  split at ht
  · cases ht
    rfl
  · next herror =>
    have herror : s.error = none := by simpa using herror
    split at ht
    · obtain ⟨⟨m, found⟩, _, ht⟩ := Option.map_eq_some_iff.mp ht
      cases found <;> cases ht <;> rfl
    · cases ht
      rfl
    · next f fs b hcurrent =>
      split at ht
      · cases ht
        rfl
      · next hx =>
        obtain ⟨g, barrier⟩ := f
        unfold goalTurn at ht
        split at ht
        · next goals hgoal =>
          obtain rfl : g = .not goals := hgoal
          obtain ⟨⟨answer, w₁, inner⟩, hi, ht⟩ := Option.map_eq_some_iff.mp ht
          have hstore := hn.next (fun h => he (.negation herror hcurrent hx h)) hi
          dsimp only at ht
          split at ht <;> cases ht <;> exact hstore
        · next kind template goals result hgoal =>
          obtain rfl : g = .collect kind template goals result := hgoal
          obtain ⟨⟨terms, w₁, inner⟩, hi, ht⟩ := Option.bind_eq_some_iff.mp ht
          have hstore := hn.gather (fun h => he (.collection herror hcurrent hx h)) hi
          dsimp only at ht
          split at ht
          · cases ht
            exact hstore
          · obtain ⟨r, _, ht⟩ := Option.map_eq_some_iff.mp ht
            cases r <;> cases ht <;> exact hstore
        · obtain ⟨⟨w₁, s₁⟩, hstep, ht⟩ := Option.map_eq_some_iff.mp ht
          cases ht
          refine simpleStep_store ?_ hstep
          rw [← Bool.not_eq_true]
          exact fun hedit => he (.here herror hcurrent hx hedit)

theorem pulls_leave_store (limits : Limits) (n : Nat) : PullsLeaveStore limits n := by
  induction n with
  | zero =>
    constructor
    · intro _ _ _ _ _ _ hn
      cases hn
    · intro _ _ _ _ _ _ _ _ hg
      cases hg
  | succ n ih =>
    constructor
    · intro w w' s s' answer he hn
      rw [next_succ] at hn
      obtain ⟨t, ht, hn⟩ := Option.bind_eq_some_iff.mp hn
      have hstore := turn_store ih he ht
      cases t with
      | goes w₁ s₁ => exact (ih.next (fun h => he (.later ht h)) hn).trans hstore
      | stops answer w₁ s₁ =>
        cases hn
        exact hstore
    · intro w w' s s' t done ts he hg
      rw [gather_succ] at hg
      obtain ⟨⟨answer, w₁, s₁⟩, hn, hg⟩ := Option.bind_eq_some_iff.mp hg
      have hstore := ih.next (fun h => he h.toEnd) hn
      cases answer with
      | none =>
        cases hg
        exact hstore
      | some b => exact (ih.gather (fun h => he (h.of_pull hn)) hg).trans hstore

theorem next_store {answer : Option Substitution} (he : ¬ Edits limits false w s)
    (hn : next limits n w s = some (answer, w', s')) : w'.store = w.store :=
  (pulls_leave_store limits n).next he hn

end Store

section Static

theorem isStatic_of_mem {goals : List Goal} (h : Goal.isStaticAll goals = true) : ∀ g ∈ goals, g.isStatic = true := by
  induction goals with
  | nil => simp
  | cons g gs ih =>
    rw [Goal.isStaticAll, Bool.and_eq_true] at h
    exact List.forall_mem_cons.mpr ⟨h.1, ih h.2⟩

theorem static_start {goals : List Goal} (h : Goal.isStaticAll goals = true) (b : Substitution) (steps : Nat) :
    (start goals b steps).Has (·.isStatic = true) :=
  has_start (isStatic_of_mem h) b steps

/-- Without assertions and retractions the clauses stay, and none is left to prove either. -/
theorem lasting_static {store : Store} (h : store.IsStatic) : Lasting (· = store) (·.isStatic = true) where
  assert _ _ hg := by cases hg
  retractHead _ hg _ := by cases hg
  retractClause _ _ hg := by cases hg
  copy m hs hc :=
    isStatic_of_mem ((Goal.isStaticAll_mapTerms _ _).trans (Store.IsStatic.body (hs.symm ▸ h) hc))
  inner {g goals} hg hi := by
    cases g with
    | not _ | collect _ _ _ _ =>
      cases hi
      exact isStatic_of_mem hg
    | _ => cases hi

theorem isEdit_of_isStatic {g : Goal} (h : g.isStatic = true) : g.isEdit = false := by
  cases g <;> first | rfl | cases h

theorem Has.not_edits (hs : s.Has (·.isStatic = true)) (hstore : w.store.IsStatic) {toEnd : Bool} :
    ¬ Edits limits toEnd w s := by
  have hl := lasting_static hstore
  have started {barrier : Nat} {g : Goal} {goals : List Goal} {rest : List Frame} {b : Substitution} {s : Search}
      (hs : s.Has (·.isStatic = true)) (hc : s.current = some ⟨⟨g, barrier⟩ :: rest, b⟩) (hg : g.inner? = some goals) :
      (start goals b (s.steps + 1)).Has (·.isStatic = true) :=
    has_start (hl.inner (hs.current _ hc _ (List.mem_cons_self ..)) hg) _ _
  intro h
  generalize hw : w.store = store at hl
  clear hstore
  induction h with
  | here _ hc _ hf =>
    have hgoal := hs.current _ hc _ (List.mem_cons_self ..)
    rw [isEdit_of_isStatic hgoal] at hf
    cases hf
  | negation _ hc _ _ ih => exact ih (started hs hc rfl) hw
  | collection _ hc _ _ ih => exact ih (started hs hc rfl) hw
  | later ht _ ih =>
    obtain ⟨hw', hs'⟩ := hl.turn hw hs ht
    exact ih hs' hw'
  | resumed ht _ ih =>
    obtain ⟨hw', hs'⟩ := hl.turn hw hs ht
    exact ih hs' hw'

end Static

end Search
end BilingualLogic
