import BilingualLogic.Proofs.Definite.Derivation
import BilingualLogic.Proofs.Names.Reachable
import BilingualLogic.Proofs.Search.Moments

/-!
The moments of loading sources one after the other: between two statements, and before every turn of the searches that
the queries and directives start. What the clauses of the programs and all goals have, and no step loses, holds at all of
them.
-/

namespace BilingualLogic

namespace Search.Lasting

variable {I : Store → Prop} {Q : Goal → Prop} {limits : Limits} {n : Nat} {w w' : World} {q q' : Query}

theorem nextSolution (hl : Lasting I Q) (hstore : I w.store) (hq : q.search.Has Q) {answer : Option Solution}
    (h : q.next limits n w = some (answer, w', q')) : I w'.store ∧ q'.search.Has Q := by
  obtain ⟨⟨found, w₁, s⟩, hn, heq⟩ := Option.map_eq_some_iff.mp h
  cases heq
  exact (hl.pulls limits n).next hstore hq hn

theorem take (hl : Lasting I Q) (hstore : I w.store) (hq : q.search.Has Q) {k : Nat} {done solutions : List Solution}
    (h : q.take limits n done k w = some (solutions, w', q')) : I w'.store := by
  induction k generalizing w q done with
  | zero =>
    cases h
    exact hstore
  | succ k ih =>
    rw [Query.take] at h
    split at h
    · cases h
    · next hn =>
      cases h
      exact (hl.nextSolution hstore hq hn).1
    · next hn =>
      obtain ⟨hw₁, hq₁⟩ := hl.nextSolution hstore hq hn
      exact ih hw₁ hq₁ h

theorem collect (hl : Lasting I Q) (hstore : I w.store) (hq : q.search.Has Q)
    {solutions : Except Error (List Solution)} (h : q.collect limits n w = some (solutions, w')) : I w'.store := by
  obtain ⟨⟨found, w₁, q₁⟩, hall, heq⟩ := Option.map_eq_some_iff.mp h
  have hworld : w₁ = w' := by
    dsimp only at heq
    split at heq <;> cases heq <;> rfl
  subst hworld
  rw [Query.all] at hall
  split at hall
  · cases hall
  · next htake =>
    split at hall
    · cases hall
      exact hl.take hstore hq htake
    · cases hall

end Search.Lasting

/-- Statements whose clauses stores may be given and whose goals have the property. -/
def StatementForm.Keeps (I : Store → Prop) (Q : Goal → Prop) : StatementForm → Prop
  | .fact head => ∀ s, I s → I (s.add ⟨head, []⟩)
  | .rule head body => ∀ s, I s → I (s.add ⟨head, body⟩)
  | .query goals => ∀ g ∈ goals, Q g
  | .directive g => Q g

namespace Session

/-- Carrying out the statements comes to the world, and to the search if a query or a directive is being proved. -/
inductive Visits (code : String) : Session → List Statement → World → Option Search → Prop
  | between {s : Session} {sts : List Statement} : Visits code s sts s.world none
  | query {s : Session} {st : Statement} {rest : List Statement} {goals : List Goal} {w : World} {q : Search} :
    st.form = .query goals → Search.Visits s.limits true s.world (.start goals ∅ 0) w q →
      Visits code s (st :: rest) w (some q)
  | directive {s : Session} {st : Statement} {rest : List Statement} {g : Goal} {w : World} {q : Search} :
    st.form = .directive g → Search.Visits s.limits false s.world (.start [g] ∅ 0) w q →
      Visits code s (st :: rest) w (some q)
  | later {n : Nat} {s s₁ : Session} {r r₁ : Response} {st : Statement} {rest : List Statement} {w : World}
    {q : Option Search} : execute n code s r st = some (s₁, r₁) → Visits code s₁ rest w q →
      Visits code s (st :: rest) w q

/-- The session while the source is loaded. -/
def loading (s : Session) (id code : String) : Session := { s with sources := recordSource id code s.sources }

/-- The source is accepted, with the program that is read from it and the warnings that it gets. -/
structure Accepts (s : Session) (id code : String) (p : Program) (warnings : List Warning) : Prop where
  parsed : Program.parse s.limits id code = .ok p
  checked : p.check s.store = .ok warnings

/-- The sessions that loading sources leads to. A source that is rejected leaves the session as it was. -/
inductive Loaded (limits : Limits) : Session → Prop
  | start : Loaded limits (start limits)
  | load {n : Nat} {s s' : Session} {id code : String} {r : Response} : Loaded limits s →
    s.load n id code = some (.ok (s', r)) → Loaded limits s'

/-- The moments of loading sources one after the other, from no clauses on. -/
inductive Moment (limits : Limits) : World → Option Search → Prop
  | between {s : Session} : Loaded limits s → Moment limits s.world none
  | during {s : Session} {id code : String} {p : Program} {warnings : List Warning} {w : World} {q : Option Search} :
    Loaded limits s → s.Accepts id code p warnings → (s.loading id code).Visits code p.statements w q →
      Moment limits w q

variable {limits : Limits} {n : Nat} {s s' : Session} {id code : String} {r r' : Response} {p : Program}
  {warnings : List Warning}

theorem visits_of_executeAll {sts : List Statement} (h : executeAll n code s r sts = some (s', r')) :
    s.Visits code sts s'.world none := by
  induction sts generalizing s r with
  | nil =>
    cases h
    exact .between
  | cons st sts ih =>
    rw [executeAll] at h
    split at h
    · cases h
    · next hst => exact .later hst (ih h)

theorem warnings_of_execute {st : Statement} (h : execute n code s r st = some (s', r')) :
    s'.limits = s.limits ∧ r'.warnings = r.warnings := by
  unfold execute at h
  dsimp only at h
  split at h
  · cases h
    exact ⟨rfl, rfl⟩
  · cases h
    exact ⟨rfl, rfl⟩
  · obtain ⟨_, -, h⟩ := Option.map_eq_some_iff.mp h
    cases h
    exact ⟨rfl, rfl⟩
  · obtain ⟨_, -, h⟩ := Option.map_eq_some_iff.mp h
    cases h
    exact ⟨rfl, rfl⟩

theorem warnings_of_executeAll {sts : List Statement} (h : executeAll n code s r sts = some (s', r')) :
    s'.limits = s.limits ∧ r'.warnings = r.warnings := by
  induction sts generalizing s r with
  | nil =>
    cases h
    exact ⟨rfl, rfl⟩
  | cons st sts ih =>
    rw [executeAll] at h
    split at h
    · cases h
    · next hst =>
      obtain ⟨hlimits, hwarnings⟩ := warnings_of_execute hst
      obtain ⟨hlimits', hwarnings'⟩ := ih h
      exact ⟨hlimits'.trans hlimits, hwarnings'.trans hwarnings⟩

/-- What loading gives back is what the last of its moments has. -/
theorem accepts_of_load (h : s.load n id code = some (.ok (s', r))) : ∃ p, s.Accepts id code p r.warnings ∧
    s'.limits = s.limits ∧ (s.loading id code).Visits code p.statements s'.world none := by
  unfold load at h
  split at h
  · cases h
  · next p hp =>
    split at h
    · cases h
    · next warnings hwarnings =>
      obtain ⟨_, he, h⟩ := Option.map_eq_some_iff.mp h
      cases h
      obtain ⟨hlimits, heq⟩ := warnings_of_executeAll he
      exact ⟨p, ⟨hp, heq ▸ hwarnings⟩, hlimits, visits_of_executeAll he⟩

section Lasting

open Search

variable {I : Store → Prop} {Q : Goal → Prop}

theorem execute_keeps (hl : Lasting I Q) {st : Statement} (hst : st.form.Keeps I Q) (hs : I s.store)
    (h : execute n code s r st = some (s', r')) : I s'.store := by
  unfold execute at h
  dsimp only at h
  split at h
  · next head hform =>
    cases h
    rw [hform] at hst
    exact hst _ hs
  · next head body hform =>
    cases h
    rw [hform] at hst
    exact hst _ hs
  · next goals hform =>
    obtain ⟨⟨answer, w⟩, hc, h⟩ := Option.map_eq_some_iff.mp h
    cases h
    rw [hform] at hst
    exact hl.collect hs (has_start hst ∅ 0) hc
  · next g hform =>
    obtain ⟨⟨answer, w, q⟩, hn, h⟩ := Option.map_eq_some_iff.mp h
    cases h
    rw [hform] at hst
    exact (hl.nextSolution hs (has_start (List.forall_mem_singleton.mpr hst) ∅ 0) hn).1

/-- What the statements keep holds at every moment of carrying them out. -/
theorem Visits.keeps (hl : Lasting I Q) {sts : List Statement} {w : World} {q : Option Search}
    (hv : s.Visits code sts w q) (hsts : ∀ st ∈ sts, st.form.Keeps I Q) (hs : I s.store) :
    I w.store ∧ ∀ search, q = some search → search.Has Q := by
  induction hv with
  | between => exact ⟨hs, by simp⟩
  | query hform hv =>
    have hst := (List.forall_mem_cons.mp hsts).1
    rw [hform] at hst
    obtain ⟨hw, hq⟩ := hl.visits hv hs (has_start hst ∅ 0)
    exact ⟨hw, by rintro _ ⟨⟩; exact hq⟩
  | directive hform hv =>
    have hst := (List.forall_mem_cons.mp hsts).1
    rw [hform] at hst
    obtain ⟨hw, hq⟩ := hl.visits hv hs (has_start (List.forall_mem_singleton.mpr hst) ∅ 0)
    exact ⟨hw, by rintro _ ⟨⟩; exact hq⟩
  | later hst _ ih =>
    obtain ⟨hfirst, hrest⟩ := List.forall_mem_cons.mp hsts
    exact ih hrest (execute_keeps hl hfirst hs hst)

theorem keeps_built (form : StatementForm) : form.Keeps Store.Built fun _ => True := by
  cases form with
  | fact head => exact fun s hs => hs.add _
  | rule head body => exact fun s hs => hs.add _
  | query goals => exact fun _ _ => trivial
  | directive g => trivial

theorem Loaded.built (h : Loaded limits s) : s.store.Built := by
  induction h with
  | start => exact .empty
  | load _ hload ih =>
    obtain ⟨p, -, -, hv⟩ := accepts_of_load hload
    exact (hv.keeps lasting_built (fun st _ => keeps_built st.form) ih).1

theorem Moment.built {w : World} {q : Option Search} (h : Moment limits w q) : w.store.Built := by
  cases h with
  | between hs => exact hs.built
  | during hs _ hv => exact (hv.keeps lasting_built (fun st _ => keeps_built st.form) hs.built).1

end Lasting

end Session

end BilingualLogic
