import BilingualLogic.Proofs.Names.Reading
import BilingualLogic.Proofs.Names.Steps
import BilingualLogic.Proofs.Search.Moments
import BilingualLogic.Session

/-!
The moments of a session in which all clauses and queries are read from texts: the world and the searches that are
open. Names with numbers that were not counted yet stand nowhere at any of them.
-/

namespace BilingualLogic

/-- The worlds and open searches that loading texts and asking queries leads to, turn by turn. While a search that a
goal needs is run inside another, or a search waits for its next pull, the others stay open. -/
inductive Reachable (limits : Limits) : World → List Search → Prop
  | start : Reachable limits ⟨∅, 0⟩ []
  | fact {w : World} {ss : List Search} {source text : String} {p : Program} {st : Statement} {head : Predicate} :
    Reachable limits w ss → Program.parse limits source text = .ok p → st ∈ p.statements → st.form = .fact head →
    Reachable limits { w with store := w.store.add ⟨head, []⟩ } ss
  | rule {w : World} {ss : List Search} {source text : String} {p : Program} {st : Statement} {head : Predicate}
    {body : List Goal} : Reachable limits w ss → Program.parse limits source text = .ok p → st ∈ p.statements →
    st.form = .rule head body → Reachable limits { w with store := w.store.add ⟨head, body⟩ } ss
  | query {w : World} {ss : List Search} {source text : String} {p : Program} {st : Statement} {goals : List Goal} :
    Reachable limits w ss → Program.parse limits source text = .ok p → st ∈ p.statements → st.form = .query goals →
    Reachable limits w (.start goals ∅ 0 :: ss)
  | directive {w : World} {ss : List Search} {source text : String} {p : Program} {st : Statement} {g : Goal} :
    Reachable limits w ss → Program.parse limits source text = .ok p → st ∈ p.statements → st.form = .directive g →
    Reachable limits w (.start [g] ∅ 0 :: ss)
  | ask {w : World} {ss : List Search} {text : String} {goals : List Goal} : Reachable limits w ss →
    Goal.parseQuery text = .ok goals → Reachable limits w (.start goals ∅ 0 :: ss)
  | goes {w w' : World} {l r : List Search} {s s' : Search} {n : Nat} :
    Reachable limits w (l ++ s :: r) → Search.turn limits n w s = some (.goes w' s') →
    Reachable limits w' (l ++ s' :: r)
  | stops {w w' : World} {l r : List Search} {s s' : Search} {n : Nat} {answer : Option Substitution} :
    Reachable limits w (l ++ s :: r) → Search.turn limits n w s = some (.stops answer w' s') →
    Reachable limits w' (l ++ s' :: r)
  | inside {w : World} {ss : List Search} {s : Search} {f : Frame} {rest : List Frame} {b : Substitution}
    {goals : List Goal} : Reachable limits w ss → s ∈ ss → s.current = some ⟨f :: rest, b⟩ →
    f.goal.inner? = some goals → Reachable limits w (.start goals b (s.steps + 1) :: ss)
  | closed {w : World} {l r : List Search} {s : Search} : Reachable limits w (l ++ s :: r) →
    Reachable limits w (l ++ r)

namespace Reachable

open Search

variable {limits : Limits} {w w' : World} {ss l r : List Search} {s s' : Search} {n : Nat}

theorem next {answer : Option Substitution} (h : Reachable limits w (l ++ s :: r))
    (hn : Search.next limits n w s = some (answer, w', s')) : Reachable limits w' (l ++ s' :: r) := by
  induction n generalizing w s with
  | zero => cases hn
  | succ n ih =>
    rw [next_succ] at hn
    obtain ⟨t, ht, hn⟩ := Option.bind_eq_some_iff.mp hn
    cases t with
    | goes w₁ s₁ => exact ih (h.goes ht) hn
    | stops answer w₁ s₁ =>
      cases hn
      exact h.stops ht

theorem pull {q q' : Query} {answer : Option Solution} (h : Reachable limits w (q.search :: ss))
    (hn : q.next limits n w = some (answer, w', q')) : Reachable limits w' (q'.search :: ss) := by
  obtain ⟨⟨found, w₁, search⟩, hsearch, heq⟩ := Option.map_eq_some_iff.mp hn
  simp only [Prod.mk.injEq] at heq
  obtain ⟨-, rfl, rfl⟩ := heq
  exact h.next (l := []) hsearch

theorem take {q q' : Query} {k : Nat} {done solutions : List Solution} (h : Reachable limits w (q.search :: ss))
    (ht : Query.take limits n done k w q = some (solutions, w', q')) : Reachable limits w' (q'.search :: ss) := by
  induction k generalizing w q done with
  | zero =>
    cases ht
    exact h
  | succ k ih =>
    rw [Query.take] at ht
    split at ht
    · cases ht
    · next w₁ q₁ hn =>
      cases ht
      exact h.pull hn
    · next s w₁ q₁ hn => exact ih (h.pull hn) ht

theorem collect {q : Query} {solutions : Except Error (List Solution)} (h : Reachable limits w (q.search :: ss))
    (hc : q.collect limits n w = some (solutions, w')) : Reachable limits w' ss := by
  obtain ⟨⟨found, w₁, q₁⟩, hall, heq⟩ := Option.map_eq_some_iff.mp hc
  rw [Query.all] at hall
  split at hall
  · cases hall
  · next ht =>
    split at hall
    · cases hall
      have hclosed := (h.take ht).closed (l := [])
      dsimp only at heq
      split at heq <;> cases heq <;> exact hclosed
    · cases hall

section Loading

variable {session session' : Session} {source text : String} {p : Program} {out out' : Response}

theorem execute {st : Statement} (hl : session.limits = limits) (h : Reachable limits session.world ss)
    (hp : Program.parse limits source text = .ok p) (hst : st ∈ p.statements)
    (he : session.execute n text out st = some (session', out')) :
    session'.limits = limits ∧ Reachable limits session'.world ss := by
  subst hl
  unfold Session.execute at he
  dsimp only at he
  split at he
  · next head hform =>
    cases he
    exact ⟨rfl, h.fact hp hst hform⟩
  · next head body hform =>
    cases he
    exact ⟨rfl, h.rule hp hst hform⟩
  · next goals hform =>
    obtain ⟨⟨answer, w₁⟩, hc, he⟩ := Option.map_eq_some_iff.mp he
    cases he
    exact ⟨rfl, (h.query hp hst hform).collect hc⟩
  · next goal hform =>
    obtain ⟨⟨answer, w₁, q⟩, hn, he⟩ := Option.map_eq_some_iff.mp he
    cases he
    exact ⟨rfl, ((h.directive hp hst hform).pull hn).closed (l := [])⟩

theorem executeAll {sts : List Statement} (hl : session.limits = limits) (h : Reachable limits session.world ss)
    (hp : Program.parse limits source text = .ok p) (hsts : ∀ st ∈ sts, st ∈ p.statements)
    (he : Session.executeAll n text session out sts = some (session', out')) : Reachable limits session'.world ss := by
  induction sts generalizing session out with
  | nil =>
    cases he
    exact h
  | cons st sts ih =>
    rw [Session.executeAll] at he
    split at he
    · cases he
    · next session₁ out₁ hst =>
      obtain ⟨hl₁, h₁⟩ := h.execute hl hp (hsts st (by simp)) hst
      exact ih hl₁ h₁ (fun st hst => hsts st (by simp [hst])) he

theorem load {id : String} (hl : session.limits = limits) (h : Reachable limits session.world ss)
    (hload : session.load n id text = some (.ok (session', out))) : Reachable limits session'.world ss := by
  subst hl
  unfold Session.load at hload
  split at hload
  · cases hload
  · next p hp =>
    split at hload
    · cases hload
    · obtain ⟨_, he, hload⟩ := Option.map_eq_some_iff.mp hload
      cases hload
      refine executeAll ?_ ?_ hp (fun st hst => hst) he
      · rfl
      · exact h

end Loading

theorem form_plain {source text : String} {p : Program} {st : Statement} {form : StatementForm}
    (hp : Program.parse limits source text = .ok p) (hst : st ∈ p.statements) (hform : st.form = form) :
    form.VarsIn Plain :=
  hform ▸ Program.plain_of_parse hp st hst

theorem plain_notAhead (n : Nat) (x : String) (h : Plain x) : NotAhead n x := notAhead_of_notMem h

theorem asked_varsIn {n : Nat} {goals : List Goal} (hgoals : ∀ g ∈ goals, g.VarsIn Plain)
    (hss : ∀ s ∈ ss, s.VarsIn (NotAhead n)) : ∀ s ∈ Search.start goals ∅ 0 :: ss, s.VarsIn (NotAhead n) :=
  List.forall_mem_cons.mpr
    ⟨varsIn_start (fun g hg => (hgoals g hg).mono (plain_notAhead n)) Substitution.varsIn_empty 0, hss⟩

/-- A turn counts up, which keeps the names of the other searches in use. -/
theorem turned_varsIn (hk : Keeps NotAhead w w' s')
    (hss : ∀ t ∈ l ++ s :: r, t.VarsIn (NotAhead w.copies)) :
    ∀ t ∈ l ++ s' :: r, t.VarsIn (NotAhead w'.copies) := by
  intro t ht
  rcases List.mem_append.mp ht with ht | ht
  · exact (hss t (by simp [ht])).mono fun x => naming_notAhead.mono hk.copies
  · rcases List.mem_cons.mp ht with rfl | ht
    · exact hk.settled.search
    · exact (hss t (by simp [ht])).mono fun x => naming_notAhead.mono hk.copies

theorem settled (h : Reachable limits w ss) :
    w.store.VarsIn (NotAhead w.copies) ∧ ∀ s ∈ ss, s.VarsIn (NotAhead w.copies) := by
  induction h with
  | start => exact ⟨Store.varsIn_empty, by simp⟩
  | fact _ hp hst hform ih =>
    have hhead : Predicate.VarsIn Plain _ := form_plain hp hst hform
    exact ⟨ih.1.add ⟨hhead.mono (plain_notAhead _), by simp⟩, ih.2⟩
  | rule _ hp hst hform ih =>
    obtain ⟨hhead, hbody⟩ := form_plain hp hst hform
    exact ⟨ih.1.add ⟨hhead.mono (plain_notAhead _), fun g hg => (hbody g hg).mono (plain_notAhead _)⟩, ih.2⟩
  | query _ hp hst hform ih => exact ⟨ih.1, asked_varsIn (form_plain hp hst hform) ih.2⟩
  | directive _ hp hst hform ih =>
    have hgoal : Goal.VarsIn Plain _ := form_plain hp hst hform
    exact ⟨ih.1, asked_varsIn (List.forall_mem_singleton.mpr hgoal) ih.2⟩
  | ask _ hp ih => exact ⟨ih.1, asked_varsIn (Goal.plain_of_parseQuery hp) ih.2⟩
  | goes _ ht ih =>
    have hk := turn_keeps naming_notAhead ⟨ih.1, ih.2 _ (by simp)⟩ ht
    exact ⟨hk.settled.store, turned_varsIn hk ih.2⟩
  | stops _ ht ih =>
    obtain ⟨hk, -⟩ := turn_keeps naming_notAhead ⟨ih.1, ih.2 _ (by simp)⟩ ht
    exact ⟨hk.settled.store, turned_varsIn hk ih.2⟩
  | @inside w ss s f rest b goals _ hs hcurrent hinner ih =>
    have hb := (ih.2 s hs).current _ hcurrent
    have hf := hb.goals f (by simp)
    refine ⟨ih.1, List.forall_mem_cons.mpr ⟨varsIn_start ?_ hb.bindings _, ih.2⟩⟩
    obtain ⟨g, barrier⟩ := f
    cases hf with
    | not hgoals =>
      cases hinner
      exact hgoals
    | collect _ hgoals _ =>
      cases hinner
      exact hgoals
    | _ => cases hinner
  | @closed w l r s _ ih =>
    have hsub : l ++ r ⊆ l ++ s :: r := by simp
    exact ⟨ih.1, fun t ht => ih.2 t (hsub ht)⟩

/-- The names that a copy of a clause or a new list gets, whatever number it is given of those that were not counted
yet, stand nowhere: not in a search that is open, not in its goals, its bindings or what it has not tried yet, and not
in a clause of the store. No other number or name makes the same name, so no two copies share a variable. -/
theorem fresh (h : Reachable limits w ss) {m : Nat} (hm : w.copies ≤ m) (x : String) :
    (∀ s ∈ ss, s.VarsIn (· ≠ Clause.renamed m x)) ∧ w.store.VarsIn (· ≠ Clause.renamed m x) ∧
      ∀ k y, Clause.renamed k y = Clause.renamed m x → k = m ∧ y = x := by
  obtain ⟨hstore, hss⟩ := h.settled
  have hne (y : String) (hy : NotAhead w.copies y) : y ≠ Clause.renamed m x := by
    rintro rfl
    exact Nat.lt_irrefl m (Nat.lt_of_lt_of_le (hy m x rfl) hm)
  exact ⟨fun s hs => (hss s hs).mono hne, hstore.mono hne, fun k y => Clause.renamed_inj⟩

/-- A list of two new variables has been made. -/
theorem fresh_list : ∃ w s, Reachable {} w [s] ∧ w.copies = 1 ∧
    (∀ t ∈ [s], t.VarsIn (· ≠ Clause.renamed 1 "_L0")) ∧ w.store.VarsIn (· ≠ Clause.renamed 1 "_L0") ∧
      ∀ k y, Clause.renamed k y = Clause.renamed 1 "_L0" → k = 1 ∧ y = "_L0" := by
  have hturn : (Goal.parseQuery "length(?X, 2)").toOption.any (fun goals =>
      (turn {} 9 ⟨∅, 0⟩ (.start goals ∅ 0)).any fun t => t.goesOn && t.world.copies == 1) = true := by decide +kernel
  obtain ⟨goals, hgoals, hturn⟩ := exists_of_any hturn
  obtain ⟨t, ht, hturn⟩ := (Option.any_eq_true _ _).mp hturn
  cases t with
  | stops answer w s => cases hturn
  | goes w s =>
    have hcopies : w.copies = 1 := by simpa [Turn.goesOn, Turn.world] using hturn
    have h : Reachable {} w [s] := (Reachable.start.ask hgoals).goes (l := []) ht
    exact ⟨w, s, h, hcopies, h.fresh (Nat.le_of_eq hcopies) "_L0"⟩

end Reachable

end BilingualLogic
