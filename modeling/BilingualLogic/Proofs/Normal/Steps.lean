import BilingualLogic.Proofs.Definite.Solution
import BilingualLogic.Proofs.Names.Order
import BilingualLogic.Proofs.Names.Steps
import BilingualLogic.Proofs.Search.Moments
import BilingualLogic.Proofs.Substitution.Derived
import BilingualLogic.Proofs.Substitution.Resolution

/-!
Normal patterns in goals, clauses, bindings and searches. Replacing variables puts all patterns together anew, so copies
and resolved goals are normal whatever they are made from; bindings and open searches stay normal turn by turn.
-/

namespace BilingualLogic

namespace Predicate

def Normal (p : Predicate) : Prop := ∀ t ∈ p.arguments, t.isNormal = true

theorem normal_mapTerms {f : Term → Term} (hf : ∀ t, (f t).isNormal = true) (p : Predicate) : (p.mapTerms f).Normal :=
  List.forall_mem_map.mpr fun t _ => hf t

end Predicate

namespace Goal

def Normal (g : Goal) : Prop := ∀ t ∈ g.terms, t.isNormal = true

theorem normal_mapTermsAll {f : Term → Term} (hf : ∀ t, (f t).isNormal = true) (gs : List Goal) :
    ∀ g ∈ mapTermsAll f gs, g.Normal := by
  refine forall_mem_termsAll.mp ?_
  rw [termsAll_mapTermsAll]
  exact List.forall_mem_map.mpr fun t _ => hf t

theorem Normal.inner {g : Goal} {goals : List Goal} (h : g.Normal) (hi : g.inner? = some goals) :
    ∀ h ∈ goals, h.Normal := by
  refine forall_mem_termsAll.mp ?_
  cases g with
  | not gs =>
    cases hi
    exact h
  | collect kind t gs r =>
    cases hi
    exact fun u hu => h u (by simp [terms, hu])
  | _ => cases hi

end Goal

namespace Clause

def Normal (c : Clause) : Prop := ∀ t ∈ c.terms, t.isNormal = true

theorem normal_iff {c : Clause} : c.Normal ↔ c.head.Normal ∧ ∀ g ∈ c.body, g.Normal := by
  rw [Normal, terms, List.forall_mem_append, Goal.forall_mem_termsAll]
  rfl

theorem normal_mapTerms {f : Term → Term} (hf : ∀ t, (f t).isNormal = true) (c : Clause) : (c.mapTerms f).Normal :=
  normal_iff.mpr ⟨c.head.normal_mapTerms hf, Goal.normal_mapTermsAll hf c.body⟩

theorem normal_rename (n : Nat) (c : Clause) : (c.rename n).Normal :=
  c.normal_mapTerms (Term.isNormal_bindVars fun _ => rfl)

end Clause

namespace Substitution

/-- All values are normal, and every walk ends. -/
structure Normal (s : Substitution) : Prop where
  walkable : s.Walkable
  values : s.All fun t => t.isNormal = true

variable {s s' : Substitution}

theorem normal_empty : Normal ∅ := ⟨walkable_empty, all_empty _⟩

theorem Normal.of_grows (h : s.Normal) (hg : s.Grows (fun t => t.isNormal = true) s') : s'.Normal :=
  ⟨hg.walkable h.walkable, hg.all h.values⟩

end Substitution

theorem Predicate.unify_normal {n : Nat} {p q : Predicate} {s s' : Substitution} (hs : s.Normal) (hp : p.Normal)
    (hq : q.Normal) (h : p.unify n q s = some (some s')) : s'.Normal :=
  hs.of_grows (unify_grows Term.hereditary_isNormal hs.walkable hs.values hp hq h)

/-- Unification leaves parts of lists and of patterns as new values, and the predicates on lists make lists of items:
all of them are normal if the arguments are. -/
theorem Binder.Gives.normal {o : Binder} {s s' : Substitution} (h : o.Gives s s') (hs : s.Normal)
    (ho : ∀ t ∈ o.arguments, t.isNormal = true) : s'.Normal := by
  have hP : Hereditary fun t => t.isNormal = true := Term.hereditary_isNormal
  have hclosed := hs.values.closed
  apply hs.of_grows
  cases h with
  | unify h => exact unify_growsBy hP _ hs.walkable hclosed (ho _ (by simp [arguments])) (ho _ (by simp [arguments])) h
  | value h =>
    unfold Formula.unifyValue at h
    split at h
    · exact unify_growsBy hP _ hs.walkable hclosed (ho _ (by simp [arguments])) rfl h
    · cases h
  | member h hmem =>
    exact Sequence.member_grows hP hs.walkable hclosed (ho _ (by simp [arguments])) (ho _ (by simp [arguments])) h hmem
  | append h hmem =>
    exact Sequence.append_grows hP hs.walkable hclosed (ho _ (by simp [arguments])) (ho _ (by simp [arguments]))
      (ho _ (by simp [arguments])) h hmem
  | length h hmem =>
    exact Sequence.length_grows hP hs.walkable hclosed (ho _ (by simp [arguments])) (ho _ (by simp [arguments]))
      (fun _ => rfl) (fun _ => List.forall_mem_map.mpr fun _ _ => rfl) h hmem

structure Branch.Normal (b : Branch) : Prop where
  goals : Search.FramesHave Goal.Normal b.goals
  bindings : b.bindings.Normal

def Choice.Normal : Choice → Prop
  | .clauses call _ rest b => call.Normal ∧ Branch.Normal ⟨rest, b⟩
  | .answers pending rest => ∀ b ∈ pending, Branch.Normal ⟨rest, b⟩

namespace Search

structure Normal (s : Search) : Prop where
  current : ∀ b, s.current = some b → b.Normal
  choices : ∀ c ∈ s.choices.stack, c.Normal

def FoundNormal (found : Option (Branch × Choices)) : Prop :=
  ∀ branch choices, found = some (branch, choices) → branch.Normal ∧ ∀ c ∈ choices.stack, c.Normal

variable {limits : Limits} {n : Nat} {w w' : World} {s s' : Search} {fs : List Frame} {b : Substitution}
  {p : Predicate}

theorem normal_start {goals : List Goal} (h : ∀ g ∈ goals, g.Normal) (hb : b.Normal) (steps : Nat) :
    (start goals b steps).Normal where
  current := by
    rintro _ ⟨⟩
    exact ⟨framesHave_frames h (List.forall_mem_nil _), hb⟩
  choices := List.forall_mem_nil _

theorem Normal.succeed (h : s.Normal) (hb : Branch.Normal ⟨fs, b⟩) : (s.succeed fs b).Normal where
  current := by
    rintro _ ⟨⟩
    exact hb
  choices := h.choices

theorem normal_failWith (s : Search) (e : Error) : (s.failWith e).Normal :=
  ⟨fun _ hb => (nomatch hb), List.forall_mem_nil _⟩

theorem Normal.cut (h : s.Normal) (hb : Branch.Normal ⟨fs, b⟩) (barrier : Nat) : (s.cut barrier fs b).Normal where
  current := by
    rintro _ ⟨⟩
    exact hb
  choices c hc := h.choices c (List.mem_of_mem_drop hc)

theorem Normal.offer (h : s.Normal) {bs : List Substitution} (hbs : ∀ b ∈ bs, Branch.Normal ⟨fs, b⟩) :
    (s.offer fs bs).Normal := by
  match bs with
  | [] => exact h
  | [b] => exact h.succeed (hbs b List.mem_cons_self)
  | b :: b' :: bs =>
    obtain ⟨hb, hmore⟩ := List.forall_mem_cons.mp hbs
    refine ⟨?_, List.forall_mem_cons.mpr ⟨hmore, h.choices⟩⟩
    rintro _ ⟨⟩
    exact hb

theorem Normal.offerOrFail (h : s.Normal) {r : Except Error (List Substitution)}
    (hr : ∀ bs, r = .ok bs → ∀ b ∈ bs, Branch.Normal ⟨fs, b⟩) : (s.offerOrFail fs r).Normal := by
  cases r with
  | ok bs => exact h.offer (hr bs rfl)
  | error e => exact normal_failWith s e

theorem Normal.withSteps (h : s.Normal) (steps : Nat) : ({ s with steps } : Search).Normal := ⟨h.current, h.choices⟩

theorem Normal.counted (h : s.Normal) : s.counted.Normal := ⟨fun _ hb => (nomatch hb), h.choices⟩

theorem Normal.foundSearch (h : s.Normal) {found : Option (Branch × Choices)} (hfound : FoundNormal found) :
    (s.foundSearch found).Normal := by
  cases found with
  | none => exact h
  | some x =>
    obtain ⟨hbranch, hchoices⟩ := hfound x.1 x.2 rfl
    refine ⟨?_, hchoices⟩
    rintro _ ⟨⟩
    exact hbranch

theorem Normal.unified (h : s.Normal) (hfs : FramesHave Goal.Normal fs) {r : Option Substitution}
    (hstep : (match r with | some b => (w, s.succeed fs b) | none => (w, s)) = (w', s'))
    (hr : ∀ b, r = some b → b.Normal) : s'.Normal := by
  cases r with
  | none =>
    cases hstep
    exact h
  | some b =>
    cases hstep
    exact h.succeed ⟨hfs, hr b rfl⟩

/-- The goals of a body are those of a copy, so it does not matter what the clause is like. -/
theorem tryClauses_normal (hp : p.Normal) (hb : Branch.Normal ⟨fs, b⟩) {choices : Choices}
    (hchoices : ∀ c ∈ choices.stack, c.Normal) {m m' : Nat} {ds : List StoredClause}
    {found : Option (Branch × Choices)} (h : tryClauses n p fs b choices m ds = some (m', found)) :
    FoundNormal found := by
  induction ds generalizing m with
  | nil =>
    cases h
    rintro _ _ ⟨⟩
  | cons d ds ih =>
    rw [tryClauses] at h
    split at h
    · cases h
    · next unified hunified =>
      cases h
      rintro _ _ ⟨⟩
      obtain ⟨hhead, hbody⟩ := Clause.normal_iff.mp (d.clause.normal_rename m)
      have hbindings := Predicate.unify_normal hb.bindings hhead hp hunified
      exact ⟨⟨framesHave_frames hbody hb.goals, hbindings⟩, List.forall_mem_cons.mpr ⟨⟨hp, hb⟩, hchoices⟩⟩
    · exact ih h

theorem retry_normal {store : Store} {cs : List Choice} (hcs : ∀ c ∈ cs, c.Normal) {m m' height : Nat}
    {found : Option (Branch × Choices)} (h : retry n store m height cs = some (m', found)) : FoundNormal found := by
  induction cs generalizing m height with
  | nil =>
    cases h
    rintro _ _ ⟨⟩
  | cons c cs ih =>
    obtain ⟨hc, hrest⟩ := List.forall_mem_cons.mp hcs
    match c with
    | .answers [] fs => exact ih hrest h
    | .answers [b] fs =>
      cases h
      rintro _ _ ⟨⟩
      exact ⟨hc b List.mem_cons_self, hrest⟩
    | .answers (b :: b' :: bs) fs =>
      cases h
      rintro _ _ ⟨⟩
      obtain ⟨hb, hmore⟩ := List.forall_mem_cons.mp hc
      exact ⟨hb, List.forall_mem_cons.mpr ⟨hmore, hrest⟩⟩
    | .clauses p after fs b =>
      rw [retry] at h
      split at h
      · cases h
      · next htry =>
        cases h
        exact tryClauses_normal hc.1 hc.2 hrest htry
      · exact ih hrest h

section Turns

variable (hs : s.Normal) (hb : Branch.Normal ⟨fs, b⟩)

include hs hb

theorem call_normal (hp : p.Normal) {barrier : Nat} (h : call limits n w s p barrier fs b = some (w', s')) :
    s'.Normal := by
  obtain ⟨name, arguments⟩ := p
  unfold call at h
  split at h
  · cases h
    exact hs.cut hb barrier
  · cases h
    exact hs.succeed hb
  · cases h
    exact hs
  · next hargs =>
    obtain rfl := hargs
    obtain ⟨bs, hbs, h⟩ := Option.map_eq_some_iff.mp h
    cases h
    exact hs.offer fun b' hb' => ⟨hb.goals, (Binder.Gives.member hbs hb').normal hb.bindings hp⟩
  · next hargs =>
    obtain rfl := hargs
    obtain ⟨r, hr, h⟩ := Option.map_eq_some_iff.mp h
    cases h
    exact hs.offerOrFail fun bs hbs b' hb' => ⟨hb.goals, (Binder.Gives.append (hbs ▸ hr) hb').normal hb.bindings hp⟩
  · next hargs =>
    obtain rfl := hargs
    obtain ⟨r, hr, h⟩ := Option.map_eq_some_iff.mp h
    cases h
    exact hs.offerOrFail fun bs hbs b' hb' => ⟨hb.goals, (Binder.Gives.length (hbs ▸ hr) hb').normal hb.bindings hp⟩
  · next hargs =>
    obtain rfl := hargs
    obtain ⟨r, hr, h⟩ := Option.map_eq_some_iff.mp h
    exact hs.unified hb.goals h fun b' hb' => (Binder.Gives.unify (hb' ▸ hr)).normal hb.bindings hp
  · rw [callClauses_eq] at h
    obtain ⟨⟨m, found⟩, htry, h⟩ := Option.map_eq_some_iff.mp h
    cases h
    exact hs.foundSearch (tryClauses_normal hp hb hs.choices htry)

theorem simpleStep_normal {f : Frame} (hf : f.goal.Normal) (h : simpleStep limits n w s f fs b = some (w', s')) :
    s'.Normal := by
  obtain ⟨g, barrier⟩ := f
  cases g with
  | call p => exact call_normal hs hb hf h
  | cut =>
    cases h
    exact hs.cut hb barrier
  | unify x y =>
    obtain ⟨r, hr, h⟩ := Option.map_eq_some_iff.mp h
    exact hs.unified hb.goals h fun b' hb' => (Binder.Gives.unify (hb' ▸ hr)).normal hb.bindings hf
  | is x e =>
    obtain ⟨r, hr, h⟩ := Option.map_eq_some_iff.mp h
    refine hs.unified hb.goals h fun b' hb' => (Binder.Gives.value (hb' ▸ hr)).normal hb.bindings ?_
    exact List.forall_mem_singleton.mpr (hf x List.mem_cons_self)
  | compare op x y =>
    cases h
    split
    · exact hs.succeed hb
    · exact hs
  | assert head body =>
    cases h
    exact hs.succeed hb
  | retract head body =>
    cases body with
    | nil =>
      obtain ⟨⟨removed, store⟩, -, h⟩ := Option.map_eq_some_iff.mp h
      cases h
      split
      · exact hs.succeed hb
      · exact hs
    | cons g gs =>
      cases h
      split
      · exact hs.succeed hb
      · exact hs
  | not _ | collect _ _ _ _ =>
    cases h
    exact hs

end Turns

/-- What is collected is resolved under every answer, so it does not matter what the answers are. -/
theorem gather_normal {t : Term} {ts : List Term} (h : gather limits n w s t [] = some (ts, w', s')) :
    ∀ t ∈ ts, t.isNormal = true := by
  rw [gather_eq_drain] at h
  obtain ⟨⟨answers, w₁, s₁⟩, -, h⟩ := Option.map_eq_some_iff.mp h
  cases h
  exact List.forall_mem_map.mpr fun b _ => b.isNormal_resolve t

theorem goalTurn_normal (hs : s.Normal) (hb : Branch.Normal ⟨fs, b⟩) {f : Frame} (hf : f.goal.Normal) {t : Turn}
    (h : goalTurn limits n w s f fs b = some t) : t.search.Normal := by
  unfold goalTurn at h
  split at h
  · obtain ⟨⟨answer, w₁, inner⟩, -, h⟩ := Option.map_eq_some_iff.mp h
    have hs₁ := hs.withSteps inner.steps
    dsimp only at h
    split at h <;> cases h
    · exact normal_failWith _ _
    · exact hs₁
    · exact hs₁.succeed hb
  · next kind template goals result hgoal =>
    obtain ⟨⟨terms, w₁, inner⟩, hi, h⟩ := Option.bind_eq_some_iff.mp h
    have hs₁ := hs.withSteps inner.steps
    dsimp only at h
    split at h
    · cases h
      exact normal_failWith _ _
    · obtain ⟨r, hr, h⟩ := Option.map_eq_some_iff.mp h
      cases r with
      | none =>
        cases h
        exact hs₁
      | some b' =>
        cases h
        have hresult : result.isNormal = true := by
          rw [hgoal] at hf
          exact hf result (by simp [Goal.terms])
        have hlist : (Term.list (kind.arrange terms)).isNormal = true :=
          Term.hereditary_isNormal.list.mpr fun t ht => gather_normal hi t (Collection.mem_arrange ht)
        have hb' := (Binder.Gives.unify hr).normal hb.bindings
          (List.forall_mem_cons.mpr ⟨hresult, List.forall_mem_singleton.mpr hlist⟩)
        exact hs₁.succeed ⟨hb.goals, hb'⟩
  · obtain ⟨⟨w₁, s₁⟩, hstep, h⟩ := Option.map_eq_some_iff.mp h
    cases h
    exact simpleStep_normal hs hb hf hstep

/-- A turn keeps the search normal, whatever the clauses are like and whatever searches it runs inside. -/
theorem turn_normal (hs : s.Normal) {t : Turn} (h : turn limits n w s = some t) : t.search.Normal := by
  unfold turn at h
  split at h
  · cases h
    exact hs
  · split at h
    · obtain ⟨⟨m, found⟩, hretry, h⟩ := Option.map_eq_some_iff.mp h
      have hfound := retry_normal hs.choices hretry
      cases found with
      | none =>
        cases h
        exact ⟨hs.current, List.forall_mem_nil _⟩
      | some x =>
        cases h
        exact hs.foundSearch hfound
    · cases h
      exact ⟨fun _ hb => (nomatch hb), hs.choices⟩
    · next f fs b hcurrent =>
      obtain ⟨hgoals, hb⟩ := hs.current _ hcurrent
      obtain ⟨hf, hfs⟩ := List.forall_mem_cons.mp hgoals
      split at h
      · cases h
        exact normal_failWith _ _
      · exact goalTurn_normal hs.counted ⟨hfs, hb⟩ hf h

theorem turn_answer_normal (hs : s.Normal) (h : turn limits n w s = some (.stops (some b) w' s')) : b.Normal := by
  unfold turn at h
  split at h
  · cases h
  · split at h
    · obtain ⟨⟨m, found⟩, -, h⟩ := Option.map_eq_some_iff.mp h
      cases found <;> cases h
    · next hcurrent =>
      cases h
      exact (hs.current _ hcurrent).bindings
    · split at h
      · cases h
      · cases goalTurn_stops h

theorem next_normal {answer : Option Substitution} (hs : s.Normal) (h : next limits n w s = some (answer, w', s')) :
    s'.Normal ∧ ∀ b, answer = some b → b.Normal := by
  induction n generalizing w s with
  | zero => cases h
  | succ n ih =>
    rw [next_succ] at h
    obtain ⟨t, ht, h⟩ := Option.bind_eq_some_iff.mp h
    have ht' := turn_normal hs ht
    cases t with
    | goes w₁ s₁ => exact ih ht' h
    | stops answer w₁ s₁ =>
      cases h
      refine ⟨ht', ?_⟩
      rintro b rfl
      exact turn_answer_normal hs ht

/-- What is asserted is resolved before, so it does not matter what the goals are like. -/
theorem lasting_normal : Lasting (·.All Clause.Normal) fun _ => True where
  assert b hs _ := hs.add (Clause.normal_mapTerms (c := ⟨_, _⟩) b.isNormal_resolve)
  retractHead hs _ hr := hs.retractHead hr
  retractClause c hs _ := hs.retractClause c
  copy _ _ _ _ _ := trivial
  inner _ _ _ _ := trivial

theorem turn_store_normal (hw : w.store.All Clause.Normal) {t : Turn} (h : turn limits n w s = some t) :
    t.world.store.All Clause.Normal :=
  (lasting_normal.turn hw (has_true s) h).1

end Search
end BilingualLogic
