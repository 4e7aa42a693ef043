import BilingualLogic.Proofs.Search.Bodies

/-!
The search answers as resolution does: a run from a row of bodies gives the answers of resolution first and then goes
back to the choices below.
-/

namespace BilingualLogic

namespace Search

open Resolution

variable {limits : Limits} {store : Store}

section Back

variable {n k copies steps : Nat} {once : Bool} {cs : List Choice} {fs : List Frame}
  {r : List Substitution × World × Search}

theorem run_back_answers {b : Substitution} {bs : List Substitution}
    (h : run limits n once k ⟨store, copies⟩ (back (.answers (b :: bs) fs :: cs) steps) = some r) :
    ∃ j ≤ k, run limits n once j ⟨store, copies⟩ ((back cs steps).offer fs (b :: bs)) = some r := by
  cases k with
  | zero => cases h
  | succ k =>
    refine ⟨k, Nat.le_succ k, ?_⟩
    cases bs <;> exact h

theorem run_back_clauses {p : Predicate} {id : Nat} {b : Substitution}
    (h : run limits n once k ⟨store, copies⟩ (back (.clauses p id fs b :: cs) steps) = some r) :
    ∃ copies' found, tryClauses n p fs b (.ofStack cs) copies (store.clausesAfter p.key (some id)) =
        some (copies', found) ∧
      ∃ j ≤ k, run limits n once j ⟨store, copies'⟩ (foundSearch (back cs steps) found) = some r := by
  cases k with
  | zero => cases h
  | succ k =>
    have hturn : turn limits n ⟨store, copies⟩ (back (.clauses p id fs b :: cs) steps) =
      backTurn n ⟨store, copies⟩ (back (.clauses p id fs b :: cs) steps) := rfl
    rw [run, hturn, backTurn] at h
    simp only [back, Choices.ofStack, retry, List.length_cons, Nat.add_sub_cancel] at h
    generalize hcs : tryClauses n p fs b (.ofStack cs) copies (store.clausesAfter p.key (some id)) = t
    rw [show tryClauses n p fs b ⟨cs, cs.length⟩ copies (store.clausesAfter p.key (some id)) = t from hcs] at h
    rcases t with _ | ⟨copies', _ | ⟨branch, choices⟩⟩
    · cases h
    · exact ⟨copies', none, rfl, k + 1, Nat.le_refl _, h⟩
    · exact ⟨copies', some (branch, choices), rfl, k, Nat.le_succ k, h⟩

end Back

section Alternatives

variable {n k : Nat} {once : Bool} {bodies : List Body} {b : Substitution} {cs : List Choice} {copies steps : Nat}
  {answers : List Substitution} {final : World × Search}

theorem offer_simulates (hk : ∀ j ≤ k, Simulates limits store n once j) (hb : Nested cs.length bodies)
    (hg : ∀ body ∈ bodies, Goal.isStaticAll body.goals = true) {bs : List Substitution}
    (h : run limits n once k ⟨store, copies⟩ ((back cs steps).offer (framesOf bodies) bs) = some (answers, final)) :
    ∃ m r, anyOf (follow limits store m (top once) bodies) bs copies = some r ∧
      Leaves limits store n once k bodies cs r answers final := by
  induction bs generalizing k copies steps answers with
  | nil => exact ⟨0, _, rfl, leaves_fails h⟩
  | cons b bs ih =>
    obtain ⟨cs₁, hlen, hcut, hcs₁, h⟩ : ∃ cs₁ : List Choice, cs.length ≤ cs₁.length ∧
        (∀ i, kept (barrierAt bodies i) cs₁ = kept (barrierAt bodies i) cs) ∧
        (∀ j steps copies more, run limits n once j ⟨store, copies⟩ (back cs₁ steps) = some (more, final) →
          ∃ i ≤ j, run limits n once i ⟨store, copies⟩ ((back cs steps).offer (framesOf bodies) bs) =
            some (more, final)) ∧
        run limits n once k ⟨store, copies⟩ (forward bodies b cs₁ steps) = some (answers, final) := by
      cases bs with
      | nil => exact ⟨cs, Nat.le_refl _, fun _ => rfl, fun j _ _ _ hj => ⟨j, Nat.le_refl j, hj⟩, h⟩
      | cons b' bs =>
        refine ⟨.answers (b' :: bs) (framesOf bodies) :: cs, by simp, fun i => kept_cons (hb.barrierAt_le i) _, ?_, h⟩
        exact fun j _ _ _ hj => run_back_answers hj
    obtain ⟨m₁, r, hr, hl⟩ := hk k (Nat.le_refl k) (hb.mono hlen) hg h
    obtain ⟨m₂, q, hq, hl⟩ := hl.orElse (fun m => anyOf (follow limits store m (top once) bodies) bs) hcut
      fun j hj steps more hrun => by
        obtain ⟨i, hi, hrun⟩ := hcs₁ j steps r.copies more hrun
        obtain ⟨m, q, hq, hl⟩ := ih (fun i' hi' => hk i' (by omega)) hrun
        exact ⟨m, q, hq, hl.mono hi⟩
    refine ⟨max m₁ m₂, q, ?_, hl⟩
    rw [anyOf, (follow_le (Nat.le_max_left m₁ m₂) _ _ _ _).eq_some hr]
    exact (orElse_le fun copies => anyOf_le (follow_le (Nat.le_max_right m₁ m₂) _ _) bs copies).eq_some hq

theorem clauses_simulates (ho : store.Ordered) (hs : store.IsStatic) (hk : ∀ j ≤ k, Simulates limits store n once j)
    (hb : Nested cs.length bodies) (hg : ∀ body ∈ bodies, Goal.isStaticAll body.goals = true) {p : Predicate}
    (before ds : List StoredClause) (hds : store.storedClauses p.key = before ++ ds) {copies' : Nat}
    {found : Option (Branch × Choices)}
    (ht : tryClauses n p (framesOf bodies) b (.ofStack cs) copies ds = some (copies', found))
    (h : run limits n once k ⟨store, copies'⟩ (foundSearch (back cs steps) found) = some (answers, final)) :
    ∃ m r, clausesBy (solve limits store m) m p b (follow limits store m (top once) bodies) (ds.map (·.clause)) copies =
        some r ∧
      Leaves limits store n once k (⟨[], cs.length⟩ :: bodies) cs r answers final := by
  induction ds generalizing before k copies copies' found steps answers with
  | nil =>
    cases ht
    exact ⟨0, _, rfl, leaves_fails h⟩
  | cons d ds ih =>
    rw [tryClauses] at ht
    rcases hu : (d.clause.rename copies).head.unify n p b with _ | _ | unified
    · simp [hu] at ht
    · simp only [hu] at ht
      obtain ⟨m, r, hr, hl⟩ := ih hk (before ++ [d]) (by simp [hds]) ht h
      refine ⟨max m n, r, ?_, hl⟩
      rw [List.map_cons, clausesBy]
      simp only [(Predicate.unify_le (Nat.le_max_right m n) _ _ _).eq_some hu, Option.bind_some]
      have hle := Nat.le_max_left m n
      exact (clausesBy_le (solve_le limits store hle) hle (follow_le hle _ _) p b _ _).eq_some hr
    · simp only [hu] at ht
      cases ht
      have hbody : Goal.isStaticAll (d.clause.rename copies).body = true := by
        rw [Clause.rename, Clause.mapTerms, Goal.isStaticAll_mapTerms]
        exact hs.body (k := p.key) (by simp [hds])
      let cs₁ : List Choice := .clauses p d.id (framesOf bodies) b :: cs
      let entered : List Body := ⟨(d.clause.rename copies).body, cs.length⟩ :: bodies
      have hb₁ : Nested cs₁.length entered := ⟨Nat.le_succ _, hb⟩
      have hg₁ (body : Body) (hbody' : body ∈ entered) : Goal.isStaticAll body.goals = true := by
        rcases List.mem_cons.mp hbody' with rfl | hbody'
        · exact hbody
        · exact hg body hbody'
      have h : run limits n once k ⟨store, copies + 1⟩ (forward entered unified cs₁ steps) = some (answers, final) := h
      obtain ⟨m₁, r, hr, hl⟩ := hk k (Nat.le_refl k) hb₁ hg₁ h
      have hb₂ : Nested cs.length (⟨[], cs.length⟩ :: bodies) := ⟨Nat.le_refl _, hb⟩
      have hcut (i : Nat) : kept (barrierAt (⟨[], cs.length⟩ :: bodies) i) cs₁ =
          kept (barrierAt (⟨[], cs.length⟩ :: bodies) i) cs := kept_cons (hb₂.barrierAt_le i) _
      have hl : Leaves limits store n once k (⟨[], cs.length⟩ :: bodies) cs₁ r answers final := hl
      obtain ⟨m₂, q, hq, hl⟩ := hl.orElse (fun m => clausesBy (solve limits store m) m p b
          (follow limits store m (top once) bodies) (ds.map (·.clause))) hcut
        fun j hj steps more hrun => by
          obtain ⟨copies', found, ht, i, hi, hrun⟩ := run_back_clauses hrun
          rw [Store.clausesAfter_of_append ho hds] at ht
          obtain ⟨m, q, hq, hl⟩ := ih (fun i' hi' => hk i' (by omega)) (before ++ [d]) (by simp [hds]) ht hrun
          exact ⟨m, q, hq, hl.mono hi⟩
      have h₁ : m₁ ≤ max n (max m₁ m₂) := by omega
      have h₂ : m₂ ≤ max n (max m₁ m₂) := by omega
      refine ⟨max n (max m₁ m₂), q, ?_, hl⟩
      rw [List.map_cons, clausesBy]
      simp only [(Predicate.unify_le (Nat.le_max_left n _) _ _ _).eq_some hu, Option.bind_some]
      have hr := (follow_le h₁ _ _ _ _).eq_some hr
      simp only [entered, follow] at hr
      rw [hr, Option.bind_some]
      exact (orElse_le fun copies => clausesBy_le (solve_le limits store h₂) h₂ (follow_le h₂ _ _) p b _ copies).eq_some
        hq

end Alternatives

section Nested

variable {n k copies steps : Nat} {once : Bool} {goals : List Goal} {b : Substitution}

theorem run_back_nil {answers : List Substitution} {final : World × Search}
    (h : run limits n once k ⟨store, copies⟩ (back [] steps) = some (answers, final)) :
    answers = [] ∧ final.1 = ⟨store, copies⟩ ∧ final.2.error = none := by
  cases k with
  | zero => cases h
  | succ k =>
    cases h
    exact ⟨rfl, rfl, rfl⟩

theorem outcome_of_run (hk : Simulates limits store n once k) (hg : Goal.isStaticAll goals = true)
    {answers : List Substitution} {final : World × Search}
    (h : run limits n once k ⟨store, copies⟩ (start goals b steps) = some (answers, final)) :
    ∃ m r, solve limits store m goals b copies (if once then first else every) = some r ∧ r.answers = answers ∧
      final.1 = ⟨store, r.copies⟩ ∧ final.2.error = r.ending.error := by
  have hnested : Nested ([] : List Choice).length [⟨goals, 0⟩] := ⟨Nat.le_refl 0, trivial⟩
  have hstatic (body : Body) (hbody : body ∈ [⟨goals, 0⟩]) : Goal.isStaticAll body.goals = true := by
    obtain rfl := List.mem_singleton.mp hbody
    exact hg
  have h : run limits n once k ⟨store, copies⟩ (forward [⟨goals, 0⟩] b [] steps) = some (answers, final) := h
  obtain ⟨m, r, hr, hl⟩ := hk hnested hstatic h
  have htop : (fun b copies => (top once b copies).map Outcome.enter) = if once then first else every := by
    cases once <;> rfl
  refine ⟨m, r, ?_, ?_⟩
  · rw [← htop]
    exact hr
  · have goesBack (h : GoesBack limits store n once k [] r answers final) :
        r.answers = answers ∧ final.1 = ⟨store, r.copies⟩ ∧ final.2.error = none := by
      obtain ⟨j, -, steps, more, rfl, hrun⟩ := h
      obtain ⟨rfl, hw, he⟩ := run_back_nil hrun
      exact ⟨(List.append_nil _).symm, hw, he⟩
    obtain ⟨as, copies', ending⟩ := r
    cases ending with
    | exhausted => exact goesBack hl
    | cut i =>
      refine goesBack ?_
      have hl : GoesBack limits store n once k (kept _ []) _ answers final := hl
      simpa [kept] using hl
    | limit e => exact ⟨hl.1.symm, hl.2⟩

theorem outcome_of_next (hk : ∀ m < n, ∀ k, Simulates limits store m true k) (hg : Goal.isStaticAll goals = true)
    {answer : Option Substitution} {w' : World} {s' : Search}
    (h : next limits n ⟨store, copies⟩ (start goals b steps) = some (answer, w', s')) :
    ∃ m r, solve limits store m goals b copies first = some r ∧ r.answers = answer.toList ∧
      w' = ⟨store, r.copies⟩ ∧ s'.error = r.ending.error := by
  cases n with
  | zero => cases h
  | succ n =>
    cases answer with
    | none =>
      obtain ⟨k, hrun⟩ := run_of_next_none true (Nat.le_refl _) h
      exact outcome_of_run (hk n (Nat.lt_succ_self n) k) hg hrun
    | some answer =>
      have he := next_answer_error h
      have hlast : run limits n true 1 w' { s' with current := none, choices := .empty } =
          some ([], w', { s' with current := none, choices := .empty }) := by
        simp only [run, turn, he, Option.isSome_none, Bool.false_eq_true, if_false]
        rfl
      obtain ⟨k, hrun⟩ := run_of_next_some (Nat.le_refl _) h hlast
      obtain ⟨m, r, hr, hans, hw, herr⟩ := outcome_of_run (hk n (Nat.lt_succ_self n) k) hg hrun
      exact ⟨m, r, hr, hans, hw, herr⟩

theorem outcome_of_drain {m : Nat} (hnm : n ≤ m + 2) (hk : ∀ k, Simulates limits store m false k)
    (hg : Goal.isStaticAll goals = true) {answers : List Substitution} {final : World × Search}
    (h : drain limits n ⟨store, copies⟩ (start goals b steps) = some (answers, final)) :
    ∃ m r, solve limits store m goals b copies every = some r ∧ r.answers = answers ∧
      final.1 = ⟨store, r.copies⟩ ∧ final.2.error = r.ending.error := by
  obtain ⟨k, hrun⟩ := run_of_drain hnm h
  exact outcome_of_run (hk k) hg hrun

end Nested

section Goals

variable {n k : Nat} {once : Bool} {bodies : List Body} {b : Substitution} {cs : List Choice} {copies steps : Nat}
  {answers : List Substitution} {final : World × Search}

theorem run_failed {e : Error} {w : World} {s : Search} (he : s.error = some e)
    (h : run limits n once k w s = some (answers, final)) : answers = [] ∧ final = (w, s) := by
  cases k with
  | zero => cases h
  | succ k =>
    simp only [run, turn, he, Option.isSome_some, if_true, Option.bind_some] at h
    cases h
    exact ⟨rfl, rfl⟩

theorem leaves_limit {e : Error} {s : Search} (he : s.error = some e)
    (h : run limits n once k ⟨store, copies⟩ s = some (answers, final)) :
    Leaves limits store n once k bodies cs ⟨[], copies, .limit e⟩ answers final := by
  obtain ⟨rfl, rfl⟩ := run_failed he h
  exact ⟨rfl, rfl, he⟩

theorem offerOrFail_simulates (hk : ∀ j ≤ k, Simulates limits store n once j) (hb : Nested cs.length bodies)
    (hg : ∀ body ∈ bodies, Goal.isStaticAll body.goals = true) {bs : Except Error (List Substitution)}
    (h : run limits n once k ⟨store, copies⟩ ((back cs steps).offerOrFail (framesOf bodies) bs) =
      some (answers, final)) :
    ∃ m r, anyOrLimit (follow limits store m (top once) bodies) copies bs = some r ∧
      Leaves limits store n once k bodies cs r answers final := by
  cases bs with
  | ok bs => exact offer_simulates hk hb hg h
  | error e => exact ⟨0, _, rfl, leaves_limit rfl h⟩

theorem cut_simulates {body : Body} (hk : Simulates limits store n once k) (hb : Nested cs.length (body :: bodies))
    (hg : ∀ body' ∈ body :: bodies, Goal.isStaticAll body'.goals = true)
    (h : run limits n once k ⟨store, copies⟩ ((back cs steps).cut body.barrier (framesOf (body :: bodies)) b) =
      some (answers, final)) :
    ∃ m r, (follow limits store m (top once) (body :: bodies) b copies).map .commit = some r ∧
      Leaves limits store n once k (body :: bodies) cs r answers final := by
  have hcut : (back cs steps).cut body.barrier (framesOf (body :: bodies)) b =
      forward (body :: bodies) b (kept body.barrier cs) steps := by
    rw [cut, back, cutTo_ofStack hb.1]
    rfl
  rw [hcut] at h
  have hb₁ : Nested (kept body.barrier cs).length (body :: bodies) := by
    rw [length_kept hb.1]
    exact ⟨Nat.le_refl _, hb.2⟩
  obtain ⟨m, r, hr, hl⟩ := hk hb₁ hg h
  exact ⟨m, r.commit, by rw [hr]; rfl, hl.commit hb⟩

theorem clauseCall_simulates (ho : store.Ordered) (hs : store.IsStatic) {body : Body}
    (hk : ∀ j ≤ k, Simulates limits store n once j) (hb : Nested cs.length (body :: bodies))
    (hg : ∀ body' ∈ body :: bodies, Goal.isStaticAll body'.goals = true) {p : Predicate} {w₁ : World} {s₁ : Search}
    (hc : callClauses n ⟨store, copies⟩ (back cs steps) p (framesOf (body :: bodies)) b = some (w₁, s₁))
    (h : run limits n once k w₁ s₁ = some (answers, final)) :
    ∃ m r, (clausesBy (solve limits store m) m p b (follow limits store m (top once) (body :: bodies))
        (store.clauses p.key) copies).map .leave = some r ∧
      Leaves limits store n once k (body :: bodies) cs r answers final := by
  rw [callClauses_eq] at hc
  obtain ⟨⟨copies', found⟩, ht, hc⟩ := Option.map_eq_some_iff.mp hc
  cases hc
  obtain ⟨m, r, hr, hl⟩ := clauses_simulates ho hs hk hb hg [] (store.storedClauses p.key) rfl ht h
  refine ⟨m, r.leave, ?_, hl.leave⟩
  rw [Store.clauses, hr]
  rfl

theorem call_simulates (ho : store.Ordered) (hs : store.IsStatic) {body : Body}
    (hk : ∀ j ≤ k, Simulates limits store n once j) (hb : Nested cs.length (body :: bodies))
    (hg : ∀ body' ∈ body :: bodies, Goal.isStaticAll body'.goals = true) {p : Predicate} {w₁ : World} {s₁ : Search}
    (hc : call limits n ⟨store, copies⟩ (back cs steps) p body.barrier (framesOf (body :: bodies)) b = some (w₁, s₁))
    (h : run limits n once k w₁ s₁ = some (answers, final)) :
    ∃ m r, callBy (solve limits store m) limits store m p b copies (follow limits store m (top once) (body :: bodies)) =
        some r ∧
      Leaves limits store n once k (body :: bodies) cs r answers final := by
  cases hp : p.isBuiltin with
  | false =>
    rw [call_eq_callClauses hp] at hc
    simp only [callBy_eq_clausesBy hp]
    exact clauseCall_simulates ho hs hk hb hg hc h
  | true =>
    rcases Predicate.isBuiltin_cases hp with ⟨hname, hargs⟩ | ⟨hname, hargs⟩ | ⟨hname, hargs⟩ | ⟨hname, x, xs, hargs⟩ |
      ⟨hname, front, whole, back', hargs⟩ | ⟨hname, xs, x, hargs⟩ | ⟨hname, x, y, hargs⟩ <;>
      simp only [call, hname, hargs] at hc
    · cases hc
      obtain ⟨m, r, hr, hl⟩ := cut_simulates (hk k (Nat.le_refl k)) hb hg h
      exact ⟨m, r, by simp only [callBy, hname, hargs, hr], hl⟩
    · cases hc
      obtain ⟨m, r, hr, hl⟩ := hk k (Nat.le_refl k) hb hg h
      exact ⟨m, r, by simp only [callBy, hname, hargs, hr], hl⟩
    · cases hc
      exact ⟨0, _, by simp only [callBy, hname, hargs], leaves_fails h⟩
    · obtain ⟨bs, hbs, hc⟩ := Option.map_eq_some_iff.mp hc
      cases hc
      obtain ⟨m, r, hr, hl⟩ := offer_simulates hk hb hg h
      refine ⟨max n m, r, ?_, hl⟩
      simp only [callBy, hname, hargs, (Sequence.member_le (Nat.le_max_left n m) _ _ _).eq_some hbs, Option.bind_some]
      exact (anyOf_le (follow_le (Nat.le_max_right n m) _ _) _ _).eq_some hr
    · obtain ⟨bs, hbs, hc⟩ := Option.map_eq_some_iff.mp hc
      cases hc
      obtain ⟨m, r, hr, hl⟩ := offerOrFail_simulates hk hb hg h
      refine ⟨max n m, r, ?_, hl⟩
      simp only [callBy, hname, hargs, (Sequence.append_le limits (Nat.le_max_left n m) _ _ _ _).eq_some hbs,
        Option.bind_some]
      exact (anyOrLimit_le (follow_le (Nat.le_max_right n m) _ _) _ _).eq_some hr
    · obtain ⟨bs, hbs, hc⟩ := Option.map_eq_some_iff.mp hc
      cases hc
      obtain ⟨m, r, hr, hl⟩ := offerOrFail_simulates hk hb hg h
      refine ⟨max n m, r, ?_, hl⟩
      simp only [callBy, hname, hargs, (Sequence.length_le limits (Nat.le_max_left n m) _ _ _ _).eq_some hbs,
        Option.bind_some]
      exact (anyOrLimit_le (follow_le (Nat.le_max_right n m) _ _) _ _).eq_some hr
    · obtain ⟨u, hu, hc⟩ := Option.map_eq_some_iff.mp hc
      have h : run limits n once k ⟨store, copies⟩ ((back cs steps).offer (framesOf (body :: bodies)) u.toList) =
          some (answers, final) := by
        cases u <;> cases hc <;> exact h
      obtain ⟨m, r, hr, hl⟩ := offer_simulates hk hb hg h
      refine ⟨max n m, r, ?_, hl⟩
      simp only [callBy, hname, hargs, (unify_le (Nat.le_max_left n m) _ _ _).eq_some hu, Option.bind_some]
      exact (anyOf_le (follow_le (Nat.le_max_right n m) _ _) _ _).eq_some hr

end Goals

def afterFirst (limits : Limits) (store : Store) (once : Bool) (m : Nat) (goals : List Goal) (bodies : List Body) :
    Continuation := fun b copies =>
  solve limits store m goals b copies fun b copies => (follow limits store (m + 1) (top once) bodies b copies).map .enter

theorem follow_le_afterFirst {m M : Nat} (h : m ≤ M) (once : Bool) (goals : List Goal) (barrier : Nat)
    (bodies : List Body) (b : Substitution) (copies : Nat) :
    Bounded.Le (follow limits store m (top once) (⟨goals, barrier⟩ :: bodies) b copies)
      (afterFirst limits store once M goals bodies b copies) :=
  solve_le limits store h (fun b copies => (follow_le (Nat.le_succ_of_le h) _ _ b copies).map _) _ _ _

section Steps

variable {n k : Nat} {once : Bool} {g : Goal} {goals : List Goal} {barrier : Nat} {bodies : List Body}
  {b : Substitution} {cs : List Choice} {copies steps : Nat} {answers : List Substitution} {final : World × Search}

theorem run_forward (hl : limits.maxInferences = none) (w : World) :
    run limits n once (k + 1) w (forward (⟨g :: goals, barrier⟩ :: bodies) b cs steps) =
      (goalTurn limits n w (back cs (steps + 1)) ⟨g, barrier⟩ (framesOf (⟨goals, barrier⟩ :: bodies)) b).bind fun
        | .goes w s => run limits n once k w s
        | .stops none w s => some ([], w, s)
        | .stops (some b) w s =>
          (run limits n once k w (if once then { s with current := none, choices := .empty } else s)).map
            fun (as, w, s) => (b :: as, w, s) := by
  have hexcess : excess limits (steps + 1) = none := by rw [excess, hl]
  rw [run]
  congr 1
  simp only [forward, back, framesOf, frames, turn, List.map_cons, List.cons_append, hexcess]
  rfl

section First

variable (hk : ∀ j ≤ k, Simulates limits store n once j) (hb : Nested cs.length (⟨goals, barrier⟩ :: bodies))
  (hg : ∀ body ∈ ⟨goals, barrier⟩ :: bodies, Goal.isStaticAll body.goals = true)

include hk hb hg

theorem offer_afterFirst (bs : List Substitution)
    (h : run limits n once k ⟨store, copies⟩ ((back cs steps).offer (framesOf (⟨goals, barrier⟩ :: bodies)) bs) =
      some (answers, final)) :
    ∃ m r, (∀ M ≥ m, anyOf (afterFirst limits store once M goals bodies) bs copies = some r) ∧
      Leaves limits store n once k (⟨goals, barrier⟩ :: bodies) cs r answers final := by
  obtain ⟨m, r, hr, hl⟩ := offer_simulates hk hb hg h
  exact ⟨m, r, fun M hM => (anyOf_le (follow_le_afterFirst hM once goals barrier bodies) bs copies).eq_some hr, hl⟩

theorem forward_afterFirst
    (h : run limits n once k ⟨store, copies⟩ (forward (⟨goals, barrier⟩ :: bodies) b cs steps) =
      some (answers, final)) :
    ∃ m r, (∀ M ≥ m, afterFirst limits store once M goals bodies b copies = some r) ∧
      Leaves limits store n once k (⟨goals, barrier⟩ :: bodies) cs r answers final := by
  obtain ⟨m, r, hr, hl⟩ := hk k (Nat.le_refl k) hb hg h
  exact ⟨m, r, fun M hM => (follow_le_afterFirst hM once goals barrier bodies b copies).eq_some hr, hl⟩

variable (hl : limits.maxInferences = none) (hn : ∀ m < n, ∀ once k, Simulates limits store m once k)
  {inner : List Goal} (hgoal : Goal.isStaticAll inner = true)

include hl hn hgoal

theorem not_simulates
    (h : run limits n once (k + 1) ⟨store, copies⟩ (forward (⟨.not inner :: goals, barrier⟩ :: bodies) b cs steps) =
      some (answers, final)) :
    ∃ m r, follow limits store m (top once) (⟨.not inner :: goals, barrier⟩ :: bodies) b copies = some r ∧
      Leaves limits store n once k (⟨goals, barrier⟩ :: bodies) cs r answers final := by
  rw [run_forward hl] at h
  obtain ⟨t, ht, h⟩ := Option.bind_eq_some_iff.mp h
  obtain ⟨⟨answer, w₁, s₁⟩, hnext, rfl⟩ := Option.map_eq_some_iff.mp ht
  obtain ⟨m₁, r₁, hr₁, hans, rfl, he⟩ := outcome_of_next (fun m hm k => hn m hm true k) hgoal hnext
  have hnegate : ∃ m r, (∀ M ≥ m, negate (afterFirst limits store once M goals bodies b) r₁ = some r) ∧
      Leaves limits store n once k (⟨goals, barrier⟩ :: bodies) cs r answers final := by
    obtain ⟨_, _, steps₁, error₁⟩ := s₁
    unfold negate
    rw [hans, ← he]
    cases error₁ with
    | some e =>
      cases h
      exact ⟨0, _, fun _ _ => rfl, rfl, rfl, rfl⟩
    | none =>
      cases answer with
      | some _ => exact ⟨0, _, fun _ _ => rfl, leaves_fails h⟩
      | none => exact forward_afterFirst hk hb hg h
  obtain ⟨m₂, r, hr, hl⟩ := hnegate
  refine ⟨max m₁ m₂ + 1, r, ?_, hl⟩
  change (solve limits store (max m₁ m₂) inner b copies first).bind
    (negate (afterFirst limits store once (max m₁ m₂) goals bodies b)) = some r
  rw [(solve_le limits store (Nat.le_max_left m₁ m₂) (fun _ _ => .refl _) inner b copies).eq_some hr₁]
  exact hr _ (Nat.le_max_right m₁ m₂)

theorem collect_simulates {kind : Collection} {template result : Term}
    (h : run limits n once (k + 1) ⟨store, copies⟩
      (forward (⟨.collect kind template inner result :: goals, barrier⟩ :: bodies) b cs steps) = some (answers, final)) :
    ∃ m r, follow limits store m (top once) (⟨.collect kind template inner result :: goals, barrier⟩ :: bodies) b
        copies = some r ∧
      Leaves limits store n once k (⟨goals, barrier⟩ :: bodies) cs r answers final := by
  rw [run_forward hl] at h
  obtain ⟨t, ht, h⟩ := Option.bind_eq_some_iff.mp h
  obtain ⟨⟨terms, w₁, s₁⟩, hgather, ht⟩ := Option.bind_eq_some_iff.mp ht
  rw [gather_eq_drain] at hgather
  obtain ⟨⟨as, w₂, s₂⟩, hdrain, heq⟩ := Option.map_eq_some_iff.mp hgather
  cases heq
  cases n with
  | zero => cases hdrain
  | succ n =>
    obtain ⟨m₁, r₁, hr₁, hans, hw, he⟩ := outcome_of_drain (m := n) (Nat.le_succ _) (hn n (Nat.lt_succ_self n) false)
      hgoal hdrain
    obtain rfl : w₁ = _ := hw
    have hcollect : ∃ m r, (∀ M ≥ m,
          collect M kind template result b (afterFirst limits store once M goals bodies) r₁ = some r) ∧
        Leaves limits store (n + 1) once k (⟨goals, barrier⟩ :: bodies) cs r answers final := by
      obtain ⟨_, _, steps₁, error₁⟩ := s₁
      unfold collect
      rw [hans, ← show error₁ = r₁.ending.error from he]
      cases error₁ with
      | some e =>
        cases ht
        cases h
        exact ⟨0, _, fun _ _ => rfl, rfl, rfl, rfl⟩
      | none =>
        obtain ⟨u, hu, rfl⟩ := Option.map_eq_some_iff.mp ht
        rw [List.reverse_nil, List.nil_append] at hu
        obtain ⟨m, r, hr, hl⟩ := offer_afterFirst hk hb hg u.toList (by cases u <;> exact h)
        refine ⟨max (n + 1) m, r, fun M hM => ?_, hl⟩
        have hM₁ : n + 1 ≤ M := by omega
        dsimp only
        rw [(BilingualLogic.unify_le hM₁ _ _ _).eq_some hu]
        exact hr M (by omega)
    obtain ⟨m₂, r, hr, hl⟩ := hcollect
    refine ⟨max m₁ m₂ + 1, r, ?_, hl⟩
    change (solve limits store (max m₁ m₂) inner b copies every).bind
      (collect _ kind template result b (afterFirst limits store once (max m₁ m₂) goals bodies)) = some r
    rw [(solve_le limits store (Nat.le_max_left m₁ m₂) (fun _ _ => .refl _) inner b copies).eq_some hr₁]
    exact hr _ (Nat.le_max_right m₁ m₂)

end First

theorem goal_simulates (hl : limits.maxInferences = none) (ho : store.Ordered) (hs : store.IsStatic)
    (hn : ∀ m < n, ∀ once k, Simulates limits store m once k) (hk : ∀ j ≤ k, Simulates limits store n once j)
    (hb : Nested cs.length (⟨goals, barrier⟩ :: bodies)) (hgoal : g.isStatic = true)
    (hg : ∀ body ∈ ⟨goals, barrier⟩ :: bodies, Goal.isStaticAll body.goals = true)
    (h : run limits n once (k + 1) ⟨store, copies⟩ (forward (⟨g :: goals, barrier⟩ :: bodies) b cs steps) =
      some (answers, final)) :
    ∃ m r, follow limits store m (top once) (⟨g :: goals, barrier⟩ :: bodies) b copies = some r ∧
      Leaves limits store n once k (⟨goals, barrier⟩ :: bodies) cs r answers final := by
  cases g with
  | call p =>
    rw [run_forward hl] at h
    obtain ⟨t, ht, h⟩ := Option.bind_eq_some_iff.mp h
    obtain ⟨⟨w₁, s₁⟩, hc, rfl⟩ := Option.map_eq_some_iff.mp ht
    obtain ⟨m, r, hr, hl⟩ := call_simulates ho hs hk hb hg hc h
    refine ⟨m + 1, r, ?_, hl⟩
    exact (callBy_le (solve_le limits store (Nat.le_refl m)) (Nat.le_refl m)
      (follow_le_afterFirst (Nat.le_refl m) once goals barrier bodies) p b copies).eq_some hr
  | cut =>
    rw [run_forward hl] at h
    obtain ⟨m, r, hr, hl⟩ := cut_simulates (hk k (Nat.le_refl k)) hb hg h
    refine ⟨m + 1, r, ?_, hl⟩
    exact ((follow_le_afterFirst (Nat.le_refl m) once goals barrier bodies b copies).map _).eq_some hr
  | unify x y =>
    rw [run_forward hl] at h
    obtain ⟨t, ht, h⟩ := Option.bind_eq_some_iff.mp h
    obtain ⟨⟨w₁, s₁⟩, hc, rfl⟩ := Option.map_eq_some_iff.mp ht
    obtain ⟨u, hu, hc⟩ := Option.map_eq_some_iff.mp hc
    obtain ⟨m, r, hr, hl⟩ := offer_afterFirst hk hb hg u.toList (by cases u <;> cases hc <;> exact h)
    refine ⟨max n m + 1, r, ?_, hl⟩
    change (BilingualLogic.unify (max n m) x y b).bind (fun r =>
      anyOf (afterFirst limits store once (max n m) goals bodies) r.toList copies) = some r
    rw [(BilingualLogic.unify_le (Nat.le_max_left n m) _ _ _).eq_some hu]
    exact hr _ (Nat.le_max_right n m)
  | is x e =>
    rw [run_forward hl] at h
    obtain ⟨t, ht, h⟩ := Option.bind_eq_some_iff.mp h
    obtain ⟨⟨w₁, s₁⟩, hc, rfl⟩ := Option.map_eq_some_iff.mp ht
    obtain ⟨u, hu, hc⟩ := Option.map_eq_some_iff.mp hc
    obtain ⟨m, r, hr, hl⟩ := offer_afterFirst hk hb hg u.toList (by cases u <;> cases hc <;> exact h)
    refine ⟨max n m + 1, r, ?_, hl⟩
    change (e.unifyValue (max n m) x b).bind (fun r =>
      anyOf (afterFirst limits store once (max n m) goals bodies) r.toList copies) = some r
    rw [(Formula.unifyValue_le (Nat.le_max_left n m) _ _ _).eq_some hu]
    exact hr _ (Nat.le_max_right n m)
  | compare op x y =>
    rw [run_forward hl] at h
    change run limits n once k ⟨store, copies⟩ (if op.holds x y b = true then forward (⟨goals, barrier⟩ :: bodies) b cs
      (steps + 1) else back cs (steps + 1)) = _ at h
    by_cases hop : op.holds x y b = true
    · rw [if_pos hop] at h
      obtain ⟨m, r, hr, hl⟩ := forward_afterFirst hk hb hg h
      refine ⟨m + 1, r, ?_, hl⟩
      change (if op.holds x y b = true then afterFirst limits store once m goals bodies b copies else _) = some r
      rw [if_pos hop]
      exact hr m (Nat.le_refl m)
    · rw [if_neg hop] at h
      refine ⟨1, .fails copies, ?_, leaves_fails h⟩
      change (if op.holds x y b = true then _ else some (Outcome.fails copies)) = _
      rw [if_neg hop]
  | not inner => exact not_simulates hk hb hg hl hn hgoal h
  | collect kind template inner result => exact collect_simulates hk hb hg hl hn hgoal h
  | assert head body => cases hgoal
  | retract head body => cases hgoal

theorem answer_simulates
    (h : run limits n once (k + 1) ⟨store, copies⟩ (forward [] b cs steps) = some (answers, final)) :
    ∃ m r, follow limits store m (top once) [] b copies = some r ∧
      Leaves limits store n once (k + 1) [] cs r answers final := by
  obtain ⟨⟨as, final⟩, hrun, heq⟩ := Option.map_eq_some_iff.mp h
  cases heq
  refine ⟨0, _, rfl, ?_⟩
  cases once with
  | false => exact ⟨k, Nat.le_succ k, steps, as, rfl, hrun⟩
  | true =>
    change GoesBack limits store n true (k + 1) (kept 0 cs) _ _ _
    rw [show kept 0 cs = [] by simp [kept]]
    exact ⟨k, Nat.le_succ k, steps, as, rfl, hrun⟩

theorem simulates (hl : limits.maxInferences = none) (ho : store.Ordered) (hs : store.IsStatic) (n : Nat) (once : Bool)
    (k : Nat) : Simulates limits store n once k := by
  induction n using Nat.strongRecOn generalizing once k with
  | _ n hn =>
    induction k using Nat.strongRecOn with
    | _ k hk =>
      cases k with
      | zero =>
        intro bodies b cs steps copies answers final _ _ h
        cases h
      | succ k =>
        intro bodies b cs steps copies answers final hb hg h
        -- a body that is done takes no turn, so here the induction is on the bodies
        induction bodies with
        | nil => exact answer_simulates h
        | cons body bodies ih =>
          obtain ⟨goals, barrier⟩ := body
          cases goals with
          | nil =>
            obtain ⟨m, r, hr, hl⟩ := ih (hb.2.mono hb.1) (fun body hbody => hg body (by simp [hbody])) h
            refine ⟨m + 1, r.enter, ?_, hl.enter ⟨[], barrier⟩⟩
            change (follow limits store (m + 1) (top once) bodies b copies).map Outcome.enter = _
            rw [(follow_le (Nat.le_succ m) _ _ _ _).eq_some hr]
            rfl
          | cons g goals =>
            have hstatic : Goal.isStaticAll (g :: goals) = true := hg ⟨g :: goals, barrier⟩ (by simp)
            rw [Goal.isStaticAll, Bool.and_eq_true] at hstatic
            have hg₁ (body : Body) (hbody : body ∈ ⟨goals, barrier⟩ :: bodies) : Goal.isStaticAll body.goals = true := by
              rcases List.mem_cons.mp hbody with rfl | hbody
              · exact hstatic.2
              · exact hg body (by simp [hbody])
            have hb₁ : Nested cs.length (⟨goals, barrier⟩ :: bodies) := hb
            obtain ⟨m, r, hr, hl⟩ := goal_simulates hl ho hs hn (fun j hj => hk j (Nat.lt_succ_of_le hj)) hb₁ hstatic.1
              hg₁ h
            exact ⟨m, r, hr, hl.mono (Nat.le_succ k)⟩

end Steps

end Search

namespace Resolution

/-- The clauses `p`, `p` and `q :- p, !`. -/
def firstOfTwo : Store :=
  ((Store.empty.add ⟨⟨"p", []⟩, []⟩).add ⟨⟨"p", []⟩, []⟩).add ⟨⟨"q", []⟩, [.call ⟨"p", []⟩, .cut]⟩

end Resolution
end BilingualLogic
