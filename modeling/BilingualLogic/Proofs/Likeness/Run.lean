import BilingualLogic.Proofs.Likeness.Search

/-!
Pulls from searches that are alike return alike answers, with the same effort. Where names on the two sides differ,
this holds of searches that assert and retract nothing, since clauses keep the names they are asserted with.
-/

namespace BilingualLogic

section Pulls

variable {α σ : Type} {next : World → σ → Bounded (Option α × World × σ)}

/-- Pulls so many times, also after the last answer. -/
def pulls (next : World → σ → Bounded (Option α × World × σ)) : Nat → World → σ → Bounded (List (Option α) × World × σ)
  | 0, w, s => some ([], w, s)
  | k + 1, w, s => (next w s).bind fun (a, w, s) => (pulls next k w s).map fun (as, w, s) => (a :: as, w, s)

/-- What holds between two states after each pull holds after any number of them. -/
theorem pulls_rel {R : Option α → Option α → Prop} {P : World × σ → World × σ → Prop}
    (hnext : ∀ {w w' s s'}, P (w, s) (w', s') →
      Option.Rel (fun r r' => R r.1 r'.1 ∧ P r.2 r'.2) (next w s) (next w' s')) (k : Nat) {w w' : World} {s s' : σ}
    (h : P (w, s) (w', s')) :
    Option.Rel (fun r r' => List.Forall₂ R r.1 r'.1 ∧ P r.2 r'.2) (pulls next k w s) (pulls next k w' s') := by
  induction k generalizing w w' s s' with
  | zero => exact .some ⟨.nil, h⟩
  | succ k ih =>
    rw [pulls, pulls]
    refine Option.Rel.bind (hnext h) fun r r' hr => ?_
    exact Option.Rel.map (ih hr.2) fun _ _ ht => ⟨.cons hr.1 ht.1, ht.2⟩

end Pulls

namespace Search

variable {L : Likeness} {limits : Limits} {n : Nat} {w w' : World} {s s' : Search}

/-- If clauses are asserted or retracted, names correspond to themselves only. -/
def Guards (L : Likeness) (limits : Limits) (toEnd : Bool) (w : World) (s : Search) : Prop :=
  Edits limits toEnd w s → ∀ x y, L.names x y → x = y

inductive Turn.Alike (L : Likeness) : Turn → Turn → Prop
  | goes {w w' : World} {s s' : Search} : w.Alike L w' → s.Alike L s' → Alike L (.goes w s) (.goes w' s')
  | stops {answer answer' : Option Substitution} {w w' : World} {s s' : Search} :
    Option.Rel (Substitution.Alike L) answer answer' → w.Alike L w' → s.Alike L s' →
    Alike L (.stops answer w s) (.stops answer' w' s')

/-- A pull and what is left of the search after it. -/
structure AlikePull (L : Likeness) (r r' : Option Substitution × World × Search) : Prop where
  answer : Option.Rel (Substitution.Alike L) r.1 r'.1
  world : r.2.1.Alike L r'.2.1
  search : r.2.2.Alike L r'.2.2

structure AlikeGathering (L : Likeness) (r r' : List Term × World × Search) : Prop where
  terms : List.Forall₂ (Term.Alike L) r.1 r'.1
  world : r.2.1.Alike L r'.2.1
  search : r.2.2.Alike L r'.2.2

def PullsAlike (L : Likeness) (limits : Limits) (n : Nat) : Prop :=
  ∀ {w w' s s'}, World.Alike L w w' → Alike L s s' → Guards L limits false w s →
    Option.Rel (AlikePull L) (next limits n w s) (next limits n w' s')

def GatheringsAlike (L : Likeness) (limits : Limits) (n : Nat) : Prop :=
  ∀ {w w' s s' t t' done done'}, World.Alike L w w' → Alike L s s' → Guards L limits true w s →
    Term.Alike L t t' → List.Forall₂ (Term.Alike L) done done' →
    Option.Rel (AlikeGathering L) (gather limits n w s t done) (gather limits n w' s' t' done')

section Turns

variable (hL : L.Proper)

include hL

theorem backTurn_alike (hw : w.Alike L w') (hs : s.Alike L s') :
    Option.Rel (Turn.Alike L) (backTurn n w s) (backTurn n w' s') := by
  rw [backTurn, backTurn, hs.choices.height]
  refine Option.Rel.map (retry_alike hL hw.store hs.choices.stack hw.ahead _) ?_
  rintro ⟨m, found⟩ ⟨m', found'⟩ ⟨hm, hfound⟩
  cases hfound with
  | none => exact .stops .none ⟨hw.store, hm⟩ ⟨hs.current, Choices.alike_empty, hs.steps, hs.error⟩
  | some h => exact .goes ⟨hw.store, hm⟩ ⟨.some h.1, h.2, hs.steps, hs.error⟩

variable (hnext : PullsAlike L limits n) (hgather : GatheringsAlike L limits n)

include hnext hgather

/-- The search is the one that has counted the goal; `hguard` is about it before. -/
theorem goalTurn_alike {f f' : Frame} {fs fs' : List Frame} {b b' : Substitution} (hw : w.Alike L w')
    (hs : s.Alike L s') (hf : f.Alike L f') (hb : Branch.Alike L ⟨fs, b⟩ ⟨fs', b'⟩) (he : s.error = none)
    (hc : s.current = some ⟨f :: fs, b⟩) (hx : excess limits (s.steps + 1) = none) {toEnd : Bool}
    (hguard : Guards L limits toEnd w s) :
    Option.Rel (Turn.Alike L) (goalTurn limits n w s.counted f fs b) (goalTurn limits n w' s'.counted f' fs' b') := by
  have hs' := hs.counted
  have hsteps : s'.counted.steps = s.counted.steps := hs'.steps.symm
  have hsimple := simpleStep_alike (n := n) hL limits hw hs' hf hb fun hedit => hguard (.here he hc hx hedit)
  obtain ⟨g, barrier⟩ := f
  obtain ⟨g', barrier'⟩ := f'
  obtain ⟨hg, hbarrier⟩ := hf
  dsimp only at hg
  cases hg with
  | not hgoals =>
    simp only [goalTurn]
    rw [hsteps]
    refine Option.Rel.map (hnext hw (alike_start hgoals hb.bindings _) fun h => hguard (.negation he hc hx h)) ?_
    rintro ⟨answer, w, inner⟩ ⟨answer', w', inner'⟩ ⟨hanswer, hw, hinner⟩
    dsimp only at hanswer hw hinner ⊢
    rw [hinner.steps, hinner.error]
    have hs := hs'.withSteps inner'.steps
    cases inner'.error with
    | some e => exact .stops .none hw (hs.failWith e)
    | none =>
      cases hanswer with
      | none => exact .goes hw (hs.succeed hb)
      | some _ => exact .goes hw hs
  | @collect kind _ _ _ _ _ _ ht hgoals hr =>
    simp only [goalTurn]
    rw [hsteps]
    refine Option.Rel.bind (hgather hw (alike_start hgoals hb.bindings _)
      (fun h => hguard (.collection he hc hx h)) ht .nil) ?_
    rintro ⟨terms, w, inner⟩ ⟨terms', w', inner'⟩ ⟨hterms, hw, hinner⟩
    dsimp only at hterms hw hinner ⊢
    rw [hinner.steps, hinner.error]
    have hs := hs'.withSteps inner'.steps
    cases inner'.error with
    | some e => exact .some (.stops .none hw (hs.failWith e))
    | none =>
      have hlist := Term.Alike.list (kind.arrange_alike hL.names hterms)
      refine Option.Rel.map (unify_alike hL.names n hr hlist hb.bindings) fun _ _ h => ?_
      cases h with
      | none => exact .goes hw hs
      | some h => exact .goes hw (hs.succeed ⟨hb.goals, h⟩)
  | _ =>
    simp only [goalTurn]
    exact Option.Rel.map hsimple fun _ _ h => .goes h.world h.search

theorem turn_alike_of (hw : w.Alike L w') (hs : s.Alike L s') {toEnd : Bool} (hguard : Guards L limits toEnd w s) :
    Option.Rel (Turn.Alike L) (turn limits n w s) (turn limits n w' s') := by
  rw [turn, turn, ← hs.error]
  split
  · exact .some (.stops .none hw hs)
  · have he : s.error = none := by simpa using ‹¬ s.error.isSome = true›
    have hcurrent := hs.current
    cases hc : s.current with
    | none =>
      rw [hc] at hcurrent
      generalize s'.current = c' at hcurrent ⊢
      cases hcurrent
      exact backTurn_alike hL hw hs
    | some branch =>
      rw [hc] at hcurrent
      generalize s'.current = c' at hcurrent ⊢
      cases hcurrent with
      | @some _ branch' hbranch =>
        obtain ⟨fs, b⟩ := branch
        obtain ⟨fs', b'⟩ := branch'
        obtain ⟨hgoals, hb⟩ := hbranch
        cases hgoals with
        | nil => exact .some (.stops (.some hb) hw ⟨.none, hs.choices, hs.steps, rfl⟩)
        | cons hf hfs =>
          dsimp only
          rw [← hs.steps]
          cases hx : excess limits (s.steps + 1) with
          | some e => exact .some (.stops .none hw (hs.counted.failWith e))
          | none => exact goalTurn_alike hL hnext hgather hw hs hf ⟨hfs, hb⟩ he hc hx hguard

end Turns

theorem pulls_gatherings_alike (hL : L.Proper) (limits : Limits) (n : Nat) :
    PullsAlike L limits n ∧ GatheringsAlike L limits n := by
  induction n with
  | zero =>
    constructor
    · intro w w' s s' _ _ _
      exact .none
    · intro w w' s s' t t' done done' _ _ _ _ _
      exact .none
  | succ n ih =>
    constructor
    · intro w w' s s' hw hs hguard
      rw [next_succ, next_succ]
      have hturn := turn_alike_of hL ih.1 ih.2 hw hs hguard
      cases ht : turn limits n w s with
      | none =>
        rw [ht] at hturn
        generalize turn limits n w' s' = r at hturn ⊢
        cases hturn
        exact .none
      | some t =>
        rw [ht] at hturn
        generalize turn limits n w' s' = r at hturn ⊢
        cases hturn with
        | some h =>
          cases h with
          | goes hw₁ hs₁ => exact ih.1 hw₁ hs₁ fun h => hguard (.later ht h)
          | stops hanswer hw₁ hs₁ => exact .some ⟨hanswer, hw₁, hs₁⟩
    · intro w w' s s' t t' done done' hw hs hguard ht hdone
      rw [gather_succ, gather_succ]
      have hpull := ih.1 hw hs fun h => hguard h.toEnd
      cases hn : next limits n w s with
      | none =>
        rw [hn] at hpull
        generalize next limits n w' s' = r at hpull ⊢
        cases hpull
        exact .none
      | some r =>
        rw [hn] at hpull
        obtain ⟨answer, w₁, s₁⟩ := r
        generalize next limits n w' s' = r at hpull ⊢
        cases hpull with
        | @some _ r' h =>
          obtain ⟨answer', w₁', s₁'⟩ := r'
          obtain ⟨hanswer, hw₁, hs₁⟩ := h
          cases hanswer with
          | none => exact .some ⟨List.rel_reverse hdone, hw₁, hs₁⟩
          | some hb =>
            exact ih.2 hw₁ hs₁ (fun h => hguard (h.of_pull hn)) ht (.cons (hb.resolve hL.names ht) hdone)

theorem next_alike (hL : L.Proper) (n : Nat) (hw : w.Alike L w') (hs : s.Alike L s')
    (hguard : Guards L limits false w s) :
    Option.Rel (AlikePull L) (next limits n w s) (next limits n w' s') :=
  (pulls_gatherings_alike hL limits n).1 hw hs hguard

end Search
end BilingualLogic
