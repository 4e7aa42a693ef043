import BilingualLogic.Proofs.Search.Turn
import BilingualLogic.Proofs.Store.Contents

/-!
The moments of a pull: where it stands before each of its turns, and before those of the searches that are nested in
it. What all clauses and all goals that are left have, and what no single step loses, they have at every moment.
-/

namespace BilingualLogic

/-- The goals that are proved by a search inside the one that proves the goal. -/
def Goal.inner? : Goal → Option (List Goal)
  | .not goals => some goals
  | .collect _ _ goals _ => some goals
  | _ => none

namespace Search

variable {limits : Limits} {n : Nat} {w w' : World} {s s' : Search}

/-- What a turn of a pull has for its world. -/
def Turn.world : Turn → World
  | goes w _ => w
  | stops _ w _ => w

def Turn.search : Turn → Search
  | goes _ s => s
  | stops _ _ s => s

def Turn.goesOn : Turn → Bool
  | goes _ _ => true
  | stops _ _ _ => false

/-- A pull from the first world and search takes a turn from the second ones, in the search itself or in one that is
nested in it. It is pulled once, or to its end; then it goes on after its answers. -/
inductive Visits (limits : Limits) : Bool → World → Search → World → Search → Prop
  | here {toEnd : Bool} {w : World} {s : Search} : Visits limits toEnd w s w s
  | negation {toEnd : Bool} {barrier : Nat} {w w' : World} {s s' : Search} {goals : List Goal} {rest : List Frame}
    {b : Substitution} :
    s.error = none → s.current = some ⟨⟨.not goals, barrier⟩ :: rest, b⟩ → excess limits (s.steps + 1) = none →
      Visits limits false w (start goals b (s.steps + 1)) w' s' → Visits limits toEnd w s w' s'
  | collection {toEnd : Bool} {barrier : Nat} {w w' : World} {s s' : Search} {kind : Collection} {t r : Term}
    {goals : List Goal} {rest : List Frame} {b : Substitution} :
    s.error = none → s.current = some ⟨⟨.collect kind t goals r, barrier⟩ :: rest, b⟩ →
      excess limits (s.steps + 1) = none → Visits limits true w (start goals b (s.steps + 1)) w' s' →
      Visits limits toEnd w s w' s'
  | later {toEnd : Bool} {n : Nat} {w w₁ w' : World} {s s₁ s' : Search} :
    turn limits n w s = some (.goes w₁ s₁) → Visits limits toEnd w₁ s₁ w' s' → Visits limits toEnd w s w' s'
  | resumed {n : Nat} {w w₁ w' : World} {s s₁ s' : Search} {b : Substitution} :
    turn limits n w s = some (.stops (some b) w₁ s₁) → Visits limits true w₁ s₁ w' s' → Visits limits true w s w' s'

section Goals

variable {Q : Goal → Prop} {fs : List Frame} {b : Substitution}

def FramesHave (Q : Goal → Prop) (fs : List Frame) : Prop := ∀ f ∈ fs, Q f.goal

def ChoiceHas (Q : Goal → Prop) : Choice → Prop
  | .clauses _ _ rest _ => FramesHave Q rest
  | .answers _ rest => FramesHave Q rest

/-- All goals that are left have the property. -/
structure Has (Q : Goal → Prop) (s : Search) : Prop where
  current : ∀ b, s.current = some b → FramesHave Q b.goals
  choices : ∀ c ∈ s.choices.stack, ChoiceHas Q c

theorem framesHave_frames {barrier : Nat} {goals : List Goal} (h : ∀ g ∈ goals, Q g) (hfs : FramesHave Q fs) :
    FramesHave Q (frames barrier goals fs) :=
  List.forall_mem_append.mpr ⟨List.forall_mem_map.mpr h, hfs⟩

theorem has_start {goals : List Goal} (h : ∀ g ∈ goals, Q g) (b : Substitution) (steps : Nat) :
    (start goals b steps).Has Q :=
  ⟨fun _ hb => by cases hb; exact framesHave_frames h (by simp [FramesHave]), by simp [start, Choices.empty]⟩

theorem has_true (s : Search) : s.Has fun _ => True :=
  ⟨fun _ _ _ _ => trivial, fun c _ => by cases c <;> exact fun _ _ => trivial⟩

theorem Has.succeed (h : s.Has Q) (hfs : FramesHave Q fs) (b : Substitution) : (s.succeed fs b).Has Q :=
  ⟨fun _ hb => by cases hb; exact hfs, h.choices⟩

theorem Has.cut (h : s.Has Q) (hfs : FramesHave Q fs) (b : Substitution) (barrier : Nat) :
    (s.cut barrier fs b).Has Q :=
  ⟨fun _ hb => by cases hb; exact hfs, fun c hc => h.choices c (List.mem_of_mem_drop hc)⟩

theorem has_failWith (s : Search) (e : Error) : (s.failWith e).Has Q :=
  ⟨by simp [failWith], by simp [failWith, Choices.empty]⟩

theorem Has.offerOrFail (h : s.Has Q) (hfs : FramesHave Q fs) (r : Except Error (List Substitution)) :
    (s.offerOrFail fs r).Has Q := by
  match r with
  | .error e => exact has_failWith s e
  | .ok [] => exact h
  | .ok [b] => exact h.succeed hfs b
  | .ok (b :: b' :: bs) =>
    exact ⟨fun _ hb => by cases hb; exact hfs, List.forall_mem_cons.mpr ⟨hfs, h.choices⟩⟩

theorem Has.counted (h : s.Has Q) : s.counted.Has Q := ⟨by simp [Search.counted], h.choices⟩

theorem Has.withSteps (h : s.Has Q) (steps : Nat) : ({ s with steps } : Search).Has Q := ⟨h.current, h.choices⟩

def FoundHas (Q : Goal → Prop) (found : Option (Branch × Choices)) : Prop :=
  ∀ x, found = some x → FramesHave Q x.1.goals ∧ ∀ c ∈ x.2.stack, ChoiceHas Q c

theorem Has.foundSearch (h : s.Has Q) {found : Option (Branch × Choices)} (hfound : FoundHas Q found) :
    (s.foundSearch found).Has Q := by
  cases found with
  | none => exact h
  | some x =>
    obtain ⟨hbranch, hchoices⟩ := hfound x rfl
    exact ⟨fun _ hb => by cases hb; exact hbranch, hchoices⟩

end Goals

/-- What the stores have and the goals that are left have, no step loses. -/
structure Lasting (I : Store → Prop) (Q : Goal → Prop) : Prop where
  assert {s : Store} {head : Predicate} {body : List Goal} (b : Substitution) : I s → Q (.assert head body) →
    I (s.add ⟨head.mapTerms b.resolve, Goal.mapTermsAll b.resolve body⟩)
  retractHead {n : Nat} {s s' : Store} {p head : Predicate} {removed : Bool} : I s → Q (.retract head []) →
    s.retractHead n p = some (removed, s') → I s'
  retractClause {s : Store} {head : Predicate} {body : List Goal} (c : Clause) : I s → Q (.retract head body) →
    I (s.retractClause c).2
  copy {s : Store} {k : Key} {c : StoredClause} (m : Nat) : I s → c ∈ s.storedClauses k →
    ∀ g ∈ (c.clause.rename m).body, Q g
  inner {g : Goal} {goals : List Goal} : Q g → g.inner? = some goals → ∀ h ∈ goals, Q h

theorem Lasting.of_clauses {R : Clause → Prop} {Q : Goal → Prop}
    (assert : ∀ {head body} (f : Term → Term), Q (.assert head body) → R ⟨head.mapTerms f, Goal.mapTermsAll f body⟩)
    (copy : ∀ {c : Clause} (m : Nat), R c → ∀ g ∈ (c.rename m).body, Q g)
    (inner : ∀ {g : Goal} {goals : List Goal}, Q g → g.inner? = some goals → ∀ h ∈ goals, Q h) :
    Lasting (·.All R) Q where
  assert b hs hg := hs.add (assert b.resolve hg)
  retractHead hs _ hr := hs.retractHead hr
  retractClause c hs _ := hs.retractClause c
  copy m hs hc := copy m (hs.storedClauses hc)
  inner := inner

/-- Being built is kept whatever the goals. -/
theorem lasting_built : Lasting Store.Built fun _ => True where
  assert _ hs _ := hs.add _
  retractHead hs _ hr := hs.retractHead hr
  retractClause c hs _ := hs.retractClause c
  copy _ _ _ _ _ := trivial
  inner _ _ _ _ := trivial

section Lasting

variable {I : Store → Prop} {Q : Goal → Prop} {store : Store} {p : Predicate} {fs : List Frame} {b : Substitution}

theorem Lasting.tryClauses {cs : Choices} {ds : List StoredClause}
    (hds : ∀ d ∈ ds, ∀ m, ∀ g ∈ (d.clause.rename m).body, Q g) (hfs : FramesHave Q fs)
    (hcs : ∀ c ∈ cs.stack, ChoiceHas Q c) {m m' : Nat} {found : Option (Branch × Choices)}
    (h : tryClauses n p fs b cs m ds = some (m', found)) : FoundHas Q found := by
  induction ds generalizing m with
  | nil =>
    cases h
    simp [FoundHas]
  | cons d ds ih =>
    obtain ⟨hd, hds⟩ := List.forall_mem_cons.mp hds
    rw [Search.tryClauses] at h
    split at h
    · cases h
    · cases h
      rintro _ ⟨⟩
      exact ⟨framesHave_frames (hd m) hfs, List.forall_mem_cons.mpr ⟨hfs, hcs⟩⟩
    · exact ih hds h

theorem Lasting.copies (hl : Lasting I Q) (hstore : I store) (k : Key) (after : Option Nat) :
    ∀ d ∈ store.clausesAfter k after, ∀ m, ∀ g ∈ (d.clause.rename m).body, Q g := by
  intro d hd m
  cases after with
  | none => exact hl.copy m hstore hd
  | some id => exact hl.copy m hstore ((List.dropWhile_suffix _).subset hd)

theorem Lasting.retry (hl : Lasting I Q) (hstore : I store) {cs : List Choice} (hcs : ∀ c ∈ cs, ChoiceHas Q c)
    {m m' height : Nat} {found : Option (Branch × Choices)} (h : retry n store m height cs = some (m', found)) :
    FoundHas Q found := by
  induction cs generalizing m height with
  | nil =>
    cases h
    simp [FoundHas]
  | cons c cs ih =>
    obtain ⟨hc, hrest⟩ := List.forall_mem_cons.mp hcs
    match c with
    | .answers [] fs => exact ih hrest h
    | .answers [b] fs =>
      cases h
      rintro _ ⟨⟩
      exact ⟨hc, hrest⟩
    | .answers (b :: b' :: bs) fs =>
      cases h
      rintro _ ⟨⟩
      exact ⟨hc, List.forall_mem_cons.mpr ⟨hc, hrest⟩⟩
    | .clauses p after fs b =>
      rw [Search.retry] at h
      split at h
      · cases h
      · next htry =>
        cases h
        exact Lasting.tryClauses (hl.copies hstore _ _) hc hrest htry
      · exact ih hrest h

theorem Lasting.call (hl : Lasting I Q) (hstore : I w.store) (hs : s.Has Q) (hfs : FramesHave Q fs) {barrier : Nat}
    (h : call limits n w s p barrier fs b = some (w', s')) : w'.store = w.store ∧ s'.Has Q := by
  unfold Search.call at h
  split at h
  · cases h
    exact ⟨rfl, hs.cut hfs b barrier⟩
  · cases h
    exact ⟨rfl, hs.succeed hfs b⟩
  · cases h
    exact ⟨rfl, hs⟩
  · obtain ⟨bs, _, h⟩ := Option.map_eq_some_iff.mp h
    cases h
    exact ⟨rfl, hs.offerOrFail hfs (.ok bs)⟩
  · obtain ⟨r, _, h⟩ := Option.map_eq_some_iff.mp h
    cases h
    exact ⟨rfl, hs.offerOrFail hfs r⟩
  · obtain ⟨r, _, h⟩ := Option.map_eq_some_iff.mp h
    cases h
    exact ⟨rfl, hs.offerOrFail hfs r⟩
  · obtain ⟨r, _, h⟩ := Option.map_eq_some_iff.mp h
    cases r <;> cases h
    · exact ⟨rfl, hs⟩
    · exact ⟨rfl, hs.succeed hfs _⟩
  · rw [callClauses_eq] at h
    obtain ⟨⟨m, found⟩, htry, h⟩ := Option.map_eq_some_iff.mp h
    cases h
    exact ⟨rfl, hs.foundSearch (Lasting.tryClauses (hl.copies hstore _ none) hfs hs.choices htry)⟩

theorem Lasting.simpleStep (hl : Lasting I Q) (hstore : I w.store) (hs : s.Has Q) {f : Frame} (hf : Q f.goal)
    (hfs : FramesHave Q fs) (h : simpleStep limits n w s f fs b = some (w', s')) : I w'.store ∧ s'.Has Q := by
  obtain ⟨g, barrier⟩ := f
  cases g with
  | call p =>
    obtain ⟨hw', hs'⟩ := hl.call hstore hs hfs h
    exact ⟨hw' ▸ hstore, hs'⟩
  | cut =>
    cases h
    exact ⟨hstore, hs.cut hfs b barrier⟩
  | unify _ _ | is _ _ =>
    obtain ⟨r, _, h⟩ := Option.map_eq_some_iff.mp h
    cases r <;> cases h
    · exact ⟨hstore, hs⟩
    · exact ⟨hstore, hs.succeed hfs _⟩
  | compare _ _ _ =>
    cases h
    refine ⟨hstore, ?_⟩
    split
    · exact hs.succeed hfs b
    · exact hs
  | assert head body =>
    cases h
    exact ⟨hl.assert b hstore hf, hs.succeed hfs b⟩
  | retract head body =>
    cases body with
    | nil =>
      obtain ⟨⟨removed, store⟩, hr, h⟩ := Option.map_eq_some_iff.mp h
      cases h
      refine ⟨hl.retractHead hstore hf hr, ?_⟩
      split
      · exact hs.succeed hfs b
      · exact hs
    | cons g gs =>
      cases h
      refine ⟨hl.retractClause _ hstore hf, ?_⟩
      split
      · exact hs.succeed hfs b
      · exact hs
  | not _ | collect _ _ _ _ =>
    cases h
    exact ⟨hstore, hs⟩

/-- Pulls lose nothing of what stores and goals have. -/
structure PullsLast (I : Store → Prop) (Q : Goal → Prop) (limits : Limits) (n : Nat) : Prop where
  next {w w' : World} {s s' : Search} {answer : Option Substitution} : I w.store → s.Has Q →
    next limits n w s = some (answer, w', s') → I w'.store ∧ s'.Has Q
  gather {w w' : World} {s s' : Search} {t : Term} {done ts : List Term} : I w.store → s.Has Q →
    gather limits n w s t done = some (ts, w', s') → I w'.store

theorem Lasting.turn_of (hl : Lasting I Q) (hn : PullsLast I Q limits n) (hstore : I w.store) (hs : s.Has Q) {t : Turn}
    (ht : turn limits n w s = some t) : I t.world.store ∧ t.search.Has Q := by
  unfold Search.turn at ht
  split at ht
  · cases ht
    exact ⟨hstore, hs⟩
  · split at ht
    · obtain ⟨⟨m, found⟩, hretry, ht⟩ := Option.map_eq_some_iff.mp ht
      have hfound := hl.retry hstore hs.choices hretry
      cases found with
      | none =>
        cases ht
        exact ⟨hstore, hs.current, by simp [Turn.search, Choices.empty]⟩
      | some x =>
        cases ht
        exact ⟨hstore, hs.foundSearch hfound⟩
    · cases ht
      exact ⟨hstore, by simp [Turn.search], hs.choices⟩
    · next f fs b hcurrent =>
      obtain ⟨hf, hfs⟩ := List.forall_mem_cons.mp (hs.current _ hcurrent)
      split at ht
      · cases ht
        exact ⟨hstore, has_failWith _ _⟩
      · obtain ⟨g, barrier⟩ := f
        unfold goalTurn at ht
        split at ht
        · next goals hgoal =>
          obtain rfl : g = .not goals := hgoal
          obtain ⟨⟨answer, w₁, inner⟩, hi, ht⟩ := Option.map_eq_some_iff.mp ht
          have hw₁ := (hn.next hstore (has_start (hl.inner hf rfl) b _) hi).1
          have hs₁ := hs.counted.withSteps inner.steps
          dsimp only at ht
          split at ht <;> cases ht
          · exact ⟨hw₁, has_failWith _ _⟩
          · exact ⟨hw₁, hs₁⟩
          · exact ⟨hw₁, hs₁.succeed hfs b⟩
        · next kind template goals result hgoal =>
          obtain rfl : g = .collect kind template goals result := hgoal
          obtain ⟨⟨terms, w₁, inner⟩, hi, ht⟩ := Option.bind_eq_some_iff.mp ht
          have hw₁ := hn.gather hstore (has_start (hl.inner hf rfl) b _) hi
          have hs₁ := hs.counted.withSteps inner.steps
          dsimp only at ht
          split at ht
          · cases ht
            exact ⟨hw₁, has_failWith _ _⟩
          · obtain ⟨r, _, ht⟩ := Option.map_eq_some_iff.mp ht
            cases r <;> cases ht
            · exact ⟨hw₁, hs₁⟩
            · exact ⟨hw₁, hs₁.succeed hfs _⟩
        · obtain ⟨⟨w₁, s₁⟩, hstep, ht⟩ := Option.map_eq_some_iff.mp ht
          cases ht
          exact hl.simpleStep hstore hs.counted hf hfs hstep

theorem Lasting.pulls (hl : Lasting I Q) (limits : Limits) (n : Nat) : PullsLast I Q limits n := by
  induction n with
  | zero =>
    constructor
    · intro _ _ _ _ _ _ _ hn
      cases hn
    · intro _ _ _ _ _ _ _ _ _ hg
      cases hg
  | succ n ih =>
    constructor
    · intro w w' s s' answer hstore hs hn
      rw [next_succ] at hn
      obtain ⟨t, ht, hn⟩ := Option.bind_eq_some_iff.mp hn
      obtain ⟨hw₁, hs₁⟩ := hl.turn_of ih hstore hs ht
      cases t with
      | goes w₁ s₁ => exact ih.next hw₁ hs₁ hn
      | stops answer w₁ s₁ =>
        cases hn
        exact ⟨hw₁, hs₁⟩
    · intro w w' s s' t done ts hstore hs hg
      rw [gather_succ] at hg
      obtain ⟨⟨answer, w₁, s₁⟩, hn, hg⟩ := Option.bind_eq_some_iff.mp hg
      obtain ⟨hw₁, hs₁⟩ := ih.next hstore hs hn
      cases answer with
      | none =>
        cases hg
        exact hw₁
      | some b => exact ih.gather hw₁ hs₁ hg

theorem Lasting.turn (hl : Lasting I Q) (hstore : I w.store) (hs : s.Has Q) {t : Turn}
    (ht : turn limits n w s = some t) : I t.world.store ∧ t.search.Has Q :=
  hl.turn_of (hl.pulls limits n) hstore hs ht

theorem Lasting.visits (hl : Lasting I Q) {toEnd : Bool} (hv : Visits limits toEnd w s w' s') (hstore : I w.store)
    (hs : s.Has Q) : I w'.store ∧ s'.Has Q := by
  induction hv with
  | here => exact ⟨hstore, hs⟩
  | negation _ hc _ _ ih =>
    have hgoal := hs.current _ hc _ (List.mem_cons_self ..)
    exact ih hstore (has_start (hl.inner hgoal rfl) _ _)
  | collection _ hc _ _ ih =>
    have hgoal := hs.current _ hc _ (List.mem_cons_self ..)
    exact ih hstore (has_start (hl.inner hgoal rfl) _ _)
  | later ht _ ih =>
    obtain ⟨hw₁, hs₁⟩ := hl.turn hstore hs ht
    exact ih hw₁ hs₁
  | resumed ht _ ih =>
    obtain ⟨hw₁, hs₁⟩ := hl.turn hstore hs ht
    exact ih hw₁ hs₁

end Lasting

end Search
end BilingualLogic
