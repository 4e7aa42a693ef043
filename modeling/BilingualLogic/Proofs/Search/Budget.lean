import BilingualLogic.Proofs.Definite.Derivation
import BilingualLogic.Proofs.Search.Primitives
import Mathlib.Data.Prod.Lex

/-!
A limit on the number of steps ends every search. Proving a goal takes a step; going back to a choice takes none, but
it leaves fewer clauses and answers to try, as long as no goal is proved in between. So the steps that are left come
first, and then what the choices hold.
-/

namespace BilingualLogic.Search

variable {limits : Limits} {max n : Nat} {w w' : World} {s s' : Search} {rest : List Frame} {b : Substitution}

theorem excess_eq_none (hmax : limits.maxInferences = some max) {steps : Nat} :
    excess limits steps = none ↔ steps ≤ max := by
  simp [excess, hmax]

section Steps

/-- A search that goes on has taken no more steps than the limit allows, one that has ended at most one more. -/
structure Within (max : Nat) (s : Search) : Prop where
  steps : s.steps ≤ max + 1
  running : s.error = none → s.steps ≤ max

theorem within_start {goals : List Goal} {steps : Nat} (h : steps ≤ max) : (start goals b steps).Within max :=
  ⟨Nat.le_succ_of_le h, fun _ => h⟩

theorem Within.of_le (h : s.steps ≤ max) : s.Within max := ⟨Nat.le_succ_of_le h, fun _ => h⟩

theorem within_failWith {e : Error} (h : s.steps ≤ max + 1) : (s.failWith e).Within max := ⟨h, nofun⟩

theorem steps_offerOrFail (s : Search) (rest : List Frame) (r : Except Error (List Substitution)) :
    (s.offerOrFail rest r).steps = s.steps := by
  match r with
  | .error _ | .ok [] | .ok [_] | .ok (_ :: _ :: _) => rfl

theorem call_steps {p : Predicate} {barrier : Nat} (h : call limits n w s p barrier rest b = some (w', s')) :
    s'.steps = s.steps := by
  unfold call at h
  split at h
  case h_4 | h_5 | h_6 =>
    obtain ⟨r, -, h⟩ := Option.map_eq_some_iff.mp h
    cases h
    first | exact steps_offerOrFail s rest (.ok r) | exact steps_offerOrFail s rest r
  case h_7 =>
    obtain ⟨r, -, h⟩ := Option.map_eq_some_iff.mp h
    cases r <;> cases h <;> rfl
  case h_8 =>
    rw [callClauses_eq] at h
    obtain ⟨⟨m, found⟩, -, h⟩ := Option.map_eq_some_iff.mp h
    cases found <;> cases h <;> rfl
  all_goals
    cases h
    rfl

theorem simpleStep_steps {f : Frame} (h : simpleStep limits n w s f rest b = some (w', s')) : s'.steps = s.steps := by
  obtain ⟨g, barrier⟩ := f
  cases g with
  | call p => exact call_steps h
  | unify _ _ | is _ _ =>
    obtain ⟨r, -, h⟩ := Option.map_eq_some_iff.mp h
    cases r <;> cases h <;> rfl
  | compare _ _ _ =>
    cases h
    split <;> rfl
  | retract head body =>
    cases body with
    | nil =>
      obtain ⟨⟨removed, store⟩, -, h⟩ := Option.map_eq_some_iff.mp h
      cases h
      cases removed <;> rfl
    | cons g gs =>
      cases h
      dsimp only
      split <;> rfl
  | _ =>
    cases h
    rfl

/-- Pulls count up, to one step more than the limit at most. -/
structure PullsCount (limits : Limits) (max n : Nat) : Prop where
  next {w w' : World} {s s' : Search} {answer : Option Substitution} : s.Within max →
    next limits n w s = some (answer, w', s') → s.steps ≤ s'.steps ∧ s'.Within max
  gather {w w' : World} {s s' : Search} {t : Term} {done ts : List Term} : s.Within max →
    gather limits n w s t done = some (ts, w', s') → s.steps ≤ s'.steps ∧ s'.Within max

theorem goalTurn_counts (hn : PullsCount limits max n) (hs : s.steps ≤ max) {f : Frame} {t : Turn}
    (ht : goalTurn limits n w s f rest b = some t) : s.steps ≤ t.search.steps ∧ t.search.Within max := by
  obtain ⟨g, barrier⟩ := f
  unfold goalTurn at ht
  split at ht
  · obtain ⟨⟨answer, w₁, inner⟩, hi, ht⟩ := Option.map_eq_some_iff.mp ht
    obtain ⟨hle, hinner⟩ := hn.next (within_start hs) hi
    dsimp only at ht
    split at ht
    · cases ht
      exact ⟨hle, within_failWith hinner.steps⟩
    · next he =>
      cases ht
      exact ⟨hle, .of_le (hinner.running he)⟩
    · next he =>
      cases ht
      exact ⟨hle, .of_le (hinner.running he)⟩
  · obtain ⟨⟨terms, w₁, inner⟩, hi, ht⟩ := Option.bind_eq_some_iff.mp ht
    obtain ⟨hle, hinner⟩ := hn.gather (within_start hs) hi
    dsimp only at ht
    split at ht
    · cases ht
      exact ⟨hle, within_failWith hinner.steps⟩
    · next he =>
      obtain ⟨r, -, ht⟩ := Option.map_eq_some_iff.mp ht
      cases r <;> cases ht <;> exact ⟨hle, .of_le (hinner.running he)⟩
  · obtain ⟨⟨w₁, s₁⟩, hstep, ht⟩ := Option.map_eq_some_iff.mp ht
    cases ht
    have heq := simpleStep_steps hstep
    exact ⟨Nat.le_of_eq heq.symm, .of_le (heq ▸ hs : s₁.steps ≤ max)⟩

theorem turn_counts_of (hmax : limits.maxInferences = some max) (hn : PullsCount limits max n) (hs : s.Within max)
    {t : Turn} (ht : turn limits n w s = some t) : s.steps ≤ t.search.steps ∧ t.search.Within max := by
  unfold turn at ht
  split at ht
  · cases ht
    exact ⟨Nat.le_refl _, hs⟩
  · next herror =>
    have hle : s.steps ≤ max := hs.running (by simpa using herror)
    split at ht
    · obtain ⟨⟨copies, found⟩, -, ht⟩ := Option.map_eq_some_iff.mp ht
      cases found <;> cases ht <;> exact ⟨Nat.le_refl _, .of_le hle⟩
    · cases ht
      exact ⟨Nat.le_refl _, .of_le hle⟩
    · split at ht
      · cases ht
        exact ⟨Nat.le_succ _, within_failWith (Nat.succ_le_succ hle)⟩
      · next hx =>
        obtain ⟨hsteps, hwithin⟩ := goalTurn_counts hn (s := s.counted) ((excess_eq_none hmax).mp hx) ht
        exact ⟨Nat.le_of_succ_le hsteps, hwithin⟩

theorem pulls_count (hmax : limits.maxInferences = some max) (n : Nat) : PullsCount limits max n := by
  induction n with
  | zero =>
    constructor
    · intro _ _ _ _ _ _ hn
      cases hn
    · intro _ _ _ _ _ _ _ _ hg
      cases hg
  | succ n ih =>
    constructor
    · intro w w' s s' answer hs hn
      rw [next_succ] at hn
      obtain ⟨t, ht, hn⟩ := Option.bind_eq_some_iff.mp hn
      obtain ⟨hle, hs₁⟩ := turn_counts_of hmax ih hs ht
      cases t with
      | goes w₁ s₁ =>
        obtain ⟨hle', hs'⟩ := ih.next hs₁ hn
        exact ⟨Nat.le_trans hle hle', hs'⟩
      | stops answer w₁ s₁ =>
        cases hn
        exact ⟨hle, hs₁⟩
    · intro w w' s s' t done ts hs hg
      rw [gather_succ] at hg
      obtain ⟨⟨answer, w₁, s₁⟩, hn, hg⟩ := Option.bind_eq_some_iff.mp hg
      obtain ⟨hle, hs₁⟩ := ih.next hs hn
      cases answer with
      | none =>
        cases hg
        exact ⟨hle, hs₁⟩
      | some b =>
        obtain ⟨hle', hs'⟩ := ih.gather hs₁ hg
        exact ⟨Nat.le_trans hle hle', hs'⟩

theorem turn_counts (hmax : limits.maxInferences = some max) (hs : s.Within max) {t : Turn}
    (ht : turn limits n w s = some t) : s.steps ≤ t.search.steps ∧ t.search.Within max :=
  turn_counts_of hmax (pulls_count hmax n) hs ht

theorem Within.visits (hmax : limits.maxInferences = some max) {toEnd : Bool} (hv : Visits limits toEnd w s w' s')
    (hs : s.Within max) : s'.Within max := by
  induction hv with
  | here => exact hs
  | negation _ _ hx _ ih => exact ih (within_start ((excess_eq_none hmax).mp hx))
  | collection _ _ hx _ ih => exact ih (within_start ((excess_eq_none hmax).mp hx))
  | later ht _ ih => exact ih (turn_counts hmax hs ht).2
  | resumed ht _ ih => exact ih (turn_counts hmax hs ht).2

end Steps

section Potential

variable {store : Store} {p : Predicate} {cs : List Choice}

/-- How much there is left to try; an answer or a clause counts for two, of which one pays for the branch that it
begins. -/
def choicePotential (store : Store) : Choice → Nat
  | .clauses call after _ _ => 2 * (store.clausesAfter call.key (some after)).length + 1
  | .answers pending _ => 2 * pending.length + 1

def potentialOf (store : Store) (cs : List Choice) : Nat := (cs.map (choicePotential store)).sum

def potential (store : Store) (s : Search) : Nat :=
  potentialOf store s.choices.stack + if s.current.isSome then 1 else 0

theorem tryClauses_some {choices choices' : Choices} {branch : Branch} {m m' : Nat} {ds : List StoredClause}
    (h : tryClauses n p rest b choices m ds = some (m', some (branch, choices'))) :
    ∃ before d after, ds = before ++ d :: after ∧ choices' = choices.push (.clauses p d.id rest b) := by
  induction ds generalizing m with
  | nil => cases h
  | cons d ds ih =>
    rw [tryClauses] at h
    split at h
    · cases h
    · cases h
      exact ⟨[], d, ds, rfl, rfl⟩
    · obtain ⟨before, e, after, rfl, hpush⟩ := ih h
      exact ⟨d :: before, e, after, rfl, hpush⟩

theorem tryClauses_potential (hstore : store.Ordered) {after : Nat} {height m m' : Nat} {choices : Choices}
    {branch : Branch} (h : tryClauses n p rest b ⟨cs, height⟩ m (store.clausesAfter p.key (some after)) =
      some (m', some (branch, choices))) :
    potentialOf store choices.stack + 1 < potentialOf store (.clauses p after rest b :: cs) := by
  obtain ⟨before, d, behind, heq, rfl⟩ := tryClauses_some h
  obtain ⟨front, hfront⟩ := List.dropWhile_suffix (l := store.storedClauses p.key) (fun c => decide (c.id ≤ after))
  have hbehind : store.clausesAfter p.key (some d.id) = behind := by
    have hstored : store.storedClauses p.key = (front ++ before) ++ d :: behind := by
      rw [← hfront, List.append_assoc, ← heq]
      rfl
    exact Store.clausesAfter_of_append hstore hstored
  have hlength : (store.clausesAfter p.key (some after)).length = before.length + (behind.length + 1) := by
    rw [heq, List.length_append, List.length_cons]
  simp only [potentialOf, Choices.push, List.map_cons, List.sum_cons, choicePotential, hbehind, hlength]
  omega

theorem retry_potential (hstore : store.Ordered) {m m' height : Nat} {branch : Branch} {choices : Choices}
    (h : retry n store m height cs = some (m', some (branch, choices))) :
    potentialOf store choices.stack + 1 < potentialOf store cs := by
  induction cs generalizing m height with
  | nil => cases h
  | cons c cs ih =>
    have hcons : potentialOf store (c :: cs) = choicePotential store c + potentialOf store cs := rfl
    match c with
    | .answers [] _ =>
      have hrest := ih h
      omega
    | .answers [b] _ =>
      cases h
      simp only [hcons, choicePotential, List.length_singleton]
      omega
    | .answers (b :: b' :: bs) _ =>
      cases h
      simp only [potentialOf, List.map_cons, List.sum_cons, choicePotential, List.length_cons]
      omega
    | .clauses p after rest b =>
      rw [retry] at h
      split at h
      · cases h
      · next htry =>
        cases h
        exact tryClauses_potential hstore htry
      · have hrest := ih h
        omega

end Potential

section Ending

/-- What a search has left: steps first, then choices. -/
def left (max : Nat) (w : World) (s : Search) : Nat ×ₗ Nat := toLex (max - s.steps, s.potential w.store)

theorem left_lt_of_steps (h : s.steps < s'.steps) (hle : s.steps < max) : left max w' s' < left max w s := by
  rw [left, left, Prod.Lex.toLex_lt_toLex]
  left
  dsimp only
  omega

theorem left_lt_of_potential (h : s'.steps = s.steps) (hlt : s'.potential w'.store < s.potential w.store) :
    left max w' s' < left max w s := by
  rw [left, left, Prod.Lex.toLex_lt_toLex]
  exact Or.inr ⟨by rw [h], hlt⟩

theorem turn_left (hmax : limits.maxInferences = some max) (hstore : w.store.Ordered) {t : Turn}
    (ht : turn limits n w s = some t) (hgoes : ∀ w' s', t ≠ .stops none w' s') :
    left max t.world t.search < left max w s := by
  unfold turn at ht
  split at ht
  · cases ht
    exact (hgoes _ _ rfl).elim
  · split at ht
    · next hcurrent =>
      obtain ⟨⟨copies, found⟩, hretry, ht⟩ := Option.map_eq_some_iff.mp ht
      cases found with
      | none =>
        cases ht
        exact (hgoes _ _ rfl).elim
      | some x =>
        cases ht
        refine left_lt_of_potential rfl ?_
        have hlt := retry_potential hstore hretry
        simp only [potential, Turn.search, Turn.world, hcurrent, Option.isSome_some, Option.isSome_none,
          Bool.false_eq_true, if_true, if_false]
        exact hlt
    · next hcurrent =>
      cases ht
      refine left_lt_of_potential rfl ?_
      simp [potential, Turn.search, Turn.world, hcurrent]
    · split at ht
      · cases ht
        exact (hgoes _ _ rfl).elim
      · next hx =>
        have hsteps : s.steps + 1 ≤ max := (excess_eq_none hmax).mp hx
        have hcounts := (goalTurn_counts (pulls_count hmax n) (s := s.counted) hsteps ht).1
        exact left_lt_of_steps hcounts hsteps

/-- Where the operations return, so does a pull, and so do all pulls to the end. -/
structure Ends (limits : Limits) (w : World) (s : Search) : Prop where
  next : (∀ op, Performs limits false w s op → op.Returns) → ∃ n r, next limits n w s = some r
  drain : (∀ op, Performs limits true w s op → op.Returns) → ∃ n r, drain limits n w s = some r

/-- A turn returns if its operations do and searches with less left end. -/
theorem turn_returns (hmax : limits.maxInferences = some max) (hb : w.store.Built) {toEnd : Bool}
    (hless : ∀ {w' s'}, w'.store.Built → s'.Within max → left max w' s' < left max w s → Ends limits w' s')
    (hops : ∀ op, Performs limits toEnd w s op → op.Returns) : ∃ n t, turn limits n w s = some t := by
  have here {op : Primitive} (h : TurnPerforms limits w s op) : op.Returns := hops op ⟨w, s, .here, h⟩
  cases he : s.error with
  | some e => exact ⟨0, _, by simp only [turn, he]; rfl⟩
  | none =>
    cases hc : s.current with
    | none =>
      obtain ⟨n, r, hr⟩ := retry_returns s.choices.height fun op hop => here (.back he hc hop)
      exact ⟨n, _, by simp only [turn, he, hc, backTurn, hr]; rfl⟩
    | some branch =>
      obtain ⟨_ | ⟨⟨g, barrier⟩, rest⟩, b⟩ := branch
      · exact ⟨0, _, by simp only [turn, he, hc]; rfl⟩
      · cases hx : excess limits (s.steps + 1) with
        | some e => exact ⟨0, _, by simp only [turn, he, hc, hx]; rfl⟩
        | none =>
          have hsteps := (excess_eq_none hmax).mp hx
          have inner (goals : List Goal) : Ends limits w (start goals b (s.steps + 1)) :=
            hless hb (within_start hsteps) (left_lt_of_steps (Nat.lt_succ_self _) hsteps)
          have hgoal : ∃ n t, goalTurn limits n w s.counted ⟨g, barrier⟩ rest b = some t := by
            refine goalTurn_returns ?not ?collect fun op hop => here (.goal he hc hx hop)
            case not =>
              rintro goals rfl
              exact (inner goals).next fun op h => hops op (h.of_visits (.negation he hc hx))
            case collect =>
              rintro kind t goals r rfl
              exact (inner goals).drain fun op h => hops op (h.of_visits (.collection he hc hx))
          obtain ⟨n, t, ht⟩ := hgoal
          exact ⟨n, t, by simp only [turn, he, hc, hx]; exact ht⟩

/-- By induction on what is left: a turn returns, and what follows it has less left. -/
theorem ends (hmax : limits.maxInferences = some max) (hb : w.store.Built) (hs : s.Within max) : Ends limits w s := by
  generalize hi : left max w s = i
  induction i using WellFoundedLT.induction generalizing w s with
  | ind i ih =>
    subst hi
    have hless {w' : World} {s' : Search} (hb' : w'.store.Built) (hs' : s'.Within max)
        (hlt : left max w' s' < left max w s) : Ends limits w' s' := ih _ hlt hb' hs' rfl
    have after {n : Nat} {t : Turn} (ht : turn limits n w s = some t) (hgoes : ∀ w' s', t ≠ .stops none w' s') :
        Ends limits t.world t.search :=
      hless (lasting_built.turn hb (has_true s) ht).1 (turn_counts hmax hs ht).2 (turn_left hmax hb.ordered ht hgoes)
    constructor
    · intro hops
      obtain ⟨n, t, ht⟩ := turn_returns hmax hb hless hops
      cases t with
      | goes w₁ s₁ =>
        obtain ⟨m, r, hr⟩ := (after ht (by rintro _ _ ⟨⟩)).next fun op h => hops op (h.of_visits (.later ht))
        exact ⟨_, r, next_of_goes ht hr⟩
      | stops answer w₁ s₁ => exact ⟨_, _, next_of_stops ht⟩
    · intro hops
      obtain ⟨n, t, ht⟩ := turn_returns hmax hb hless hops
      cases t with
      | goes w₁ s₁ =>
        obtain ⟨m, r, hr⟩ := (after ht (by rintro _ _ ⟨⟩)).drain fun op h => hops op (h.of_visits (.later ht))
        exact ⟨_, r, drain_of_goes ht hr⟩
      | stops answer w₁ s₁ =>
        cases answer with
        | none => exact ⟨n + 2, ([], w₁, s₁), by rw [drain, next_of_stops ht]; rfl⟩
        | some b =>
          obtain ⟨m, ⟨answers, w₂, s₂⟩, hr⟩ := (after ht (by rintro _ _ ⟨⟩)).drain fun op h =>
            hops op (h.of_visits (.resumed ht))
          exact ⟨_, _, drain_of_next (next_of_stops ht) hr⟩

/-- Every further pull gives nothing and changes nothing. -/
def Done (limits : Limits) (w : World) (s : Search) : Prop := ∀ n, next limits (n + 1) w s = some (none, w, s)

theorem done_of_error {e : Error} (he : s.error = some e) : Done limits w s := by
  intro n
  rw [next_succ, turn, he]
  rfl

theorem done_of_goalTurn {f : Frame} {answer : Option Substitution}
    (ht : goalTurn limits n w s f rest b = some (.stops answer w' s')) : Done limits w' s' := by
  unfold goalTurn at ht
  split at ht
  · obtain ⟨⟨a, w₁, inner⟩, -, ht⟩ := Option.map_eq_some_iff.mp ht
    dsimp only at ht
    split at ht <;> cases ht
    exact done_of_error rfl
  · obtain ⟨⟨terms, w₁, inner⟩, -, ht⟩ := Option.bind_eq_some_iff.mp ht
    dsimp only at ht
    split at ht
    · cases ht
      exact done_of_error rfl
    · obtain ⟨r, -, ht⟩ := Option.map_eq_some_iff.mp ht
      cases r <;> cases ht
  · obtain ⟨r, -, ht⟩ := Option.map_eq_some_iff.mp ht
    cases ht

theorem done_of_turn (ht : turn limits n w s = some (.stops none w' s')) : Done limits w' s' := by
  unfold turn at ht
  split at ht
  · next herror =>
    cases ht
    exact done_of_error (Option.isSome_iff_exists.mp herror).choose_spec
  · next herror =>
    split at ht
    · next hcurrent =>
      obtain ⟨⟨copies, found⟩, -, ht⟩ := Option.map_eq_some_iff.mp ht
      cases found <;> cases ht
      intro m
      simp [next_succ, turn, herror, hcurrent, backTurn, Choices.empty, retry]
    · cases ht
    · split at ht
      · cases ht
        exact done_of_error rfl
      · exact done_of_goalTurn ht

theorem done_of_next (hn : next limits n w s = some (none, w', s')) : Done limits w' s' := by
  induction n generalizing w s with
  | zero => cases hn
  | succ n ih =>
    rw [next_succ] at hn
    obtain ⟨t, ht, hn⟩ := Option.bind_eq_some_iff.mp hn
    cases t with
    | goes w₁ s₁ => exact ih hn
    | stops answer w₁ s₁ =>
      cases hn
      exact done_of_turn ht

theorem done_of_drain {answers : List Substitution} (hd : drain limits n w s = some (answers, w', s')) :
    Done limits w' s' := by
  induction n generalizing w s answers with
  | zero => cases hd
  | succ n ih =>
    rw [drain] at hd
    obtain ⟨⟨answer, w₁, s₁⟩, hn, hd⟩ := Option.bind_eq_some_iff.mp hd
    cases answer with
    | none =>
      cases hd
      exact done_of_next hn
    | some b =>
      obtain ⟨⟨more, w₂, s₂⟩, hmore, hd⟩ := Option.map_eq_some_iff.mp hd
      cases hd
      exact ih hmore

theorem Visits.toEnd {toEnd : Bool} (h : Visits limits toEnd w s w' s') : Visits limits true w s w' s' := by
  induction h with
  | here => exact .here
  | negation he hc hx h _ => exact .negation he hc hx h
  | collection he hc hx h _ => exact .collection he hc hx h
  | later ht _ ih => exact .later ht ih
  | resumed ht _ ih => exact .resumed ht ih

theorem Visits.trans {toEnd : Bool} {w₁ : World} {s₁ : Search} (h : Visits limits toEnd w s w₁ s₁)
    (h' : Visits limits false w₁ s₁ w' s') : Visits limits toEnd w s w' s' := by
  induction h with
  | @here toEnd =>
    cases toEnd with
    | false => exact h'
    | true => exact h'.toEnd
  | negation he hc hx _ ih => exact .negation he hc hx (ih h')
  | collection he hc hx _ ih => exact .collection he hc hx (ih h')
  | later ht _ ih => exact .later ht (ih h')
  | resumed ht _ ih => exact .resumed ht (ih h')

theorem drain_counts (hmax : limits.maxInferences = some max) (hs : s.Within max) {answers : List Substitution}
    (hd : drain limits n w s = some (answers, w', s')) : s'.Within max := by
  have hg : gather limits n w s (.list []) [] = some (answers.map (·.resolve (.list [])), w', s') := by
    rw [gather_eq_drain, hd]
    rfl
  exact ((pulls_count hmax n).gather hs hg).2

/-- With a limit on the number of steps, every pull returns, those of nested searches too, if each unification and each
traversal of a list does that is performed; no search counts more than one step beyond the limit; and the stream of
answers comes to an end, after which every pull gives nothing and changes nothing. -/
theorem budget_ends (hmax : limits.maxInferences = some max) (hb : w.store.Built) (goals : List Goal)
    (b : Substitution) (hops : ∀ op, Performs limits true w (start goals b 0) op → op.Returns) :
    (∃ n answers w' s', drain limits n w (start goals b 0) = some (answers, w', s') ∧ s'.steps ≤ max + 1 ∧
      ∀ m, next limits (m + 1) w' s' = some (none, w', s')) ∧
    ∀ w' s', Visits limits true w (start goals b 0) w' s' → s'.steps ≤ max + 1 ∧
      ∃ n answer w'' s'', next limits n w' s' = some (answer, w'', s'') ∧ s''.steps ≤ max + 1 := by
  have hs : (start goals b 0).Within max := within_start (Nat.zero_le max)
  constructor
  · obtain ⟨n, ⟨answers, w', s'⟩, hd⟩ := (ends hmax hb hs).drain hops
    exact ⟨n, answers, w', s', hd, (drain_counts hmax hs hd).steps, done_of_drain hd⟩
  · intro w' s' hv
    have hs' := hs.visits hmax hv
    have hb' := (lasting_built.visits hv hb (has_true _)).1
    obtain ⟨n, ⟨answer, w'', s''⟩, hn⟩ := (ends hmax hb' hs').next fun op h => hops op (h.of_visits hv.trans)
    exact ⟨hs'.steps, n, answer, w'', s'', hn, ((pulls_count hmax n).next hs' hn).2.steps⟩

end Ending

section Propositional

/-- A call that clauses prove. -/
def IsCall (g : Goal) : Prop := ∃ p : Predicate, g = .call p ∧ p.isBuiltin = false

structure IsPropositional (c : Clause) : Prop where
  head : c.head.arguments = []
  body : ∀ g ∈ c.body, IsCall g

theorem unifyHead_returns {p : Predicate} (h : p.arguments = []) (q : Predicate) (b : Substitution) :
    (Primitive.unifyHead p q b).Returns := by
  refine ⟨0, Option.isSome_iff_exists.mp ?_⟩
  unfold Predicate.unify unifyAll
  rw [h]
  cases q.arguments <;> split <;> rfl

theorem lasting_propositional : Lasting (·.All IsPropositional) IsCall := by
  refine .of_clauses ?assert ?copy ?inner
  case assert =>
    rintro _ _ f ⟨_, hg, _⟩
    cases hg
  case copy =>
    intro c m hc _ hcopy
    obtain ⟨g, hg, rfl⟩ := Goal.mem_mapTermsAll.mp hcopy
    obtain ⟨p, rfl, hp⟩ := hc.body g hg
    exact ⟨_, rfl, (Predicate.isBuiltin_mapTerms _ p).trans hp⟩
  case inner =>
    rintro _ _ ⟨_, rfl, _⟩ hi
    cases hi

theorem Tries.returns {call : Predicate} {copies : Nat} {cs : List StoredClause} {op : Primitive}
    (h : Tries call b copies cs op) (hcs : ∀ c ∈ cs, IsPropositional c.clause) : op.Returns := by
  induction h with
  | @first copies c cs =>
    have hhead : c.clause.head.arguments = [] := (hcs c (List.mem_cons_self ..)).head
    exact unifyHead_returns (by simp [Clause.rename, Clause.mapTerms, Predicate.mapTerms, hhead]) call b
  | next _ _ ih => exact ih (List.forall_mem_cons.mp hcs).2

theorem Retries.returns {store : Store} {copies : Nat} {cs : List Choice} {op : Primitive}
    (h : Retries store copies cs op) (hstore : store.All IsPropositional) : op.Returns := by
  induction h with
  | dropped _ ih => exact ih
  | clauses htries => exact htries.returns fun c hc => hstore.storedClauses ((List.dropWhile_suffix _).subset hc)
  | next _ _ ih => exact ih

/-- Without arguments there is nothing that a unification could go on about. -/
theorem Performs.returns {toEnd : Bool} {op : Primitive} (h : Performs limits toEnd w s op)
    (hstore : w.store.All IsPropositional) (hs : s.Has IsCall) : op.Returns := by
  obtain ⟨w', s', hv, hop⟩ := h
  obtain ⟨hstore, hs⟩ := lasting_propositional.visits hv hstore hs
  cases hop with
  | back _ _ hretries => exact hretries.returns hstore
  | @goal f rest b _ _ hc _ hop =>
    obtain ⟨p, hp, hbuiltin⟩ := hs.current _ hc f (List.mem_cons_self ..)
    rw [hp] at hop
    obtain ⟨hcall⟩ := hop
    cases hcall with
    | clauses _ htries => exact htries.returns fun c hc => hstore.storedClauses hc
    | member hname hargs _ | append hname hargs _ | length hname hargs _ | unify hname hargs =>
      simp [Predicate.isBuiltin, Predicate.listKeyword?, hname, hargs, Keyword.listArity?] at hbuiltin

/-- A clause that calls itself without end. -/
def endless : Store := Store.empty.add ⟨⟨"p", []⟩, [.call ⟨"p", []⟩]⟩

theorem budget_ends_endless :
    (∃ n answers w' s', drain { maxInferences := some 2 } n ⟨endless, 0⟩ (start [.call ⟨"p", []⟩] ∅ 0) =
        some (answers, w', s') ∧ s'.steps ≤ 2 + 1 ∧
      ∀ m, next { maxInferences := some 2 } (m + 1) w' s' = some (none, w', s')) ∧
    ∀ w' s', Visits { maxInferences := some 2 } true ⟨endless, 0⟩ (start [.call ⟨"p", []⟩] ∅ 0) w' s' →
      s'.steps ≤ 2 + 1 ∧ ∃ n answer w'' s'', next { maxInferences := some 2 } n w' s' = some (answer, w'', s'') ∧
        s''.steps ≤ 2 + 1 := by
  have hcalls : ∀ g ∈ [Goal.call ⟨"p", []⟩], IsCall g := by
    rintro _ (_ | ⟨_, ⟨⟩⟩)
    exact ⟨_, rfl, by decide⟩
  have hstore : endless.All IsPropositional := Store.all_empty.add ⟨rfl, hcalls⟩
  exact budget_ends rfl (.add _ .empty) _ ∅ fun op hop => hop.returns hstore (has_start hcalls ∅ 0)

/-- The third call is one too many. -/
example : (drain { maxInferences := some 2 } 9 ⟨endless, 0⟩ (start [.call ⟨"p", []⟩] ∅ 0)).map
    (fun r => (r.1.length, r.2.2.steps, r.2.2.error.isSome)) = some (0, 3, true) := by decide

end Propositional

end BilingualLogic.Search
