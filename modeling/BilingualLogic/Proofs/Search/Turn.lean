import BilingualLogic.Program.Check
import BilingualLogic.Proofs.Effort

/-!
One turn of a search: a goal is proved, or the search goes back to the newest choice. A pull of the next answer is a
row of turns, so what every turn keeps a pull keeps, and a search that is drained is pulled to its end.
-/

namespace BilingualLogic

theorem Predicate.isBuiltin_cases {p : Predicate} (h : p.isBuiltin = true) :
    (Keyword.ofSpelling? p.name = some .cut ∧ p.arguments = []) ∨
    (Keyword.ofSpelling? p.name = some .true ∧ p.arguments = []) ∨
    (Keyword.ofSpelling? p.name = some .false ∧ p.arguments = []) ∨
    (Keyword.ofSpelling? p.name = some .member ∧ ∃ x xs, p.arguments = [x, xs]) ∨
    (Keyword.ofSpelling? p.name = some .append ∧ ∃ front back whole, p.arguments = [front, back, whole]) ∨
    (Keyword.ofSpelling? p.name = some .length ∧ ∃ xs n, p.arguments = [xs, n]) ∨
    (Keyword.ofSpelling? p.name = some .unify ∧ ∃ x y, p.arguments = [x, y]) := by
  obtain ⟨name, arguments⟩ := p
  unfold isBuiltin listKeyword? at h
  dsimp only at h ⊢
  cases hk : Keyword.ofSpelling? name with
  | none => simp [hk] at h
  | some k =>
    rw [hk] at h
    rcases arguments with _ | ⟨x, _ | ⟨y, _ | ⟨z, _ | ⟨u, us⟩⟩⟩⟩ <;> cases k <;> simp [Keyword.listArity?] at h ⊢

namespace Search

inductive Turn where
  /-- The search is not at an answer yet. -/
  | goes (w : World) (s : Search)
  /-- The pull is over, with an answer or at the end of the search. -/
  | stops (answer : Option Substitution) (w : World) (s : Search)

/-- The turn that proves a goal; the search has counted it already. -/
def goalTurn (limits : Limits) (n : Nat) (w : World) (s : Search) (f : Frame) (rest : List Frame) (b : Substitution) :
    Bounded Turn :=
  match f.goal with
  | .not goals =>
    (next limits n w (start goals b s.steps)).map fun (answer, w, inner) =>
      let s := { s with steps := inner.steps }
      match inner.error, answer with
      | some e, _ => .stops none w (s.failWith e)
      | none, some _ => .goes w s
      | none, none => .goes w (s.succeed rest b)
  | .collect kind template goals result =>
    (gather limits n w (start goals b s.steps) template []).bind fun (terms, w, inner) =>
      let s := { s with steps := inner.steps }
      match inner.error with
      | some e => some (.stops none w (s.failWith e))
      | none =>
        (BilingualLogic.unify n result (.list (kind.arrange terms)) b).map fun
          | some b => .goes w (s.succeed rest b)
          | none => .goes w s
  | _ => (simpleStep limits n w s f rest b).map fun (w, s) => .goes w s

def counted (s : Search) : Search := { s with current := none, steps := s.steps + 1 }

/-- What was found, with the choices above which it was looked for. -/
def foundSearch (s : Search) : Option (Branch × Choices) → Search
  | none => s
  | some (branch, choices) => { s with current := some branch, choices }

def backTurn (n : Nat) (w : World) (s : Search) : Bounded Turn :=
  (retry n w.store w.copies s.choices.height s.choices.stack).map fun
    | (copies, none) => .stops none { w with copies } { s with choices := .empty }
    | (copies, some (branch, choices)) => .goes { w with copies } { s with current := some branch, choices }

def turn (limits : Limits) (n : Nat) (w : World) (s : Search) : Bounded Turn :=
  if s.error.isSome then some (.stops none w s)
  else
    match s.current with
    | none => backTurn n w s
    | some ⟨[], b⟩ => some (.stops (some b) w { s with current := none })
    | some ⟨f :: rest, b⟩ =>
      match excess limits (s.steps + 1) with
      | some e => some (.stops none w (s.counted.failWith e))
      | none => goalTurn limits n w s.counted f rest b

theorem next_succ (limits : Limits) (n : Nat) (w : World) (s : Search) :
    next limits (n + 1) w s = (turn limits n w s).bind fun
      | .goes w s => next limits n w s
      | .stops answer w s => some (answer, w, s) := by
  obtain ⟨current, choices, steps, error⟩ := s
  cases error with
  | some e => rfl
  | none =>
    rcases current with _ | ⟨goals, b⟩
    · simp only [next, turn, backTurn, Option.isSome_none, Bool.false_eq_true, if_false]
      rcases retry n w.store w.copies choices.height choices.stack with _ | ⟨_, _ | _⟩ <;> rfl
    · rcases goals with _ | ⟨⟨g, barrier⟩, rest⟩
      · rfl
      · simp only [next, turn, counted, Option.isSome_none, Bool.false_eq_true, if_false]
        cases excess limits (steps + 1) with
        | some e => rfl
        | none =>
          dsimp only
          cases g with
          | not goals =>
            simp only [goalTurn]
            rcases next limits n w (start goals b (steps + 1)) with _ | ⟨answer, w, ⟨_, _, _, error⟩⟩
            · rfl
            · cases error <;> cases answer <;> rfl
          | collect kind template goals result =>
            simp only [goalTurn]
            rcases gather limits n w (start goals b (steps + 1)) template [] with
              _ | ⟨terms, w, ⟨_, _, _, _ | _⟩⟩
            · rfl
            · dsimp only [Option.bind_some]
              rcases BilingualLogic.unify n result (.list (kind.arrange terms)) b with _ | _ | _ <;> rfl
            · rfl
          | _ =>
            simp only [goalTurn]
            rcases simpleStep limits n w _ _ rest b with _ | ⟨_, _⟩ <;> rfl

section Call

variable {limits : Limits} {n : Nat} {p : Predicate} {fs : List Frame} {b : Substitution}

theorem call_eq_callClauses (hp : p.isBuiltin = false) (w : World) (s : Search) (barrier : Nat) :
    call limits n w s p barrier fs b = callClauses n w s p fs b := by
  unfold call
  unfold Predicate.isBuiltin Predicate.listKeyword? at hp
  split <;> simp_all [Keyword.listArity?]

theorem callClauses_eq (w : World) (s : Search) : callClauses n w s p fs b =
    (tryClauses n p fs b s.choices w.copies (w.store.clausesAfter p.key none)).map
      fun (copies, found) => ({ w with copies }, foundSearch s found) := by
  unfold callClauses
  rcases tryClauses n p fs b s.choices w.copies (w.store.clausesAfter p.key none) with _ | ⟨copies, _ | ⟨_, _⟩⟩ <;> rfl

end Call

theorem gather_succ (limits : Limits) (n : Nat) (w : World) (s : Search) (t : Term) (done : List Term) :
    gather limits (n + 1) w s t done = (next limits n w s).bind fun
      | (none, w, s) => some (done.reverse, w, s)
      | (some b, w, s) => gather limits n w s t (b.resolve t :: done) := by
  rw [gather]
  rcases next limits n w s with _ | ⟨_ | _, _, _⟩ <;> rfl

section Effort

variable {limits : Limits} {n m : Nat}

theorem goalTurn_le (hnm : n ≤ m) (hn : ∀ w s, Bounded.Le (next limits n w s) (next limits m w s))
    (hg : ∀ w s t done, Bounded.Le (gather limits n w s t done) (gather limits m w s t done))
    (w : World) (s : Search) (f : Frame) (rest : List Frame) (b : Substitution) :
    Bounded.Le (goalTurn limits n w s f rest b) (goalTurn limits m w s f rest b) := by
  unfold goalTurn
  split
  · exact (hn _ _).map _
  · refine (hg _ _ _ _).bind ?_
    rintro ⟨terms, w, inner⟩
    dsimp only
    split
    · exact .refl _
    · exact (unify_le hnm _ _ b).map _
  · exact (simpleStep_le limits hnm w s f rest b).map _

theorem turn_le_of (hnm : n ≤ m) (hn : ∀ w s, Bounded.Le (next limits n w s) (next limits m w s))
    (hg : ∀ w s t done, Bounded.Le (gather limits n w s t done) (gather limits m w s t done))
    (w : World) (s : Search) : Bounded.Le (turn limits n w s) (turn limits m w s) := by
  unfold turn
  split
  · exact .refl _
  · split
    · exact (retry_le hnm _ _ _ _).map _
    · exact .refl _
    · split
      · exact .refl _
      · exact goalTurn_le hnm hn hg w _ _ _ _

theorem next_gather_le_succ (limits : Limits) (n : Nat) :
    (∀ w s, Bounded.Le (next limits n w s) (next limits (n + 1) w s)) ∧
      ∀ w s t done, Bounded.Le (gather limits n w s t done) (gather limits (n + 1) w s t done) := by
  induction n with
  | zero => exact ⟨fun _ _ => .none _, fun _ _ _ _ => .none _⟩
  | succ n ih =>
    constructor
    · intro w s
      rw [next_succ, next_succ limits (n + 1)]
      refine (turn_le_of n.le_succ ih.1 ih.2 w s).bind ?_
      rintro (⟨w, s⟩ | ⟨answer, w, s⟩)
      · exact ih.1 w s
      · exact .refl _
    · intro w s t done
      rw [gather_succ, gather_succ limits (n + 1)]
      refine (ih.1 w s).bind ?_
      rintro ⟨_ | b, w, s⟩
      · exact .refl _
      · exact ih.2 w s t _

theorem next_le (limits : Limits) (h : n ≤ m) (w : World) (s : Search) :
    Bounded.Le (next limits n w s) (next limits m w s) :=
  Bounded.le_of_succ (fun n => (next_gather_le_succ limits n).1 w s) h

theorem gather_le (limits : Limits) (h : n ≤ m) (w : World) (s : Search) (t : Term) (done : List Term) :
    Bounded.Le (gather limits n w s t done) (gather limits m w s t done) :=
  Bounded.le_of_succ (fun n => (next_gather_le_succ limits n).2 w s t done) h

theorem turn_le (limits : Limits) (h : n ≤ m) (w : World) (s : Search) :
    Bounded.Le (turn limits n w s) (turn limits m w s) :=
  turn_le_of h (next_le limits h) (gather_le limits h) w s

end Effort

theorem goalTurn_stops {limits : Limits} {n : Nat} {w w' : World} {s s' : Search} {f : Frame} {rest : List Frame}
    {b : Substitution} {answer : Option Substitution}
    (ht : goalTurn limits n w s f rest b = some (.stops answer w' s')) : answer = none := by
  unfold goalTurn at ht
  split at ht
  · obtain ⟨⟨a, w₁, inner⟩, -, ht⟩ := Option.map_eq_some_iff.mp ht
    dsimp only at ht
    split at ht <;> cases ht
    rfl
  · obtain ⟨⟨ts, w₁, inner⟩, -, ht⟩ := Option.bind_eq_some_iff.mp ht
    dsimp only at ht
    split at ht
    · cases ht
      rfl
    · obtain ⟨r, -, ht⟩ := Option.map_eq_some_iff.mp ht
      cases r <;> cases ht
  · obtain ⟨r, -, ht⟩ := Option.map_eq_some_iff.mp ht
    cases ht

theorem turn_answer_error {limits : Limits} {n : Nat} {w w' : World} {s s' : Search} {b : Substitution}
    (ht : turn limits n w s = some (.stops (some b) w' s')) : s'.error = none := by
  unfold turn at ht
  split at ht
  · cases ht
  · split at ht
    · obtain ⟨⟨copies, found⟩, -, ht⟩ := Option.map_eq_some_iff.mp ht
      cases found <;> cases ht
    · cases ht
      simpa using ‹¬ s.error.isSome = true›
    · split at ht
      · cases ht
      · cases goalTurn_stops ht

def drain (limits : Limits) : Nat → World → Search → Bounded (List Substitution × World × Search)
  | 0, _, _ => none
  | n + 1, w, s =>
    (next limits n w s).bind fun
      | (none, w, s) => some ([], w, s)
      | (some b, w, s) => (drain limits n w s).map fun (more, w, s) => (b :: more, w, s)

theorem gather_eq_drain (limits : Limits) (n : Nat) (w : World) (s : Search) (t : Term) (done : List Term) :
    gather limits n w s t done =
      (drain limits n w s).map fun (answers, w, s) => (done.reverse ++ answers.map (·.resolve t), w, s) := by
  induction n generalizing w s done with
  | zero => rfl
  | succ n ih =>
    rw [gather_succ, drain]
    rcases next limits n w s with _ | ⟨_ | b, w, s⟩
    · rfl
    · simp
    · simp only [Option.bind_some, ih, Option.map_map]
      congr 1
      funext ⟨answers, w, s⟩
      simp

theorem drain_le_succ (limits : Limits) (n : Nat) (w : World) (s : Search) :
    Bounded.Le (drain limits n w s) (drain limits (n + 1) w s) := by
  induction n generalizing w s with
  | zero => exact .none _
  | succ n ih =>
    rw [drain, drain]
    refine (next_le limits n.le_succ w s).bind ?_
    rintro ⟨_ | b, w, s⟩
    · exact .refl _
    · exact (ih w s).map _

theorem drain_le (limits : Limits) {n m : Nat} (h : n ≤ m) (w : World) (s : Search) :
    Bounded.Le (drain limits n w s) (drain limits m w s) :=
  Bounded.le_of_succ (fun n => drain_le_succ limits n w s) h

section Forward

variable {limits : Limits} {n k : Nat} {w w' : World} {s s' : Search}

theorem next_of_goes {r : Option Substitution × World × Search} (ht : turn limits k w s = some (.goes w' s'))
    (hn : next limits n w' s' = some r) : next limits (max n k + 1) w s = some r := by
  rw [next_succ, (turn_le limits (Nat.le_max_right n k) w s).eq_some ht]
  exact (next_le limits (Nat.le_max_left n k) w' s').eq_some hn

theorem next_of_stops {answer : Option Substitution} (ht : turn limits k w s = some (.stops answer w' s')) :
    next limits (k + 1) w s = some (answer, w', s') := by
  rw [next_succ, ht]
  rfl

theorem drain_of_next {w₂ : World} {s₂ : Search} {b : Substitution} {as : List Substitution}
    (hn : next limits k w s = some (some b, w', s')) (hd : drain limits n w' s' = some (as, w₂, s₂)) :
    drain limits (max n k + 1) w s = some (b :: as, w₂, s₂) := by
  rw [drain, (next_le limits (Nat.le_max_right n k) w s).eq_some hn]
  simp only [Option.bind_some, (drain_le limits (Nat.le_max_left n k) w' s').eq_some hd, Option.map_some]

theorem drain_of_goes {r : List Substitution × World × Search} (ht : turn limits k w s = some (.goes w' s'))
    (hd : drain limits n w' s' = some r) : drain limits (max n k + 2) w s = some r := by
  cases n with
  | zero => cases hd
  | succ n =>
    rw [drain] at hd ⊢
    obtain ⟨⟨answer, w₁, s₁⟩, hn, hd⟩ := Option.bind_eq_some_iff.mp hd
    have hle : max n k + 1 ≤ max (n + 1) k + 1 := by omega
    rw [(next_le limits hle w s).eq_some (next_of_goes ht hn)]
    cases answer with
    | none => exact hd
    | some b =>
      obtain ⟨r', hr', rfl⟩ := Option.map_eq_some_iff.mp hd
      have hle : n ≤ max (n + 1) k + 1 := by omega
      simp only [Option.bind_some, (drain_le limits hle w₁ s₁).eq_some hr', Option.map_some]

end Forward

theorem next_answer_error {limits : Limits} {n : Nat} {w w' : World} {s s' : Search} {b : Substitution}
    (hn : next limits n w s = some (some b, w', s')) : s'.error = none := by
  induction n generalizing w s with
  | zero => cases hn
  | succ n ih =>
    rw [next_succ] at hn
    obtain ⟨t, ht, hn⟩ := Option.bind_eq_some_iff.mp hn
    cases t with
    | goes w₁ s₁ => exact ih hn
    | stops answer w₁ s₁ =>
      cases hn
      exact turn_answer_error ht

end Search
end BilingualLogic
