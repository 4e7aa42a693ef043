import BilingualLogic.Proofs.Search.Turn
import BilingualLogic.Solution

/-!
Limits only truncate: what a search finds before a limit ends it is found under every wider limit too, and a search
that no limit ends is the same under all of them. A limit that is met in a nested search ends the whole search.
-/

namespace BilingualLogic

/-- Every limit of the first is at most that of the second; an absent one is unbounded. -/
structure Limits.Tighter (l l' : Limits) : Prop where
  inferences : ∀ max', l'.maxInferences = some max' → ∃ max, l.maxInferences = some max ∧ max ≤ max'
  listLength : l.maxListLength ≤ l'.maxListLength

namespace Search

variable {l l' : Limits}

theorem excess_none (h : l.Tighter l') {steps : Nat} (he : excess l steps = none) : excess l' steps = none := by
  unfold excess at he ⊢
  cases hm : l'.maxInferences with
  | none => rfl
  | some max' =>
    obtain ⟨max, hl, hle⟩ := h.inferences max' hm
    rw [hl] at he
    have : ¬ steps > max := by
      intro hs
      simp [hs] at he
    have : ¬ steps > max' := by omega
    simp [this]

theorem checkListLength_ok (h : l.Tighter l') {n : Nat} (hl : l.checkListLength n = .ok ()) :
    l'.checkListLength n = .ok () := by
  unfold Limits.checkListLength at hl ⊢
  have := h.listLength
  split at hl
  · cases hl
  · rw [if_neg (by omega)]

theorem append_ok (h : l.Tighter l') {n : Nat} {front back whole : Term} {b : Substitution} {as : List Substitution}
    (ha : Sequence.append l n front back whole b = some (.ok as)) :
    Sequence.append l' n front back whole b = some (.ok as) := by
  unfold Sequence.append at ha ⊢
  match hf : Sequence.items b n front, hb : Sequence.items b n back with
  | none, _ => simp [hf] at ha
  | some _, none => simp [hf, hb] at ha
  | some none, some _ => simpa [hf, hb] using ha
  | some (some _), some none => simpa [hf, hb] using ha
  | some (some fs), some (some bs) =>
    match hc : l.checkListLength (fs.length + bs.length) with
    | .error e => simp [hf, hb, hc] at ha
    | .ok () => simpa [hf, hb, hc, checkListLength_ok h hc] using ha

theorem length_ok (h : l.Tighter l') {n copy : Nat} {list count : Term} {b : Substitution} {as : List Substitution}
    (ha : Sequence.length l n copy list count b = some (.ok as)) :
    Sequence.length l' n copy list count b = some (.ok as) := by
  unfold Sequence.length at ha ⊢
  match hi : Sequence.items b n list with
  | none => simp [hi] at ha
  | some (some is) => simpa [hi] using ha
  | some none =>
    simp only [hi] at ha ⊢
    split
    · rw [if_pos ‹_›] at ha
      match hs : Sequence.size? b count with
      | none => simpa [hs] using ha
      | some k =>
        match hc : l.checkListLength k with
        | .error e => simp [hs, hc] at ha
        | .ok () => simpa [hs, hc, checkListLength_ok h hc] using ha
    · rw [if_neg ‹_›] at ha
      exact ha

theorem offerOrFail_error {s : Search} {rest : List Frame} {r : Except Error (List Substitution)}
    (he : (s.offerOrFail rest r).error = none) : ∃ as, r = .ok as := by
  cases r with
  | ok as => exact ⟨as, rfl⟩
  | error e => cases he

theorem call_tighter (h : l.Tighter l') {n : Nat} {w w' : World} {s s' : Search} {p : Predicate} {barrier : Nat}
    {rest : List Frame} {b : Substitution} (hc : call l n w s p barrier rest b = some (w', s'))
    (he : s'.error = none) : call l' n w s p barrier rest b = some (w', s') := by
  unfold call at hc ⊢
  split at hc
  case h_5 front back whole _ _ =>
    obtain ⟨r, hr, hs⟩ := Option.map_eq_some_iff.mp hc
    cases hs
    obtain ⟨as, rfl⟩ := offerOrFail_error he
    simp [append_ok h hr]
  case h_6 xs n _ _ =>
    obtain ⟨r, hr, hs⟩ := Option.map_eq_some_iff.mp hc
    cases hs
    obtain ⟨as, rfl⟩ := offerOrFail_error he
    simp [length_ok h hr]
  all_goals exact hc

theorem simpleStep_tighter (h : l.Tighter l') {n : Nat} {w w' : World} {s s' : Search} {f : Frame}
    {rest : List Frame} {b : Substitution} (hs : simpleStep l n w s f rest b = some (w', s'))
    (he : s'.error = none) : simpleStep l' n w s f rest b = some (w', s') := by
  unfold simpleStep at hs ⊢
  split at hs
  · exact call_tighter h hs he
  all_goals exact hs

theorem next_of_error {e : Error} {n : Nat} {w w' : World} {s s' : Search} {answer : Option Substitution}
    (he : s.error = some e) (hn : next l n w s = some (answer, w', s')) : s'.error = some e := by
  cases n with
  | zero => cases hn
  | succ n =>
    rw [next_succ, turn, he] at hn
    cases hn
    exact he

def Turn.Sound : Turn → Prop
  | goes _ s => s.error = none
  | stops _ _ s => s.error = none

/-- What no limit ends under the first limits is the same under the second. -/
structure Lockstep (l l' : Limits) (n : Nat) : Prop where
  next {w w' : World} {s s' : Search} {answer : Option Substitution} :
    next l n w s = some (answer, w', s') → s'.error = none → next l' n w s = some (answer, w', s')
  gather {w w' : World} {s s' : Search} {t : Term} {done ts : List Term} :
    gather l n w s t done = some (ts, w', s') → s'.error = none → gather l' n w s t done = some (ts, w', s')

theorem Lockstep.goalTurn (h : l.Tighter l') {n : Nat} (hn : Lockstep l l' n) {w : World} {s : Search} {f : Frame}
    {rest : List Frame} {b : Substitution} {t : Turn} (ht : goalTurn l n w s f rest b = some t) (hs : t.Sound) :
    goalTurn l' n w s f rest b = some t := by
  unfold Search.goalTurn at ht ⊢
  split at ht
  · obtain ⟨⟨answer, w', inner⟩, hi, rfl⟩ := Option.map_eq_some_iff.mp ht
    have he : inner.error = none := by
      match he : inner.error with
      | none => rfl
      | some e => simp [he, Turn.Sound, failWith] at hs
    rw [hn.next hi he]
    rfl
  · obtain ⟨⟨ts, w', inner⟩, hi, ht⟩ := Option.bind_eq_some_iff.mp ht
    have he : inner.error = none := by
      match he : inner.error with
      | none => rfl
      | some e =>
        simp only [he] at ht
        cases ht
        cases hs
    rw [hn.gather hi he]
    exact ht
  · obtain ⟨⟨w', s'⟩, hi, rfl⟩ := Option.map_eq_some_iff.mp ht
    rw [simpleStep_tighter h hi hs]
    rfl

theorem Lockstep.turn (h : l.Tighter l') {n : Nat} (hn : Lockstep l l' n) {w : World} {s : Search} {t : Turn}
    (ht : turn l n w s = some t) (hs : t.Sound) : turn l' n w s = some t := by
  unfold Search.turn at ht ⊢
  split at ht
  · rw [if_pos ‹_›]
    exact ht
  · rw [if_neg ‹_›]
    split at ht
    · exact ht
    · exact ht
    · split at ht
      · cases ht
        cases hs
      · rw [excess_none h ‹_›]
        exact hn.goalTurn h ht hs

theorem lockstep (h : l.Tighter l') (n : Nat) : Lockstep l l' n := by
  induction n with
  | zero =>
    constructor
    · intro _ _ _ _ _ hn
      cases hn
    · intro _ _ _ _ _ _ _ hg
      cases hg
  | succ n ih =>
    constructor
    · intro w w' s s' answer hn he
      rw [next_succ] at hn ⊢
      obtain ⟨t, ht, hn⟩ := Option.bind_eq_some_iff.mp hn
      cases t with
      | goes w₁ s₁ =>
        have hs : s₁.error = none := by
          match hs : s₁.error with
          | none => rfl
          | some e => rw [next_of_error hs hn] at he; cases he
        rw [ih.turn h ht hs]
        exact ih.next hn he
      | stops answer w₁ s₁ =>
        cases hn
        rw [ih.turn h ht he]
        rfl
    · intro w w' s s' t done ts hg he
      rw [gather_succ] at hg ⊢
      obtain ⟨⟨answer, w₁, s₁⟩, hn, hg⟩ := Option.bind_eq_some_iff.mp hg
      cases answer with
      | none =>
        cases hg
        rw [ih.next hn he]
        rfl
      | some b =>
        rw [ih.next hn (next_answer_error hn)]
        exact ih.gather hg he

/-- Pulling from here meets a limit, in a turn of the search itself or of one that is nested in it. A search that is
pulled to its end goes on after its answers. -/
inductive Meets (l : Limits) (e : Error) : Bool → World → Search → Prop
  | step {toEnd : Bool} {w : World} {s : Search} {f : Frame} {rest : List Frame} {b : Substitution} :
    s.error = none → s.current = some ⟨f :: rest, b⟩ → excess l (s.steps + 1) = some e → Meets l e toEnd w s
  | list {toEnd : Bool} {n barrier : Nat} {w w' : World} {s s' : Search} {p : Predicate} {rest : List Frame}
    {b : Substitution} :
    s.error = none → s.current = some ⟨⟨.call p, barrier⟩ :: rest, b⟩ → excess l (s.steps + 1) = none →
      call l n w s.counted p barrier rest b = some (w', s') → s'.error = some e → Meets l e toEnd w s
  | negation {toEnd : Bool} {barrier : Nat} {w : World} {s : Search} {goals : List Goal} {rest : List Frame}
    {b : Substitution} :
    s.error = none → s.current = some ⟨⟨.not goals, barrier⟩ :: rest, b⟩ → excess l (s.steps + 1) = none →
      Meets l e false w (start goals b (s.steps + 1)) → Meets l e toEnd w s
  | collection {toEnd : Bool} {barrier : Nat} {w : World} {s : Search} {kind : Collection} {t r : Term}
    {goals : List Goal} {rest : List Frame} {b : Substitution} :
    s.error = none → s.current = some ⟨⟨.collect kind t goals r, barrier⟩ :: rest, b⟩ →
      excess l (s.steps + 1) = none → Meets l e true w (start goals b (s.steps + 1)) → Meets l e toEnd w s
  | later {toEnd : Bool} {n : Nat} {w w' : World} {s s' : Search} :
    turn l n w s = some (.goes w' s') → Meets l e toEnd w' s' → Meets l e toEnd w s
  | resumed {n : Nat} {w w' : World} {s s' : Search} {b : Substitution} :
    turn l n w s = some (.stops (some b) w' s') → Meets l e true w' s' → Meets l e true w s

/-- The limit ends the pull, or the pulls up to the end of the search. -/
def EndsWith (l : Limits) (e : Error) (toEnd : Bool) (w : World) (s : Search) : Prop :=
  ∃ n w' s', s'.error = some e ∧
    if toEnd then ∃ as, drain l n w s = some (as, w', s') else next l n w s = some (none, w', s')

theorem EndsWith.of_stop {e : Error} {toEnd : Bool} {n : Nat} {w w' : World} {s s' : Search}
    (ht : turn l n w s = some (.stops none w' s')) (he : s'.error = some e) : EndsWith l e toEnd w s := by
  have hn := next_of_stops ht
  cases toEnd with
  | false => exact ⟨n + 1, w', s', he, hn⟩
  | true => exact ⟨n + 2, w', s', he, [], by rw [drain, hn]; rfl⟩

theorem EndsWith.of_goes {e : Error} {toEnd : Bool} {n : Nat} {w w' : World} {s s' : Search}
    (ht : turn l n w s = some (.goes w' s')) (h : EndsWith l e toEnd w' s') : EndsWith l e toEnd w s := by
  obtain ⟨m, w₂, s₂, he, hm⟩ := h
  cases toEnd with
  | false => exact ⟨max m n + 1, w₂, s₂, he, next_of_goes ht hm⟩
  | true =>
    obtain ⟨as, hm⟩ := hm
    exact ⟨max m n + 2, w₂, s₂, he, as, drain_of_goes ht hm⟩

theorem turn_of_goal {n : Nat} {w : World} {s : Search} {f : Frame} {rest : List Frame} {b : Substitution}
    (he : s.error = none) (hc : s.current = some ⟨f :: rest, b⟩) (hx : excess l (s.steps + 1) = none) :
    turn l n w s = goalTurn l n w s.counted f rest b := by
  simp [turn, he, hc, hx]

theorem Meets.endsWith {e : Error} {toEnd : Bool} {w : World} {s : Search} (h : Meets l e toEnd w s) :
    EndsWith l e toEnd w s := by
  induction h with
  | @step _ w s f rest b he hc hx =>
    have ht : turn l 0 w s = some (.stops none w (s.counted.failWith e)) := by simp [turn, he, hc, hx]
    exact .of_stop ht rfl
  | @list _ n _ w w' s s' p rest b he hc hx hp hs =>
    have ht : turn l n w s = some (.goes w' s') := by
      rw [turn_of_goal he hc hx]
      simp [goalTurn, simpleStep, hp]
    have hstop : turn l 0 w' s' = some (.stops none w' s') := by simp [turn, hs]
    exact .of_goes ht (.of_stop hstop hs)
  | @negation _ _ w s goals rest b he hc hx _ ih =>
    obtain ⟨n, w', s', hs, hn⟩ := ih
    have ht : turn l n w s = some (.stops none w' ({ s.counted with steps := s'.steps }.failWith e)) := by
      rw [turn_of_goal he hc hx]
      simp only [goalTurn, show next l n w (start goals b s.counted.steps) = some (none, w', s') from hn,
        Option.map_some, hs]
    exact .of_stop ht rfl
  | @collection _ _ w s kind t r goals rest b he hc hx _ ih =>
    obtain ⟨n, w', s', hs, as, hd⟩ := ih
    have hg : gather l n w (start goals b s.counted.steps) t [] = some (as.map (·.resolve t), w', s') := by
      rw [gather_eq_drain, show drain l n w (start goals b s.counted.steps) = some (as, w', s') from hd]
      rfl
    have ht : turn l n w s = some (.stops none w' ({ s.counted with steps := s'.steps }.failWith e)) := by
      rw [turn_of_goal he hc hx]
      simp only [goalTurn, hg, Option.bind_some, hs]
    exact .of_stop ht rfl
  | later ht _ ih => exact .of_goes ht ih
  | resumed ht _ ih =>
    obtain ⟨m, w₂, s₂, he, as, hd⟩ := ih
    exact ⟨_, w₂, s₂, he, _, drain_of_next (next_of_stops ht) hd⟩

end Search

namespace Query

variable {l l' : Limits}

theorem take_succ (l : Limits) (n k : Nat) (done : List Solution) (w : World) (q : Query) :
    q.take l n done (k + 1) w = (q.next l n w).bind fun
      | (none, w, q) => some (done.reverse, w, q)
      | (some a, w, q) => q.take l n (a :: done) k w := by
  rw [take]
  match q.next l n w with
  | none => rfl
  | some (none, _, _) => rfl
  | some (some _, _, _) => rfl

theorem next_le {n m : Nat} (h : n ≤ m) (w : World) (q : Query) : Bounded.Le (q.next l n w) (q.next l m w) :=
  (Search.next_le l h w q.search).map _

theorem take_le {n m : Nat} (h : n ≤ m) (k : Nat) (done : List Solution) (w : World) (q : Query) :
    Bounded.Le (q.take l n done k w) (q.take l m done k w) := by
  induction k generalizing done w q with
  | zero => exact .refl _
  | succ k ih =>
    rw [take_succ, take_succ]
    refine (next_le h w q).bind ?_
    rintro ⟨_ | a, w, q⟩
    · exact .refl _
    · exact ih _ w q

theorem next_tighter (h : l.Tighter l') {n : Nat} {w w' : World} {q q' : Query} {a : Option Solution}
    (hn : q.next l n w = some (a, w', q')) (he : q'.search.error = none) : q.next l' n w = some (a, w', q') := by
  obtain ⟨⟨b, w₁, s₁⟩, hs, hr⟩ := Option.map_eq_some_iff.mp hn
  cases hr
  unfold next
  rw [(Search.lockstep h n).next hs he]
  rfl

theorem next_solution_error {n : Nat} {w w' : World} {q q' : Query} {a : Solution}
    (hn : q.next l n w = some (some a, w', q')) : q'.search.error = none := by
  obtain ⟨⟨b, w₁, s₁⟩, hs, hr⟩ := Option.map_eq_some_iff.mp hn
  cases b with
  | none => cases hr
  | some b =>
    cases hr
    exact Search.next_answer_error hs

theorem take_keeps_done {n k : Nat} {done as : List Solution} {w w' : World} {q q' : Query}
    (ht : q.take l n done k w = some (as, w', q')) : done.reverse <+: as := by
  induction k generalizing done w q with
  | zero =>
    cases ht
    exact List.prefix_refl _
  | succ k ih =>
    rw [take_succ] at ht
    obtain ⟨⟨_ | a, w₁, q₁⟩, -, ht⟩ := Option.bind_eq_some_iff.mp ht
    · cases ht
      exact List.prefix_refl _
    · have := ih ht
      rw [List.reverse_cons] at this
      exact (List.prefix_append _ _).trans this

theorem take_length_tighter (h : l.Tighter l') {n k : Nat} {done as : List Solution} {w w' : World} {q q' : Query}
    (ht : q.take l n done k w = some (as, w', q')) :
    ∃ w₂ q₂, q.take l' n done (as.length - done.length) w = some (as, w₂, q₂) := by
  induction k generalizing done w q with
  | zero =>
    cases ht
    exact ⟨w', q', by simp [take]⟩
  | succ k ih =>
    rw [take_succ] at ht
    obtain ⟨⟨_ | a, w₁, q₁⟩, hn, ht⟩ := Option.bind_eq_some_iff.mp ht
    · cases ht
      exact ⟨w, q, by simp [take]⟩
    · obtain ⟨w₂, q₂, ht₂⟩ := ih ht
      have hlen : (a :: done).length ≤ as.length := by
        simpa using (take_keeps_done ht).length_le
      rw [List.length_cons] at hlen ht₂
      refine ⟨w₂, q₂, ?_⟩
      rw [show as.length - done.length = as.length - (done.length + 1) + 1 by omega, take_succ,
        next_tighter h hn (next_solution_error hn)]
      exact ht₂

theorem take_tighter (h : l.Tighter l') {n k : Nat} {done as : List Solution} {w w' : World} {q q' : Query}
    (ht : q.take l n done k w = some (as, w', q')) (he : q'.search.error = none) :
    q.take l' n done k w = some (as, w', q') := by
  induction k generalizing done w q with
  | zero => exact ht
  | succ k ih =>
    rw [take_succ] at ht ⊢
    obtain ⟨⟨_ | a, w₁, q₁⟩, hn, ht⟩ := Option.bind_eq_some_iff.mp ht
    · cases ht
      rw [next_tighter h hn he]
      rfl
    · rw [next_tighter h hn (next_solution_error hn)]
      exact ih ht

theorem take_prefix {n k m : Nat} {done as as' : List Solution} {w w₁ w₂ : World} {q q₁ q₂ : Query} (hkm : k ≤ m)
    (ht : q.take l n done k w = some (as, w₁, q₁)) (ht' : q.take l n done m w = some (as', w₂, q₂)) : as <+: as' := by
  induction k generalizing m done w q with
  | zero =>
    cases ht
    exact take_keeps_done ht'
  | succ k ih =>
    obtain ⟨m, rfl⟩ : ∃ j, m = j + 1 := ⟨m - 1, by omega⟩
    rw [take_succ] at ht ht'
    obtain ⟨⟨a, w₃, q₃⟩, hn, ht⟩ := Option.bind_eq_some_iff.mp ht
    rw [hn] at ht'
    cases a with
    | none =>
      cases ht
      cases ht'
      exact List.prefix_refl _
    | some a => exact ih (by omega) ht ht'

/-- Limits only truncate. Whatever is drawn under tighter limits is drawn first under wider ones; if no limit has ended
the query, what is left of it and the world are the same too; and a limit that the next pull meets, in a nested search
or not, ends the query with that error. -/
theorem take_of_tighter (h : l.Tighter l') (goals : List Goal) (w w₁ : World) (q₁ : Query) (n k : Nat)
    (as : List Solution) (ht : (start goals).take l n [] k w = some (as, w₁, q₁)) :
    (∃ w₂ q₂, (start goals).take l' n [] as.length w = some (as, w₂, q₂)) ∧
    (∀ m j as' w₂ q₂, as.length ≤ j → (start goals).take l' m [] j w = some (as', w₂, q₂) → as <+: as') ∧
    (q₁.search.error = none → (start goals).take l' n [] k w = some (as, w₁, q₁)) ∧
    ∀ e, Search.Meets l e false w₁ q₁.search →
      ∃ m w₂ q₂, q₁.next l m w₁ = some (none, w₂, q₂) ∧ q₂.search.error = some e := by
  obtain ⟨w₂, q₂, ht₂⟩ := take_length_tighter h ht
  refine ⟨⟨w₂, q₂, ht₂⟩, ?_, take_tighter h ht, ?_⟩
  · intro m j as' w₃ q₃ hj ht₃
    have ht₂' := (take_le (Nat.le_max_left n m) _ _ _ _).eq_some ht₂
    have ht₃' := (take_le (Nat.le_max_right n m) _ _ _ _).eq_some ht₃
    exact take_prefix hj ht₂' ht₃'
  · intro e hm
    obtain ⟨m, w₃, s₃, he, hn⟩ := hm.endsWith
    refine ⟨m, w₃, { q₁ with search := s₃ }, ?_, he⟩
    unfold next
    rw [show Search.next l m w₁ q₁.search = some (none, w₃, s₃) from hn]
    rfl

/-- The clauses `p` and `p`. -/
def twice : Store := (Store.empty.add ⟨⟨"p", []⟩, []⟩).add ⟨⟨"p", []⟩, []⟩

theorem take_of_tighter_twice : ∃ as w₁ q₁,
    (start [.call ⟨"p", []⟩, .not [.call ⟨"q", []⟩]]).take { maxInferences := some 5 } 20 [] 3 ⟨twice, 0⟩ =
      some (as, w₁, q₁) ∧
    as.length = 2 ∧
    (start [.call ⟨"p", []⟩, .not [.call ⟨"q", []⟩]]).take {} 20 [] 3 ⟨twice, 0⟩ = some (as, w₁, q₁) := by
  have htake : ((start [.call ⟨"p", []⟩, .not [.call ⟨"q", []⟩]]).take { maxInferences := some 5 } 20 [] 3
      ⟨twice, 0⟩).map (fun r => (r.1.length, r.2.2.search.error.isSome)) = some (2, false) := by
    decide +kernel
  obtain ⟨⟨as, w₁, q₁⟩, htake, heq⟩ := Option.map_eq_some_iff.mp htake
  obtain ⟨hlen, he⟩ := Prod.mk.inj heq
  have h : Limits.Tighter { maxInferences := some 5 } {} := ⟨by simp, Nat.le_refl _⟩
  exact ⟨as, w₁, q₁, htake, hlen, (take_of_tighter h _ _ _ _ _ _ _ htake).2.2.1 (by simpa using he)⟩

end Query
end BilingualLogic
