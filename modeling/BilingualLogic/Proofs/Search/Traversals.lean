import BilingualLogic.Proofs.Search.Bindings
import BilingualLogic.Proofs.Search.Budget
import BilingualLogic.Proofs.Sequence.Traversal

/-!
The traversals of lists in a search. The bindings that a search gets to may lead around in a circle, and a traversal
that comes into one never returns, so neither does the pull that performs it. Nothing else about lists keeps a search
with a limit on the number of steps from its end.
-/

namespace BilingualLogic

open Substitution

variable {limits : Limits} {b : Substitution} {list : Term}

namespace Sequence

variable {x xs front back whole count : Term} {s : Substitution} {copy : Nat}

theorem items_unique {n m : Nat} {r q : Option (List Term)} (hr : items s n list = some r)
    (hq : items s m list = some q) : r = q :=
  Bounded.unique (fun hnm => items_le hnm s list) hr hq

theorem MemberPerforms.stuck (h : MemberPerforms x xs s (.traverse list b)) :
    b = s ∧ ((∀ n, items b n list = none) → ∀ n, member n x xs s = none) := by
  cases h with
  | traverse => exact ⟨rfl, fun hnone n => by rw [member, hnone]⟩

theorem SplitsPerform.stuck (h : SplitsPerform front back whole s (.traverse list b)) :
    b = s ∧ ((∀ n, items b n list = none) → ∀ n, append.splits n front back whole s = none) := by
  cases h with
  | traverse => exact ⟨rfl, fun hnone n => by rw [append.splits, hnone]⟩

theorem AppendPerforms.stuck (h : AppendPerforms limits front back whole s (.traverse list b)) :
    b = s ∧ ((∀ n, items b n list = none) → ∀ n, append limits n front back whole s = none) := by
  cases h with
  | front => exact ⟨rfl, fun hnone n => by rw [append, hnone]⟩
  | back _ =>
    refine ⟨rfl, fun hnone n => ?_⟩
    rw [append, hnone]
    cases items b n front <;> rfl
  | @splits _ _ r q _ hr hq hopen hsplits =>
    obtain ⟨rfl, hstuck⟩ := hsplits.stuck
    refine ⟨rfl, fun hnone n => ?_⟩
    cases hfront : items b n front with
    | none => rw [append, hfront]
    | some r' =>
      cases hback : items b n back with
      | none => rw [append, hfront, hback]
      | some q' =>
        obtain rfl := items_unique hr hfront
        obtain rfl := items_unique hq hback
        rw [append, hfront, hback]
        rcases hopen with rfl | rfl
        · exact hstuck hnone n
        · cases r <;> exact hstuck hnone n

theorem LengthPerforms.stuck (h : LengthPerforms limits copy xs count s (.traverse list b)) :
    b = s ∧ ((∀ n, items b n list = none) → ∀ n, length limits n copy xs count s = none) := by
  cases h with
  | traverse => exact ⟨rfl, fun hnone n => by rw [length, hnone]⟩

end Sequence

theorem Store.Compares.ne_traverse {p : Predicate} {cs : List StoredClause} {op : Primitive}
    (h : Store.Compares p cs op) : op ≠ .traverse list b := by
  induction h with
  | first => rintro ⟨⟩
  | next _ _ ih => exact ih

namespace Search

variable {w w' : World} {s s' : Search} {toEnd : Bool}

section Stuck

theorem Tries.ne_traverse {p : Predicate} {b' : Substitution} {m : Nat} {cs : List StoredClause} {op : Primitive}
    (h : Tries p b' m cs op) : op ≠ .traverse list b := by
  induction h with
  | first => rintro ⟨⟩
  | next _ _ ih => exact ih

theorem Retries.ne_traverse {store : Store} {m : Nat} {cs : List Choice} {op : Primitive} (h : Retries store m cs op) :
    op ≠ .traverse list b := by
  induction h with
  | dropped _ ih => exact ih
  | clauses h => exact h.ne_traverse
  | next _ _ ih => exact ih

theorem CallPerforms.stuck {p : Predicate} {b' : Substitution} (h : CallPerforms limits w p b' (.traverse list b)) :
    b = b' ∧ ((∀ n, Sequence.items b n list = none) →
      ∀ n s barrier rest, call limits n w s p barrier rest b' = none) := by
  cases h with
  | member hname hargs h =>
    obtain ⟨rfl, hstuck⟩ := h.stuck
    exact ⟨rfl, fun hnone n s barrier rest => by simp only [call, hname, hargs, hstuck hnone, Option.map_none]⟩
  | append hname hargs h =>
    obtain ⟨rfl, hstuck⟩ := h.stuck
    exact ⟨rfl, fun hnone n s barrier rest => by simp only [call, hname, hargs, hstuck hnone, Option.map_none]⟩
  | length hname hargs h =>
    obtain ⟨rfl, hstuck⟩ := h.stuck
    exact ⟨rfl, fun hnone n s barrier rest => by simp only [call, hname, hargs, hstuck hnone, Option.map_none]⟩
  | clauses _ h => exact absurd rfl h.ne_traverse

theorem TurnPerforms.stuck (h : TurnPerforms limits w s (.traverse list b)) :
    s.Holds b ∧ ((∀ n, Sequence.items b n list = none) → ∀ n, turn limits n w s = none) := by
  cases h with
  | back _ _ h => exact absurd rfl h.ne_traverse
  | @goal f rest b' _ he hc hx h =>
    obtain ⟨g, barrier⟩ := f
    cases h with
    | call h =>
      obtain ⟨rfl, hstuck⟩ := h.stuck
      refine ⟨.current hc, fun hnone n => ?_⟩
      simp only [turn, he, hc, hx, goalTurn, simpleStep, hstuck hnone, Option.isSome_none, Bool.false_eq_true, if_false,
        Option.map_none]
    | retract h => exact absurd rfl h.ne_traverse

end Stuck

section Pulls

variable {n k : Nat} {w₁ : World} {s₁ : Search}

theorem turn_unique {t t' : Turn} (ht : turn limits n w s = some t) (ht' : turn limits k w s = some t') : t = t' :=
  Bounded.unique (fun hnm => turn_le limits hnm w s) ht ht'

theorem next_goes {r : Option Substitution × World × Search} (ht : turn limits k w s = some (.goes w₁ s₁))
    (hn : next limits (n + 1) w s = some r) : next limits n w₁ s₁ = some r := by
  rw [next_succ] at hn
  obtain ⟨t, ht', hn⟩ := Option.bind_eq_some_iff.mp hn
  obtain rfl := turn_unique ht ht'
  exact hn

theorem next_stops {answer : Option Substitution} {r : Option Substitution × World × Search}
    (ht : turn limits k w s = some (.stops answer w₁ s₁)) (hn : next limits n w s = some r) : r = (answer, w₁, s₁) := by
  cases n with
  | zero => cases hn
  | succ n =>
    rw [next_succ] at hn
    obtain ⟨t, ht', hn⟩ := Option.bind_eq_some_iff.mp hn
    obtain rfl := turn_unique ht ht'
    exact (Option.some.inj hn).symm

theorem drain_goes {r : List Substitution × World × Search} (ht : turn limits k w s = some (.goes w₁ s₁))
    (hd : drain limits n w s = some r) : drain limits n w₁ s₁ = some r := by
  cases n with
  | zero => cases hd
  | succ n =>
    rw [drain] at hd ⊢
    obtain ⟨answer, hn, hd⟩ := Option.bind_eq_some_iff.mp hd
    cases n with
    | zero => cases hn
    | succ n =>
      rw [(next_le limits n.le_succ w₁ s₁).eq_some (next_goes ht hn)]
      exact hd

theorem drain_stops {r : List Substitution × World × Search} (ht : turn limits k w s = some (.stops (some b) w₁ s₁))
    (hd : drain limits n w s = some r) : ∃ m q, drain limits m w₁ s₁ = some q := by
  cases n with
  | zero => cases hd
  | succ n =>
    rw [drain] at hd
    obtain ⟨answer, hn, hd⟩ := Option.bind_eq_some_iff.mp hd
    obtain rfl := next_stops ht hn
    obtain ⟨q, hq, -⟩ := Option.map_eq_some_iff.mp hd
    exact ⟨n, q, hq⟩

/-- Neither a pull nor all pulls to the end return, whatever the effort; the pulls to the end do not where only they
get to the moment. -/
structure Stuck (limits : Limits) (toEnd : Bool) (w : World) (s : Search) : Prop where
  next (n : Nat) : toEnd = false → next limits n w s = none
  drain (n : Nat) : drain limits n w s = none

theorem stuck_of_turn (h : ∀ n, turn limits n w s = none) : Stuck limits toEnd w s := by
  have hnext (n : Nat) : Search.next limits n w s = none := by
    cases n with
    | zero => rfl
    | succ n =>
      rw [next_succ, h]
      rfl
  refine ⟨fun n _ => hnext n, fun n => ?_⟩
  cases n with
  | zero => rfl
  | succ n =>
    rw [Search.drain, hnext]
    rfl

theorem Visits.stuck (hv : Visits limits toEnd w s w' s') (h : ∀ n, turn limits n w' s' = none) :
    Stuck limits toEnd w s := by
  induction hv with
  | here => exact stuck_of_turn h
  | negation he hc hx _ ih =>
    refine stuck_of_turn fun n => ?_
    have hinner := (ih h).next n rfl
    simp only [turn, he, hc, hx, goalTurn, Option.isSome_none, Bool.false_eq_true, if_false]
    exact Option.map_eq_none_iff.mpr hinner
  | collection he hc hx _ ih =>
    refine stuck_of_turn fun n => ?_
    have hinner := (ih h).drain n
    simp only [turn, he, hc, hx, goalTurn, Option.isSome_none, Bool.false_eq_true, if_false, gather_eq_drain]
    refine Option.bind_eq_none_iff.mpr fun r hr => ?_
    obtain ⟨q, hq, -⟩ := Option.map_eq_some_iff.mp hr
    exact absurd (hinner.symm.trans hq) (by simp)
  | later ht _ ih =>
    obtain ⟨hnext, hdrain⟩ := ih h
    constructor
    · intro n hend
      cases n with
      | zero => rfl
      | succ n =>
        refine Option.eq_none_iff_forall_ne_some.mpr fun r hr => ?_
        exact absurd ((hnext n hend).symm.trans (next_goes ht hr)) (by simp)
    · intro n
      refine Option.eq_none_iff_forall_ne_some.mpr fun r hr => ?_
      exact absurd ((hdrain n).symm.trans (drain_goes ht hr)) (by simp)
  | resumed ht _ ih =>
    refine ⟨by simp, fun n => ?_⟩
    refine Option.eq_none_iff_forall_ne_some.mpr fun r hr => ?_
    obtain ⟨m, q, hq⟩ := drain_stops ht hr
    exact absurd (((ih h).drain m).symm.trans hq) (by simp)

theorem Visits.arises (hv : Visits limits toEnd w s w' s') (h : Arises limits s) : Arises limits s' := by
  induction hv with
  | here => exact h
  | negation _ hc _ _ ih => exact ih (h.inside hc rfl)
  | collection _ hc _ _ ih => exact ih (h.inside hc rfl)
  | later ht _ ih => exact ih (h.turned ht)
  | resumed ht _ ih => exact ih (h.turned ht)

end Pulls

theorem Arises.walkable (h : Arises limits s) (hb : s.Holds b) : b.Walkable := (h.becomes hb).walkable walkable_empty

theorem Performs.stuck {s₀ : Search} (h : Performs limits toEnd w s₀ (.traverse list b)) (h₀ : Arises limits s₀)
    (hcircular : b.Circular list) : Stuck limits toEnd w s₀ := by
  obtain ⟨w', s', hv, hperforms⟩ := h
  obtain ⟨hheld, hstuck⟩ := hperforms.stuck
  exact hv.stuck (hstuck fun n => Sequence.items_of_circular ((hv.arises h₀).walkable hheld) hcircular n)

/-- Under all bindings that a search gets to, the traversal of a term returns exactly if the ends of values do not lead
from it into a circle. So if all unifications return that are performed, a search with a limit on the number of steps
returns, with all its answers or the report of the limit, exactly if no list that is traversed leads into a circle. -/
theorem traversals_return {max : Nat} (hmax : limits.maxInferences = some max) (hbuilt : w.store.Built)
    (goals : List Goal) (hunify : ∀ op, Performs limits true w (start goals ∅ 0) op →
      (∀ list b, op ≠ .traverse list b) → op.Returns) :
    (∀ s b, Arises limits s → s.Holds b → ∀ t, (∃ n r, Sequence.items b n t = some r) ↔ ¬ b.Circular t) ∧
    ((∃ n r, drain limits n w (start goals ∅ 0) = some r) ↔
      ∀ list b, Performs limits true w (start goals ∅ 0) (.traverse list b) → ¬ b.Circular list) := by
  refine ⟨fun s b hs hb t => Sequence.items_returns_iff (hs.walkable hb) t, ?_, fun hlists => ?_⟩
  · rintro ⟨n, r, hr⟩ list b hperforms hcircular
    have hnone := (hperforms.stuck (.start goals 0) hcircular).drain n
    rw [hr] at hnone
    cases hnone
  · refine (ends hmax hbuilt (within_start (Nat.zero_le max))).drain fun op hop => ?_
    by_cases htraverse : ∃ list b, op = .traverse list b
    · obtain ⟨list, b, rfl⟩ := htraverse
      have hwalkable : b.Walkable := by
        obtain ⟨w', s', hv, hperforms⟩ := id hop
        exact (hv.arises (.start goals 0)).walkable hperforms.stuck.1
      exact (Sequence.items_returns_iff hwalkable list).mpr (hlists list b hop)
    · exact hunify op hop fun list b heq => htraverse ⟨list, b, heq⟩

section Instances

theorem Visits.of_goes {k : Nat} {w₁ : World} {s₁ : Search} (hv : Visits limits toEnd w s w' s')
    (ht : turn limits k w s = some (.goes w₁ s₁))
    (hinner : ∀ f rest b, s.current = some ⟨f :: rest, b⟩ → f.goal.inner? = none) :
    (w' = w ∧ s' = s) ∨ Visits limits toEnd w₁ s₁ w' s' := by
  cases hv with
  | here => exact .inl ⟨rfl, rfl⟩
  | negation _ hc _ _ => cases hinner _ _ _ hc
  | collection _ hc _ _ => cases hinner _ _ _ hc
  | later ht' hv =>
    cases turn_unique ht ht'
    exact .inr hv
  | resumed ht' _ => cases turn_unique ht ht'

theorem Visits.of_stops {k : Nat} {w₁ : World} {s₁ : Search} {answer : Option Substitution}
    (hv : Visits limits toEnd w s w' s') (ht : turn limits k w s = some (.stops answer w₁ s₁))
    (hinner : ∀ f rest b, s.current = some ⟨f :: rest, b⟩ → f.goal.inner? = none) :
    (w' = w ∧ s' = s) ∨ (answer ≠ none ∧ Visits limits true w₁ s₁ w' s') := by
  cases hv with
  | here => exact .inl ⟨rfl, rfl⟩
  | negation _ hc _ _ => cases hinner _ _ _ hc
  | collection _ hc _ _ => cases hinner _ _ _ hc
  | later ht' _ => cases turn_unique ht ht'
  | resumed ht' hv =>
    cases turn_unique ht ht'
    exact .inr ⟨by simp, hv⟩

def memberOfOne : Goal := .call ⟨"member", [.var "X", .list [.atom "a"]]⟩

theorem performs_memberOfOne {op : Primitive}
    (h : Performs { maxInferences := some 1 } true ⟨∅, 0⟩ (start [memberOfOne] ∅ 0) op) :
    op = .traverse (.list [.atom "a"]) ∅ ∨ op = .unify (.var "X") (.atom "a") ∅ := by
  obtain ⟨w', s', hv, hperforms⟩ := h
  have hproved : turn { maxInferences := some 1 } 2 ⟨∅, 0⟩ (start [memberOfOne] ∅ 0) =
      some (.goes ⟨∅, 0⟩ ⟨some ⟨[], bind ∅ "X" (.atom "a")⟩, .empty, 1, none⟩) := rfl
  have hanswer : turn { maxInferences := some 1 } 2 ⟨∅, 0⟩ ⟨some ⟨[], bind ∅ "X" (.atom "a")⟩, .empty, 1, none⟩ =
      some (.stops (some (bind ∅ "X" (.atom "a"))) ⟨∅, 0⟩ ⟨none, .empty, 1, none⟩) := rfl
  have hend : turn { maxInferences := some 1 } 2 ⟨∅, 0⟩ ⟨none, .empty, 1, none⟩ =
      some (.stops none ⟨∅, 0⟩ ⟨none, .empty, 1, none⟩) := rfl
  rcases hv.of_goes hproved (by rintro f rest b ⟨⟩; rfl) with ⟨rfl, rfl⟩ | hv
  · cases hperforms with
    | back _ hc _ => cases hc
    | goal _ hc _ h =>
      cases hc
      cases h with
      | call h =>
        cases h with
        | member _ hargs h =>
          cases hargs
          cases h with
          | traverse => exact .inl rfl
          | unify has ha =>
            cases Sequence.items_unique has (rfl : Sequence.items ∅ 1 (.list [.atom "a"]) = some (some [.atom "a"]))
            rw [List.mem_singleton.mp ha]
            exact .inr rfl
        | append hname _ _ | length hname _ _ | unify hname _ => cases hname
        | clauses hbuiltin _ => cases hbuiltin
  · rcases hv.of_stops hanswer (by rintro f rest b ⟨⟩) with ⟨rfl, rfl⟩ | ⟨-, hv⟩
    · cases hperforms with
      | back _ hc _ => cases hc
      | goal _ hc _ _ => cases hc
    · rcases hv.of_stops hend (by rintro f rest b ⟨⟩) with ⟨rfl, rfl⟩ | ⟨hne, -⟩
      · cases hperforms with
        | back _ _ h => cases h
        | goal _ hc _ _ => cases hc
      · exact absurd rfl hne

theorem traversals_return_memberOfOne :
    ∃ n r, drain { maxInferences := some 1 } n ⟨∅, 0⟩ (start [memberOfOne] ∅ 0) = some r := by
  have hunify : ∀ op, Performs { maxInferences := some 1 } true ⟨∅, 0⟩ (start [memberOfOne] ∅ 0) op →
      (∀ list b, op ≠ .traverse list b) → op.Returns := by
    intro op hop hne
    rcases performs_memberOfOne hop with rfl | rfl
    · exact absurd rfl (hne _ _)
    · exact ⟨1, _, rfl⟩
  obtain ⟨-, hends⟩ := traversals_return rfl .empty [memberOfOne] hunify
  refine hends.mpr fun list b hop => ?_
  rcases performs_memberOfOne hop with heq | heq <;> cases heq
  rintro ⟨x, ⟨⟩, _⟩

/-- Whether a call of `member` comes next, on a variable whose value ends in the variable itself. -/
def asksForCircle (s : Search) : Bool :=
  match s with
  | ⟨some ⟨⟨.call ⟨name, [_, .var x]⟩, _⟩ :: _, b⟩, _, _, none⟩ =>
    Keyword.ofSpelling? name == some .member && (b.get? x).any fun t =>
      match t.ending with
      | .var y => x == y
      | _ => false
  | _ => false

theorem performs_of_asksForCircle (h : s.asksForCircle = true) (hx : excess limits (s.steps + 1) = none) :
    ∃ list b, TurnPerforms limits w s (.traverse list b) ∧ b.Circular list := by
  unfold asksForCircle at h
  split at h
  · next name element x barrier rest b choices steps =>
    obtain ⟨hname, hvalue⟩ := (Bool.and_eq_true _ _).mp h
    obtain ⟨t, ht, hend⟩ := (Option.any_eq_true _ _).mp hvalue
    split at hend
    · next y hy =>
      obtain rfl := beq_iff_eq.mp hend
      have hgoesOn : b.GoesOn x x := ⟨t, ht, hy⟩
      refine ⟨.var x, b, .goal rfl rfl hx (.call (.member (beq_iff_eq.mp hname) rfl .traverse)), ?_⟩
      exact ⟨x, rfl, x, .refl, .single hgoesOn⟩
    · cases hend
  · cases h

/-- After `T = [a | T]` the members of `T` are never found out, and no limit ends the query. -/
theorem member_of_circle_never_returns : ∃ goals, Goal.parseQuery "?T = [a | ?T], member(b, ?T)" = .ok goals ∧
    ¬ ∃ n r, next { maxInferences := some 1000 } n ⟨∅, 0⟩ (start goals ∅ 0) = some r := by
  have hturn : (Goal.parseQuery "?T = [a | ?T], member(b, ?T)").toOption.any (fun goals =>
      (turn { maxInferences := some 1000 } 9 ⟨∅, 0⟩ (start goals ∅ 0)).any fun t =>
        t.goesOn && t.search.asksForCircle && t.search.steps == 1) = true := by decide +kernel
  obtain ⟨goals, hgoals, hturn⟩ := exists_of_any hturn
  obtain ⟨t, ht, hturn⟩ := (Option.any_eq_true _ _).mp hturn
  simp only [Bool.and_eq_true, beq_iff_eq] at hturn
  obtain ⟨⟨hgoes, hasks⟩, hsteps⟩ := hturn
  cases t with
  | stops answer w s => cases hgoes
  | goes w s =>
    have hsteps : s.steps = 1 := hsteps
    have hx : excess { maxInferences := some 1000 } (s.steps + 1) = none := by
      rw [hsteps]
      rfl
    obtain ⟨list, b, hperforms, hcircular⟩ := performs_of_asksForCircle (w := w) hasks hx
    have hreach : Performs { maxInferences := some 1000 } false ⟨∅, 0⟩ (start goals ∅ 0) (.traverse list b) :=
      ⟨w, s, .later ht .here, hperforms⟩
    refine ⟨goals, hgoals, ?_⟩
    rintro ⟨n, r, hr⟩
    rw [(hreach.stuck (.start goals 0) hcircular).next n rfl] at hr
    cases hr

end Instances

end Search
end BilingualLogic
