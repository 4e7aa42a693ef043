import BilingualLogic.Proofs.Search.Primitives
import BilingualLogic.Proofs.Sequence.Concatenation
import BilingualLogic.Proofs.Sequence.Traversal
import BilingualLogic.Proofs.Substitution.Resolution

/-!
Lists that are known to their ends. Traversal collects the items from rest to rest, resolution builds the whole list
anew; both find the same lists. So the predicates on lists make no difference between a list and what leads to it.
-/

namespace BilingualLogic

open Relation

namespace Substitution

variable {s : Substitution} {x : String} {t : Term}

theorem Acyclic.walkable (h : s.Acyclic) : s.Walkable := by
  apply walkable_iff_direct.mpr
  intro x hx
  apply h x
  exact hx.lift id fun y z hyz => ⟨.var z, hyz, .var⟩

theorem occurs_of_ending (h : t.ending = .var x) : t.Occurs x := by
  induction t with
  | var y =>
    cases h
    exact .var
  | pattern as r _ ihr => exact .rest (ihr h)
  | const | list => cases h

theorem Acyclic.not_circular (h : s.Acyclic) (t : Term) : ¬ s.Circular t := by
  rintro ⟨x, -, y, -, hy⟩
  apply h y
  refine hy.lift id ?_
  rintro z w ⟨u, hu, hend⟩
  exact ⟨u, hu, occurs_of_ending hend⟩

theorem Acyclic.resolve_follow (h : s.Acyclic) (n : Nat) (t : Term) : s.resolve (s.follow n t) = s.resolve t := by
  induction n generalizing t with
  | zero => rfl
  | succ n ih =>
    cases t with
    | var x =>
      rw [follow]
      cases hx : s.get? x with
      | none => rfl
      | some u => rw [ih, h.resolve_bound hx]
    | _ => rfl

theorem Acyclic.resolve_walk (h : s.Acyclic) (t : Term) : s.resolve (s.walk t) = s.resolve t :=
  h.resolve_follow s.size t

end Substitution

theorem Term.rest_of_cons_list {as bs : List Term} {r : Term} (h : cons as r = list bs) : ∃ cs, r = list cs := by
  cases as with
  | nil => exact ⟨bs, h⟩
  | cons a as =>
    cases r with
    | list cs => exact ⟨cs, rfl⟩
    | var | const | pattern => cases h

namespace Sequence

open Substitution

variable {s s' : Substitution} {t u : Term} {as bs : List Term} {n m : Nat} {r : Option Substitution}

/-- Traversal takes the steps of a walk one rest after the other, and resolution agrees at each. -/
theorem resolve_of_items (hs : s.Acyclic) {r : Option (List Term)} (h : items s n t = some r) :
    match r with
    | some as => s.resolve t = .list (as.map s.resolve)
    | none => ∀ us, s.resolve t ≠ .list us := by
  induction n generalizing t r with
  | zero => cases h
  | succ n ih =>
    rw [items] at h
    rw [← hs.resolve_walk t]
    cases hwalk : s.walk t with
    | var x =>
      rw [hwalk] at h
      cases h
      have hx : s.get? x = none := hs.walkable t x hwalk
      intro us
      rw [resolve_of_unbound rfl (Term.varsIn_var.mpr hx)]
      rintro ⟨⟩
    | const v =>
      rw [hwalk] at h
      cases h
      intro us
      simp [resolve, Term.bindVars]
    | list as =>
      rw [hwalk] at h
      cases h
      exact Term.bindVars_list _ as
    | pattern as rest =>
      rw [hwalk] at h
      dsimp only at h
      have hresolve : s.resolve (.pattern as rest) = .cons (as.map s.resolve) (s.resolve rest) :=
        Term.bindVars_pattern _ as rest
      cases hrest : items s n rest with
      | none =>
        rw [hrest] at h
        cases h
      | some q =>
        rw [hrest] at h
        have ih := ih hrest
        cases q with
        | none =>
          cases h
          intro us hus
          rw [hresolve] at hus
          obtain ⟨cs, hcs⟩ := Term.rest_of_cons_list hus
          exact ih cs hcs
        | some more =>
          cases h
          dsimp only at ih ⊢
          rw [hresolve, ih, Term.cons_list, List.map_append]

theorem resolve_eq_list_iff (hs : s.Acyclic) (t : Term) (us : List Term) :
    s.resolve t = .list us ↔ ∃ n as, items s n t = some (some as) ∧ us = as.map s.resolve := by
  constructor
  · intro h
    obtain ⟨n, r, hr⟩ := (items_returns_iff hs.walkable t).mpr (hs.not_circular t)
    have hresolve := resolve_of_items hs hr
    cases r with
    | none => exact absurd h (hresolve us)
    | some as => exact ⟨n, as, hr, Term.list.inj (h.symm.trans hresolve)⟩
  · rintro ⟨n, as, has, rfl⟩
    exact resolve_of_items hs has

theorem items_list (s : Substitution) (n : Nat) (as : List Term) : items s (n + 1) (.list as) = some (some as) := by
  rw [items, walk_of_ends (by rintro _ ⟨⟩)]

/-- What is found with enough effort by one of two functions is found by the other. -/
theorem exists_iff_of_eventually {α : Type} {f g : Nat → Bounded α} (hf : ∀ {n m}, n ≤ m → Bounded.Le (f n) (f m))
    (hg : ∀ {n m}, n ≤ m → Bounded.Le (g n) (g m)) (h : ∀ n, m ≤ n → f n = g n) (a : α) :
    (∃ n, f n = some a) ↔ ∃ n, g n = some a := by
  constructor
  · rintro ⟨n, hn⟩
    exact ⟨max n m, by rw [← h _ (Nat.le_max_right n m)]; exact (hf (Nat.le_max_left n m)).eq_some hn⟩
  · rintro ⟨n, hn⟩
    exact ⟨max n m, by rw [h _ (Nat.le_max_right n m)]; exact (hg (Nat.le_max_left n m)).eq_some hn⟩

theorem member_of_items (h : items s m t = some (some as)) (x : Term) (bs : List Substitution) :
    (∃ n, member n x t s = some bs) ↔ ∃ n, member n x (.list as) s = some bs := by
  apply exists_iff_of_eventually (fun hnm => member_le hnm x t s) (fun hnm => member_le hnm x (.list as) s) (m := m + 1)
  intro n hn
  obtain ⟨n, rfl⟩ : ∃ k, n = k + 1 := ⟨n - 1, by omega⟩
  rw [member, member, (items_le (by omega) s t).eq_some h, items_list]

theorem length_of_items (h : items s m t = some (some as)) (limits : Limits) (copy : Nat) (count : Term)
    (bs : Except Error (List Substitution)) :
    (∃ n, length limits n copy t count s = some bs) ↔ ∃ n, length limits n copy (.list as) count s = some bs := by
  apply exists_iff_of_eventually (fun hnm => length_le limits hnm copy t count s)
    (fun hnm => length_le limits hnm copy (.list as) count s) (m := m + 1)
  intro n hn
  obtain ⟨n, rfl⟩ : ∃ k, n = k + 1 := ⟨n - 1, by omega⟩
  rw [length, length, (items_le (by omega) s t).eq_some h, items_list]

/-- The second term is the first one, or a plain list of the items that this has. -/
def Flattens (s : Substitution) (t u : Term) : Prop := u = t ∨ ∃ n as, items s n t = some (some as) ∧ u = .list as

theorem Flattens.items (h : Flattens s t u) {r : Option (List Term)} (ht : items s n t = some r) :
    Sequence.items s (n + 1) u = some r := by
  rcases h with rfl | ⟨m, as, has, rfl⟩
  · exact (items_le_succ s n u).eq_some ht
  · obtain rfl : some as = r := Bounded.unique (fun hnm => items_le hnm s t) has ht
    exact items_list s n as

theorem Flattens.grows (h : Flattens s t u) (hs : s.Walkable) {P : Term → Prop} (hg : s.Grows P s') :
    Flattens s' t u := by
  rcases h with rfl | ⟨m, as, has, rfl⟩
  · exact .inl rfl
  · exact .inr ⟨m, as, items_grows hg hs has, rfl⟩

theorem unifyAllBy_of_unify (hs : s.Walkable) (ht : items s m t = some (some as)) (hlength : as.length = bs.length)
    (h : unify n t (.list bs) s = some r) : unifyAllBy (unify n) as bs s = some r := by
  induction m generalizing t s n as bs with
  | zero => cases ht
  | succ m ih =>
    cases n with
    | zero => cases h
    | succ n =>
      refine (unifyAllBy_le (unify_le_succ n) as bs s).eq_some ?_
      rw [items] at ht
      rw [unify, walk_of_ends (t := .list bs) (by rintro _ ⟨⟩)] at h
      cases hwalk : s.walk t with
      | var | const =>
        rw [hwalk] at ht
        cases ht
      | list cs =>
        rw [hwalk] at ht h
        cases ht
        dsimp only at h
        rwa [if_pos hlength] at h
      | pattern cs rest =>
        rw [hwalk] at ht h
        dsimp only at ht h
        split at ht
        · next more hmore =>
          cases ht
          rw [List.length_append] at hlength
          have hlong : ¬ bs.length < cs.length := by omega
          have htake : cs.length = (bs.take cs.length).length := by
            rw [List.length_take]
            omega
          rw [unifyFrontBy, if_neg hlong] at h
          rw [← List.take_append_drop cs.length bs, unifyAllBy_append htake]
          cases hfront : unifyAllBy (unify n) cs (bs.take cs.length) s with
          | none =>
            rw [hfront] at h
            cases h
          | some q =>
            rw [hfront] at h
            cases q with
            | none => exact h
            | some s₁ =>
              obtain ⟨hs₁, hmore₁⟩ := unifyAllBy_items_grows hs hfront hmore
              refine ih hs₁ hmore₁ ?_ h
              rw [List.length_drop]
              omega
        · next hnot => exact absurd ht (hnot as)

theorem Flattens.unify (h : Flattens s t u) (hs : s.Walkable) (ht : BilingualLogic.unify n t (.list bs) s = some r) :
    BilingualLogic.unify (n + 1) u (.list bs) s = some r := by
  rcases h with rfl | ⟨m, as, has, rfl⟩
  · exact (unify_le_succ n u _ s).eq_some ht
  · rw [BilingualLogic.unify, walk_of_ends (t := .list as) (by rintro _ ⟨⟩),
      walk_of_ends (t := .list bs) (by rintro _ ⟨⟩)]
    dsimp only
    split
    · next hlength => exact unifyAllBy_of_unify hs has hlength ht
    · next hne =>
      cases r with
      | none => rfl
      | some s' => exact absurd (length_eq_of_unifyAllBy (unifyAllBy_of_unify_list hs has ht)) hne

variable {front back whole front' back' whole' : Term}

theorem atSplit_flattens (hs : s.Walkable) (hfront : Flattens s front front') (hback : Flattens s back back')
    (k : Nat) : Bounded.Le (atSplit as front back s n k) (atSplit as front' back' s (n + 1) k) := by
  apply Bounded.Le.of_forall
  intro r hr
  unfold atSplit at hr ⊢
  cases hfirst : BilingualLogic.unify n front (.list (as.take k)) s with
  | none =>
    rw [hfirst] at hr
    cases hr
  | some q =>
    rw [hfirst] at hr
    rw [hfront.unify hs hfirst]
    cases q with
    | none => exact hr
    | some s₁ =>
      have hg : s.Grows (fun _ => True) s₁ :=
        unify_growsBy hereditary_true n hs (fun _ _ _ _ => trivial) trivial trivial hfirst
      exact (hback.grows hs hg).unify (hg.walkable hs) hr

theorem splits_flattens (hs : s.Walkable) (hfront : Flattens s front front') (hback : Flattens s back back')
    (hwhole : Flattens s whole whole') :
    Bounded.Le (append.splits n front back whole s) (append.splits (n + 1) front' back' whole' s) := by
  unfold append.splits
  cases hitems : items s n whole with
  | none => exact .none _
  | some r =>
    rw [hwhole.items hitems]
    cases r with
    | none => exact .refl _
    | some as => exact (answers_le (fun k => atSplit_flattens hs hfront hback k) [] _).map _

theorem append_flattens (hs : s.Walkable) (hfront : Flattens s front front') (hback : Flattens s back back')
    (hwhole : Flattens s whole whole') (limits : Limits) :
    Bounded.Le (append limits n front back whole s) (append limits (n + 1) front' back' whole' s) := by
  unfold append
  cases hf : items s n front with
  | none => exact .none _
  | some fronts =>
    cases hb : items s n back with
    | none => exact .none _
    | some backs =>
      rw [hfront.items hf, hback.items hb]
      have hsplits := splits_flattens (n := n) hs hfront hback hwhole
      cases fronts with
      | none => exact hsplits
      | some as =>
        cases backs with
        | none => exact hsplits
        | some bs =>
          dsimp only
          split
          · exact .refl _
          · refine Bounded.Le.map (.of_forall fun r hr => ?_) _
            exact hwhole.unify hs hr

end Sequence
end BilingualLogic
