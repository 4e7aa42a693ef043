import BilingualLogic.Proofs.Sequence.Answers
import BilingualLogic.Proofs.Term.Instance
import BilingualLogic.Proofs.Unification.Symmetry

/-!
Concatenation and splitting. Where both parts and the whole are lists that are known to their ends, the whole is
unified with the joined parts item by item, and so are the parts with the two pieces of the whole at one of its splits.
At all other splits a part fails for its length, on items that have been unified before.
-/

namespace BilingualLogic

open Substitution

variable {P : Term → Prop} {s s' : Substitution} {t : Term}

/-- A walk that has ended at a term that is no variable is not changed by later bindings. -/
theorem Substitution.Grows.walk_eq (h : Grows P s s') (hs : s.Walkable) (ht : (s.walk t).isVar = false) :
    s'.walk t = s.walk t := by
  induction h with
  | refl => rfl
  | @bind s' x u hg hx hu hne _ _ ih =>
    have hwalk : s'.walk t ≠ .var x := by
      rintro heq
      rw [← ih, heq] at ht
      cases ht
    rw [walk_bind_of_ne (hg.walkable hs) hx hu hne hwalk, ih]

section Lists

variable {u : Term → Term → Substitution → Bounded (Option Substitution)} {as bs cs ds : List Term}
  {r : Option Substitution}

theorem unifyAllBy_append (hlength : as.length = cs.length) (s : Substitution) :
    unifyAllBy u (as ++ bs) (cs ++ ds) s =
      match unifyAllBy u as cs s with
      | some (some s) => unifyAllBy u bs ds s
      | r => r := by
  induction as generalizing cs s with
  | nil =>
    obtain rfl : cs = [] := List.length_eq_zero_iff.mp hlength.symm
    rfl
  | cons a as ih =>
    cases cs with
    | nil => cases hlength
    | cons c cs =>
      rw [List.cons_append, List.cons_append, unifyAllBy, unifyAllBy]
      cases u a c s with
      | none => rfl
      | some r =>
        cases r with
        | none => rfl
        | some s => exact ih (Nat.succ.inj hlength) s

theorem unifyAllBy_eq_some_append (hlength : as.length = cs.length) :
    unifyAllBy u (as ++ bs) (cs ++ ds) s = some (some s') ↔
      ∃ s₁, unifyAllBy u as cs s = some (some s₁) ∧ unifyAllBy u bs ds s₁ = some (some s') := by
  rw [unifyAllBy_append hlength]
  cases unifyAllBy u as cs s with
  | none => simp
  | some r => cases r <;> simp

theorem length_eq_of_unifyAllBy (h : unifyAllBy u as bs s = some (some s')) : as.length = bs.length := by
  induction as generalizing bs s with
  | nil =>
    cases bs with
    | nil => rfl
    | cons b bs => cases h
  | cons a as ih =>
    cases bs with
    | nil => cases h
    | cons b bs =>
      rw [unifyAllBy] at h
      split at h
      · exact congrArg Nat.succ (ih h)
      · next hne => exact absurd h (hne s')

/-- Too few or too many of the terms with which others are unified make the unification fail, and not go on forever. -/
theorem unifyAllBy_take_of_ne (h : unifyAllBy u as bs s = some (some s')) {k : Nat} (hk : k ≠ bs.length)
    (hle : k ≤ (bs ++ ds).length) : unifyAllBy u as ((bs ++ ds).take k) s = some none := by
  induction as generalizing bs s k with
  | nil =>
    cases bs with
    | nil =>
      obtain ⟨k, rfl⟩ := Nat.exists_eq_succ_of_ne_zero hk
      cases ds with
      | nil => simp at hle
      | cons d ds => rfl
    | cons b bs => cases h
  | cons a as ih =>
    cases bs with
    | nil => cases h
    | cons b bs =>
      cases k with
      | zero => rfl
      | succ k =>
        rw [unifyAllBy] at h
        rw [List.cons_append, List.take_succ_cons, unifyAllBy]
        split at h
        · exact ih h (fun hlength => hk (congrArg Nat.succ hlength)) (Nat.le_of_succ_le_succ hle)
        · next hne => exact absurd h (hne s')

/-- The items of a pattern and what its rest has are unified with a list one by one, where the rest is with what the
items of the pattern leave. -/
theorem unifyAllBy_of_unifyFrontBy {a : Term} (h : unifyFrontBy u as a cs s = some (some s'))
    (hrest : ∀ {s₁ ds}, unifyAllBy u as (cs.take as.length) s = some (some s₁) →
      u a (.list ds) s₁ = some (some s') → unifyAllBy u bs ds s₁ = some (some s')) :
    unifyAllBy u (as ++ bs) cs s = some (some s') := by
  unfold unifyFrontBy at h
  split at h
  · cases h
  · next hlong =>
    have hlength : as.length = (cs.take as.length).length :=
      (List.length_take_of_le (Nat.le_of_not_lt hlong)).symm
    rw [← List.take_append_drop as.length cs]
    refine (unifyAllBy_eq_some_append hlength).mpr ?_
    split at h
    · next s₁ hfront => exact ⟨s₁, hfront, hrest hfront h⟩
    · next hfront => exact absurd h (hfront s')

/-- So it is the other way round, with more effort and also where it fails. -/
theorem unifyFrontBy_of_unifyAllBy {v : Term → Term → Substitution → Bounded (Option Substitution)} {a : Term}
    (hle : ∀ a b s, Bounded.Le (u a b s) (v a b s)) (h : unifyAllBy u (as ++ bs) cs s = some r)
    (hrest : ∀ {s₁ ds}, unifyAllBy u as (cs.take as.length) s = some (some s₁) →
      unifyAllBy u bs ds s₁ = some r → v a (.list ds) s₁ = some r) :
    unifyFrontBy v as a cs s = some r := by
  unfold unifyFrontBy
  split
  · next hshort =>
    cases r with
    | none => rfl
    | some s' =>
      have hlength := length_eq_of_unifyAllBy h
      rw [List.length_append] at hlength
      omega
  · next hlong =>
    have hlength : as.length = (cs.take as.length).length :=
      (List.length_take_of_le (Nat.le_of_not_lt hlong)).symm
    have later {r : Option Substitution} (h : unifyAllBy u as (cs.take as.length) s = some r) :
        unifyAllBy v as (cs.take as.length) s = some r := (unifyAllBy_le hle as _ s).eq_some h
    rw [← List.take_append_drop as.length cs, unifyAllBy_append hlength] at h
    split at h
    · next s₁ hfront =>
      rw [later hfront]
      exact hrest hfront h
    · next hfront =>
      rw [later h]
      cases r with
      | none => rfl
      | some s₁ => exact absurd h (hfront s₁)

/-- Two lists are unified in either order with the same walks. -/
theorem unifyAllBy_swapped (n : Nat) (as bs : List Term) (hs : s.Walkable) :
    SameResults (unifyAllBy (unify n) as bs s) (unifyAllBy (unify n) bs as s) := by
  rw [← unifyAllBy_swap (unify n) as bs]
  exact unifyAllBy_same (unify_swap n) as bs (.refl hs)

theorem SameResults.of_some {q q' : Bounded (Option Substitution)} (h : SameResults q q') (hq : q = some (some s)) :
    ∃ s', q' = some (some s') ∧ SameWalks s s' := by
  subst hq
  generalize q' = p at h
  cases h with
  | some h =>
    cases h with
    | some h => exact ⟨_, rfl, h⟩

end Lists

namespace Sequence

variable {as bs cs : List Term} {m n : Nat} {r : Option Substitution}

theorem items_grows (h : Grows P s s') (hs : s.Walkable) (ht : items s m t = some (some as)) :
    items s' m t = some (some as) := by
  induction m generalizing t as with
  | zero => cases ht
  | succ m ih =>
    rw [items] at ht ⊢
    cases hwalk : s.walk t with
    | var | const =>
      rw [hwalk] at ht
      cases ht
    | list bs =>
      rw [h.walk_eq hs (by rw [hwalk]; rfl), hwalk]
      rwa [hwalk] at ht
    | pattern bs rest =>
      rw [h.walk_eq hs (by rw [hwalk]; rfl), hwalk]
      rw [hwalk] at ht
      dsimp only at ht ⊢
      split at ht
      · next more hmore =>
        rw [ih hmore]
        exact ht
      · next hnot => exact absurd ht (hnot as)

theorem unifyAllBy_items_grows {u : Term} (hs : s.Walkable) (h : unifyAllBy (unify n) as bs s = some (some s'))
    (hu : items s m u = some (some cs)) : s'.Walkable ∧ items s' m u = some (some cs) := by
  have hgrows : Grows (fun _ => True) s s' := unifyAllBy_grows (unify_growsBy hereditary_true n) hs
    (fun _ _ _ _ => trivial) (fun _ _ => trivial) (fun _ _ => trivial) h
  exact ⟨hgrows.walkable hs, items_grows hgrows hs hu⟩

/-- A list that is known to its end is unified with another one item by item. -/
theorem unifyAllBy_of_unify_list (hs : s.Walkable) (ht : items s m t = some (some as))
    (h : unify n t (.list bs) s = some (some s')) : unifyAllBy (unify n) as bs s = some (some s') := by
  induction m generalizing t s n as bs with
  | zero => cases ht
  | succ m ih =>
    cases n with
    | zero => cases h
    | succ n =>
      refine (unifyAllBy_le (unify_le (Nat.le_succ n)) as bs s).eq_some ?_
      rw [items] at ht
      rw [unify, walk_of_ends (t := .list bs) (by rintro _ ⟨⟩)] at h
      cases hwalk : s.walk t with
      | var | const =>
        rw [hwalk] at ht
        cases ht
      | list cs =>
        rw [hwalk] at ht h
        cases ht
        dsimp only at h
        split at h
        · exact h
        · cases h
      | pattern cs rest =>
        rw [hwalk] at ht h
        dsimp only at ht h
        split at ht
        · next more hmore =>
          cases ht
          refine unifyAllBy_of_unifyFrontBy h fun hfront hrest => ?_
          obtain ⟨hs₁, hmore₁⟩ := unifyAllBy_items_grows hs hfront hmore
          exact ih hs₁ hmore₁ hrest
        · next hnot => exact absurd ht (hnot as)

/-- So it is where that fails, which may be seen earlier by the lengths. -/
theorem unify_list_of_unifyAllBy (hs : s.Walkable) (ht : items s m t = some (some as))
    (h : unifyAllBy (unify n) as bs s = some r) : unify (n + m) t (.list bs) s = some r := by
  induction m generalizing t s as bs with
  | zero => cases ht
  | succ m ih =>
    rw [items] at ht
    rw [← Nat.add_assoc, unify, walk_of_ends (t := .list bs) (by rintro _ ⟨⟩)]
    cases hwalk : s.walk t with
    | var | const =>
      rw [hwalk] at ht
      cases ht
    | list cs =>
      rw [hwalk] at ht
      cases ht
      dsimp only
      split
      · exact (unifyAllBy_le (unify_le (Nat.le_add_right n m)) as bs s).eq_some h
      · next hne =>
        cases r with
        | none => rfl
        | some s' => exact absurd (length_eq_of_unifyAllBy h) hne
    | pattern cs rest =>
      rw [hwalk] at ht
      dsimp only at ht ⊢
      split at ht
      · next more hmore =>
        cases ht
        refine unifyFrontBy_of_unifyAllBy (unify_le (Nat.le_add_right n m)) h fun hfront hrest => ?_
        obtain ⟨hs₁, hmore₁⟩ := unifyAllBy_items_grows hs hfront hmore
        exact ih hs₁ hmore₁ hrest
      · next hnot => exact absurd ht (hnot as)

section Answers

variable {α : Type} {f : α → Bounded (Option Substitution)} {x : α} {xs ys : List α} {done : List Substitution}

theorem answers_append_of_none (h : ∀ x ∈ xs, f x = some none) : answers f done (xs ++ ys) = answers f done ys := by
  induction xs with
  | nil => rfl
  | cons x xs ih =>
    obtain ⟨hx, hxs⟩ := List.forall_mem_cons.mp h
    rw [List.cons_append, answers, hx]
    exact ih hxs

theorem answers_of_single (hnodup : xs.Nodup) (hmem : x ∈ xs) (hx : f x = some (some s))
    (hother : ∀ y ∈ xs, y ≠ x → f y = some none) : answers f [] xs = some [s] := by
  obtain ⟨before, after, rfl⟩ := List.append_of_mem hmem
  have hnot : x ∉ before ∧ x ∉ after := by
    rw [List.nodup_append, List.nodup_cons] at hnodup
    exact ⟨fun hx => hnodup.2.2 x hx x (by simp) rfl, hnodup.2.1.1⟩
  have hbefore (y) (hy : y ∈ before) : f y = some none :=
    hother y (by simp [hy]) (by rintro rfl; exact hnot.1 hy)
  have hafter (y) (hy : y ∈ after) : f y = some none :=
    hother y (by simp [hy]) (by rintro rfl; exact hnot.2 hy)
  have hend : answers f [s] (after ++ []) = answers f [s] [] := answers_append_of_none hafter
  rw [List.append_nil] at hend
  rw [answers_append_of_none hbefore, answers, hx]
  exact hend

end Answers

section Splitting

variable {front back whole : Term} (hs : s.Walkable) (hfront : items s m front = some (some as))
  (hback : items s m back = some (some bs)) (hwhole : items s m whole = some (some cs))

include hs hfront hback hwhole

/-- Where the joined parts are unified with the whole item by item, one split is an answer and no other. -/
theorem splits_of_unifyAllBy (h : unifyAllBy (unify n) (as ++ bs) cs s = some (some s')) :
    append.splits (n + m) front back whole s = some (.ok [s']) := by
  have hlength := length_eq_of_unifyAllBy h
  rw [List.length_append] at hlength
  have htake : as.length = (cs.take as.length).length := by
    rw [List.length_take]
    omega
  rw [← List.take_append_drop as.length cs, unifyAllBy_eq_some_append htake] at h
  obtain ⟨s₁, has, hbs⟩ := h
  obtain ⟨hs₁, hback₁⟩ := unifyAllBy_items_grows hs has hback
  unfold append.splits
  rw [(items_le (Nat.le_add_left m n) s whole).eq_some hwhole]
  dsimp only
  refine congrArg (Option.map Except.ok) (answers_of_single (x := as.length) List.nodup_range ?_ ?_ ?_)
  · rw [List.mem_range]
    omega
  · rw [unify_list_of_unifyAllBy hs hfront has]
    exact unify_list_of_unifyAllBy hs₁ hback₁ hbs
  · intro k hk hne
    rw [List.mem_range] at hk
    have hnone : unifyAllBy _ as ((cs.take as.length ++ cs.drop as.length).take k) s = some none :=
      unifyAllBy_take_of_ne has (by omega) (by rw [List.take_append_drop]; omega)
    rw [List.take_append_drop] at hnone
    rw [unify_list_of_unifyAllBy hs hfront hnone]

theorem unifyAllBy_of_splits {split : List Substitution}
    (h : append.splits n front back whole s = some (.ok split)) (hmem : s' ∈ split) :
    unifyAllBy (unify n) (as ++ bs) cs s = some (some s') := by
  obtain ⟨ds, k, s₁, hds, hf, hb⟩ := of_mem_splits h hmem
  obtain rfl : cs = ds := by
    have hunique := Bounded.unique (fun hnm => items_le hnm s whole) hwhole hds
    exact Option.some.inj hunique
  have has := unifyAllBy_of_unify_list hs hfront hf
  obtain ⟨hs₁, hback₁⟩ := unifyAllBy_items_grows hs has hback
  have hbs := unifyAllBy_of_unify_list hs₁ hback₁ hb
  rw [← List.take_append_drop k cs]
  exact (unifyAllBy_eq_some_append (length_eq_of_unifyAllBy has)).mpr ⟨s₁, has, hbs⟩

end Splitting

theorem of_append_ok {limits : Limits} {front back whole : Term} {joined : List Substitution}
    (hfront : items s m front = some (some as)) (hback : items s m back = some (some bs))
    (h : append limits n front back whole s = some (.ok joined)) :
    ∃ r, unify n whole (.list (as ++ bs)) s = some r ∧ joined = r.toList := by
  unfold append at h
  split at h
  · cases h
  · next fronts hf =>
    split at h
    · cases h
    · next backs hb =>
      obtain rfl : some as = fronts := Bounded.unique (fun hnm => items_le hnm s front) hfront hf
      obtain rfl : some bs = backs := Bounded.unique (fun hnm => items_le hnm s back) hback hb
      dsimp only at h
      split at h
      · cases h
      · obtain ⟨r, hr, hjoined⟩ := Option.map_eq_some_iff.mp h
        exact ⟨r, hr, (Except.ok.inj hjoined).symm⟩

/-- Where both parts and the whole are known to their ends, joining the parts has an answer exactly if splitting the
whole has one. There is one split then, with the same walks. -/
theorem append_splits {s : Substitution} (hs : s.Direct) {front back whole : Term} {as bs cs : List Term} {m n : Nat}
    (hfront : items s m front = some (some as)) (hback : items s m back = some (some bs))
    (hwhole : items s m whole = some (some cs)) {limits : Limits} {joined : List Substitution}
    (h : append limits n front back whole s = some (.ok joined)) :
    (joined ≠ [] ↔ ∃ k split, append.splits k front back whole s = some (.ok split) ∧ split ≠ []) ∧
    ∀ s₁ ∈ joined, joined = [s₁] ∧ ∃ k s₂, SameWalks s₁ s₂ ∧
      ∀ k' ≥ k, append.splits k' front back whole s = some (.ok [s₂]) := by
  have hw := walkable_iff_direct.mpr hs
  obtain ⟨r, hr, rfl⟩ := of_append_ok hfront hback h
  have split_of_joined {s₁ : Substitution} (hs₁ : r = some s₁) : ∃ k s₂, SameWalks s₁ s₂ ∧
      ∀ k' ≥ k, append.splits k' front back whole s = some (.ok [s₂]) := by
    have hjoined := unifyAllBy_of_unify_list hw hwhole (hs₁ ▸ hr)
    obtain ⟨s₂, hs₂, hsame⟩ := (unifyAllBy_swapped n cs (as ++ bs) hw).of_some hjoined
    exact ⟨n + m, s₂, hsame, fun k' hk => (splits_le hk front back whole s).eq_some
      (splits_of_unifyAllBy hw hfront hback hwhole hs₂)⟩
  refine ⟨⟨fun hne => ?_, ?_⟩, fun s₁ hs₁ => ?_⟩
  · cases r with
    | none => exact absurd rfl hne
    | some s₁ =>
      obtain ⟨k, s₂, -, hsplit⟩ := split_of_joined rfl
      exact ⟨k, [s₂], hsplit k (Nat.le_refl k), by simp⟩
  · rintro ⟨k, split, hsplit, hne⟩
    obtain ⟨s₂, hs₂⟩ := List.exists_mem_of_ne_nil split hne
    have hall := unifyAllBy_of_splits hw hfront hback hwhole hsplit hs₂
    obtain ⟨s₁, hs₁, -⟩ := (unifyAllBy_swapped k (as ++ bs) cs hw).of_some hall
    have hwholes := unify_list_of_unifyAllBy hw hwhole hs₁
    obtain rfl := Bounded.unique (fun hnm => unify_le hnm whole (.list (as ++ bs)) s) hr hwholes
    simp
  · obtain rfl : r = some s₁ := by simpa using hs₁
    exact ⟨rfl, split_of_joined rfl⟩

/-- Two patterns whose rests are bound, and a variable in both parts: `W` goes to `X` in one answer and `X` to `W` in
the other. -/
theorem append_splits_patterns :
    let s : Substitution := (bind ∅ "E" (.list [])).bind "R" (.list [.var "W"])
    let front : Term := .pattern [.var "X"] (.var "E")
    let back : Term := .list [.var "Y", .var "X"]
    let whole : Term := .pattern [.var "W", .atom "b"] (.var "R")
    ∃ s₁ s₂, append {} 5 front back whole s = some (.ok [s₁]) ∧ append.splits 5 front back whole s = some (.ok [s₂]) ∧
      s₁.get? "W" = some (.var "X") ∧ s₂.get? "X" = some (.var "W") ∧ SameWalks s₁ s₂ := by
  intro s front back whole
  have hs : s.Walkable := by
    refine (walkable_empty.bind (get?_empty _) ?_ ?_).bind (by rfl) ?_ ?_
    all_goals rintro ⟨⟩ <;> rintro ⟨⟩
  have hfront : items s 5 front = some (some [.var "X"]) := rfl
  have hback : items s 5 back = some (some [.var "Y", .var "X"]) := rfl
  have hwhole : items s 5 whole = some (some [.var "W", .atom "b", .var "W"]) := rfl
  have hsplits := append_splits (walkable_iff_direct.mp hs) hfront hback hwhole
    (rfl : append {} 5 front back whole s = some (.ok [_]))
  obtain ⟨-, k, s₂, hsame, hk⟩ := hsplits.2 _ (List.mem_singleton.mpr rfl)
  refine ⟨_, _, rfl, rfl, rfl, rfl, ?_⟩
  have hunique := Bounded.unique (fun hnm => splits_le hnm front back whole s) (hk k (Nat.le_refl k))
    (m := 5) (b := .ok [_]) rfl
  cases hunique
  exact hsame

end Sequence

end BilingualLogic
