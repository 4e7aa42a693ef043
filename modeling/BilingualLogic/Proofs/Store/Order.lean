import BilingualLogic.Store

/-!
The stores that can be built, and the order of their clauses: the numbers of the clauses of a predicate grow, so the
clauses after one of them are those that stand behind it.
-/

namespace BilingualLogic.Store

/-- The stores that changes of the empty store lead to. -/
inductive Built : Store → Prop
  | empty : Built ∅
  | add {s : Store} (c : Clause) : Built s → Built (s.add c)
  | retractHead {n : Nat} {s s' : Store} {p : Predicate} {removed : Bool} : Built s →
    s.retractHead n p = some (removed, s') → Built s'
  | retractClause {s : Store} (c : Clause) : Built s → Built (s.retractClause c).2
  | clear {s : Store} : Built s → Built s.clear
  | clearNamed {s : Store} (name : String) : Built s → Built (s.clearNamed name).2

/-- The numbers of the clauses of a table grow, up to the number that the next clause gets. -/
def Ordered (s : Store) : Prop :=
  ∀ t ∈ s.tables, t.clauses.Pairwise (·.id < ·.id) ∧ ∀ c ∈ t.clauses, c.id < s.nextId

theorem mem_insert {c : StoredClause} {ts : List Table} {t : Table} (h : t ∈ insert c ts) :
    t.clauses = [c] ∨ t ∈ ts ∨ ∃ u ∈ ts, t.clauses = u.clauses ++ [c] := by
  induction ts with
  | nil =>
    obtain rfl := List.mem_singleton.mp h
    exact Or.inl rfl
  | cons u ts ih =>
    rw [insert] at h
    split at h
    · rcases List.mem_cons.mp h with rfl | h
      · exact Or.inr (Or.inr ⟨u, by simp, rfl⟩)
      · exact Or.inr (Or.inl (by simp [h]))
    · rcases List.mem_cons.mp h with rfl | h
      · exact Or.inr (Or.inl (by simp))
      · rcases ih h with h | h | ⟨v, hv, h⟩
        · exact Or.inl h
        · exact Or.inr (Or.inl (by simp [h]))
        · exact Or.inr (Or.inr ⟨v, by simp [hv], h⟩)

theorem Ordered.add {s : Store} (hs : s.Ordered) (c : Clause) : (s.add c).Ordered := by
  intro t ht
  rcases mem_insert ht with h | h | ⟨u, hu, h⟩
  · rw [h]
    simp [Store.add]
  · obtain ⟨hp, hn⟩ := hs t h
    refine ⟨hp, fun d hd => ?_⟩
    have := hn d hd
    simp only [Store.add]
    omega
  · obtain ⟨hp, hn⟩ := hs u hu
    rw [h]
    constructor
    · rw [List.pairwise_append]
      refine ⟨hp, List.pairwise_singleton _ _, ?_⟩
      intro d hd e he
      obtain rfl := List.mem_singleton.mp he
      exact hn d hd
    · intro d hd
      simp only [Store.add]
      rcases List.mem_append.mp hd with hd | hd
      · have := hn d hd
        omega
      · obtain rfl := List.mem_singleton.mp hd
        simp

theorem removeFirst_sublist {p : StoredClause → Bounded Bool} {cs ds : List StoredClause}
    (h : removeFirst p cs = some (some ds)) : ds.Sublist cs := by
  induction cs generalizing ds with
  | nil => cases h
  | cons c cs ih =>
    rw [removeFirst] at h
    split at h
    · cases h
    · cases h
      exact List.sublist_cons_self c cs
    · obtain ⟨r, hr, h⟩ := Option.map_eq_some_iff.mp h
      obtain ⟨es, rfl, rfl⟩ := Option.map_eq_some_iff.mp h
      exact (ih hr).cons_cons c

theorem retractHead_cases {n : Nat} {s s' : Store} {p : Predicate} {removed : Bool}
    (h : s.retractHead n p = some (removed, s')) :
    s' = s ∨ ∃ cs : List StoredClause, cs.Sublist (s.storedClauses p.key) ∧ s' = s.replaceClauses p.key cs := by
  obtain ⟨r, hr, h⟩ := Option.map_eq_some_iff.mp h
  cases r with
  | none =>
    cases h
    exact Or.inl rfl
  | some cs =>
    cases h
    exact Or.inr ⟨cs, removeFirst_sublist hr, rfl⟩

theorem retractClause_cases (s : Store) (c : Clause) : (s.retractClause c).2 = s ∨
    ∃ cs : List StoredClause, cs.Sublist (s.storedClauses c.head.key) ∧
      (s.retractClause c).2 = s.replaceClauses c.head.key cs := by
  unfold retractClause
  split
  · next cs hr => exact Or.inr ⟨cs, removeFirst_sublist hr, rfl⟩
  · exact Or.inl rfl

theorem storedClauses_mem {s : Store} {k : Key} (h : s.storedClauses k ≠ []) :
    ∃ t ∈ s.tables, t.clauses = s.storedClauses k := by
  unfold storedClauses at h ⊢
  split
  · next t ht => exact ⟨t, List.mem_of_find?_eq_some ht, rfl⟩
  · next ht => simp [ht] at h

theorem Ordered.storedClauses {s : Store} (hs : s.Ordered) (k : Key) :
    (s.storedClauses k).Pairwise (·.id < ·.id) ∧ ∀ c ∈ s.storedClauses k, c.id < s.nextId := by
  by_cases h : s.storedClauses k = []
  · simp [h]
  · obtain ⟨t, ht, heq⟩ := storedClauses_mem h
    rw [← heq]
    exact hs t ht

theorem Ordered.replaceClauses {s : Store} (hs : s.Ordered) {k : Key} {cs : List StoredClause}
    (h : cs.Sublist (s.storedClauses k)) : (s.replaceClauses k cs).Ordered := by
  intro t ht
  obtain ⟨u, hu, rfl⟩ := List.mem_map.mp ht
  split
  · obtain ⟨hp, hn⟩ := hs.storedClauses k
    exact ⟨hp.sublist h, fun c hc => hn c (h.subset hc)⟩
  · exact hs u hu

theorem Built.ordered {s : Store} (h : s.Built) : s.Ordered := by
  induction h with
  | empty =>
    intro t ht
    cases ht
  | add c _ ih => exact ih.add c
  | retractHead _ h ih =>
    obtain rfl | ⟨cs, hcs, rfl⟩ := retractHead_cases h
    · exact ih
    · exact ih.replaceClauses hcs
  | @retractClause s c _ ih =>
    obtain heq | ⟨cs, hcs, heq⟩ := retractClause_cases s c <;> rw [heq]
    · exact ih
    · exact ih.replaceClauses hcs
  | clear _ _ =>
    intro t ht
    cases ht
  | clearNamed name _ ih =>
    intro t ht
    simp only [Store.clearNamed, List.partition_eq_filter_filter] at ht
    exact ih t (List.mem_filter.mp ht).1

theorem clausesAfter_of_append {s : Store} (hs : s.Ordered) {k : Key} {cs ds : List StoredClause} {c : StoredClause}
    (h : s.storedClauses k = cs ++ c :: ds) : s.clausesAfter k (some c.id) = ds := by
  have hp := (hs.storedClauses k).1
  rw [h, List.pairwise_append, List.pairwise_cons] at hp
  obtain ⟨-, ⟨hds, -⟩, hcs⟩ := hp
  have hfront (d : StoredClause) (hd : d ∈ cs) : d.id ≤ c.id := Nat.le_of_lt (hcs d hd c (by simp))
  rw [clausesAfter, h, List.dropWhile_append_of_pos (by simpa using hfront),
    List.dropWhile_cons_of_pos (by simp)]
  cases ds with
  | nil => rfl
  | cons d ds =>
    have := hds d (by simp)
    exact List.dropWhile_cons_of_neg (by simpa using this)

end BilingualLogic.Store
