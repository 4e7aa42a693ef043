import BilingualLogic.Proofs.Store.Order

/-!
What the clauses of a store have in common, and where they stand: each is in the one table of the predicate of its head,
so a call to that predicate comes to it.
-/

namespace BilingualLogic.Store

/-- All clauses have the property. -/
def All (R : Clause → Prop) (s : Store) : Prop := ∀ t ∈ s.tables, ∀ c ∈ t.clauses, R c.clause

section All

variable {R : Clause → Prop} {s s' : Store}

theorem all_empty : All R ∅ := by
  intro t ht
  cases ht

theorem All.storedClauses (h : s.All R) {k : Key} {c : StoredClause} (hc : c ∈ s.storedClauses k) : R c.clause := by
  obtain ⟨t, ht, heq⟩ := storedClauses_mem (List.ne_nil_of_mem hc)
  exact h t ht c (by rw [heq]; exact hc)

theorem All.add (h : s.All R) {c : Clause} (hc : R c) : (s.add c).All R := by
  intro t ht d hd
  rcases mem_insert ht with heq | ht | ⟨u, hu, heq⟩
  · rw [heq] at hd
    obtain rfl := List.mem_singleton.mp hd
    exact hc
  · exact h t ht d hd
  · rw [heq] at hd
    rcases List.mem_append.mp hd with hd | hd
    · exact h u hu d hd
    · obtain rfl := List.mem_singleton.mp hd
      exact hc

theorem All.replaceClauses (h : s.All R) {k : Key} {cs : List StoredClause} (hcs : cs.Sublist (s.storedClauses k)) :
    (s.replaceClauses k cs).All R := by
  intro t ht c hc
  obtain ⟨u, hu, rfl⟩ := List.mem_map.mp ht
  split at hc
  · exact h.storedClauses (hcs.subset hc)
  · exact h u hu c hc

theorem All.retractHead (h : s.All R) {n : Nat} {p : Predicate} {removed : Bool}
    (hr : s.retractHead n p = some (removed, s')) : s'.All R := by
  obtain rfl | ⟨cs, hcs, rfl⟩ := retractHead_cases hr
  · exact h
  · exact h.replaceClauses hcs

theorem All.retractClause (h : s.All R) (c : Clause) : (s.retractClause c).2.All R := by
  obtain heq | ⟨cs, hcs, heq⟩ := retractClause_cases s c <;> rw [heq]
  · exact h
  · exact h.replaceClauses hcs

theorem All.clearNamed (h : s.All R) (name : String) : (s.clearNamed name).2.All R := by
  simp only [Store.clearNamed, List.partition_eq_filter_filter]
  exact fun t ht => h t (List.mem_filter.mp ht).1

end All

/-- Every predicate has one table at most, and its clauses are those in it. -/
structure Filed (s : Store) : Prop where
  keys : (s.tables.map (·.key)).Nodup
  heads : ∀ t ∈ s.tables, ∀ c ∈ t.clauses, c.clause.head.key = t.key

section Filed

variable {s : Store}

theorem Filed.storedClauses_of_mem (h : s.Filed) {t : Table} (ht : t ∈ s.tables) : s.storedClauses t.key = t.clauses := by
  obtain ⟨tables, nextId⟩ := s
  obtain ⟨hkeys, -⟩ := h
  unfold storedClauses
  dsimp only at ht hkeys ⊢
  induction tables with
  | nil => cases ht
  | cons u ts ih =>
    rw [List.map_cons, List.nodup_cons] at hkeys
    rcases List.mem_cons.mp ht with rfl | ht
    · simp
    · have hne : u.key ≠ t.key := fun heq => hkeys.1 (heq ▸ List.mem_map_of_mem ht)
      rw [List.find?_cons_of_neg (by simpa using hne)]
      exact ih ht hkeys.2

theorem Filed.head_of_mem (h : s.Filed) {k : Key} {c : StoredClause} (hc : c ∈ s.storedClauses k) :
    c.clause.head.key = k := by
  unfold storedClauses at hc
  split at hc
  · next t ht =>
    rw [h.heads t (List.mem_of_find?_eq_some ht) c hc]
    simpa using List.find?_some ht
  · cases hc

theorem keys_insert (c : StoredClause) (ts : List Table) : (insert c ts).map (·.key) =
    if c.clause.head.key ∈ ts.map (·.key) then ts.map (·.key) else ts.map (·.key) ++ [c.clause.head.key] := by
  induction ts with
  | nil => rfl
  | cons t ts ih =>
    rw [insert]
    split
    · next heq => simp [heq]
    · next hne =>
      have hne : c.clause.head.key ≠ t.key := fun heq => hne heq.symm
      rw [List.map_cons, ih]
      simp only [List.map_cons, List.mem_cons, hne, false_or]
      split <;> rfl

theorem heads_insert {c : StoredClause} {ts : List Table} (h : ∀ t ∈ ts, ∀ d ∈ t.clauses, d.clause.head.key = t.key) :
    ∀ t ∈ insert c ts, ∀ d ∈ t.clauses, d.clause.head.key = t.key := by
  induction ts with
  | nil => simp [insert]
  | cons t ts ih =>
    obtain ⟨ht, hts⟩ := List.forall_mem_cons.mp h
    rw [insert]
    split
    · next heq =>
      refine List.forall_mem_cons.mpr ⟨List.forall_mem_append.mpr ⟨ht, ?_⟩, hts⟩
      simpa using heq.symm
    · exact List.forall_mem_cons.mpr ⟨ht, ih hts⟩

theorem Filed.add (h : s.Filed) (c : Clause) : (s.add c).Filed where
  keys := by
    rw [Store.add, keys_insert]
    split
    · exact h.keys
    · next hnew => exact List.nodup_append.mpr ⟨h.keys, by simp, by simpa using hnew⟩
  heads := heads_insert h.heads

theorem keys_replaceClauses (s : Store) (k : Key) (cs : List StoredClause) :
    (s.replaceClauses k cs).tables.map (·.key) = s.tables.map (·.key) := by
  rw [replaceClauses, List.map_map]
  refine List.map_congr_left fun t _ => ?_
  rw [Function.comp_apply]
  split
  · next hk => exact hk.symm
  · rfl

theorem Filed.replaceClauses (h : s.Filed) {k : Key} {cs : List StoredClause}
    (hcs : cs.Sublist (s.storedClauses k)) : (s.replaceClauses k cs).Filed where
  keys := keys_replaceClauses s k cs ▸ h.keys
  heads := by
    intro t ht c hc
    obtain ⟨u, hu, rfl⟩ := List.mem_map.mp ht
    by_cases hk : u.key = k
    · rw [if_pos hk] at hc ⊢
      exact h.head_of_mem (hcs.subset hc)
    · rw [if_neg hk] at hc ⊢
      exact h.heads u hu c hc

theorem Built.filed (h : s.Built) : s.Filed := by
  induction h with
  | empty =>
    refine ⟨List.nodup_nil, ?_⟩
    intro t ht
    cases ht
  | add c _ ih => exact ih.add c
  | retractHead _ h ih =>
    obtain rfl | ⟨cs, hcs, rfl⟩ := retractHead_cases h
    · exact ih
    · exact ih.replaceClauses hcs
  | @retractClause s c _ ih =>
    obtain heq | ⟨cs, hcs, heq⟩ := retractClause_cases s c <;> rw [heq]
    · exact ih
    · exact ih.replaceClauses hcs
  | clear _ _ =>
    refine ⟨List.nodup_nil, ?_⟩
    intro t ht
    cases ht
  | clearNamed name _ ih =>
    simp only [Store.clearNamed, List.partition_eq_filter_filter]
    exact ⟨ih.keys.sublist (List.filter_sublist.map _), fun t ht => ih.heads t (List.mem_filter.mp ht).1⟩

theorem Filed.mem_clausesAfter (h : s.Filed) {t : Table} (ht : t ∈ s.tables) {c : StoredClause} (hc : c ∈ t.clauses) :
    c ∈ s.clausesAfter c.clause.head.key none := by
  have hkey : c.clause.head.key = t.key := h.heads t ht c hc
  rw [clausesAfter, hkey, h.storedClauses_of_mem ht]
  exact hc

end Filed

end BilingualLogic.Store
